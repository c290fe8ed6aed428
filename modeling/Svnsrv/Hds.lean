import Svnsrv.Lib.CText

/-!
# The handshake parser

`ParseSubversionHds` of SubversionHds.cc, on a 64-bit machine with signed `char`
and 64-bit `long`. The scan is a loop over a cursor `p`; `scanByte` and
`statusByte` are the two nested switches and decide what happens to one byte,
`scanStep` is one turn of the loop. Pointers are addresses, so that `p + l + 1 >= end` is the comparison
the machine makes, also where `p + l + 1` leaves the buffer.
-/

namespace Svnsrv.Hds

open CText
set_option autoImplicit false

/-- The argument pair `(buffer, nbytes)`; user memory is the lower half of the address space. -/
structure Buffer where
  addr : Nat
  bytes : Bytes
  fits : addr + bytes.length < 2 ^ 63

structure SubversionHds where
  protocol : UInt32
  mCapabilities : List Bytes
  subversionURL : Bytes
  userAgent : Bytes
  lastError : Bytes
  deriving DecidableEq, Repr

/-- A default-initialised record: the strings are empty, `protocol` holds whatever was in memory. -/
def SubversionHds.fresh (protocol : UInt32) : SubversionHds := ⟨protocol, [], [], [], []⟩

inductive SubversionHdsState where
  | parseReset
  | protocolParsed
  | capabilitiesParsed
  | subversionUrlParsed
  | subversionRUAParsed
  deriving DecidableEq, Repr

/-- The local variables of the loop; `p` is the offset of the cursor from `buffer`. -/
structure Scan where
  p : Int
  tmp : Bytes
  status : SubversionHdsState
  depth : UInt32
  hds : SubversionHds
  deriving DecidableEq, Repr

/-- The two strings that are read by length. -/
inductive Field where
  | subversionURL
  | userAgent
  deriving DecidableEq, Repr

def Field.tooLong : Field → Bytes
  | .subversionURL => ascii "Malformed Network data, URL string length mark too long !"
  | .userAgent => ascii "Malformed Network data, ra-client string length mark too long !"

def Field.parsed : Field → SubversionHdsState
  | .subversionURL => .subversionUrlParsed
  | .userAgent => .subversionRUAParsed

def SubversionHds.assign (hds : SubversionHds) : Field → Bytes → SubversionHds
  | .subversionURL, str => { hds with subversionURL := str }
  | .userAgent, str => { hds with userAgent := str }

inductive Fault where
  | length_error     -- thrown by std::string::assign
  | out_of_bounds    -- a read outside the buffer
  | nontermination
  deriving DecidableEq, Repr

inductive Outcome where
  | ret (code : Nat) (hds : SubversionHds)
  | abort (fault : Fault)
  deriving DecidableEq, Repr

/-- What the switches ask for: go on, return, or read the string whose length mark is in `tmp`. -/
inductive Act where
  | next (s : Scan)
  | ret (code : Nat) (hds : SubversionHds)
  | string (s : Scan) (field : Field)

def SubversionHds.fail (hds : SubversionHds) (msg : Bytes) : Outcome :=
  .ret 2 { hds with lastError := msg }

/-- `hds.protocol = *p - '0'` -/
def protocolOf (c : UInt8) : UInt32 := UInt32.ofInt (c.toInt8.toInt - 48)

/-- `case kCapabilitiesParsed:` -/
def capabilitiesByte (s : Scan) (c : UInt8) : Act :=
  if c ≠ colon then .next { s with p := s.p + 1, tmp := s.tmp ++ [c] }
  else .string s .subversionURL

/-- `switch (status)` -/
def statusByte (s : Scan) (c : UInt8) : Act :=
  match s.status with
  | .parseReset =>
    if s.depth = 1 then
      .next { s with
        p := s.p + 1
        status := .protocolParsed
        hds := { s.hds with protocol := protocolOf c } }
    else .next { s with p := s.p + 1 }
  | .protocolParsed =>
    if s.depth = 2 then .next { s with p := s.p + 1, tmp := s.tmp ++ [c] }
    -- no break: the byte is also the first one of the next state
    else capabilitiesByte { s with tmp := [], status := .capabilitiesParsed } c
  | .capabilitiesParsed => capabilitiesByte s c
  | .subversionUrlParsed =>
    let status := if s.depth ≠ 1 then .subversionRUAParsed else .subversionUrlParsed
    if c ≠ colon then .next { s with p := s.p + 1, status, tmp := s.tmp ++ [c] }
    else .string { s with status } .userAgent
  | .subversionRUAParsed => .next { s with p := s.p + 1 }

/-- `switch (*p)`, whose default branch goes on to `switch (status)`. -/
def scanByte (s : Scan) (c : UInt8) : Act :=
  if c = lparen then .next { s with p := s.p + 1, depth := s.depth + 1 }
  else if c = rparen then .next { s with p := s.p + 1, depth := s.depth - 1 }
  else if c = space ∨ c = newline then
    if s.status = .protocolParsed ∧ s.tmp ≠ [] then
      .next { s with
        p := s.p + 1
        tmp := []
        hds := { s.hds with mCapabilities := s.hds.mCapabilities ++ [s.tmp] } }
    else .next { s with p := s.p + 1 }
  else if c = 0 then .ret 2 { s.hds with lastError := ascii "Malformed Network data !" }
  else statusByte s c

namespace Buffer

def nbytes (b : Buffer) : Int := b.bytes.length

/-- `*p`, if `p` is inside the buffer. -/
def read (b : Buffer) (p : Int) : Option UInt8 :=
  if 0 ≤ p then b.bytes[p.toNat]? else none

/-- `q >= end`: addresses wrap at 64 bits and are compared unsigned. -/
def pastEnd (b : Buffer) (q : Int) : Bool :=
  decide (b.addr + b.nbytes ≤ (b.addr + q) % 2 ^ 64)

/-- `std::string::assign(p, l)`: the count is `l` as a `size_t`, and no string has more than
`PTRDIFF_MAX` characters. -/
def assign (b : Buffer) (p l : Int) : Except Fault Bytes :=
  let count := l % 2 ^ 64
  if 2 ^ 63 ≤ count then .error .length_error
  else if 0 ≤ p ∧ p + count ≤ b.nbytes then
    .ok ((b.bytes.drop p.toNat).take count.toNat)
  else .error .out_of_bounds

end Buffer

/-- Carry out what the switches ask for. -/
def perform (b : Buffer) : Act → Scan ⊕ Outcome
  | .next t => .inl t
  | .ret code hds => .inr (.ret code hds)
  | .string t field =>
    let l := strtol t.tmp
    if b.pastEnd (t.p + l + 1) then .inr (t.hds.fail field.tooLong)
    else match b.assign (t.p + 1) l with
      | .error fault => .inr (.abort fault)
      | .ok str =>
        .inl { t with
          p := t.p + 1 + l + 1
          tmp := []
          status := field.parsed
          hds := t.hds.assign field str }

/-- What follows the loop. -/
def finish (hds : SubversionHds) : Outcome :=
  if hds.subversionURL = [] then
    hds.fail (ascii "Parse Subversion Handsake failed, cannot resolve url !")
  else .ret 0 hds

/-- One turn of `for (; p < end; p++)`: the next locals, or the end of the call. -/
def scanStep (b : Buffer) (s : Scan) : Scan ⊕ Outcome :=
  if s.p < b.nbytes then
    match b.read s.p with
    | none => .inr (.abort .out_of_bounds)
    | some c => perform b (scanByte s c)
  else .inr (finish s.hds)

def scanLoop (b : Buffer) : Nat → Scan → Outcome
  | 0, _ => .abort .nontermination
  | fuel + 1, s =>
    match scanStep b s with
    | .inl t => scanLoop b fuel t
    | .inr r => r

def Scan.start (hds : SubversionHds) : Scan := ⟨0, [], .parseReset, 0, hds⟩

/-- Every turn moves the cursor forward, so `nbytes + 1` turns reach the end. -/
def parseSubversionHds (b : Buffer) (hds : SubversionHds) : Outcome :=
  if b.addr = 0 ∨ b.bytes.length = 0 then
    .ret 1 { hds with lastError := ascii "Malformed Network data,buffer is empty !" }
  else scanLoop b (b.bytes.length + 1) (.start hds)

end Svnsrv.Hds
