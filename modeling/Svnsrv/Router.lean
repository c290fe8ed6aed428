import Svnsrv.Lib.Toml

/-!
# The router table

`RouterSeletor` of RouterSeletor.cc: the table is read from a TOML document,
every range is packed into two 16-bit numbers, and an owner is looked up by the
packed number of its first two characters.
-/

namespace Svnsrv.Router

open CText Toml
set_option autoImplicit false

structure HostElement where
  begin_ : UInt16
  end_ : UInt16
  port : UInt16
  enabled : Bool
  address : Bytes
  deriving DecidableEq, Repr

structure StorageElement where
  port : UInt16
  address : Bytes
  deriving DecidableEq, Repr

structure RouterSeletor where
  hostElement : List HostElement
  defaultElement : Bytes
  defaultPort : UInt16
  deriving DecidableEq, Repr

/-- The static object before it is initialised. -/
def RouterSeletor.empty : RouterSeletor := ⟨[], [], 0⟩

/-! ## Ranges -/

def tilde : UInt8 := 126

/-- The local variables of `RangeToIndex`; `p` is an offset into `in`. -/
structure RangeScan where
  cells : Bytes
  p : Nat
  i : Nat
  isSplit : Bool

def RangeScan.start : RangeScan := ⟨ascii "--zz" ++ [0, 0, 0, 0], 0, 0, false⟩

/-- The loop over the characters of the C string, at most five of them. -/
def rangeLoop : Bytes → RangeScan → RangeScan
  | [], s => s
  | c :: range, s =>
    if c ≠ 0 ∧ s.i < 5 then
      if c = tilde then rangeLoop range { s with p := 2, i := s.i + 1, isSplit := true }
      else rangeLoop range { s with cells := s.cells.set s.p c, p := s.p + 1, i := s.i + 1 }
    else s

/-- What is done about a range without a tilde. -/
def rangeFix (range : Bytes) (s : RangeScan) : Bytes :=
  if s.isSplit then s.cells
  else if s.i = 1 then s.cells.set 2 (range.getD 0 0)
  else if s.i = 2 then (s.cells.set 2 (range.getD 0 0)).set 3 (range.getD 1 0)
  else s.cells

/-- `(uint16_t)a * 0x200 + b` -/
def rangeIndex (a b : UInt8) : UInt16 := a.toUInt16 * 0x200 + b.toUInt16

def rangeToIndex (range : Bytes) : UInt16 × UInt16 :=
  let cells := rangeFix range (rangeLoop range .start)
  (rangeIndex (cells.getD 0 0) (cells.getD 1 0), rangeIndex (cells.getD 2 0) (cells.getD 3 0))

/-! ## The loader -/

inductive Fault where
  | nullDereference     -- of the result of as<T>()
  deriving DecidableEq, Repr

def deref {α : Type} : Option α → Except Fault α
  | some x => .ok x
  | none => .error .nullDereference

/-- The value of a key through `as`, or the default where the key is missing. -/
def valueOr {α : Type} (t : Table) (key : Bytes) (as : Base → Option α) (default : α) :
    Except Fault α :=
  match t.getQualified key with
  | some v => deref (as v)
  | none => .ok default

/-- The value of a port key; `static_cast<uint16_t>` keeps the low 16 bits. -/
def portOr (t : Table) (key : Bytes) : Except Fault UInt16 :=
  match t.getQualified key with
  | some v => (deref v.asInt64).map fun i64 => UInt16.ofInt i64.toInt
  | none => .ok 3690

/-- One turn of the loop over Host.Content; no element for an entry that is skipped. -/
def loadElement (t : Table) : Except Fault (Option HostElement) :=
  match t.getQualified (ascii "range"), t.getQualified (ascii "address") with
  | some range, some address => do
    let range ← deref range.asString
    let address ← deref address.asString
    let port ← portOr t (ascii "port")
    let enabled ← valueOr t (ascii "enable") Base.asBool true
    return some ⟨(rangeToIndex range).1, (rangeToIndex range).2, port, enabled, address⟩
  | _, _ => return none

def loadContent : List Table → Except Fault (List HostElement)
  | [] => return []
  | t :: ta => do
    let e ← loadElement t
    let rest ← loadContent ta
    return e.toList ++ rest

/-- `InitializeManager` after `parse_file`; `none` is a document that does not parse. -/
def RouterSeletor.initializeManager (self : RouterSeletor) :
    Option Table → Except Fault (Bool × RouterSeletor)
  | none => return (false, self)
  | some g => do
    let defaultElement ← valueOr g (ascii "Host.address") Base.asString (ascii "192.168.1.12")
    let defaultPort ← portOr g (ascii "Host.port")
    match g.getTableArrayQualified (ascii "Host.Content") with
    | none => return (false, { self with defaultElement, defaultPort })
    | some ta =>
      let content ← loadContent ta
      let hostElement := self.hostElement ++ content
      return (!(defaultElement.isEmpty && hostElement.isEmpty),
        { hostElement, defaultElement, defaultPort })

/-! ## The lookup -/

/-- `(uint16_t)owner[0] * 0x200 + owner[1]`; the characters are signed. -/
def ownerIndex (a b : UInt8) : UInt16 :=
  UInt16.ofInt a.toInt8.toInt * 0x200 + UInt16.ofInt b.toInt8.toInt

/-- The loop of `GetAddress` over the elements. -/
def findElement (index : UInt16) : List HostElement → Option HostElement
  | [] => none
  | e :: rest =>
    if index ≥ e.begin_ ∧ index ≤ e.end_ then
      if e.enabled then some e else findElement index rest
    else findElement index rest

/-- The result of the call and what `elem` holds after it. -/
def RouterSeletor.getAddress (self : RouterSeletor) (owner : Bytes) (elem : StorageElement) :
    Bool × StorageElement :=
  match owner with
  | a :: b :: _ =>
    match findElement (ownerIndex a b) self.hostElement with
    | some e => (true, ⟨e.port, e.address⟩)
    | none => (true, ⟨self.defaultPort, self.defaultElement⟩)
  | _ => (false, elem)

end Svnsrv.Router
