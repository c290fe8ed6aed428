import Mathlib.Data.List.Forall2
import Svnsrv.Lib.CMemory

/-!
# The process title

`initializeProcessEnv` and `changeProcessTitle` of ProcessTitle.hpp, on memory with 64-bit
addresses. The arrays `argv` and `environ` are lists of the pointers before their null pointer.
-/

namespace Svnsrv.Title

open CText CMemory
set_option autoImplicit false

structure Process where
  bytes : Mem
  argv : List Nat
  environ : List Nat
  lastArgv : Nat          -- the global; 0 is nullptr

/-! ## initializeProcessEnv -/

/-- The loop that adds up a `size_t`. -/
def environSize (m : Mem) (environ : List Nat) : Nat :=
  environ.foldl (fun size e => (size + (strlen m e + 1)) % addressSpace) 0

/-- The loop over `argv`. -/
def argvLoop (m : Mem) (lastArgv : Nat) (argv : List Nat) : Nat :=
  argv.foldl (fun lastArgv a => if lastArgv = a then a + strlen m a + 1 else lastArgv) lastArgv

/-- What the loop over `environ` has changed besides the array. -/
structure Relocation where
  bytes : Mem
  lastArgv : Nat
  p : Nat

/-- The body of the `if` in the loop over `environ`. -/
def Relocation.copy (r : Relocation) (e : Nat) : Relocation :=
  let size := strlen r.bytes e + 1
  { bytes := memcpy r.bytes r.p e size, lastArgv := e + size, p := r.p + size }

def environLoop (r : Relocation) : List Nat → Relocation × List Nat
  | [] => (r, [])
  | e :: environ =>
    if r.lastArgv = e then
      let (r', environ') := environLoop (r.copy e) environ
      (r', r.p :: environ')
    else
      let (r', environ') := environLoop r environ
      (r', e :: environ')

/-- What it returns, and the process after it; `malloc` gives an address for a size. -/
def initializeProcessEnv (malloc : Nat → Option Nat) (s : Process) : Bool × Process :=
  match malloc (environSize s.bytes s.environ) with
  | none => (false, s)
  | some p =>
    let (r, environ) :=
      environLoop ⟨s.bytes, argvLoop s.bytes (s.argv.headD 0) s.argv, p⟩ s.environ
    (true, { s with bytes := r.bytes, environ, lastArgv := r.lastArgv - 1 })

/-! ## changeProcessTitle -/

/-- The range of a write. -/
structure Store where
  addr : Nat
  count : Nat
  deriving DecidableEq, Repr

/-- `p - q` where a `size_t` is asked for. -/
def distance (p q : Nat) : Nat := (((p : Int) - q) % addressSpace).toNat

/-- The process after it, and what it has written with `strncpy` and `memset`. -/
def changeProcessTitle (s : Process) (title : Bytes) : Process × List Store :=
  let argv0 := s.argv.headD 0
  let n := distance s.lastArgv argv0
  let bytes := strncpy s.bytes argv0 title n
  let p := argv0 + strlen bytes argv0 + 1
  let rest := distance s.lastArgv p
  let argv := s.argv.take 1       -- `argv[1] = NULL`
  if rest ≠ 0 then
    ({ s with argv, bytes := memset bytes p 0 rest }, [⟨argv0, n⟩, ⟨p, rest⟩])
  else ({ s with argv, bytes }, [⟨argv0, n⟩])

/-! ## Layouts -/

/-- The strings of `argv` and `environ` before the process title is touched, in any order of their
addresses. -/
structure Layout where
  argv : List Str
  environ : List Str
  argv_ne : argv ≠ []
  apart : (argv ++ environ).Pairwise Str.Apart
  addresses : ∀ c ∈ argv ++ environ, 0 < c.addr ∧ c.stop < addressSpace

namespace Layout

/-- `argv[0]` -/
def argv0 (L : Layout) : Nat := (L.argv.head L.argv_ne).addr

structure Holds (L : Layout) (s : Process) : Prop where
  argv : s.argv = L.argv.map Str.addr
  environ : s.environ = L.environ.map Str.addr
  strings : ∀ c ∈ L.argv ++ L.environ, c.In s.bytes

/-- A block that `malloc` may return. -/
structure Fresh (L : Layout) (block size : Nat) : Prop where
  addresses : 0 < block ∧ block + size < addressSpace
  apart : ∀ c ∈ L.argv ++ L.environ, Separate c.addr c.stop block (block + size)

theorem Holds.argv0 {L : Layout} {s : Process} (h : L.Holds s) : s.argv.headD 0 = L.argv0 := by
  obtain ⟨c, argv, hargv⟩ := List.exists_cons_of_ne_nil L.argv_ne
  simp only [h.argv, Layout.argv0, hargv, List.map_cons, List.headD_cons, List.head_cons]

theorem apart_argv_environ (L : Layout) {c d : Str} (hc : c ∈ L.argv) (hd : d ∈ L.environ) :
    c.Apart d := (List.pairwise_append.mp L.apart).2.2 c hc d hd

end Layout

end Svnsrv.Title
