import Svnsrv.GetoptRead

/-!
# One call of getopt_long

Between calls the vector holds the options read so far, the operands skipped, and
what is not read yet; the options behind skipped operands are moved in front of
them later. A call reads one item.
-/

namespace Svnsrv.Getopt

open CText
set_option autoImplicit false

/-! ## The vector between calls -/

/-- The vector when the options `used` are read, `operands` skipped and `args` to come; an option
argument that is being read is the first of `args`. -/
inductive Layout (s : State) : List Bytes → List Bytes → List Bytes → Prop where
  | plain {used args : List Bytes} (nargv : s.nargv = used ++ args)
      (optind : s.optind = used.length)
      (start : s.nonoptStart = none) (stop : s.nonoptEnd = none) : Layout s used [] args
  | skipped {used operands args : List Bytes} (nargv : s.nargv = used ++ operands ++ args)
      (nonempty : operands ≠ [])
      (optind : s.optind = used.length + operands.length) (start : s.nonoptStart = some used.length)
      (stop : s.nonoptEnd = none) (between : s.place = []) : Layout s used operands args
  | behind {front opts operands args : List Bytes}
      (nargv : s.nargv = front ++ operands ++ opts ++ args) (nonempty : operands ≠ [])
      (optind : s.optind = front.length + operands.length + opts.length)
      (start : s.nonoptStart = some front.length)
      (stop : s.nonoptEnd = some (front.length + operands.length))
      (between : s.place = [] → opts ≠ []) : Layout s (front ++ opts) operands args

namespace Layout

variable {s : State} {used operands args : List Bytes}

theorem split (h : Layout s used operands args) :
    ∃ read, s.nargv = read ++ args ∧ s.optind = read.length := by
  cases h with
  | plain nargv optind => exact ⟨used, nargv, optind⟩
  | skipped nargv nonempty optind =>
    refine ⟨used ++ operands, nargv, ?_⟩
    rw [optind, List.length_append]
  | behind nargv nonempty optind =>
    rename_i front opts _ _ _
    refine ⟨front ++ operands ++ opts, nargv, ?_⟩
    rw [optind, List.length_append, List.length_append]

theorem current (h : Layout s used operands args) : s.nargv[s.optind]? = args.head? := by
  obtain ⟨read, hnargv, hoptind⟩ := h.split
  rw [hnargv, hoptind, List.getElem?_append_right (Nat.le_refl _), Nat.sub_self,
    List.head?_eq_getElem?]

theorem length (h : Layout s used operands args) : s.nargv.length = s.optind + args.length := by
  obtain ⟨read, hnargv, hoptind⟩ := h.split
  rw [hnargv, hoptind, List.length_append]

end Layout

/-! ## Finding the next argument -/

def State.outputs (s : State) : Outputs := ⟨s.optarg, s.longindex, s.stored⟩

@[simp] theorem State.forget_optind (s : State) : s.forget.optind = s.optind := rfl

/-- Where the option argument in front starts; operands skipped before it are now followed by
options. -/
def State.atOption (s : State) : State :=
  if s.nonoptStart ≠ none ∧ s.nonoptEnd = none then { s with nonoptEnd := some s.optind } else s

section

variable {s : State}

@[simp] theorem State.atOption_nargv (s : State) : s.atOption.nargv = s.nargv := by
  unfold atOption
  split <;> rfl

@[simp] theorem State.atOption_optreset (s : State) : s.atOption.optreset = s.optreset := by
  unfold atOption
  split <;> rfl

@[simp] theorem State.atOption_posixlyCorrect (s : State) :
    s.atOption.posixlyCorrect = s.posixlyCorrect := by
  unfold atOption
  split <;> rfl

end

section

variable {s : State} {used operands args : List Bytes} {letters : Bytes} {flags : Flags}

end

/-! ## Reading an item -/

/-- Where the scan is after an item of the argument `arg`: at the letters `p` that are left of it,
or behind the arguments taken. -/
def Behind (t : State) (used operands : List Bytes) (arg : Bytes) (args : List Bytes) (p : Bytes) :
    Option Bool → Prop
  | none => t.place = p ∧ p ≠ [] ∧ Layout t used operands (arg :: args)
  | some took => t.place = [] ∧
      Layout t (used ++ arg :: args.take took.toNat) operands (args.drop took.toNat)

/-- A call has returned an item. -/
structure Answered (letters : Bytes) (s t : State) (used operands : List Bytes) (arg : Bytes)
    (args : List Bytes) (p : Bytes) (e : Item × Option Bool) (r : Except Fault (Int × State)) :
    Prop where
  ok : r = .ok (e.1.ret letters, t)
  outputs : t.outputs = e.1.outputs
  optreset : t.optreset = s.optreset
  posixlyCorrect : t.posixlyCorrect = s.posixlyCorrect
  behind : Behind t used operands arg args p e.2

section

variable {g : Grammar} {c : Call} {s : State} {used operands args : List Bytes} {arg p : Bytes}
  {ch : UInt8}

/-- Only an option that needs an argument makes the parser look behind the vector. -/
def Item.overruns : Item → Bool
  | .missingForLong _ => true
  | _ => false

/-- What `parse_long_options` leaves alone, and what it returns. -/
structure Parsed (letters : Bytes) (s t : State) (e : Item × Bool)
    (r : Except Fault (Int × State)) : Prop where
  ok : r = .ok (e.1.ret letters, t)
  nargv : t.nargv = s.nargv
  optind : t.optind = s.optind + 1 + e.2.toNat
  outputs : t.outputs = e.1.outputs
  start : t.nonoptStart = s.nonoptStart
  stop : t.nonoptEnd = s.nonoptEnd
  optreset : t.optreset = s.optreset
  posixlyCorrect : t.posixlyCorrect = s.posixlyCorrect

end

end Svnsrv.Getopt
