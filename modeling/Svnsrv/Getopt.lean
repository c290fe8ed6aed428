import Svnsrv.Lib.CText
import Svnsrv.Lib.Exchange

/-!
# The option parser

argv_getopt.inl, which replaces `getopt` where the C library has none. A pointer
to a string is given by the string from there on, so that `place` is what is left
of the argument being read, and empty for `EMSG`. `warnx` prints nothing and is
left out.
-/

namespace Svnsrv.Getopt

open CText
set_option autoImplicit false

abbrev semicolon : UInt8 := 59
abbrev equal : UInt8 := 61

/-- `(int)c` for a signed `char`. -/
def charToInt (c : UInt8) : Int := c.toInt8.toInt

/-! ## Permuting the arguments -/

/-- `gcd(a, b)`; the first remainder divides by `b`. -/
def gcd (a b : Nat) : Option Nat :=
  if b = 0 then none
  else if a % b = 0 then some b
  else gcd b (a % b)
termination_by b
decreasing_by exact Nat.mod_lt a (by omega)

/-- The swaps of `permute_args`, if all of them are inside the vector. -/
def permuteArgs {α : Type} (panonoptStart panonoptEnd optEnd : Nat) (nargv : List α) :
    Option (List α) :=
  let nnonopts := panonoptEnd - panonoptStart
  let nopts := optEnd - panonoptEnd
  (gcd nnonopts nopts).bind fun ncycle =>
    let cyclelen := (optEnd - panonoptStart) / ncycle
    Exchange.walkAll (fun pos => if panonoptEnd ≤ pos then pos - nnonopts else pos + nopts)
      cyclelen ((List.range ncycle).map fun i => panonoptEnd + i) nargv

theorem gcd_eq {a b : Nat} (hb : 0 < b) : gcd a b = some (a.gcd b) := by
  induction b using Nat.strong_induction_on generalizing a with
  | _ b ih =>
    unfold gcd
    rw [if_neg (by omega)]
    by_cases hmod : a % b = 0
    · rw [if_pos hmod, Nat.gcd_eq_right (Nat.dvd_of_mod_eq_zero hmod)]
    · rw [if_neg hmod, ih (a % b) (Nat.mod_lt a hb) (by omega), Nat.gcd_comm a, Nat.gcd_rec b a,
        Nat.gcd_comm]

/-- The block of options changes places with the block of other arguments in front of it. -/
theorem permuteArgs_eq {α : Type} {pre nonopts opts post : List α} {s e stop : Nat}
    (hs : s = pre.length) (he : e = s + nonopts.length) (hstop : stop = e + opts.length)
    (hopts : opts ≠ []) :
    permuteArgs s e stop (pre ++ nonopts ++ opts ++ post) =
      some (pre ++ opts ++ nonopts ++ post) := by
  have hpos : 0 < opts.length := List.length_pos_iff.mpr hopts
  rw [← Exchange.exchange_eq hs he hstop hopts]
  simp only [permuteArgs, gcd_eq (show 0 < stop - e by omega), Option.bind_some]
  rfl

/-- The two blocks of any vector change places, by swaps inside the vector. -/
theorem permuteArgs_exchanges {α : Type} (nargv : List α) {s e stop : Nat} (hs : s ≤ e)
    (he : e < stop) (hstop : stop ≤ nargv.length) :
    permuteArgs s e stop nargv = some (nargv.take s ++ (nargv.take stop).drop e ++
      (nargv.take e).drop s ++ nargv.drop stop) := by
  have hsplit : nargv = nargv.take s ++ (nargv.take e).drop s ++ (nargv.take stop).drop e ++
      nargv.drop stop := by
    have hcut : ∀ i j, i ≤ j → nargv.take i ++ (nargv.take j).drop i = nargv.take j := by
      intro i j hij
      conv_rhs => rw [← List.take_append_drop i (nargv.take j)]
      rw [List.take_take, Nat.min_eq_left hij]
    rw [hcut s e hs, hcut e stop (Nat.le_of_lt he), List.take_append_drop]
  conv_lhs => rw [hsplit]
  apply permuteArgs_eq
  · simp
    omega
  · simp
    omega
  · simp
    omega
  · intro hnil
    have hlen := congrArg List.length hnil
    simp at hlen
    omega

/-- Two operands before four options: two cycles of length three. -/
theorem permuteArgs_exchanges_sample :
    permuteArgs 1 3 7 [0, 1, 2, 3, 4, 5, 6, 7] = some [0, 3, 4, 5, 6, 1, 2, 7] :=
  permuteArgs_exchanges [0, 1, 2, 3, 4, 5, 6, 7] (by omega) (by omega) (Nat.le_add_right 7 1)

/-! ## The state -/

inductive HasArg where
  | noArgument
  | requiredArgument
  | optionalArgument
  deriving DecidableEq, Repr

/-- `struct option`, with a number for the variable `flag` points to. -/
structure LongOption where
  name : Bytes
  hasArg : HasArg
  flag : Option Nat
  val : Int
  deriving DecidableEq, Repr

structure Flags where
  permute : Bool      -- FLAG_PERMUTE
  allargs : Bool      -- FLAG_ALLARGS
  longonly : Bool     -- FLAG_LONGONLY
  deriving DecidableEq, Repr

/-- The arguments of `getopt_internal` besides `nargv`. `terminated` tells whether a null pointer
follows the `nargc` strings of the vector, `posix` whether `POSIXLY_CORRECT` is set. -/
structure Call where
  nargc : Nat
  options : Option Bytes
  longOptions : Option (List LongOption)
  flags : Flags
  terminated : Bool
  posix : Bool

/-- The vector, the static variables, and what the call stores in `*idx` and through a `flag`. -/
structure State where
  nargv : List Bytes
  optind : Nat
  optopt : Int
  optreset : Bool
  optarg : Option Bytes
  place : Bytes
  nonoptStart : Option Nat
  nonoptEnd : Option Nat
  posixlyCorrect : Option Bool
  longindex : Option Nat
  stored : Option (Nat × Int)
  deriving DecidableEq, Repr

inductive Fault where
  | outside      -- a read outside `nargv` or `options`
  | divide
  deriving DecidableEq, Repr

def badch : Int := 63

def badarg (options : Bytes) : Int := if options.head? = some colon then 58 else 63

/-! ## Long options -/

/-- What stands before the first `=` and what stands behind it. -/
def splitEqual (s : Bytes) : Bytes × Option Bytes :=
  (s.takeWhile (· ≠ equal),
    match s.dropWhile (· ≠ equal) with
    | [] => none
    | _ :: value => some value)

/-- The loop over the long options from number `i` on; `none` is an ambiguous abbreviation. -/
def findLong (currentArgv : Bytes) (shortToo : Bool) :
    List LongOption → Nat → Option (Nat × LongOption) → Option (Option (Nat × LongOption))
  | [], _, found => some found
  | o :: os, i, found =>
    if ¬ currentArgv <+: o.name then findLong currentArgv shortToo os (i + 1) found
    else if o.name.length = currentArgv.length then some (some (i, o))
    else if shortToo ∧ currentArgv.length = 1 then findLong currentArgv shortToo os (i + 1) found
    else match found with
      | none => findLong currentArgv shortToo os (i + 1) (some (i, o))
      | some _ => none

/-- GNU sets `optopt` to `val` regardless of `flag`. -/
def LongOption.optopt (o : LongOption) : Int := if o.flag = none then o.val else 0

/-- `permute_args(nonopt_start, nonopt_end, optind, nargv)` -/
def State.permuteNonopts (s : State) (nonoptStart nonoptEnd : Nat) : Except Fault State :=
  match permuteArgs nonoptStart nonoptEnd s.optind s.nargv with
  | some nargv => .ok { s with nargv }
  | none => .error .divide

/-- The end of the options: the skipped arguments are permuted behind them. -/
def State.finish (s : State) : Except Fault State :=
  match s.nonoptStart, s.nonoptEnd with
  | some nonoptStart, some nonoptEnd => do
    let s ← s.permuteNonopts nonoptStart nonoptEnd
    return { s with optind := s.optind - (nonoptEnd - nonoptStart) }
  | _, _ => .ok s

def State.forget (s : State) : State := { s with nonoptStart := none, nonoptEnd := none }

end Svnsrv.Getopt
