import Svnsrv.Getopt

/-!
# What a command line says

A command line is read from left to right without moving anything: arguments that
are no options are operands, `--` ends the options, and an option argument is one
long option or a cluster of letters, whose last one may take the next argument.
This is what `getopt_long` is for; the calls that find it out come later.
-/

namespace Svnsrv.Getopt

open CText
set_option autoImplicit false

/-! ## Grammars -/

/-- What happens to an argument that is no option. -/
inductive Order where
  | permute
  | requireOrder
  | returnInOrder
  deriving DecidableEq, Repr

structure Grammar where
  letters : Bytes
  longs : List LongOption

inductive Item where
  | letter (c : UInt8) (arg : Option Bytes)
  | long (i : Nat) (o : LongOption) (arg : Option Bytes)
  | operand (arg : Bytes)                  -- in order
  | unknownLetter (c : UInt8)
  | unknownLong
  | ambiguous
  | unwantedArgument (o : LongOption)
  | missingForLetter (c : UInt8)
  | missingForLong (o : LongOption)
  deriving DecidableEq, Repr

/-- What `getopt_long` returns for an item. -/
def Item.ret (letters : Bytes) : Item → Int
  | .letter c _ => charToInt c
  | .long _ o _ => if o.flag = none then o.val else 0
  | .operand _ => 1
  | .unknownLetter _ => badch
  | .unknownLong => badch
  | .ambiguous => badch
  | .unwantedArgument _ => badarg letters
  | .missingForLetter _ => badarg letters
  | .missingForLong _ => badarg letters

/-- What a call leaves besides its return value: `optarg`, and what it stores in `*idx` and through
a `flag`. -/
structure Outputs where
  optarg : Option Bytes := none
  longindex : Option Nat := none
  stored : Option (Nat × Int) := none
  deriving DecidableEq, Repr

def Item.outputs : Item → Outputs
  | .letter _ arg => { optarg := arg }
  | .long i o arg =>
    { optarg := arg, longindex := some i, stored := o.flag.map fun v => (v, o.val) }
  | .operand arg => { optarg := some arg }
  | _ => {}

namespace Grammar

/-- What the letter takes, if it is an option. -/
def takes (g : Grammar) (c : UInt8) : Option HasArg :=
  if c = colon ∨ c ∉ g.letters then none
  else
    let oli := (g.letters.dropWhile (· ≠ c)).tail
    if oli.head? ≠ some colon then some .noArgument
    else if oli.tail.head? = some colon then some .optionalArgument
    else some .requiredArgument

/-- A grammar keeps -1 for the end of the options, and does without the `W;` extension. -/
structure Proper (g : Grammar) : Prop where
  letter : ∀ c ∈ g.letters, charToInt c ≠ -1
  long : ∀ o ∈ g.longs, o.flag = none → o.val ≠ -1
  noW : ((g.letters.dropWhile (· ≠ 87)).tail).head? ≠ some semicolon

/-- The argument is done, or letters of it are left. -/
def rest (p : Bytes) : Option Bool := if p = [] then some false else none

/-- A letter with the letters `p` behind it and the argument `next` to come. The second component
is `none` when letters are left, and tells whether `next` is taken otherwise. -/
def letter (g : Grammar) (next : Option Bytes) (c : UInt8) (p : Bytes) : Item × Option Bool :=
  match g.takes c with
  | none => (.unknownLetter c, rest p)
  | some .noArgument => (.letter c none, rest p)
  | some .optionalArgument => (.letter c (if p = [] then none else some p), some false)
  | some .requiredArgument =>
    if p ≠ [] then (.letter c (some p), some false)
    else match next with
      | some arg => (.letter c (some arg), some true)
      | none => (.missingForLetter c, some false)

/-- The text of a long option, without its dashes; whether `next` is taken. -/
def long (g : Grammar) (next : Option Bytes) (text : Bytes) : Item × Bool :=
  match findLong (splitEqual text).1 false g.longs 0 none with
  | none => (.ambiguous, false)
  | some none => (.unknownLong, false)
  | some (some (i, o)) =>
    match o.hasArg, (splitEqual text).2 with
    | .noArgument, some _ => (.unwantedArgument o, false)
    | .noArgument, none => (.long i o none, false)
    | .optionalArgument, value => (.long i o value, false)
    | .requiredArgument, some value => (.long i o (some value), false)
    | .requiredArgument, none =>
      match next with
      | some arg => (.long i o (some arg), true)
      | none => (.missingForLong o, false)

/-- A dash in a cluster starts a long option. -/
def element (g : Grammar) (next : Option Bytes) (c : UInt8) (p : Bytes) : Item × Option Bool :=
  if c = minus then ((g.long next p).1, some (g.long next p).2) else g.letter next c p

/-- The items of a cluster, and whether the last one takes the next argument. -/
def cluster (g : Grammar) (next : Option Bytes) : Bytes → List Item × Bool
  | [] => ([], false)
  | c :: p =>
    match g.element next c p with
    | (item, some took) => ([item], took)
    | (item, none) => (item :: (cluster g next p).1, (cluster g next p).2)

/-- A lone dash is an option only if it is one of the letters. -/
def argument (g : Grammar) (next : Option Bytes) (arg : Bytes) : List Item × Bool :=
  match arg.tail with
  | [] => ([(g.letter next minus []).1], (g.letter next minus []).2 = some true)
  | c :: p => g.cluster next (c :: p)

def isOperand (g : Grammar) (arg : Bytes) : Prop :=
  arg.head? ≠ some minus ∨ (arg.length = 1 ∧ minus ∉ g.letters)

instance (g : Grammar) (arg : Bytes) : Decidable (g.isOperand arg) :=
  inferInstanceAs (Decidable (_ ∨ _))

/-- A whole command line: its items, the arguments they come from, and the operands. -/
structure Reading where
  items : List Item
  options : List Bytes
  operands : List Bytes
  deriving DecidableEq, Repr

def Reading.after (items : List Item) (options : List Bytes) (r : Reading) : Reading :=
  ⟨items ++ r.items, options ++ r.options, r.operands⟩

def read (g : Grammar) (order : Order) : List Bytes → Reading
  | [] => ⟨[], [], []⟩
  | arg :: args =>
    if g.isOperand arg then
      match order with
      | .permute => { read g order args with operands := arg :: (read g order args).operands }
      | .requireOrder => ⟨[], [], arg :: args⟩
      | .returnInOrder => (read g order args).after [.operand arg] [arg]
    else if arg = [minus, minus] then ⟨[], [arg], args⟩
    else
      let (items, took) := g.argument args.head? arg
      if took then
        match args with
        | [] => ⟨items, [arg], []⟩
        | next :: args => (read g order args).after items [arg, next]
      else (read g order args).after items [arg]

/-! ## What a reading does with the arguments -/

section

variable {g : Grammar} {order : Order} {arg : Bytes} {args : List Bytes}

end

end Grammar

end Svnsrv.Getopt
