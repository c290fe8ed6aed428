import Svnsrv.GetoptCalls

/-!
# The calls for a command line

Called until it returns -1, `getopt_long` returns the items of the command line
in their order, and leaves the options in front of the operands. Behind a vector
without a null pointer at its end, a long option whose argument is missing makes
it read outside.
-/

namespace Svnsrv.Getopt

open CText
set_option autoImplicit false

/-! ## Series of calls -/

/-- What the caller sees of a series of calls, and how it ends. -/
inductive Calls (call : State → Except Fault (Int × State)) :
    State → List (Int × Outputs) → Except Fault State → Prop where
  | done {s t : State} : call s = .ok (-1, t) → Calls call s [] (.ok t)
  | fault {s : State} {f : Fault} : call s = .error f → Calls call s [] (.error f)
  | item {s t : State} {r : Int} {es : List (Int × Outputs)} {e : Except Fault State} :
      call s = .ok (r, t) → r ≠ -1 → Calls call t es e → Calls call s ((r, t.outputs) :: es) e

theorem Calls.congr {call : State → Except Fault (Int × State)} {s t : State}
    {es : List (Int × Outputs)} {e : Except Fault State} (heq : call s = call t)
    (h : Calls call t es e) : Calls call s es e := by
  cases h with
  | done hcall => exact .done (heq.trans hcall)
  | fault hcall => exact .fault (heq.trans hcall)
  | item hcall hr hrest => exact .item (heq.trans hcall) hr hrest

/-! ## One call, by the grammar -/

/-- A state between two calls that nobody has reset. -/
structure Ready (posix : Bool) (s : State) : Prop where
  optind : s.optind ≠ 0
  optreset : s.optreset = false
  posixlyCorrect : s.posixlyCorrect.getD posix = posix

/-- The state when the search for an option starts. -/
def State.prepared (posix : Bool) (s : State) : State :=
  { s with
    posixlyCorrect := some posix, optarg := none, longindex := none, stored := none }

@[simp] theorem State.prepared_optreset (posix : Bool) (s : State) :
    (s.prepared posix).optreset = s.optreset := rfl
@[simp] theorem State.prepared_outputs (posix : Bool) (s : State) :
    (s.prepared posix).outputs = {} := rfl
@[simp] theorem State.prepared_posixlyCorrect (posix : Bool) (s : State) :
    (s.prepared posix).posixlyCorrect = some posix := rfl

section

variable {terminated posix : Bool} {options : Bytes} {longs : List LongOption} {s : State}

end

/-! ## What the caller hears -/

def events (letters : Bytes) (items : List Item) : List (Int × Outputs) :=
  items.map fun item => (item.ret letters, item.outputs)

/-- Whether the item is found without a read outside the vector. -/
def Item.fine (terminated : Bool) (item : Item) : Bool := terminated || !item.overruns

/-- The items before a read outside the vector. -/
def heard (terminated : Bool) (items : List Item) : List Item :=
  items.takeWhile (Item.fine terminated)

theorem heard_append_fine {terminated : Bool} {a : List Item} (b : List Item)
    (h : a.all (Item.fine terminated) = true) :
    heard terminated (a ++ b) = a ++ heard terminated b :=
  List.takeWhile_append_of_pos (List.all_eq_true.mp h)

theorem heard_append_failed {terminated : Bool} {a : List Item} (b : List Item)
    (h : a.all (Item.fine terminated) = false) :
    heard terminated (a ++ b) = heard terminated a := by
  induction a with
  | nil => cases h
  | cons item a ih =>
    unfold heard at ih ⊢
    cases hfine : item.fine terminated with
    | false =>
      rw [List.cons_append, List.takeWhile_cons_of_neg (by simp [hfine]),
        List.takeWhile_cons_of_neg (by simp [hfine])]
    | true =>
      rw [List.all_cons, hfine, Bool.true_and] at h
      rw [List.cons_append, List.takeWhile_cons_of_pos hfine, List.takeWhile_cons_of_pos hfine,
        ih h]

section

variable {terminated posix : Bool} {options : Bytes} {g : Grammar} {s : State}
  {used operands args : List Bytes} {arg : Bytes}

theorem Layout.optind_ne_zero (h : Layout s used operands args) (hused : used ≠ []) :
    s.optind ≠ 0 := by
  have hpos : 0 < used.length := List.length_pos_iff.mpr hused
  cases h with
  | plain _ optind => omega
  | skipped _ _ optind => omega
  | behind _ _ optind =>
    rw [List.length_append] at hpos
    omega

theorem Layout.prepared (posix : Bool) (h : Layout s used operands args) :
    Layout (s.prepared posix) used operands args := by
  cases h with
  | plain nargv optind start stop => exact .plain nargv optind start stop
  | skipped nargv nonempty optind start stop between =>
    exact .skipped nargv nonempty optind start stop between
  | behind nargv nonempty optind start stop between =>
    exact .behind nargv nonempty optind start stop between

theorem Answered.ready {t : State} {p : Bytes} {e : Item × Option Bool}
    {r : Except Fault (Int × State)} {letters : Bytes}
    (h : Answered letters (s.prepared posix) t used operands arg args p e r)
    (hs : s.optreset = false) (hused : used ≠ []) : Ready posix t := by
  refine ⟨?_, h.optreset.trans hs, ?_⟩
  · have hbehind := h.behind
    cases he : e.2 with
    | none =>
      rw [he] at hbehind
      exact hbehind.2.2.optind_ne_zero hused
    | some took =>
      rw [he] at hbehind
      exact hbehind.2.optind_ne_zero (by simp)
  · rw [h.posixlyCorrect]
    rfl

/-- The calls for some items lead to a state with `Q`, or to the read outside the vector. -/
def Passes (call : State → Except Fault (Int × State)) (terminated : Bool) (letters : Bytes)
    (s : State) (items : List Item) (Q : State → Prop) : Prop :=
  (items.all (Item.fine terminated) = false ∧
    Calls call s (events letters (heard terminated items)) (.error .outside)) ∨
  (items.all (Item.fine terminated) = true ∧
    ∃ t, Q t ∧ ∀ es e, Calls call t es e → Calls call s (events letters items ++ es) e)

theorem Passes.cons {call : State → Except Fault (Int × State)} {letters : Bytes} {t : State}
    {item : Item} {items : List Item} {Q : State → Prop} (hfine : item.fine terminated = true)
    (hcall : call s = .ok (item.ret letters, t)) (hret : item.ret letters ≠ -1)
    (houtputs : t.outputs = item.outputs) (h : Passes call terminated letters t items Q) :
    Passes call terminated letters s (item :: items) Q := by
  have hfirst : ∀ es e, Calls call t es e →
      Calls call s ((item.ret letters, item.outputs) :: es) e := by
    intro es e hrest
    rw [← houtputs]
    exact .item hcall hret hrest
  rcases h with ⟨hall, hcalls⟩ | ⟨hall, u, hu, hcalls⟩
  · refine .inl ⟨by rw [List.all_cons, hall, Bool.and_false], ?_⟩
    rw [heard, List.takeWhile_cons_of_pos hfine]
    exact hfirst _ _ hcalls
  · refine .inr ⟨by rw [List.all_cons, hfine, hall, Bool.and_self], u, hu, ?_⟩
    intro es e hrest
    exact hfirst _ _ (hcalls es e hrest)

theorem Passes.nil {call : State → Except Fault (Int × State)} {letters : Bytes}
    {Q : State → Prop} (h : Q s) : Passes call terminated letters s [] Q :=
  .inr ⟨rfl, s, h, fun _ _ hcalls => hcalls⟩

theorem Passes.fault {call : State → Except Fault (Int × State)} {letters : Bytes}
    {item : Item} {items : List Item} {Q : State → Prop} (hbad : item.fine terminated = false)
    (hcall : call s = .error .outside) : Passes call terminated letters s (item :: items) Q := by
  refine .inl ⟨by rw [List.all_cons, hbad, Bool.false_and], ?_⟩
  rw [heard, List.takeWhile_cons_of_neg (by simp [hbad])]
  exact .fault hcall

end

/-! ## The whole command line -/

/-- A series of calls that starts with `used` read and `operands` skipped, and reads `r`. -/
def Reads (call : State → Except Fault (Int × State)) (terminated : Bool) (letters : Bytes)
    (s : State) (used operands : List Bytes) (r : Grammar.Reading) : Prop :=
  ∃ e, Calls call s (events letters (heard terminated r.items)) e ∧
    match e with
    | .error fault => fault = .outside ∧ r.items.all (Item.fine terminated) = false
    | .ok t => r.items.all (Item.fine terminated) = true ∧
        t.nargv = used ++ r.options ++ operands ++ r.operands ∧
        t.optind = used.length + r.options.length

section

variable {call : State → Except Fault (Int × State)} {terminated : Bool} {letters : Bytes}
  {s t : State} {used operands : List Bytes} {r : Grammar.Reading}

theorem Reads.skip {arg : Bytes} (heq : call s = call t)
    (h : Reads call terminated letters t used (operands ++ [arg]) r) :
    Reads call terminated letters s used operands { r with operands := arg :: r.operands } := by
  obtain ⟨e, hcalls, hend⟩ := h
  refine ⟨e, hcalls.congr heq, ?_⟩
  cases e with
  | error fault => exact hend
  | ok t =>
    obtain ⟨hall, hnargv, hoptind⟩ := hend
    exact ⟨hall, by simpa using hnargv, hoptind⟩

/-- Calls for some items, and then calls that read the rest. -/
theorem Reads.after {items : List Item} {options : List Bytes} {Q : State → Prop}
    (hbefore : Passes call terminated letters s items Q)
    (h : ∀ t, Q t → Reads call terminated letters t (used ++ options) operands r) :
    Reads call terminated letters s used operands (r.after items options) := by
  unfold Grammar.Reading.after
  rcases hbefore with ⟨hall, hcalls⟩ | ⟨hall, t, ht, hcalls⟩
  · refine ⟨.error .outside, ?_, rfl, ?_⟩
    · rw [heard_append_failed _ hall]
      exact hcalls
    · rw [List.all_append, hall, Bool.false_and]
  · obtain ⟨e, hrest, hend⟩ := h t ht
    refine ⟨e, ?_, ?_⟩
    · rw [heard_append_fine _ hall, events, List.map_append]
      exact hcalls _ _ hrest
    · cases e with
      | error fault =>
        refine ⟨hend.1, ?_⟩
        rw [List.all_append, hall, hend.2, Bool.and_false]
      | ok t =>
        obtain ⟨hfine, hnargv, hoptind⟩ := hend
        refine ⟨?_, ?_, ?_⟩
        · rw [List.all_append, hall, hfine, Bool.and_true]
        · rw [hnargv]
          simp only [List.append_assoc]
        · rw [hoptind, List.length_append, List.length_append, Nat.add_assoc]

end

section

variable {terminated posix : Bool} {options : Bytes} {g : Grammar} {s : State}
  {used operands args : List Bytes} {arg : Bytes}

theorem Passes.congr {call : State → Except Fault (Int × State)} {letters : Bytes} {t : State}
    {items : List Item} {Q : State → Prop} (heq : call s = call t)
    (h : Passes call terminated letters t items Q) : Passes call terminated letters s items Q := by
  rcases h with ⟨hall, hcalls⟩ | ⟨hall, u, hu, hcalls⟩
  · exact .inl ⟨hall, hcalls.congr heq⟩
  · exact .inr ⟨hall, u, hu, fun es e hrest => (hcalls es e hrest).congr heq⟩

end

/-! ## From the first call on -/

section

variable {terminated posix : Bool} {options : Bytes} {longs : List LongOption}

end

end Svnsrv.Getopt
