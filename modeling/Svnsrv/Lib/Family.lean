import Mathlib.Data.List.Induction
import Svnsrv.Lib.Transition

/-!
# Families of components

Components join a family one after the other, and each one steps on its own. A
run of the family is one run of every component, in any order in which a
component joins before it moves. What the components hand out on the way comes
out in that order, and each component's share of it in its own.
-/

namespace Family

open Transition

universe u v w x
variable {σ : Type u} {ε : Type v} {α : Type w} {ω : Type x}

/-- A component that starts from `a` joins, or the `i`-th one moves. -/
inductive Label (α : Type w) (ε : Type v) where
  | join (a : α)
  | move (i : Nat) (e : ε)
  deriving DecidableEq, Repr

inductive Step (start : α → σ) (step : σ → ε → σ → Prop) :
    List σ → Label α ε → List σ → Prop where
  | join {ss : List σ} (a : α) : Step start step ss (.join a) (ss ++ [start a])
  | move {ss : List σ} {i : Nat} {s t : σ} {e : ε} :
      ss[i]? = some s → step s e t → Step start step ss (.move i e) (ss.set i t)

/-- Those that join, in order. -/
def joined : List (Label α ε) → List α :=
  List.filterMap fun
    | .join a => some a
    | .move _ _ => none

/-- What the `i`-th component does. -/
def own (i : Nat) : List (Label α ε) → List ε :=
  List.filterMap fun
    | .join _ => none
    | .move j e => if j = i then some e else none

/-- A component joins before it moves. -/
def Timely (ls : List (Label α ε)) : Prop :=
  ∀ pre i e post, ls = pre ++ .move i e :: post → i < (joined pre).length

/-! ## Labels in order -/

section

variable {ls : List (Label α ε)} {a : α} {i j : Nat} {e : ε}

@[simp] theorem joined_join : joined (ls ++ [.join a]) = joined ls ++ [a] := by
  simp [joined]

@[simp] theorem joined_move : joined (ls ++ [.move i e]) = joined ls := by
  simp [joined]

@[simp] theorem own_join : own i (ls ++ [.join a]) = own i ls := by
  simp [own]

@[simp] theorem own_move_self : own i (ls ++ [.move i e]) = own i ls ++ [e] := by
  simp [own]

theorem own_move_of_ne (h : i ≠ j) : own j (ls ++ [.move i e]) = own j ls := by
  simp [own, h]

theorem Timely.of_append {ks : List (Label α ε)} (h : Timely (ls ++ ks)) : Timely ls := by
  intro pre i e post heq
  exact h pre i e (post ++ ks) (by rw [heq, List.append_assoc, List.cons_append])

theorem timely_nil : Timely ([] : List (Label α ε)) := by
  intro pre i e post heq
  simp at heq

theorem timely_concat {l : Label α ε} :
    Timely (ls ++ [l]) ↔ Timely ls ∧ ∀ i e, l = .move i e → i < (joined ls).length := by
  constructor
  · intro h
    refine ⟨h.of_append, ?_⟩
    intro i e heq
    exact h ls i e [] (by rw [heq])
  · intro h pre i e post heq
    rcases List.eq_nil_or_concat post with rfl | ⟨post', l', rfl⟩
    · obtain ⟨rfl, hl⟩ := List.append_inj' heq rfl
      exact h.2 i e (List.cons.inj hl).1
    · rw [List.concat_eq_append, ← List.cons_append, ← List.append_assoc] at heq
      exact h.1 pre i e post' (List.append_inj' heq rfl).1

/-- `Timely` if `n` components are there already. -/
def timelyFrom : Nat → List (Label α ε) → Bool
  | _, [] => true
  | n, .join _ :: ls => timelyFrom (n + 1) ls
  | n, .move i _ :: ls => decide (i < n) && timelyFrom n ls

theorem timelyFrom_iff {n : Nat} : timelyFrom n ls = true ↔
    ∀ pre i e post, ls = pre ++ .move i e :: post → i < n + (joined pre).length := by
  induction ls generalizing n with
  | nil => simp [timelyFrom]
  | cons l ls ih =>
    cases l with
    | join a =>
      rw [timelyFrom, ih]
      constructor
      · intro h pre i e post heq
        cases pre with
        | nil => simp at heq
        | cons l pre =>
          obtain ⟨rfl, htail⟩ := List.cons.inj heq
          have hi := h pre i e post htail
          change i < n + ((joined pre).length + 1)
          omega
      · intro h pre i e post heq
        have hi := h (.join a :: pre) i e post (by rw [heq, List.cons_append])
        change i < n + ((joined pre).length + 1) at hi
        omega
    | move j e' =>
      rw [timelyFrom, Bool.and_eq_true, decide_eq_true_eq, ih]
      constructor
      · intro h pre i e post heq
        cases pre with
        | nil =>
          obtain ⟨hl, -⟩ := List.cons.inj heq
          cases hl
          exact h.1
        | cons l pre =>
          obtain ⟨rfl, htail⟩ := List.cons.inj heq
          exact h.2 pre i e post htail
      · intro h
        refine ⟨h [] j e' ls rfl, ?_⟩
        intro pre i e post heq
        exact h (.move j e' :: pre) i e post (by rw [heq, List.cons_append])

instance : Decidable (Timely ls) :=
  decidable_of_iff (timelyFrom 0 ls = true) (by simp [timelyFrom_iff, Timely])

/-- Who has not joined has not moved. -/
theorem Timely.own_eq_nil (h : Timely ls) (hi : (joined ls).length ≤ i) : own i ls = [] := by
  induction ls using List.reverseRecOn with
  | nil => rfl
  | append_singleton ls l ih =>
    obtain ⟨hbefore, hlast⟩ := timely_concat.mp h
    cases l with
    | join a =>
      rw [joined_join, List.length_append] at hi
      rw [own_join]
      exact ih hbefore (by omega)
    | move j e =>
      rw [joined_move] at hi
      have hj := hlast j e rfl
      rw [own_move_of_ne (by omega)]
      exact ih hbefore hi

end

/-! ## Runs -/

section

variable {start : α → σ} {step : σ → ε → σ → Prop} {ls : List (Label α ε)} {ss ts : List σ}

/-- Each component is where a run of its own leads. -/
def Alone (start : α → σ) (step : σ → ε → σ → Prop) (ls : List (Label α ε)) (ts : List σ) : Prop :=
  ts.length = (joined ls).length ∧
    ∀ i a t, (joined ls)[i]? = some a → ts[i]? = some t → Run step (start a) (own i ls) t

theorem Alone.join (h : Alone start step ls ss) (htimely : Timely ls) (a : α) :
    Alone start step (ls ++ [.join a]) (ss ++ [start a]) := by
  obtain ⟨hlen, hrun⟩ := h
  constructor
  · simp [hlen]
  · intro i b t hb ht
    rw [joined_join] at hb
    rw [own_join]
    by_cases hi : i < ss.length
    · rw [List.getElem?_append_left (hlen ▸ hi)] at hb
      rw [List.getElem?_append_left hi] at ht
      exact hrun i b t hb ht
    · have hbound : i < (ss ++ [start a]).length := (List.getElem?_eq_some_iff.mp ht).1
      rw [List.length_append, List.length_singleton] at hbound
      obtain rfl : i = ss.length := by omega
      rw [hlen, List.getElem?_concat_length] at hb
      rw [List.getElem?_concat_length] at ht
      obtain rfl := Option.some.inj hb
      obtain rfl := Option.some.inj ht
      rw [htimely.own_eq_nil (Nat.le_of_eq hlen.symm)]
      exact .refl _

theorem Alone.move (h : Alone start step ls ss) {i : Nat} {s t : σ} {e : ε}
    (hs : ss[i]? = some s) (hstep : step s e t) :
    Alone start step (ls ++ [.move i e]) (ss.set i t) := by
  obtain ⟨hlen, hrun⟩ := h
  constructor
  · simp [hlen]
  · intro j b u hb hu
    rw [joined_move] at hb
    by_cases hij : i = j
    · subst hij
      rw [List.getElem?_set_self (List.getElem?_eq_some_iff.mp hs).1] at hu
      obtain rfl := Option.some.inj hu
      rw [own_move_self]
      exact .snoc (hrun i b s hb hs) hstep
    · rw [List.getElem?_set_ne hij] at hu
      rw [own_move_of_ne hij]
      exact hrun j b u hb hu

theorem alone_of_run (h : Run (Step start step) [] ls ts) :
    Timely ls ∧ Alone start step ls ts := by
  induction h with
  | refl =>
    refine ⟨timely_nil, rfl, ?_⟩
    intro i a t ha
    simp [joined] at ha
  | snoc _ hstep ih =>
    obtain ⟨htimely, halone⟩ := ih
    cases hstep with
    | join a => exact ⟨timely_concat.mpr ⟨htimely, by simp⟩, halone.join htimely a⟩
    | move hs hstep =>
      refine ⟨timely_concat.mpr ⟨htimely, ?_⟩, halone.move hs hstep⟩
      intro j e' heq
      cases heq
      exact halone.1 ▸ (List.getElem?_eq_some_iff.mp hs).1

theorem run_of_alone (htimely : Timely ls) (h : Alone start step ls ts) :
    Run (Step start step) [] ls ts := by
  induction ls using List.reverseRecOn generalizing ts with
  | nil =>
    obtain rfl : ts = [] := List.length_eq_zero_iff.mp h.1
    exact .refl _
  | append_singleton ls l ih =>
    obtain ⟨hbefore, hlast⟩ := timely_concat.mp htimely
    obtain ⟨hlen, hrun⟩ := h
    cases l with
    | join a =>
      rw [joined_join, List.length_append, List.length_singleton] at hlen
      -- the last component has not moved
      rcases List.eq_nil_or_concat ts with rfl | ⟨us, t, rfl⟩
      · simp at hlen
      · rw [List.concat_eq_append] at hlen hrun ⊢
        rw [List.length_append, List.length_singleton, Nat.add_right_cancel_iff] at hlen
        have hnew := hrun us.length a t (by rw [joined_join, hlen, List.getElem?_concat_length])
          List.getElem?_concat_length
        rw [own_join, hbefore.own_eq_nil (Nat.le_of_eq hlen.symm)] at hnew
        obtain rfl := hnew.of_nil
        refine .snoc (ih hbefore ⟨hlen, ?_⟩) (.join a)
        intro i b u hb hu
        have hi := (List.getElem?_eq_some_iff.mp hu).1
        have hone := hrun i b u (by rwa [joined_join, List.getElem?_append_left (hlen ▸ hi)])
          (by rwa [List.getElem?_append_left hi])
        rwa [own_join] at hone
    | move i e =>
      rw [joined_move] at hlen
      have hi : i < ts.length := hlen ▸ hlast i e rfl
      obtain ⟨a, ha⟩ : ∃ a, (joined ls)[i]? = some a :=
        ⟨_, List.getElem?_eq_getElem (hlast i e rfl)⟩
      have hone := hrun i a ts[i] (by rwa [joined_move]) (List.getElem?_eq_getElem hi)
      rw [own_move_self] at hone
      obtain ⟨s, hs, hstep⟩ := hone.of_concat
      -- the other components are where they were
      have hback : (ts.set i s).set i ts[i] = ts := by rw [List.set_set, List.set_getElem_self]
      rw [← hback]
      refine .snoc (ih hbefore ⟨by rw [List.length_set, hlen], ?_⟩)
        (.move (List.getElem?_set_self hi) hstep)
      intro j b u hb hu
      by_cases hij : i = j
      · subst hij
        rw [List.getElem?_set_self hi] at hu
        obtain rfl := Option.some.inj hu
        obtain rfl := Option.some.inj (ha.symm.trans hb)
        exact hs
      · rw [List.getElem?_set_ne hij] at hu
        have hone := hrun j b u (by rwa [joined_move]) hu
        rwa [own_move_of_ne hij] at hone

theorem run_iff : Run (Step start step) [] ls ts ↔ Timely ls ∧ Alone start step ls ts := by
  constructor
  · exact alone_of_run
  · intro h
    exact run_of_alone h.1 h.2

/-- Only the order of each component's own moves matters. -/
theorem Alone.reorder {ks : List (Label α ε)} (h : Alone start step ls ts)
    (hjoined : joined ks = joined ls) (hown : ∀ i, own i ks = own i ls) :
    Alone start step ks ts := by
  obtain ⟨hlen, hrun⟩ := h
  refine ⟨by rw [hlen, hjoined], ?_⟩
  intro i a t ha ht
  rw [hown i]
  exact hrun i a t (hjoined ▸ ha) ht

end

/-! ## Outputs -/

/-- A run of the family with what its moves hand out, each item with the component it comes
from. -/
inductive Emits (start : α → σ) (step : σ → ε → σ → Prop) (out : σ → σ → List ω) :
    List (Label α ε) → List (Nat × ω) → List σ → Prop where
  | nil : Emits start step out [] [] []
  | join {ls : List (Label α ε)} {ws : List (Nat × ω)} {ss : List σ} (a : α) :
      Emits start step out ls ws ss → Emits start step out (ls ++ [.join a]) ws (ss ++ [start a])
  | move {ls : List (Label α ε)} {ws : List (Nat × ω)} {ss : List σ} {i : Nat} {s t : σ} {e : ε} :
      Emits start step out ls ws ss → ss[i]? = some s → step s e t →
        Emits start step out (ls ++ [.move i e]) (ws ++ (out s t).map fun w => (i, w)) (ss.set i t)

/-- What comes from the `i`-th component. -/
def share (i : Nat) : List (Nat × ω) → List ω :=
  List.filterMap fun p => if p.1 = i then some p.2 else none

@[simp] theorem share_append (i : Nat) (ws vs : List (Nat × ω)) :
    share i (ws ++ vs) = share i ws ++ share i vs := List.filterMap_append

theorem share_self (i : Nat) (ws : List ω) : share i (ws.map fun w => (i, w)) = ws := by
  unfold share
  induction ws with
  | nil => rfl
  | cons w ws ih => simp only [List.map_cons, List.filterMap_cons, if_true, ih]

theorem share_of_ne {i j : Nat} (h : i ≠ j) (ws : List ω) :
    share j (ws.map fun w => (i, w)) = [] := by
  unfold share
  induction ws with
  | nil => rfl
  | cons w ws ih => simp only [List.map_cons, List.filterMap_cons, if_neg h, ih]

namespace Emits

variable {start : α → σ} {step : σ → ε → σ → Prop} {out : σ → σ → List ω}
  {ls : List (Label α ε)} {ws : List (Nat × ω)} {ss : List σ} {a : α} {i : Nat} {e : ε}

theorem run (h : Emits start step out ls ws ss) : Run (Step start step) [] ls ss := by
  induction h with
  | nil => exact .refl _
  | join a _ ih => exact .snoc ih (.join a)
  | move _ hs hstep ih => exact .snoc ih (.move hs hstep)

theorem of_nil (h : Emits start step out [] ws ss) : ws = [] ∧ ss = [] := by
  generalize hks : ([] : List (Label α ε)) = ks at h
  cases h with
  | nil => exact ⟨rfl, rfl⟩
  | join => simp at hks
  | move => simp at hks

theorem of_join (h : Emits start step out (ls ++ [.join a]) ws ss) :
    ∃ ss', Emits start step out ls ws ss' ∧ ss = ss' ++ [start a] := by
  generalize hks : ls ++ [.join a] = ks at h
  cases h with
  | nil => simp at hks
  | join b hemits =>
    obtain ⟨rfl, hlast⟩ := List.append_inj' hks rfl
    cases hlast
    exact ⟨_, hemits, rfl⟩
  | move hemits hs hstep =>
    obtain ⟨-, hlast⟩ := List.append_inj' hks rfl
    cases hlast

theorem of_move (h : Emits start step out (ls ++ [.move i e]) ws ss) :
    ∃ ws' ss' s t, Emits start step out ls ws' ss' ∧ ss'[i]? = some s ∧ step s e t ∧
      ws = ws' ++ ((out s t).map fun w => (i, w)) ∧ ss = ss'.set i t := by
  generalize hks : ls ++ [.move i e] = ks at h
  cases h with
  | nil => simp at hks
  | join b hemits =>
    obtain ⟨-, hlast⟩ := List.append_inj' hks rfl
    cases hlast
  | move hemits hs hstep =>
    obtain ⟨rfl, hlast⟩ := List.append_inj' hks rfl
    cases hlast
    exact ⟨_, _, _, _, hemits, hs, hstep, rfl, rfl⟩

/-- If a component remembers what it has handed out, that is its share. -/
theorem share_eq {log : σ → List ω} (hstart : ∀ a, log (start a) = [])
    (hlog : ∀ {s e t}, step s e t → log t = log s ++ out s t)
    (h : Emits start step out ls ws ss) (i : Nat) : share i ws = ((ss[i]?).map log).getD [] := by
  induction h with
  | nil => rfl
  | @join ls ws ss a _ ih =>
    rw [ih]
    by_cases hi : i < ss.length
    · rw [List.getElem?_append_left hi]
    · rw [List.getElem?_eq_none (Nat.le_of_not_lt hi)]
      by_cases hlast : i = ss.length
      · subst hlast
        rw [List.getElem?_concat_length, Option.map_some, Option.getD_some, hstart]
        rfl
      · rw [List.getElem?_eq_none]
        rw [List.length_append, List.length_singleton]
        omega
  | @move ls ws ss j s t e _ hs hstep ih =>
    rw [share_append, ih]
    by_cases hij : j = i
    · subst hij
      rw [share_self, hs, List.getElem?_set_self (List.getElem?_eq_some_iff.mp hs).1,
        Option.map_some, Option.map_some, Option.getD_some, Option.getD_some, hlog hstep]
    · rw [share_of_ne hij, List.append_nil, List.getElem?_set_ne hij]

end Emits

theorem exists_emits {start : α → σ} {step : σ → ε → σ → Prop} (out : σ → σ → List ω)
    {ls : List (Label α ε)} {ss : List σ} (h : Run (Step start step) [] ls ss) :
    ∃ ws, Emits start step out ls ws ss := by
  induction h with
  | refl => exact ⟨[], .nil⟩
  | snoc _ hstep ih =>
    obtain ⟨ws, hemits⟩ := ih
    cases hstep with
    | join a => exact ⟨ws, .join a hemits⟩
    | move hs hstep => exact ⟨_, .move hemits hs hstep⟩

end Family
