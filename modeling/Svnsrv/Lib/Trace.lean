import Mathlib.Data.List.Basic

/-!
# Traces

A trace lists what has happened, oldest first. `EachAfter P trace` judges every
entry by the entries before it; a trace that grows is judged once more at what
is new.
-/

set_option autoImplicit false

namespace Trace

variable {α : Type} {P Q : List α → α → Prop} {t u : List α} {a : α}

/-- Every entry agrees with what happened before it. -/
def EachAfter (P : List α → α → Prop) (trace : List α) : Prop :=
  ∀ pre a post, trace = pre ++ a :: post → P pre a

theorem EachAfter.nil : EachAfter P [] := by
  intro pre a post h
  simp at h

theorem EachAfter.append (ht : EachAfter P t) (hu : EachAfter (fun pre => P (t ++ pre)) u) :
    EachAfter P (t ++ u) := by
  intro pre a post h
  rcases List.append_eq_append_iff.mp h with ⟨rest, rfl, hu'⟩ | ⟨rest, rfl, ha⟩
  · exact hu rest a post hu'
  · cases rest with
    | nil =>
      have := hu [] a post ha.symm
      simpa using this
    | cons b rest =>
      obtain ⟨rfl, -⟩ := List.cons.inj ha
      exact ht pre a rest rfl

theorem EachAfter.cons (ha : P [] a) (ht : EachAfter (fun pre => P (a :: pre)) t) :
    EachAfter P (a :: t) := by
  intro pre b post h
  cases pre with
  | nil =>
    obtain ⟨rfl, -⟩ := List.cons.inj h
    exact ha
  | cons c pre =>
    obtain ⟨rfl, hrest⟩ := List.cons.inj h
    exact ht pre b post hrest

/-- Entries that nothing is asked of. -/
theorem EachAfter.of_forall (h : ∀ a ∈ t, ∀ pre, P pre a) : EachAfter P t := by
  intro pre a post ht
  apply h
  simp [ht]

end Trace
