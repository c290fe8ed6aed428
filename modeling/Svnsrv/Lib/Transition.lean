import Mathlib.Logic.Relation

/-!
# Runs of a labelled step relation

`Run Step s es t` is a finite run from `s` to `t` whose labels are `es`, in the
order they happened. Nothing here depends on what states and labels are: an
invariant is a predicate that the first state satisfies and every step keeps.
-/

namespace Transition

universe u v
variable {σ : Type u} {ε : Type v}

/-- A finite run; the last step is the outermost constructor. -/
inductive Run (Step : σ → ε → σ → Prop) : σ → List ε → σ → Prop where
  | refl (s : σ) : Run Step s [] s
  | snoc {s t u : σ} {es : List ε} {e : ε} :
      Run Step s es t → Step t e u → Run Step s (es ++ [e]) u

/-- The states some run from an initial state leads to. -/
def Reachable (Init : σ → Prop) (Step : σ → ε → σ → Prop) (t : σ) : Prop :=
  ∃ s es, Init s ∧ Run Step s es t

namespace Run
variable {Step : σ → ε → σ → Prop} {s t u : σ} {es fs : List ε} {e : ε}

theorem single (h : Step s e t) : Run Step s [e] t := by
  simpa using Run.snoc (.refl s) h

theorem trans (hst : Run Step s es t) (htu : Run Step t fs u) : Run Step s (es ++ fs) u := by
  induction htu with
  | refl => simpa using hst
  | snoc _ h ih =>
    rw [← List.append_assoc]
    exact .snoc ih h

theorem cons (h : Step s e t) (htu : Run Step t fs u) : Run Step s (e :: fs) u :=
  (single h).trans htu

theorem of_nil (h : Run Step s [] t) : s = t := by
  generalize hes : ([] : List ε) = es at h
  cases h with
  | refl => rfl
  | snoc _ _ => simp at hes

theorem of_concat (h : Run Step s (es ++ [e]) u) : ∃ t, Run Step s es t ∧ Step t e u := by
  generalize hes : es ++ [e] = fs at h
  cases h with
  | refl => simp at hes
  | snoc hrun hstep =>
    obtain ⟨rfl, he⟩ := List.append_inj' hes rfl
    obtain rfl := (List.cons.inj he).1
    exact ⟨_, hrun, hstep⟩

/-- What holds at the start and is kept by every step holds at the end. -/
theorem invariant {I : σ → Prop} (keep : ∀ {a b e}, I a → Step a e b → I b)
    (hrun : Run Step s es t) (hs : I s) : I t := by
  induction hrun with
  | refl => exact hs
  | snoc _ h ih => exact keep ih h

/-- Fewer steps, fewer runs. -/
theorem mono {Step' : σ → ε → σ → Prop} (sub : ∀ {a e b}, Step a e b → Step' a e b)
    (hrun : Run Step s es t) : Run Step' s es t := by
  induction hrun with
  | refl => exact .refl _
  | snoc _ h ih => exact .snoc ih (sub h)

/-- If a state that meets `P` is reached by steps that meet `C` only, every step of a run to such
a state meets `C`. -/
theorem meets {C : σ → ε → Prop} {I P : σ → Prop}
    (back : ∀ {a e b}, Step a e b → P b → P a)
    (meet : ∀ {a e b}, I a → Step a e b → P b → C a e)
    (keep : ∀ {a e b}, I a → Step a e b → C a e → I b)
    (hrun : Run Step s es t) (hs : I s) (ht : P t) :
    Run (fun a e b => Step a e b ∧ C a e) s es t := by
  have hall : Run (fun a e b => Step a e b ∧ C a e) s es t ∧ I t := by
    induction hrun with
    | refl => exact ⟨.refl _, hs⟩
    | snoc _ hstep ih =>
      obtain ⟨hmeets, hinv⟩ := ih (back hstep ht)
      have hc := meet hinv hstep ht
      exact ⟨.snoc hmeets ⟨hstep, hc⟩, keep hinv hstep hc⟩
  exact hall.1

end Run

theorem Reachable.invariant {Init : σ → Prop} {Step : σ → ε → σ → Prop} {I : σ → Prop}
    (init : ∀ {s}, Init s → I s) (keep : ∀ {a b e}, I a → Step a e b → I b)
    {t : σ} (ht : Reachable Init Step t) : I t := by
  obtain ⟨s, es, hs, hrun⟩ := ht
  exact hrun.invariant keep (init hs)

/-- A step function, run on a list of labels. -/
def exec (step : σ → ε → Option σ) : σ → List ε → Option σ
  | s, [] => some s
  | s, e :: es => (step s e).bind fun t => exec step t es

theorem exec_append {step : σ → ε → Option σ} (s : σ) (es fs : List ε) :
    exec step s (es ++ fs) = (exec step s es).bind fun t => exec step t fs := by
  induction es generalizing s with
  | nil => rfl
  | cons e es ih => simp only [List.cons_append, exec, ih, Option.bind_assoc]

theorem run_of_exec {step : σ → ε → Option σ} {s t : σ} {es : List ε}
    (h : exec step s es = some t) : Run (fun a e b => step a e = some b) s es t := by
  induction es generalizing s with
  | nil =>
    cases h
    exact .refl _
  | cons e es ih =>
    obtain ⟨r, hr, hrest⟩ := Option.bind_eq_some_iff.mp h
    exact .cons hr (ih hrest)

theorem exec_of_run {step : σ → ε → Option σ} {s t : σ} {es : List ε}
    (h : Run (fun a e b => step a e = some b) s es t) : exec step s es = some t := by
  induction h with
  | refl => rfl
  | snoc _ hstep ih =>
    rw [exec_append, ih, Option.bind_some, exec, hstep]
    rfl

theorem reachable_exec {Init : σ → Prop} {step : σ → ε → Option σ} {s : σ} {es : List ε}
    (hs : Init s) (h : (exec step s es).isSome) :
    Reachable Init (fun a e b => step a e = some b) ((exec step s es).get h) :=
  ⟨s, es, hs, run_of_exec (Option.some_get h).symm⟩

theorem exists_reachable_of_exec {Init : σ → Prop} {step : σ → ε → Option σ} {s : σ}
    {es : List ε} {P : σ → Prop} [DecidablePred P] (hs : Init s)
    (h : (exec step s es).any (fun t => decide (P t))) :
    ∃ t, Reachable Init (fun a e b => step a e = some b) t ∧ P t := by
  cases ht : exec step s es with
  | none => simp [ht] at h
  | some t =>
    rw [ht, Option.any_some, decide_eq_true_eq] at h
    exact ⟨t, ⟨s, es, hs, run_of_exec ht⟩, h⟩

/-- The steps at which `C` holds. -/
def guarded (step : σ → ε → Option σ) (C : σ → ε → Prop) [∀ s e, Decidable (C s e)] (s : σ)
    (e : ε) : Option σ :=
  if C s e then step s e else none

theorem run_of_guarded {step : σ → ε → Option σ} {C : σ → ε → Prop} [∀ s e, Decidable (C s e)]
    {s t : σ} {es : List ε} (h : exec (guarded step C) s es = some t) :
    Run (fun a e b => step a e = some b ∧ C a e) s es t := by
  apply (run_of_exec h).mono
  intro a e b hstep
  unfold guarded at hstep
  split at hstep
  · exact ⟨hstep, ‹_›⟩
  · cases hstep

end Transition
