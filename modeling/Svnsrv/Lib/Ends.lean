/-!
# How a computation ends

`Ends e Q F` says that the computation `e` gives a result with the property `Q`, or
an error with the property `F`. A computation in steps ends as its steps do.
-/

namespace Outcome

set_option autoImplicit false

variable {ε α β : Type}

def Ends (e : Except ε α) (Q : α → Prop) (F : ε → Prop) : Prop :=
  match e with
  | .ok a => Q a
  | .error err => F err

namespace Ends

variable {e : Except ε α} {f : α → Except ε β} {Q Q' : α → Prop} {R : β → Prop} {F F' : ε → Prop}

theorem ok {a : α} (h : Q a) : Ends (.ok a : Except ε α) Q F := h

theorem error {err : ε} (h : F err) : Ends (.error err : Except ε α) Q F := h

theorem result {a : α} (h : Ends e Q F) (he : e = .ok a) : Q a := by
  subst he
  exact h

theorem failure {err : ε} (h : Ends e Q F) (he : e = .error err) : F err := by
  subst he
  exact h

theorem mono (h : Ends e Q F) (hQ : ∀ a, Q a → Q' a) (hF : ∀ err, F err → F' err) :
    Ends e Q' F' := by
  cases e with
  | ok a => exact hQ a h
  | error err => exact hF err h

theorem bind (h : Ends e Q F) (hf : ∀ a, Q a → Ends (f a) R F) : Ends (e >>= f) R F := by
  cases e with
  | ok a => exact hf a h
  | error err => exact h

theorem map {g : α → β} (h : Ends e Q F) (hg : ∀ a, Q a → R (g a)) : Ends (e.map g) R F := by
  cases e with
  | ok a => exact hg a h
  | error err => exact h

/-- The branches of a test. -/
theorem test {c : Prop} [Decidable c] {e' : Except ε α} (h : c → Ends e Q F)
    (h' : ¬c → Ends e' Q F) : Ends (if c then e else e') Q F := by
  by_cases hc : c
  · rw [if_pos hc]
    exact h hc
  · rw [if_neg hc]
    exact h' hc

end Ends

end Outcome
