import Mathlib.Data.List.Basic

/-!
# Pumps

A pump takes chunks from a source and gives them on, one chunk at a time. What
it has taken is what it has given and what it still holds, so nothing is lost,
doubled or reordered whatever happens to it.
-/

set_option autoImplicit false

structure Pump (α : Type) where
  taken : List α
  given : List α
  pending : List α
  whole : taken = given ++ pending

namespace Pump

variable {α : Type}

def start : Pump α := ⟨[], [], [], rfl⟩

/-- Take the next chunk; the last one has been given. -/
def take (p : Pump α) (chunk : List α) (h : p.pending = []) : Pump α where
  taken := p.taken ++ chunk
  given := p.given
  pending := chunk
  whole := by rw [p.whole, h, List.append_nil]

/-- Give the next `n` items. -/
def give (p : Pump α) (n : Nat) : Pump α where
  taken := p.taken
  given := p.given ++ p.pending.take n
  pending := p.pending.drop n
  whole := by rw [List.append_assoc, List.take_append_drop, p.whole]

theorem given_prefix (p : Pump α) : p.given <+: p.taken := ⟨p.pending, p.whole.symm⟩

theorem given_eq_taken {p : Pump α} (h : p.pending = []) : p.given = p.taken := by
  rw [p.whole, h, List.append_nil]

end Pump
