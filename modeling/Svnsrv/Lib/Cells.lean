import Mathlib.Data.List.Basic

/-!
# Arrays of memory

An array of `n` cells, each of which holds a value or has not been initialised.
A write outside the array fails. `Filled k` says that the first `k` cells hold
values; a write that starts inside them extends them.
-/

set_option autoImplicit false

abbrev Cells (n : Nat) (α : Type) := Fin n → Option α

namespace Cells

variable {α : Type} {n : Nat}

/-- An array as a declaration leaves it. -/
def blank : Cells n α := fun _ => none

/-- Write `data` from index `p` on, if it stays in the array. -/
def write (c : Cells n α) (p : Int) (data : List α) : Option (Cells n α) :=
  if 0 ≤ p ∧ p + data.length ≤ n then
    some fun i => if p ≤ i ∧ i < p + data.length then data[(i - p).toNat]? else c i
  else none

/-- The first `k` cells, as far as they hold values. -/
def contents (c : Cells n α) (k : Nat) : List α :=
  (List.finRange n).filterMap fun i => if i.val < k then c i else none

def Filled (k : Nat) (c : Cells n α) : Prop := ∀ i : Fin n, i.val < k → (c i).isSome

theorem write_eq_none {c : Cells n α} {p : Int} {data : List α}
    (h : ¬(0 ≤ p ∧ p + data.length ≤ n)) : c.write p data = none := if_neg h

theorem Filled.mono {c : Cells n α} {j k : Nat} (h : Filled k c) (hj : j ≤ k) : Filled j c := by
  intro i hi
  apply h i
  omega

/-- A write that starts in the filled part leaves it filled up to its own end. -/
theorem Filled.write {c : Cells n α} {k : Nat} (h : Filled k c) (p : Int) (data : List α)
    (hp : 0 ≤ p) (hk : p ≤ k) (hn : p + data.length ≤ n) :
    ∃ c', c.write p data = some c' ∧ Filled (max k (p.toNat + data.length)) c' := by
  refine ⟨_, if_pos ⟨hp, hn⟩, ?_⟩
  intro i hi
  by_cases hin : p ≤ i ∧ (i : Int) < p + data.length
  · have hlt : ((i : Int) - p).toNat < data.length := by omega
    simp only [if_pos hin, List.getElem?_eq_getElem hlt, Option.isSome_some]
  · simp only [if_neg hin]
    apply h i
    omega

/-- The array starts with the values `L`. -/
def Holds (L : List α) (c : Cells n α) : Prop := ∀ i : Fin n, i.val < L.length → c i = L[i.val]?

theorem Holds.filled {L : List α} {c : Cells n α} (h : Holds L c) : Filled L.length c := by
  intro i hi
  rw [h i hi, List.getElem?_eq_getElem hi]
  rfl

/-- A write at the end of some of the values replaces what follows them. -/
theorem Holds.write {A B : List α} {c : Cells n α} (h : Holds (A ++ B) c) (D : List α)
    (hn : A.length + D.length ≤ n) :
    ∃ c', c.write A.length D = some c' ∧ Holds (A ++ D) c' := by
  refine ⟨_, if_pos ⟨Int.natCast_nonneg _, by omega⟩, ?_⟩
  intro i hi
  rw [List.length_append] at hi
  by_cases hA : i.val < A.length
  · have hout : ¬ ((A.length : Int) ≤ i ∧ (i : Int) < A.length + D.length) := by omega
    have hold := h i (by rw [List.length_append]; omega)
    simp only [if_neg hout]
    rw [hold, List.getElem?_append_left hA, List.getElem?_append_left hA]
  · have hin : (A.length : Int) ≤ i ∧ (i : Int) < A.length + D.length := by omega
    have hindex : ((i : Int) - A.length).toNat = i.val - A.length := by omega
    simp only [if_pos hin, hindex]
    rw [List.getElem?_append_right (Nat.le_of_not_lt hA)]

theorem filterMap_range (L : List α) {k : Nat} (hk : L.length ≤ k) :
    (List.range k).filterMap (L[·]?) = L := by
  induction L generalizing k with
  | nil => simp
  | cons x L ih =>
    obtain ⟨k, rfl⟩ := Nat.exists_eq_add_of_lt (Nat.lt_of_lt_of_le (Nat.zero_lt_succ _) hk)
    rw [Nat.zero_add] at hk ⊢
    have hhead : (x :: L)[0]? = some x := rfl
    rw [List.range_succ_eq_map, List.filterMap_cons_some hhead, List.filterMap_map]
    exact congrArg (x :: ·) (ih (Nat.le_of_succ_le_succ hk))

/-- What an array that starts with the values holds in as many cells. -/
theorem Holds.contents {L : List α} {c : Cells n α} (h : Holds L c) (hn : L.length ≤ n) :
    c.contents L.length = L := by
  have hcell : ∀ i ∈ List.finRange n,
      (if i.val < L.length then c i else none) = L[i.val]? := by
    intro i _
    split
    · next hi => exact h i hi
    · next hi => exact (List.getElem?_eq_none (Nat.le_of_not_lt hi)).symm
  have hmap : (List.finRange n).filterMap (fun i => L[i.val]?) =
      ((List.finRange n).map Fin.val).filterMap (L[·]?) := by
    rw [List.filterMap_map]
    rfl
  rw [Cells.contents, List.filterMap_congr hcell, hmap, List.map_coe_finRange_eq_range,
    filterMap_range L hn]

end Cells
