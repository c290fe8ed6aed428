import Mathlib.Data.List.Nodup

/-!
# Pools of outstanding operations

A pool lists what is outstanding; an entry is replaced in place by what its
completion starts, and the order means nothing. When every entry belongs to a
slot of its own, a pool is described by what its slots hold, and an event at one
entry is an event in one slot that leaves the others alone.
-/

namespace Slots

set_option autoImplicit false

variable {ι α : Type}

/-- The entry at `i` makes room for `new`. -/
def replace (ops : List α) (i : Nat) (new : List α) : List α :=
  ops.take i ++ new ++ ops.drop (i + 1)

@[simp] theorem replace_singleton (a : α) (new : List α) : replace [a] 0 new = new := by
  simp [replace]

theorem replace_succ (a : α) (ops : List α) (i : Nat) (new : List α) :
    replace (a :: ops) (i + 1) new = a :: replace ops i new := by
  simp [replace]

theorem getElem?_singleton {a b : α} {i : Nat} (h : [a][i]? = some b) : i = 0 ∧ b = a := by
  cases i with
  | zero => exact ⟨rfl, (Option.some.inj h).symm⟩
  | succ i => simp at h

/-- The pool of what the slots hold. -/
def pool (slots : List ι) (held : ι → Option α) : List α := slots.filterMap held

theorem pool_map (slots : List ι) (held : ι → Option α) (g : α → α) :
    (pool slots held).map g = pool slots fun i => (held i).map g :=
  List.map_filterMap

/-- If only one slot can hold an entry with `p`, the pool has at most one. -/
theorem countP_pool_le_one {slots : List ι} (hnodup : slots.Nodup) {held : ι → Option α}
    {p : α → Bool} (h : ∀ i j a b, held i = some a → held j = some b → p a → p b → i = j) :
    (pool slots held).countP p ≤ 1 := by
  induction slots with
  | nil => simp [pool]
  | cons j slots ih =>
    obtain ⟨hj, hnodup⟩ := List.nodup_cons.mp hnodup
    cases hheld : held j with
    | none =>
      have hpool : pool (j :: slots) held = pool slots held := List.filterMap_cons_none hheld
      rw [hpool]
      exact ih hnodup
    | some a =>
      have hpool : pool (j :: slots) held = a :: pool slots held :=
        List.filterMap_cons_some hheld
      rw [hpool, List.countP_cons]
      by_cases ha : p a = true
      · have hzero : (pool slots held).countP p = 0 := by
          rw [List.countP_eq_zero]
          intro b hb hpb
          obtain ⟨i, hi, hib⟩ := List.mem_filterMap.mp hb
          exact hj (h i j b a hib hheld hpb ha ▸ hi)
        simp [hzero, ha]
      · simpa [ha] using ih hnodup

variable [DecidableEq ι]

theorem pool_update_of_notMem {slots : List ι} {i : ι} (hi : i ∉ slots) (held : ι → Option α)
    (new : Option α) : pool slots (Function.update held i new) = pool slots held := by
  refine List.filterMap_congr fun j hj => ?_
  exact Function.update_of_ne (ne_of_mem_of_not_mem hj hi) new held

/-- An entry of the pool is in one slot, and replacing it changes that slot only. -/
theorem exists_slot {slots : List ι} (hnodup : slots.Nodup) {held : ι → Option α} {k : Nat}
    {op : α} (h : (pool slots held)[k]? = some op) :
    ∃ i ∈ slots, held i = some op ∧ ∀ new : Option α,
      replace (pool slots held) k new.toList = pool slots (Function.update held i new) := by
  induction slots generalizing k with
  | nil => simp [pool] at h
  | cons j slots ih =>
    obtain ⟨hj, hnodup⟩ := List.nodup_cons.mp hnodup
    have htail : ∀ {k}, (pool slots held)[k]? = some op → ∃ i ∈ slots, i ≠ j ∧ held i = some op ∧
        ∀ new : Option α,
          replace (pool slots held) k new.toList = pool slots (Function.update held i new) := by
      intro k hk
      obtain ⟨i, hi, hheld, hreplace⟩ := ih hnodup hk
      exact ⟨i, hi, ne_of_mem_of_not_mem hi hj, hheld, hreplace⟩
    cases hheld : held j with
    | none =>
      have hpool : pool (j :: slots) held = pool slots held := List.filterMap_cons_none hheld
      rw [hpool] at h ⊢
      obtain ⟨i, hi, hne, hop, hreplace⟩ := htail h
      refine ⟨i, List.mem_cons_of_mem j hi, hop, fun new => ?_⟩
      rw [hreplace]
      refine (List.filterMap_cons_none ?_).symm
      rw [Function.update_of_ne (Ne.symm hne), hheld]
    | some a =>
      have hpool : pool (j :: slots) held = a :: pool slots held :=
        List.filterMap_cons_some hheld
      rw [hpool] at h ⊢
      cases k with
      | zero =>
        obtain rfl : a = op := Option.some.inj h
        refine ⟨j, List.mem_cons_self, hheld, fun new => ?_⟩
        have hrest := pool_update_of_notMem hj held new
        cases new with
        | none =>
          refine Eq.trans ?_ (List.filterMap_cons_none (Function.update_self j none held)).symm
          exact hrest.symm
        | some b =>
          refine Eq.trans ?_ (List.filterMap_cons_some (Function.update_self j (some b) held)).symm
          exact congrArg (b :: ·) hrest.symm
      | succ k =>
        obtain ⟨i, hi, hne, hop, hreplace⟩ := htail (k := k) (by simpa using h)
        refine ⟨i, List.mem_cons_of_mem j hi, hop, fun new => ?_⟩
        have hkeep : Function.update held i new j = some a := by
          rw [Function.update_of_ne (Ne.symm hne), hheld]
        rw [replace_succ, hreplace]
        exact (List.filterMap_cons_some hkeep).symm

end Slots
