import Mathlib.Data.List.Basic

/-!
# Cutting a list at its first separators

`cut sep n s` cuts `s` at its first `n` separators. Later ones stay in the last
piece.
-/

namespace Split

set_option autoImplicit false

variable {α : Type} {sep : α}

/-- The pieces of `s`: joined by the separator they give `s`, and only the last one may
contain a separator, if there are `n` pieces before it. -/
inductive IsCut (sep : α) : Nat → List α → List (List α) → Prop
  | last {n : Nat} {s : List α} (h : 0 < n → sep ∉ s) : IsCut sep n s [s]
  | more {n : Nat} {p s : List α} {pieces : List (List α)} (h : sep ∉ p)
      (rest : IsCut sep n s pieces) : IsCut sep (n + 1) (p ++ sep :: s) (p :: pieces)

theorem IsCut.cons {n : Nat} {s p : List α} {pieces : List (List α)} {c : α}
    (hc : ¬(c = sep ∧ 0 < n)) (h : IsCut sep n s (p :: pieces)) :
    IsCut sep n (c :: s) ((c :: p) :: pieces) := by
  cases h with
  | last h =>
    refine .last fun hn hmem => ?_
    rcases List.mem_cons.mp hmem with rfl | hmem
    · exact hc ⟨rfl, hn⟩
    · exact h hn hmem
  | @more n p s pieces h rest =>
    rw [← List.cons_append]
    refine .more (fun hmem => ?_) rest
    rcases List.mem_cons.mp hmem with rfl | hmem
    · exact hc ⟨rfl, Nat.succ_pos n⟩
    · exact h hmem

variable [DecidableEq α]

def cut (sep : α) : Nat → List α → List (List α)
  | _, [] => [[]]
  | n, c :: s => if c = sep ∧ 0 < n then [] :: cut sep (n - 1) s else (cut sep n s).modifyHead (c :: ·)

theorem cut_ne_nil (sep : α) (n : Nat) (s : List α) : cut sep n s ≠ [] := by
  induction s generalizing n with
  | nil => exact List.cons_ne_nil _ _
  | cons c s ih =>
    rw [cut]
    split
    · exact List.cons_ne_nil _ _
    · rw [ne_eq, List.modifyHead_eq_nil_iff]
      exact ih n

theorem isCut_cut (n : Nat) (s : List α) : IsCut sep n s (cut sep n s) := by
  induction s generalizing n with
  | nil => exact .last fun _ => List.not_mem_nil
  | cons c s ih =>
    rw [cut]
    by_cases hc : c = sep ∧ 0 < n
    · obtain ⟨rfl, hn⟩ := hc
      obtain ⟨m, rfl⟩ := Nat.exists_eq_succ_of_ne_zero (Nat.ne_of_gt hn)
      rw [if_pos ⟨rfl, hn⟩]
      exact .more List.not_mem_nil (ih m)
    · rw [if_neg hc]
      obtain ⟨p, pieces, hcut⟩ := List.exists_cons_of_ne_nil (cut_ne_nil sep n s)
      have hs := ih n
      rw [hcut] at hs ⊢
      exact hs.cons hc

theorem cut_of_not_mem {n : Nat} {s : List α} (h : 0 < n → sep ∉ s) : cut sep n s = [s] := by
  induction s with
  | nil => rfl
  | cons c s ih =>
    have hc : ¬(c = sep ∧ 0 < n) := by
      rintro ⟨rfl, hn⟩
      exact h hn List.mem_cons_self
    rw [cut, if_neg hc, ih fun hn hmem => h hn (List.mem_cons_of_mem c hmem)]
    rfl

theorem cut_append {n : Nat} {p : List α} (h : sep ∉ p) (s : List α) :
    cut sep (n + 1) (p ++ sep :: s) = p :: cut sep n s := by
  induction p with
  | nil => exact if_pos ⟨rfl, Nat.succ_pos n⟩
  | cons c p ih =>
    have hc : ¬(c = sep ∧ 0 < n + 1) := by
      rintro ⟨rfl, -⟩
      exact h List.mem_cons_self
    rw [List.cons_append, cut, if_neg hc, ih fun hmem => h (List.mem_cons_of_mem c hmem)]
    rfl

theorem IsCut.eq_cut {n : Nat} {s : List α} {pieces : List (List α)} (h : IsCut sep n s pieces) :
    pieces = cut sep n s := by
  induction h with
  | last h => exact (cut_of_not_mem h).symm
  | more h rest ih => rw [cut_append h, ih]

/-- Piece `i`, where the scan starts in piece `d` and the last piece is `limit`. -/
def piece (sep : α) (limit d : Nat) (s : List α) (i : Nat) : List α :=
  if d ≤ i then (cut sep (limit - d) s).getD (i - d) [] else []

variable {limit d : Nat}

@[simp] theorem piece_nil (i : Nat) : piece sep limit d [] i = [] := by
  unfold piece
  split
  · cases i - d <;> rfl
  · rfl

theorem piece_sep (hd : d < limit) (s : List α) (i : Nat) :
    piece sep limit d (sep :: s) i = piece sep limit (d + 1) s i := by
  have hcut : cut sep (limit - d) (sep :: s) = [] :: cut sep (limit - (d + 1)) s :=
    if_pos ⟨rfl, Nat.sub_pos_of_lt hd⟩
  unfold piece
  rw [hcut]
  rcases Nat.lt_trichotomy d i with hi | rfl | hi
  · have hsub : i - d = (i - (d + 1)) + 1 := by omega
    rw [if_pos (Nat.le_of_lt hi), if_pos (Nat.succ_le_of_lt hi), hsub]
    rfl
  · rw [if_pos (Nat.le_refl d), if_neg (Nat.not_succ_le_self d), Nat.sub_self]
    rfl
  · rw [if_neg (Nat.not_le.mpr hi), if_neg (by omega)]

theorem piece_cons {c : α} (hc : ¬(c = sep ∧ d < limit)) (s : List α) (i : Nat) :
    piece sep limit d (c :: s) i =
      if i = d then c :: piece sep limit d s i else piece sep limit d s i := by
  have hc' : ¬(c = sep ∧ 0 < limit - d) := fun h => hc ⟨h.1, by omega⟩
  obtain ⟨p, pieces, hcut⟩ := List.exists_cons_of_ne_nil (cut_ne_nil sep (limit - d) s)
  unfold piece
  rw [cut, if_neg hc', hcut]
  rcases Nat.lt_trichotomy d i with hi | rfl | hi
  · have hsub : i - d = (i - (d + 1)) + 1 := by omega
    rw [if_pos (Nat.le_of_lt hi), if_neg (Nat.ne_of_gt hi), if_pos (Nat.le_of_lt hi), hsub]
    rfl
  · simp
  · rw [if_neg (Nat.not_le.mpr hi), if_neg (Nat.ne_of_lt hi), if_neg (Nat.not_le.mpr hi)]

theorem piece_of_lt {i : Nat} (hi : i < d) (s : List α) : piece sep limit d s i = [] :=
  if_neg (Nat.not_le.mpr hi)

end Split
