import Mathlib.Data.Prod.Lex

/-!
# First-match interval tables

A table is a list of closed intervals of keys, each with a target and a switch.
The first enabled interval that contains the key decides. Keys may be packed
into another order as long as the packing embeds the order.
-/

namespace RangeTable

set_option autoImplicit false

structure Rule (κ ν : Type) where
  lower : κ
  upper : κ
  enabled : Bool
  target : ν

variable {κ κ' ν : Type}

def Rule.Covers [LE κ] (r : Rule κ ν) (k : κ) : Prop :=
  r.enabled = true ∧ r.lower ≤ k ∧ k ≤ r.upper

instance [LE κ] [DecidableLE κ] (r : Rule κ ν) (k : κ) : Decidable (r.Covers k) :=
  inferInstanceAs (Decidable (_ ∧ _ ∧ _))

/-- The target of the first rule that covers the key, or the default. -/
def select [LE κ] [DecidableLE κ] (default : ν) (k : κ) : List (Rule κ ν) → ν
  | [] => default
  | r :: rules => if r.Covers k then r.target else select default k rules

variable [LE κ] [DecidableLE κ] [LE κ'] [DecidableLE κ']

/-- Two tables made from one list select alike if their rules have the same targets and
cover their keys at the same places. -/
theorem select_map_congr {α : Type} {entries : List α} {f : α → Rule κ ν} {g : α → Rule κ' ν}
    {k : κ} {k' : κ'} (default : ν)
    (h : ∀ e ∈ entries, ((f e).Covers k ↔ (g e).Covers k') ∧ (f e).target = (g e).target) :
    select default k (entries.map f) = select default k' (entries.map g) := by
  induction entries with
  | nil => rfl
  | cons e entries ih =>
    obtain ⟨hcovers, htarget⟩ := h e List.mem_cons_self
    have hrest := ih fun a ha => h a (List.mem_cons_of_mem e ha)
    simp only [List.map_cons, select, hcovers, htarget, hrest]

theorem select_append_of_target {rs : List (Rule κ ν)} {target : ν} (default : ν) (k : κ)
    (htarget : ∀ r ∈ rs, r.target = target) (post : List (Rule κ ν)) :
    select default k (rs ++ post) =
      if ∃ r ∈ rs, r.Covers k then target else select default k post := by
  induction rs with
  | nil => simp
  | cons r rs ih =>
    have hrest := ih fun a ha => htarget a (List.mem_cons_of_mem r ha)
    rw [List.cons_append, select, hrest, htarget r List.mem_cons_self]
    by_cases hcovers : r.Covers k
    · rw [if_pos hcovers, if_pos ⟨r, List.mem_cons_self, hcovers⟩]
    · simp [hcovers]

/-- Rules with the target of `r` that together cover what `r` covers may stand for it. -/
theorem select_replace {r : Rule κ ν} {rs : List (Rule κ ν)} (default : ν) {k : κ}
    (hcovers : r.Covers k ↔ ∃ a ∈ rs, a.Covers k) (htarget : ∀ a ∈ rs, a.target = r.target)
    (pre post : List (Rule κ ν)) :
    select default k (pre ++ r :: post) = select default k (pre ++ (rs ++ post)) := by
  induction pre with
  | nil =>
    rw [List.nil_append, List.nil_append, select_append_of_target default k htarget, select]
    simp only [hcovers]
  | cons a pre ih => rw [List.cons_append, List.cons_append, select, select, ih]

theorem select_skip {pre : List (Rule κ ν)} (default : ν) {k : κ}
    (hpre : ∀ r ∈ pre, ¬ r.Covers k) (post : List (Rule κ ν)) :
    select default k (pre ++ post) = select default k post := by
  induction pre with
  | nil => rfl
  | cons r pre ih =>
    rw [List.cons_append, select, if_neg (hpre r List.mem_cons_self)]
    exact ih fun a ha => hpre a (List.mem_cons_of_mem r ha)

/-- The first rule that covers the key decides. -/
theorem select_first {pre : List (Rule κ ν)} {r : Rule κ ν} (default : ν) {k : κ}
    (hpre : ∀ a ∈ pre, ¬ a.Covers k) (hr : r.Covers k) (post : List (Rule κ ν)) :
    select default k (pre ++ r :: post) = r.target := by
  rw [select_skip default hpre, select, if_pos hr]

/-- A rule may be dropped where it does not cover the key. -/
theorem select_drop {r : Rule κ ν} (default : ν) {k : κ} (h : ¬ r.Covers k)
    (pre post : List (Rule κ ν)) :
    select default k (pre ++ r :: post) = select default k (pre ++ post) := by
  have hcovers : r.Covers k ↔ ∃ a ∈ ([] : List (Rule κ ν)), a.Covers k := by simpa using h
  exact select_replace default hcovers (by simp) pre post

/-- The order of the rules is immaterial for a key that no two of them cover. -/
theorem select_perm {rules rules' : List (Rule κ ν)} (default : ν) {k : κ}
    (hone : rules.Pairwise fun r r' => ¬ (r.Covers k ∧ r'.Covers k))
    (hperm : rules.Perm rules') : select default k rules = select default k rules' := by
  induction hperm with
  | nil => rfl
  | cons r _ ih =>
    rw [select, select, ih hone.of_cons]
  | swap r r' rules =>
    have hboth := List.rel_of_pairwise_cons hone List.mem_cons_self
    simp only [select]
    by_cases hr : r.Covers k
    · have hr' : ¬ r'.Covers k := fun h => hboth ⟨h, hr⟩
      rw [if_neg hr', if_pos hr, if_pos hr]
    · rw [if_neg hr, if_neg hr]
  | trans hperm _ ih ih' =>
    rw [ih hone]
    apply ih'
    apply hperm.pairwise hone
    intro r r' h hcovers
    exact h hcovers.symm

/-- The default is selected where the first rule that covers the key, if any, has its target. -/
theorem select_eq_default_iff {α : Type} (f : α → Rule κ ν) (default : ν) (k : κ)
    (entries : List α) : select default k (entries.map f) = default ↔
      ∀ pre e post, entries = pre ++ e :: post → (f e).Covers k →
        (∀ a ∈ pre, ¬ (f a).Covers k) → (f e).target = default := by
  induction entries with
  | nil => simp [select]
  | cons a entries ih =>
    rw [List.map_cons, select]
    by_cases ha : (f a).Covers k
    · rw [if_pos ha]
      constructor
      · intro htarget pre e post h hcovers hpre
        cases pre with
        | nil =>
          obtain ⟨rfl, -⟩ := List.cons.inj h
          exact htarget
        | cons a' pre =>
          obtain ⟨rfl, -⟩ := List.cons.inj h
          exact absurd ha (hpre a List.mem_cons_self)
      · intro h
        exact h [] a entries rfl ha (by simp)
    · rw [if_neg ha, ih]
      constructor
      · intro htarget pre e post h hcovers hpre
        cases pre with
        | nil =>
          obtain ⟨rfl, -⟩ := List.cons.inj h
          exact absurd hcovers ha
        | cons a' pre =>
          obtain ⟨rfl, rfl⟩ := List.cons.inj h
          exact htarget pre e post rfl hcovers fun b hb => hpre b (List.mem_cons_of_mem a hb)
      · intro h pre e post hentries hcovers hpre
        apply h (a :: pre) e post (by rw [hentries, List.cons_append]) hcovers
        intro b hb
        rcases List.mem_cons.mp hb with rfl | hb
        · exact ha
        · exact hpre b hb

/-- A pair of digits below the stride is ordered as the packed number is. -/
theorem pack_le_pack {stride a b c d : Nat} (hb : b < stride) (hd : d < stride) :
    a * stride + b ≤ c * stride + d ↔ a < c ∨ (a = c ∧ b ≤ d) := by
  rcases Nat.lt_trichotomy a c with h | rfl | h
  · have : (a + 1) * stride ≤ c * stride := Nat.mul_le_mul_right stride h
    rw [Nat.add_mul] at this
    omega
  · omega
  · have : (c + 1) * stride ≤ a * stride := Nat.mul_le_mul_right stride h
    rw [Nat.add_mul] at this
    omega

end RangeTable
