import Mathlib.Data.List.GetD
import Mathlib.Order.Interval.Finset.Nat
import Svnsrv.Lib.CText

/-!
# Memory and the strings in it

Bytes by address, what the string functions of the C library read and write, and
strings that have no address in common. A function that writes changes its own range and
nothing else; disjoint strings need no more room than there are addresses.
-/

namespace CMemory

open CText
set_option autoImplicit false

abbrev Mem := Nat → UInt8

/-- Addresses have 64 bits. -/
def addressSpace : Nat := 2 ^ 64

/-- `n` bytes are written from `p` on; a count that leaves the address space does not wrap around. -/
def Mem.fill (m : Mem) (p n : Nat) (f : Nat → UInt8) : Mem := fun a =>
  if p ≤ a ∧ a < p + n then f (a - p) else m a

def memcpy (m : Mem) (dst src n : Nat) : Mem := m.fill dst n fun i => m (src + i)

def memset (m : Mem) (p : Nat) (c : UInt8) (n : Nat) : Mem := m.fill p n fun _ => c

/-- `strncpy` of a string: what is left of the `n` bytes is filled with NUL. -/
def strncpy (m : Mem) (dst : Nat) (src : Bytes) (n : Nat) : Mem := m.fill dst n fun i => src.getD i 0

def strlenLoop (m : Mem) : Nat → Nat → Nat
  | 0, _ => 0
  | fuel + 1, p => if m p = 0 then 0 else strlenLoop m fuel (p + 1) + 1

/-- The loop looks at no address twice. -/
def strlen (m : Mem) (p : Nat) : Nat := strlenLoop m addressSpace p

theorem fill_outside {m : Mem} {p n a : Nat} {f : Nat → UInt8} (h : a < p ∨ p + n ≤ a) :
    m.fill p n f a = m a := if_neg (by omega)

theorem fill_inside {m : Mem} {p n i : Nat} {f : Nat → UInt8} (h : i < n) :
    m.fill p n f (p + i) = f i := by
  rw [Mem.fill, if_pos (by omega), Nat.add_sub_cancel_left]

theorem strncpy_inside {m : Mem} {dst n i : Nat} {src : Bytes} (h : i < n) :
    strncpy m dst src n (dst + i) = src.getD i 0 := fill_inside h

theorem strncpy_outside {m : Mem} {dst n a : Nat} {src : Bytes} (h : a < dst ∨ dst + n ≤ a) :
    strncpy m dst src n a = m a := fill_outside h

theorem memset_inside {m : Mem} {p n a : Nat} {c : UInt8} (h : p ≤ a ∧ a < p + n) :
    memset m p c n a = c := if_pos h

theorem memset_outside {m : Mem} {p n a : Nat} {c : UInt8} (h : a < p ∨ p + n ≤ a) :
    memset m p c n a = m a := fill_outside h

/-! ## Strings -/

/-- The addresses `[a, b)` and `[c, d)` are separate. -/
def Separate (a b c d : Nat) : Prop := b ≤ c ∨ d ≤ a

instance (a b c d : Nat) : Decidable (Separate a b c d) := inferInstanceAs (Decidable (_ ∨ _))

theorem Separate.symm {a b c d : Nat} (h : Separate a b c d) : Separate c d a b := Or.symm h

/-- A range that is separate from two adjacent ones is separate from both together. -/
theorem Separate.join {a b c d e : Nat} (h : Separate a b c d) (h' : Separate a b d e)
    (hab : a < b) : Separate a b c e := by
  unfold Separate at *
  omega

theorem Separate.mono {a b c d a' b' : Nat} (h : Separate a b c d) (ha : a ≤ a') (hb : b' ≤ b) :
    Separate a' b' c d := by
  unfold Separate at *
  omega

/-- A string at an address; its NUL is not part of the text. -/
structure Str where
  addr : Nat
  text : Bytes
  nul_free : 0 ∉ text

namespace Str

def size (c : Str) : Nat := c.text.length + 1

/-- Where the string and its NUL end. -/
def stop (c : Str) : Nat := c.addr + c.size

/-- The string is in the memory. Behind the text `getD` gives the NUL. -/
def In (m : Mem) (c : Str) : Prop := ∀ i, i < c.size → m (c.addr + i) = c.text.getD i 0

instance (m : Mem) (c : Str) : Decidable (c.In m) :=
  inferInstanceAs (Decidable (∀ i, i < c.size → _))

def Apart (c d : Str) : Prop := Separate c.addr c.stop d.addr d.stop

instance (c d : Str) : Decidable (c.Apart d) := inferInstanceAs (Decidable (Separate _ _ _ _))

/-- The same text at another address. -/
def moved (c : Str) (p : Nat) : Str := { c with addr := p }

@[simp] theorem moved_addr (c : Str) (p : Nat) : (c.moved p).addr = p := rfl
@[simp] theorem moved_stop (c : Str) (p : Nat) : (c.moved p).stop = p + c.size := rfl

theorem size_pos (c : Str) : 0 < c.size := Nat.succ_pos _

theorem addr_lt_stop (c : Str) : c.addr < c.stop := Nat.lt_add_of_pos_right c.size_pos

theorem stop_eq (c : Str) : c.stop = c.addr + c.text.length + 1 := rfl

theorem in_congr {m m' : Mem} {c : Str} (h : ∀ a, c.addr ≤ a → a < c.stop → m' a = m a)
    (hin : c.In m) : c.In m' := by
  intro i hi
  rw [h (c.addr + i) (Nat.le_add_right _ _) (Nat.add_lt_add_left hi _), hin i hi]

theorem in_fill {m : Mem} {c : Str} {p n : Nat} {f : Nat → UInt8} (hin : c.In m)
    (h : Separate c.addr c.stop p (p + n)) : c.In (m.fill p n f) := by
  refine in_congr (fun a ha hb => fill_outside ?_) hin
  unfold Separate at h
  omega

theorem in_memcpy_of_separate {m : Mem} {c : Str} {dst src n : Nat} (hin : c.In m)
    (h : Separate c.addr c.stop dst (dst + n)) : c.In (memcpy m dst src n) := in_fill hin h

theorem nul_of_in {m : Mem} {c : Str} (hin : c.In m) : m (c.addr + c.text.length) = 0 := by
  rw [hin _ (Nat.lt_succ_self _), List.getD_eq_default _ _ (Nat.le_refl _)]

theorem ne_nul_of_in {m : Mem} {c : Str} (hin : c.In m) {i : Nat} (hi : i < c.text.length) :
    m (c.addr + i) ≠ 0 := by
  rw [hin i (Nat.lt_succ_of_lt hi), List.getD_eq_getElem _ _ hi]
  intro h
  exact c.nul_free (h ▸ List.getElem_mem hi)

/-- `memcpy` of a string and its NUL makes a copy. -/
theorem in_memcpy {m : Mem} {c : Str} (p : Nat) (hin : c.In m) :
    (c.moved p).In (memcpy m p c.addr c.size) := by
  intro i hi
  exact (fill_inside hi).trans (hin i hi)

end Str

theorem strlenLoop_eq {m : Mem} {n fuel p : Nat} (hne : ∀ i, i < n → m (p + i) ≠ 0)
    (hnul : m (p + n) = 0) (hfuel : n < fuel) : strlenLoop m fuel p = n := by
  induction n generalizing fuel p with
  | zero =>
    obtain ⟨fuel, rfl⟩ := Nat.exists_eq_succ_of_ne_zero (Nat.ne_of_gt hfuel)
    exact if_pos hnul
  | succ n ih =>
    obtain ⟨fuel, rfl⟩ := Nat.exists_eq_succ_of_ne_zero (Nat.ne_of_gt (Nat.zero_lt_of_lt hfuel))
    have hhead : m p ≠ 0 := hne 0 (Nat.succ_pos n)
    rw [strlenLoop, if_neg hhead, ih ?_ ?_ (Nat.lt_of_succ_lt_succ hfuel)]
    · intro i hi
      rw [Nat.add_assoc, Nat.add_comm 1 i]
      exact hne (i + 1) (Nat.succ_lt_succ hi)
    · rwa [Nat.add_assoc, Nat.add_comm 1 n]

theorem strlen_eq {m : Mem} {p n : Nat} (hne : ∀ i, i < n → m (p + i) ≠ 0) (hnul : m (p + n) = 0)
    (hn : n < addressSpace) : strlen m p = n := strlenLoop_eq hne hnul hn

theorem strlen_of_in {m : Mem} {c : Str} (hin : c.In m) (hstop : c.stop < addressSpace) :
    strlen m c.addr = c.text.length := by
  refine strlen_eq (fun _ hi => Str.ne_nul_of_in hin hi) (Str.nul_of_in hin) ?_
  rw [Str.stop_eq] at hstop
  omega

/-! ## Room -/

/-- The bytes that a list of strings takes. -/
def total (l : List Str) : Nat := l.foldr (fun c n => c.size + n) 0

@[simp] theorem total_cons (c : Str) (l : List Str) : total (c :: l) = c.size + total l := rfl

/-- The addresses of separate strings are as many as their bytes. -/
theorem exists_addresses {l : List Str} (h : l.Pairwise Str.Apart) :
    ∃ s : Finset Nat, s.card = total l ∧ ∀ a ∈ s, ∃ c ∈ l, c.addr ≤ a ∧ a < c.stop := by
  induction h with
  | nil => exact ⟨∅, rfl, fun _ ha => absurd ha (Finset.notMem_empty _)⟩
  | @cons c l hc _ ih =>
    obtain ⟨s, hcard, hmem⟩ := ih
    have hdisj : Disjoint (Finset.Ico c.addr c.stop) s := by
      rw [Finset.disjoint_left]
      intro a ha hs
      obtain ⟨d, hd, hle, hlt⟩ := hmem a hs
      have hsep := hc d hd
      rw [Finset.mem_Ico] at ha
      unfold Str.Apart Separate at hsep
      omega
    refine ⟨Finset.Ico c.addr c.stop ∪ s, ?_, ?_⟩
    · rw [Finset.card_union_of_disjoint hdisj, hcard, Nat.card_Ico, Str.stop,
        Nat.add_sub_cancel_left, total_cons]
    · intro a ha
      rcases Finset.mem_union.mp ha with ha | ha
      · exact ⟨c, List.mem_cons_self, Finset.mem_Ico.mp ha⟩
      · obtain ⟨d, hd, hin⟩ := hmem a ha
        exact ⟨d, List.mem_cons_of_mem c hd, hin⟩

theorem total_le {l : List Str} {n : Nat} (h : l.Pairwise Str.Apart) (hn : ∀ c ∈ l, c.stop ≤ n) :
    total l ≤ n := by
  obtain ⟨s, hcard, hmem⟩ := exists_addresses h
  have hsub : s ⊆ Finset.range n := by
    intro a ha
    obtain ⟨c, hc, -, hlt⟩ := hmem a ha
    exact Finset.mem_range.mpr (Nat.lt_of_lt_of_le hlt (hn c hc))
  have hle := Finset.card_le_card hsub
  rwa [hcard, Finset.card_range] at hle

end CMemory
