import Svnsrv.Lib.CText

/-!
# The ra_svn item syntax

Items of the Subversion network protocol and the octets that spell them. Every
item is closed by a non-empty run of spaces and newlines, also after an opening
parenthesis. `Text` is a relation because the run, and leading zeros of a
number, are the writer's choice.
-/

namespace RaSvn
open CText

inductive Item where
  | number (n : Nat)
  | string (s : Bytes)
  | word (w : Bytes)
  | list (items : List Item)

def IsSeparator (ws : Bytes) : Prop := ws ≠ [] ∧ ∀ c ∈ ws, c = space ∨ c = newline

/-- Letters, digits and the hyphen. -/
def wordByte (c : UInt8) : Bool :=
  isDigit c || (65 ≤ c && c ≤ 90) || (97 ≤ c && c ≤ 122) || c == minus

def IsWord (w : Bytes) : Prop := w ≠ [] ∧ ∀ c ∈ w, wordByte c = true

instance : DecidablePred IsWord := fun w =>
  decidable_of_iff (w ≠ [] ∧ w.all wordByte = true) (and_congr_right' List.all_eq_true)

mutual
inductive Text : Item → Bytes → Prop
  | number {n : Nat} {ds ws : Bytes} (digits : IsNumeral ds n) (sep : IsSeparator ws) :
      Text (.number n) (ds ++ ws)
  | string {s ds ws : Bytes} (digits : IsNumeral ds s.length) (sep : IsSeparator ws) :
      Text (.string s) (ds ++ colon :: (s ++ ws))
  | word {w ws : Bytes} (word : IsWord w) (sep : IsSeparator ws) :
      Text (.word w) (w ++ ws)
  | list {items : List Item} {ws t ws' : Bytes} (sep : IsSeparator ws)
      (content : Texts items t) (sep' : IsSeparator ws') :
      Text (.list items) (lparen :: (ws ++ (t ++ rparen :: ws')))
inductive Texts : List Item → Bytes → Prop
  | nil : Texts [] []
  | cons {i : Item} {is : List Item} {t u : Bytes} (head : Text i t) (tail : Texts is u) :
      Texts (i :: is) (t ++ u)
end

theorem isSeparator_space : IsSeparator [space] :=
  ⟨by simp, fun c hc => .inl (List.mem_singleton.mp hc)⟩

/-! Items with a single space behind them. -/

theorem text_string (s ds : Bytes) (h : IsNumeral ds s.length) :
    Text (.string s) (ds ++ colon :: (s ++ [space])) :=
  .string h isSeparator_space

theorem text_word (w : Bytes) (h : IsWord w) : Text (.word w) (w ++ [space]) :=
  .word h isSeparator_space

theorem text_list {items : List Item} {t : Bytes} (h : Texts items t) :
    Text (.list items) (lparen :: ([space] ++ (t ++ rparen :: [space]))) :=
  .list isSeparator_space h isSeparator_space

theorem IsSeparator.exists_cons {ws : Bytes} (h : IsSeparator ws) :
    ∃ c r, ws = c :: r ∧ (c = space ∨ c = newline) := by
  obtain ⟨c, r, rfl⟩ := List.exists_cons_of_ne_nil h.1
  exact ⟨c, r, rfl, h.2 c List.mem_cons_self⟩

/-- A word is none of the bytes that structure a message. -/
theorem not_structural_of_wordByte {c : UInt8} (h : wordByte c = true) :
    c ≠ lparen ∧ c ≠ rparen ∧ c ≠ space ∧ c ≠ newline ∧ c ≠ colon ∧ c ≠ 0 := by
  simp only [wordByte, Bool.or_eq_true, Bool.and_eq_true, decide_eq_true_eq, beq_iff_eq,
    isDigit_iff, UInt8.le_iff_toNat_le, ← UInt8.toNat_inj, minus, UInt8.reduceToNat] at h
  simp only [ne_eq, ← UInt8.toNat_inj, lparen, rparen, space, newline, colon, UInt8.reduceToNat]
  omega

theorem wordByte_of_isDigit {c : UInt8} (h : isDigit c = true) : wordByte c = true := by
  simp [wordByte, h]

end RaSvn
