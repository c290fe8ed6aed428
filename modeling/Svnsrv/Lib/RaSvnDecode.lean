import Svnsrv.Lib.RaSvn

/-!
# Reading ra_svn items

A reader of the item syntax. A run of digits is a number, or the length of a
string if a colon follows; a letter starts a word. The reader gives back the item
that a text spells, whatever the octets of its strings are.
-/

namespace RaSvn
open CText
set_option autoImplicit false

def isSeparatorByte (c : UInt8) : Bool := c == space || c == newline

def isLetter (c : UInt8) : Bool := (65 ≤ c && c ≤ 90) || (97 ≤ c && c ≤ 122)

/-- What follows the run that closes an item. -/
def closeItem : Bytes → Option Bytes
  | [] => none
  | c :: r => if isSeparatorByte c then some (r.dropWhile isSeparatorByte) else none

/-- An item that starts with the digits `ds`. -/
def decodeDigits (ds : Bytes) : Bytes → Option (Item × Bytes)
  | [] => none
  | c :: r =>
    if c = colon then
      if numeral ds ≤ r.length then
        (closeItem (r.drop (numeral ds))).map fun rest => (.string (r.take (numeral ds)), rest)
      else none
    else (closeItem (c :: r)).map fun rest => (.number (numeral ds), rest)

mutual
/-- The first item of a text and the bytes behind it. -/
def decodeItem : Nat → Bytes → Option (Item × Bytes)
  | 0, _ => none
  | _ + 1, [] => none
  | fuel + 1, c :: r =>
    if isDigit c then decodeDigits ((c :: r).takeWhile isDigit) ((c :: r).dropWhile isDigit)
    else if isLetter c then
      (closeItem ((c :: r).dropWhile wordByte)).map fun rest =>
        (.word ((c :: r).takeWhile wordByte), rest)
    else if c = lparen then do
      let r ← closeItem r
      let (items, r) ← decodeItems fuel r
      let r ← closeItem r
      return (.list items, r)
    else none
/-- The items before the parenthesis that closes a list. -/
def decodeItems : Nat → Bytes → Option (List Item × Bytes)
  | 0, _ => none
  | _ + 1, [] => none
  | fuel + 1, c :: r =>
    if c = rparen then some ([], r)
    else do
      let (i, r) ← decodeItem fuel (c :: r)
      let (is, r) ← decodeItems fuel r
      return (i :: is, r)
end

def decode (b : Bytes) : Option (Item × Bytes) := decodeItem b.length b

/-! ## Words start with a letter -/

mutual
def Item.lettered : Item → Bool
  | .number _ => true
  | .string _ => true
  | .word w => w.head?.any isLetter
  | .list items => lettereds items
def lettereds : List Item → Bool
  | [] => true
  | i :: is => i.lettered && lettereds is
end

/-! ## Runs -/

/-- The bytes behind an item do not go on with the run that closes it. -/
def Clear (rest : Bytes) : Prop := ∀ c ∈ rest.head?, isSeparatorByte c = false

theorem isSeparatorByte_iff {c : UInt8} : isSeparatorByte c = true ↔ c = space ∨ c = newline := by
  simp [isSeparatorByte]

theorem dropWhile_of_clear {rest : Bytes} (h : Clear rest) :
    rest.dropWhile isSeparatorByte = rest := by
  cases rest with
  | nil => rfl
  | cons c r => exact List.dropWhile_cons_of_neg (by simp [h c rfl])

theorem closeItem_separator {ws rest : Bytes} (h : IsSeparator ws) (hrest : Clear rest) :
    closeItem (ws ++ rest) = some rest := by
  obtain ⟨c, r, rfl, -⟩ := h.exists_cons
  have hall : ∀ a ∈ c :: r, isSeparatorByte a = true := fun a ha =>
    isSeparatorByte_iff.mpr (h.2 a ha)
  rw [List.cons_append, closeItem, if_pos (hall c List.mem_cons_self),
    List.dropWhile_append_of_pos fun a ha => hall a (List.mem_cons_of_mem c ha),
    dropWhile_of_clear hrest]

theorem takeWhile_stop {p : UInt8 → Bool} {l r : Bytes} {c : UInt8} (hl : ∀ a ∈ l, p a = true)
    (hc : p c = false) : (l ++ c :: r).takeWhile p = l := by
  rw [List.takeWhile_append_of_pos hl, List.takeWhile_cons_of_neg (by simp [hc]), List.append_nil]

theorem dropWhile_stop {p : UInt8 → Bool} {l r : Bytes} {c : UInt8} (hl : ∀ a ∈ l, p a = true)
    (hc : p c = false) : (l ++ c :: r).dropWhile p = c :: r := by
  rw [List.dropWhile_append_of_pos hl, List.dropWhile_cons_of_neg (by simp [hc])]

theorem separatorByte_facts {c : UInt8} (h : c = space ∨ c = newline) :
    isDigit c = false ∧ wordByte c = false ∧ c ≠ colon := by
  rcases h with rfl | rfl <;> decide

theorem letter_facts {c : UInt8} (h : isLetter c = true) :
    isDigit c = false ∧ wordByte c = true ∧ isSeparatorByte c = false ∧ c ≠ rparen := by
  have hword : wordByte c = true := by
    simp only [isLetter, Bool.or_eq_true] at h
    simp only [wordByte, Bool.or_eq_true]
    rcases h with h | h
    · exact .inl (.inl (.inr h))
    · exact .inl (.inr h)
  obtain ⟨-, hparen, hspace, hnewline, -, -⟩ := not_structural_of_wordByte hword
  refine ⟨?_, hword, ?_, hparen⟩
  · rw [← Bool.not_eq_true, isDigit_iff]
    simp only [isLetter, Bool.or_eq_true, Bool.and_eq_true, decide_eq_true_eq,
      UInt8.le_iff_toNat_le, UInt8.reduceToNat] at h
    omega
  · rw [← Bool.not_eq_true, isSeparatorByte_iff]
    exact not_or.mpr ⟨hspace, hnewline⟩

theorem digit_facts {c : UInt8} (h : isDigit c = true) :
    isSeparatorByte c = false ∧ c ≠ rparen := by
  obtain ⟨-, hparen, hspace, hnewline, -, -⟩ := not_structural_of_wordByte (wordByte_of_isDigit h)
  refine ⟨?_, hparen⟩
  rw [← Bool.not_eq_true, isSeparatorByte_iff]
  exact not_or.mpr ⟨hspace, hnewline⟩

/-! ## Every text is read back -/

section Read

variable {ds ws rest s w t : Bytes} {n fuel : Nat} {items : List Item}

/-- A text that starts with a numeral, up to the byte behind it. -/
theorem decodeItem_digits {c : UInt8} (h : IsNumeral ds n) (hc : isDigit c = false) (r : Bytes) :
    decodeItem (fuel + 1) (ds ++ c :: r) = decodeDigits ds (c :: r) := by
  obtain ⟨d, ds', rfl⟩ := List.exists_cons_of_ne_nil h.nonempty
  rw [List.cons_append, decodeItem, if_pos (h.digits d List.mem_cons_self), ← List.cons_append,
    takeWhile_stop h.digits hc, dropWhile_stop h.digits hc]

theorem decodeItem_number (h : IsNumeral ds n) (hws : IsSeparator ws) (hrest : Clear rest) :
    decodeItem (fuel + 1) ((ds ++ ws) ++ rest) = some (.number n, rest) := by
  have hclose := closeItem_separator hws hrest
  obtain ⟨c, r, rfl, hc⟩ := hws.exists_cons
  obtain ⟨hdigit, -, hcolon⟩ := separatorByte_facts hc
  rw [List.cons_append] at hclose
  rw [List.append_assoc, List.cons_append, decodeItem_digits h hdigit, decodeDigits,
    if_neg hcolon, hclose, h.value, Option.map_some]

theorem decodeItem_string (h : IsNumeral ds s.length) (hws : IsSeparator ws) (hrest : Clear rest) :
    decodeItem (fuel + 1) ((ds ++ colon :: (s ++ ws)) ++ rest) = some (.string s, rest) := by
  have hlen : s.length ≤ (s ++ (ws ++ rest)).length := by
    rw [List.length_append]
    exact Nat.le_add_right _ _
  rw [List.append_assoc, List.cons_append, List.append_assoc,
    decodeItem_digits h (by decide), decodeDigits, if_pos rfl, h.value, if_pos hlen,
    List.drop_left, List.take_left, closeItem_separator hws hrest, Option.map_some]

theorem decodeItem_word (h : IsWord w) (hw : (Item.word w).lettered = true) (hws : IsSeparator ws)
    (hrest : Clear rest) : decodeItem (fuel + 1) ((w ++ ws) ++ rest) = some (.word w, rest) := by
  have hclose := closeItem_separator hws hrest
  obtain ⟨c, r, rfl, hc⟩ := hws.exists_cons
  obtain ⟨-, hstop, -⟩ := separatorByte_facts hc
  obtain ⟨a, w', rfl⟩ := List.exists_cons_of_ne_nil h.1
  have hletter : isLetter a = true := by simpa [Item.lettered] using hw
  have hdigit : ¬ isDigit a = true := by simp [(letter_facts hletter).1]
  rw [List.cons_append] at hclose
  rw [List.append_assoc, List.cons_append, List.cons_append, decodeItem, if_neg hdigit,
    if_pos hletter, ← List.cons_append, takeWhile_stop h.2 hstop, dropWhile_stop h.2 hstop, hclose,
    Option.map_some]

theorem decodeItem_list {ws' : Bytes} (hws : IsSeparator ws) (hws' : IsSeparator ws')
    (hrest : Clear rest) (ht : Clear (t ++ rparen :: (ws' ++ rest)))
    (hitems : decodeItems fuel (t ++ rparen :: (ws' ++ rest)) = some (items, ws' ++ rest)) :
    decodeItem (fuel + 1) ((lparen :: (ws ++ (t ++ rparen :: ws'))) ++ rest) =
      some (.list items, rest) := by
  have hopen := closeItem_separator hws ht
  have hclose := closeItem_separator hws' hrest
  have hshape : (lparen :: (ws ++ (t ++ rparen :: ws'))) ++ rest =
      lparen :: (ws ++ (t ++ rparen :: (ws' ++ rest))) := by simp
  rw [hshape, decodeItem, if_neg (by decide), if_neg (by decide), if_pos rfl]
  simp only [hopen, hitems, hclose, Option.bind_eq_bind, Option.bind_some]
  rfl

end Read

/-- No text starts with a byte that a list may not go on with. -/
theorem text_head {i : Item} {t : Bytes} (h : Text i t) (hi : i.lettered = true) :
    ∃ c r, t = c :: r ∧ isSeparatorByte c = false ∧ c ≠ rparen := by
  cases h with
  | @number n ds ws digits sep =>
    obtain ⟨d, ds', rfl⟩ := List.exists_cons_of_ne_nil digits.nonempty
    exact ⟨d, _, rfl, digit_facts (digits.digits d List.mem_cons_self)⟩
  | @string s ds ws digits sep =>
    obtain ⟨d, ds', rfl⟩ := List.exists_cons_of_ne_nil digits.nonempty
    exact ⟨d, _, rfl, digit_facts (digits.digits d List.mem_cons_self)⟩
  | @word w ws hw sep =>
    obtain ⟨a, w', rfl⟩ := List.exists_cons_of_ne_nil hw.1
    have hletter : isLetter a = true := by simpa [Item.lettered] using hi
    exact ⟨a, _, rfl, (letter_facts hletter).2.2⟩
  | list sep content sep' => exact ⟨lparen, _, rfl, by decide⟩

theorem clear_of_texts {is : List Item} {t : Bytes} (h : Texts is t) (his : lettereds is = true)
    (r : Bytes) : Clear (t ++ rparen :: r) := by
  intro c hc
  cases h with
  | nil =>
    obtain rfl : rparen = c := by simpa using hc
    decide
  | @cons i is t u head tail =>
    rw [lettereds, Bool.and_eq_true] at his
    obtain ⟨d, r', rfl, hd, -⟩ := text_head head his.1
    obtain rfl : d = c := by simpa using hc
    exact hd

mutual
/-- The reader undoes the spelling of an item. -/
theorem decodeItem_text {i : Item} {t : Bytes} (h : Text i t) (hi : i.lettered = true)
    (fuel : Nat) (rest : Bytes) (hfuel : t.length ≤ fuel) (hrest : Clear rest) :
    decodeItem fuel (t ++ rest) = some (i, rest) := by
  obtain ⟨c, r, ht, -⟩ := text_head h hi
  obtain ⟨fuel, rfl⟩ : ∃ k, fuel = k + 1 := by
    rw [ht, List.length_cons] at hfuel
    exact ⟨fuel - 1, by omega⟩
  cases h with
  | number digits sep => exact decodeItem_number digits sep hrest
  | string digits sep => exact decodeItem_string digits sep hrest
  | word word sep => exact decodeItem_word word hi sep hrest
  | @list items ws t ws' sep content sep' =>
    rw [Item.lettered] at hi
    apply decodeItem_list sep sep' hrest (clear_of_texts content hi _)
    apply decodeItems_texts content hi
    simp only [List.length_cons, List.length_append] at hfuel
    omega
theorem decodeItems_texts {is : List Item} {t : Bytes} (h : Texts is t) (his : lettereds is = true)
    (fuel : Nat) (rest : Bytes) (hfuel : t.length < fuel) :
    decodeItems fuel (t ++ rparen :: rest) = some (is, rest) := by
  obtain ⟨fuel, rfl⟩ : ∃ k, fuel = k + 1 := ⟨fuel - 1, by omega⟩
  cases h with
  | nil => rfl
  | @cons i is t u head tail =>
    rw [lettereds, Bool.and_eq_true] at his
    obtain ⟨c, r, ht, -, hparen⟩ := text_head head his.1
    have hlen : 0 < t.length := by
      rw [ht]
      exact Nat.zero_lt_succ _
    rw [List.length_append] at hfuel
    have hitem := decodeItem_text head his.1 fuel (u ++ rparen :: rest) (by omega)
      (clear_of_texts tail his.2 rest)
    have hitems := decodeItems_texts tail his.2 fuel rest (by omega)
    rw [List.append_assoc]
    rw [ht, List.cons_append] at hitem ⊢
    rw [decodeItems, if_neg hparen, hitem, Option.bind_eq_bind, Option.bind_some]
    simp only [hitems]
    rfl
end

/-- A text that spells an item spells no other, and nothing is left of it. -/
theorem decode_text {i : Item} {t : Bytes} (h : Text i t) (hi : i.lettered = true) :
    decode t = some (i, []) := by
  have hread := decodeItem_text h hi t.length [] (Nat.le_refl _) fun c hc => by cases hc
  rwa [List.append_nil] at hread

end RaSvn
