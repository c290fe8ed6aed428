import Svnsrv.Lib.CText

/-!
# The number at the start of a text

White space, at most one sign and a run of digits, as `strtol` and `fscanf` with `%d` look for
it. `NumberAt` says what is written, `leadingNumber` reads it, and `strtol` is that number
brought into the range of a `long`.
-/

namespace CText

set_option autoImplicit false

/-- The text begins with this number; the digits go up to a byte that is none. -/
inductive NumberAt : Bytes → Int → Prop
  | pos {blanks sign ds rest : Bytes} {n : Nat} (hblanks : ∀ c ∈ blanks, isSpace c = true)
      (hsign : sign = [] ∨ sign = [plus]) (hds : IsNumeral ds n)
      (hrest : ∀ c ∈ rest.head?, isDigit c = false) :
      NumberAt (blanks ++ (sign ++ (ds ++ rest))) n
  | neg {blanks ds rest : Bytes} {n : Nat} (hblanks : ∀ c ∈ blanks, isSpace c = true)
      (hds : IsNumeral ds n) (hrest : ∀ c ∈ rest.head?, isDigit c = false) :
      NumberAt (blanks ++ minus :: (ds ++ rest)) (-n)

def leadingNumber (t : Bytes) : Option Int :=
  match t.dropWhile isSpace with
  | [] => none
  | c :: r =>
    let digits := (if c = minus ∨ c = plus then r else c :: r).takeWhile isDigit
    if digits = [] then none
    else some (if c = minus then -(numeral digits : Int) else numeral digits)

theorem takeWhile_digits {ds rest : Bytes} {n : Nat} (hds : IsNumeral ds n)
    (hrest : ∀ c ∈ rest.head?, isDigit c = false) : (ds ++ rest).takeWhile isDigit = ds := by
  rw [List.takeWhile_append_of_pos hds.digits]
  cases rest with
  | nil => rw [List.takeWhile_nil, List.append_nil]
  | cons c rest =>
    have hc := hrest c rfl
    rw [List.takeWhile_cons_of_neg (by rw [hc]; exact Bool.false_ne_true), List.append_nil]

theorem dropWhile_blanks {blanks r : Bytes} {c : UInt8}
    (hblanks : ∀ a ∈ blanks, isSpace a = true) (hc : isSpace c = false) :
    (blanks ++ c :: r).dropWhile isSpace = c :: r := by
  rw [List.dropWhile_append_of_pos hblanks,
    List.dropWhile_cons_of_neg (by rw [hc]; exact Bool.false_ne_true)]

theorem leadingNumber_of_sign {blanks ds rest : Bytes} {n : Nat} {c : UInt8}
    (hblanks : ∀ a ∈ blanks, isSpace a = true) (hc : isSpace c = false)
    (hsign : c = minus ∨ c = plus) (hds : IsNumeral ds n)
    (hrest : ∀ c ∈ rest.head?, isDigit c = false) :
    leadingNumber (blanks ++ c :: (ds ++ rest)) = some (if c = minus then -(n : Int) else n) := by
  simp only [leadingNumber, dropWhile_blanks hblanks hc, if_pos hsign, takeWhile_digits hds hrest,
    if_neg hds.nonempty, hds.value]

theorem leadingNumber_of_digits {blanks ds rest : Bytes} {n : Nat}
    (hblanks : ∀ a ∈ blanks, isSpace a = true) (hds : IsNumeral ds n)
    (hrest : ∀ c ∈ rest.head?, isDigit c = false) :
    leadingNumber (blanks ++ (ds ++ rest)) = some (n : Int) := by
  obtain ⟨d, r, hcons⟩ := List.exists_cons_of_ne_nil hds.nonempty
  have hd : isDigit d = true := hds.digits d (hcons ▸ List.mem_cons_self)
  have hsign := ne_sign_of_isDigit hd
  have htake := takeWhile_digits hds hrest
  have hvalue := hds.value
  rw [hcons, List.cons_append] at htake
  rw [hcons] at hvalue
  rw [hcons, List.cons_append]
  simp only [leadingNumber, dropWhile_blanks hblanks (not_isSpace_of_isDigit hd), hsign.1, hsign.2,
    or_self, if_false, htake, hvalue]
  exact if_neg (List.cons_ne_nil d r)

theorem leadingNumber_of_numberAt {t : Bytes} {v : Int} (h : NumberAt t v) :
    leadingNumber t = some v := by
  cases h with
  | pos hblanks hsign hds hrest =>
    rcases hsign with rfl | rfl
    · rw [List.nil_append]
      exact leadingNumber_of_digits hblanks hds hrest
    · rw [List.singleton_append]
      exact leadingNumber_of_sign hblanks (by decide) (.inr rfl) hds hrest
  | neg hblanks hds hrest => exact leadingNumber_of_sign hblanks (by decide) (.inl rfl) hds hrest

/-- A run of digits and what is behind it. -/
theorem isNumeral_takeWhile {t : Bytes} (hne : t.takeWhile isDigit ≠ []) :
    IsNumeral (t.takeWhile isDigit) (numeral (t.takeWhile isDigit)) :=
  ⟨hne, fun _ hc => List.mem_takeWhile_imp hc, rfl⟩

theorem head_dropWhile_digits (t : Bytes) :
    ∀ c ∈ (t.dropWhile isDigit).head?, isDigit c = false := by
  intro c hc
  have h := List.head?_dropWhile_not isDigit t
  rw [Option.mem_def.mp hc] at h
  exact h

/-- Where the digits of a number are: behind a minus, behind a plus, or at once. -/
theorem leadingNumber_cases {t : Bytes} {v : Int} (h : leadingNumber t = some v) :
    (∃ r, t.dropWhile isSpace = minus :: r ∧ r.takeWhile isDigit ≠ [] ∧
      v = -(numeral (r.takeWhile isDigit) : Int)) ∨
    (∃ r, t.dropWhile isSpace = plus :: r ∧ r.takeWhile isDigit ≠ [] ∧
      v = numeral (r.takeWhile isDigit)) ∨
    ∃ c r, t.dropWhile isSpace = c :: r ∧ c ≠ minus ∧ c ≠ plus ∧
      (c :: r).takeWhile isDigit ≠ [] ∧ v = numeral ((c :: r).takeWhile isDigit) := by
  unfold leadingNumber at h
  cases hdrop : t.dropWhile isSpace with
  | nil =>
    rw [hdrop] at h
    cases h
  | cons c r =>
    rw [hdrop] at h
    obtain ⟨hne, hv⟩ := Option.ite_none_left_eq_some.mp h
    have hv := (Option.some.inj hv).symm
    by_cases hminus : c = minus
    · have hsign : c = minus ∨ c = plus := .inl hminus
      rw [if_pos hsign] at hne hv
      rw [if_pos hminus] at hv
      exact .inl ⟨r, by rw [hminus], hne, hv⟩
    · rw [if_neg hminus] at hv
      by_cases hplus : c = plus
      · have hsign : c = minus ∨ c = plus := .inr hplus
        rw [if_pos hsign] at hne hv
        exact .inr (.inl ⟨r, by rw [hplus], hne, hv⟩)
      · have hsign : ¬(c = minus ∨ c = plus) := not_or.mpr ⟨hminus, hplus⟩
        rw [if_neg hsign] at hne hv
        exact .inr (.inr ⟨c, r, rfl, hminus, hplus, hne, hv⟩)

theorem numberAt_of_leadingNumber {t : Bytes} {v : Int} (h : leadingNumber t = some v) :
    NumberAt t v := by
  have hblanks : ∀ c ∈ t.takeWhile isSpace, isSpace c = true := fun _ hc =>
    List.mem_takeWhile_imp hc
  have hsplit : t = t.takeWhile isSpace ++ t.dropWhile isSpace :=
    List.takeWhile_append_dropWhile.symm
  have hdigits : ∀ r : Bytes, r = r.takeWhile isDigit ++ r.dropWhile isDigit := fun _ =>
    List.takeWhile_append_dropWhile.symm
  rcases leadingNumber_cases h with ⟨r, hdrop, hne, rfl⟩ | ⟨r, hdrop, hne, rfl⟩ |
    ⟨c, r, hdrop, -, -, hne, rfl⟩
  · have hnumber := NumberAt.neg hblanks (isNumeral_takeWhile hne) (head_dropWhile_digits r)
    rwa [← hdigits r, ← hdrop, ← hsplit] at hnumber
  · have hnumber := NumberAt.pos hblanks (.inr rfl) (isNumeral_takeWhile hne)
      (head_dropWhile_digits r)
    rwa [← hdigits r, List.singleton_append, ← hdrop, ← hsplit] at hnumber
  · have hnumber := NumberAt.pos hblanks (.inl rfl) (isNumeral_takeWhile hne)
      (head_dropWhile_digits (c :: r))
    rw [← hdigits (c :: r), List.nil_append, ← hdrop, ← hsplit] at hnumber
    rwa [← hdrop]

theorem numberAt_iff {t : Bytes} {v : Int} : NumberAt t v ↔ leadingNumber t = some v :=
  ⟨leadingNumber_of_numberAt, numberAt_of_leadingNumber⟩

/-- `strtol` is the number, or the `long` nearest to it. -/
theorem strtol_of_leadingNumber {t : Bytes} {v : Int} (h : leadingNumber t = some v) :
    strtol t = clampLong v := by
  rcases leadingNumber_cases h with ⟨r, hdrop, -, rfl⟩ | ⟨r, hdrop, -, rfl⟩ |
    ⟨c, r, hdrop, hminus, hplus, -, rfl⟩
  · simp only [strtol, hdrop, if_true]
  · simp only [strtol, hdrop, if_true]
    exact if_neg (by decide)
  · simp only [strtol, hdrop, if_neg hminus, if_neg hplus]

end CText
