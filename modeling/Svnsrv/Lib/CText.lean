import Mathlib.Algebra.Group.Int.Defs
import Mathlib.Algebra.Group.Nat.Defs
import Mathlib.Data.List.TakeWhile

/-!
# Bytes, C strings and decimal numerals

What the C library does with characters, for the `"C"` locale and a 64-bit
`long`. A byte is a `UInt8`; text is a list of bytes.
-/

namespace CText

abbrev Bytes := List UInt8

/-- The bytes of an ASCII literal. -/
def ascii (s : String) : Bytes := s.toList.map Char.toUInt8

abbrev lparen : UInt8 := 40
abbrev rparen : UInt8 := 41
abbrev space : UInt8 := 32
abbrev newline : UInt8 := 10
abbrev colon : UInt8 := 58
abbrev plus : UInt8 := 43
abbrev minus : UInt8 := 45

def isSpace (c : UInt8) : Bool := c == 32 || (9 ≤ c && c ≤ 13)

def isDigit (c : UInt8) : Bool := 48 ≤ c && c ≤ 57

/-- The value of a string of decimal digits, most significant first. -/
def numeral (ds : Bytes) : Nat := ds.foldl (fun v c => 10 * v + (c.toNat - 48)) 0

def longMax : Int := 2 ^ 63 - 1
def longMin : Int := -2 ^ 63

/-- On overflow `strtol` returns the nearest `long`. -/
def clampLong (v : Int) : Int := max longMin (min longMax v)

/-- `strtol(s, &end, 10)`; no digits gives 0. -/
def strtol (s : Bytes) : Int :=
  match s.dropWhile isSpace with
  | [] => 0
  | c :: r =>
    if c = minus then clampLong (-(numeral (r.takeWhile isDigit) : Int))
    else if c = plus then clampLong (numeral (r.takeWhile isDigit))
    else clampLong (numeral ((c :: r).takeWhile isDigit))

theorem clampLong_bounds (v : Int) : longMin ≤ clampLong v ∧ clampLong v ≤ longMax := by
  unfold clampLong longMin longMax
  omega

theorem clampLong_of_mem {v : Int} (hmin : longMin ≤ v) (hmax : v ≤ longMax) :
    clampLong v = v := by
  unfold clampLong
  omega

theorem strtol_bounds (s : Bytes) : longMin ≤ strtol s ∧ strtol s ≤ longMax := by
  unfold strtol
  split
  · exact ⟨by decide, by decide⟩
  · split
    · exact clampLong_bounds _
    · split <;> exact clampLong_bounds _

/-- A decimal numeral: a non-empty string of digits, with its value. -/
structure IsNumeral (ds : Bytes) (n : Nat) : Prop where
  nonempty : ds ≠ []
  digits : ∀ c ∈ ds, isDigit c = true
  value : numeral ds = n

instance (ds : Bytes) (n : Nat) : Decidable (IsNumeral ds n) :=
  decidable_of_iff (ds ≠ [] ∧ ds.all isDigit = true ∧ numeral ds = n)
    ⟨fun h => ⟨h.1, List.all_eq_true.mp h.2.1, h.2.2⟩,
      fun h => ⟨h.nonempty, List.all_eq_true.mpr h.digits, h.value⟩⟩

theorem isDigit_iff (c : UInt8) : isDigit c = true ↔ 48 ≤ c.toNat ∧ c.toNat ≤ 57 := by
  simp [isDigit, UInt8.le_iff_toNat_le]

theorem isSpace_iff (c : UInt8) :
    isSpace c = true ↔ c.toNat = 32 ∨ (9 ≤ c.toNat ∧ c.toNat ≤ 13) := by
  simp [isSpace, UInt8.le_iff_toNat_le, ← UInt8.toNat_inj]

theorem not_isSpace_of_isDigit {c : UInt8} (h : isDigit c = true) : isSpace c = false := by
  have hc := (isDigit_iff c).mp h
  rw [← Bool.not_eq_true, isSpace_iff]
  omega

theorem ne_sign_of_isDigit {c : UInt8} (h : isDigit c = true) : c ≠ minus ∧ c ≠ plus := by
  have hc := (isDigit_iff c).mp h
  simp only [ne_eq, ← UInt8.toNat_inj, minus, plus, UInt8.reduceToNat]
  omega

/-- `strtol` reads back a numeral that fits in a `long`. -/
theorem strtol_numeral {ds : Bytes} {n : Nat} (h : IsNumeral ds n) (hn : n < 2 ^ 63) :
    strtol ds = n := by
  obtain ⟨hne, hdigits, hvalue⟩ := h
  obtain ⟨c, r, rfl⟩ := List.exists_cons_of_ne_nil hne
  have hc := hdigits c List.mem_cons_self
  have htake : (c :: r).takeWhile isDigit = c :: r := List.takeWhile_eq_self_iff.mpr hdigits
  have hsign := ne_sign_of_isDigit hc
  unfold strtol
  rw [List.dropWhile_cons_of_neg (by simp [not_isSpace_of_isDigit hc])]
  simp only [if_neg hsign.1, if_neg hsign.2, htake, hvalue]
  exact clampLong_of_mem (by unfold longMin; omega) (by unfold longMax; omega)

theorem numeral_append (a b : Bytes) :
    numeral (a ++ b) = numeral a * 10 ^ b.length + numeral b := by
  have hfold : ∀ (b : Bytes) (v : Nat), b.foldl (fun v c => 10 * v + (c.toNat - 48)) v =
      v * 10 ^ b.length + numeral b := by
    intro b
    induction b with
    | nil => simp [numeral]
    | cons c b ih =>
      intro v
      rw [numeral, List.foldl_cons, List.foldl_cons, ih, ih, List.length_cons, Nat.pow_succ,
        Nat.mul_zero, Nat.zero_add, Nat.add_mul, Nat.add_assoc, Nat.mul_comm 10 v, Nat.mul_assoc,
        Nat.mul_comm 10]
  rw [numeral, List.foldl_append]
  exact hfold b (numeral a)

/-- Only zeros spell zero. -/
theorem numeral_eq_zero_iff {ds : Bytes} (h : ∀ c ∈ ds, isDigit c = true) :
    numeral ds = 0 ↔ ∀ c ∈ ds, c = 48 := by
  induction ds with
  | nil => simp [numeral]
  | cons c ds ih =>
    have hc := (isDigit_iff c).mp (h c List.mem_cons_self)
    have hzero : c.toNat - 48 = 0 ↔ c = 48 := by
      rw [← UInt8.toNat_inj]
      change c.toNat - 48 = 0 ↔ c.toNat = 48
      omega
    have hcons : numeral (c :: ds) = (c.toNat - 48) * 10 ^ ds.length + numeral ds := by
      simpa [numeral] using numeral_append [c] ds
    rw [hcons, Nat.add_eq_zero_iff, List.forall_mem_cons, Nat.mul_eq_zero, hzero,
      ih fun a ha => h a (List.mem_cons_of_mem c ha),
      or_iff_left (Nat.ne_of_gt (Nat.pow_pos (by decide)))]

/-- The shortest numeral of `n`, as `printf` writes `%d`. -/
def decimal (n : Nat) : Bytes := (Nat.toDigits 10 n).map Char.toUInt8

theorem length_decimal_le {n k : Nat} (hk : 0 < k) (h : n < 10 ^ k) : (decimal n).length ≤ k := by
  rw [decimal, List.length_map]
  exact (Nat.length_toDigits_le_iff (by decide) hk).mpr h

theorem toNat_toUInt8_of_isDigit {c : Char} (h : c.isDigit = true) :
    c.toUInt8.toNat = c.toNat := by
  have hc : c.toNat ≤ 57 := (Char.isDigit_iff_toNat.mp h).2
  simp only [Char.toUInt8, UInt32.toNat_toUInt8]
  exact Nat.mod_eq_of_lt (by simp only [Char.toNat] at hc; omega)

theorem isNumeral_decimal (n : Nat) : IsNumeral (decimal n) n := by
  have hdigit : ∀ c ∈ Nat.toDigits 10 n, c.isDigit = true := fun c hc =>
    Nat.isDigit_of_mem_toDigits (by decide) (by decide) hc
  refine ⟨by simp [decimal, Nat.toDigits_ne_nil], ?_, ?_⟩
  · intro b hb
    obtain ⟨c, hc, rfl⟩ := List.mem_map.mp hb
    have hlo := Char.isDigit_iff_toNat.mp (hdigit c hc)
    have hval := toNat_toUInt8_of_isDigit (hdigit c hc)
    simp only [isDigit, Bool.and_eq_true, decide_eq_true_eq, UInt8.le_iff_toNat_le, hval]
    exact hlo
  · have hfold : ∀ (cs : List Char) (v : Nat), (∀ c ∈ cs, c.isDigit = true) →
        (cs.map Char.toUInt8).foldl (fun v c => 10 * v + (c.toNat - 48)) v =
          Nat.ofDigitChars 10 cs v := by
      intro cs
      induction cs with
      | nil => intro v _; rfl
      | cons c cs ih =>
        intro v h
        have hval := toNat_toUInt8_of_isDigit (h c List.mem_cons_self)
        simp only [List.map_cons, List.foldl_cons, hval, Nat.ofDigitChars_cons]
        exact ih _ fun a ha => h a (List.mem_cons_of_mem c ha)
    exact (hfold _ 0 hdigit).trans (Nat.ofDigitChars_toDigits (by decide) (by decide))

/-- A text is whole up to a byte that is not in it; for 0, it may be given as a C string. -/
theorem takeWhile_ne_eq_self_iff {x : UInt8} {s : Bytes} : s.takeWhile (· ≠ x) = s ↔ x ∉ s := by
  rw [List.takeWhile_eq_self_iff]
  constructor
  · intro h hx
    have hne := h x hx
    simp at hne
  · intro h c hc
    have hne : c ≠ x := fun heq => h (heq ▸ hc)
    simpa using hne

end CText
