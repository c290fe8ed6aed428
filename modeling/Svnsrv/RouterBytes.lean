import Svnsrv.RouterLoad

/-!
# Owners outside ASCII

The characters of an owner are signed. The packed number of a pair with a byte
above 127 is then that of no ASCII pair, or of the wrong one: the high bit of the
first byte falls out of the 16 bits, and a second byte is taken off the pair.
-/

namespace Svnsrv.Router

open CText Toml RangeTable
set_option autoImplicit false

/-- An element together with the documented range it was read from. -/
structure Ranged where
  range : Range
  element : HostElement
  read : (element.begin_, element.end_) = rangeToIndex range.text

namespace Ranged

def lower (e : Ranged) : UInt8 × UInt8 := e.range.left.lower

def upper (e : Ranged) : UInt8 × UInt8 := e.range.right.upper

/-- The element takes the owners that start with `a` and `b`, whatever bytes these are. -/
def Takes (e : Ranged) (a b : UInt8) : Prop :=
  e.element.enabled = true ∧
    if b < 128 then toLex e.lower ≤ toLex (a % 128, b) ∧ toLex (a % 128, b) ≤ toLex e.upper
    else e.lower.1 < a % 128 ∧ a % 128 ≤ e.upper.1

theorem lower_ascii (e : Ranged) : e.lower.1 < 128 ∧ e.lower.2 < 128 :=
  e.range.left.padded_ascii 45 (by decide)

theorem upper_ascii (e : Ranged) : e.upper.1 < 128 ∧ e.upper.2 < 128 :=
  e.range.right.padded_ascii 122 (by decide)

theorem begin_eq (e : Ranged) : e.element.begin_ = rangeIndex e.lower.1 e.lower.2 :=
  congrArg Prod.fst (e.read.trans (rangeToIndex_text e.range))

theorem end_eq (e : Ranged) : e.element.end_ = rangeIndex e.upper.1 e.upper.2 :=
  congrArg Prod.snd (e.read.trans (rangeToIndex_text e.range))

end Ranged

/-! ## Signed characters -/

theorem char_toNat (c : UInt8) : (UInt16.ofInt c.toInt8.toInt).toNat =
    if c.toNat < 128 then c.toNat else c.toNat + 65280 := by
  have hc := c.toNat_lt
  have hint : c.toInt8.toInt = if 2 * c.toNat < 256 then (c.toNat : Int) else c.toNat - 256 :=
    BitVec.toInt_eq_toNat_cond c.toBitVec
  rw [UInt16.ofInt, UInt16.toNat_ofNat', hint]
  split <;> split <;> omega

theorem ownerIndex_toNat (a b : UInt8) : (ownerIndex a b).toNat =
    (a.toNat % 128 * 512 + if b.toNat < 128 then b.toNat else b.toNat + 65280) % 65536 := by
  have ha := a.toNat_lt
  rw [ownerIndex, UInt16.toNat_add, UInt16.toNat_mul, char_toNat, char_toNat]
  have h512 : (0x200 : UInt16).toNat = 512 := rfl
  rw [h512]
  split <;> split <;> omega

theorem ownerIndex_wrap (a : UInt8) {b : UInt8} (hb : b < 128) :
    ownerIndex a b = rangeIndex (a % 128) b := by
  have hmod : (a % 128).toNat = a.toNat % 128 := UInt8.toNat_mod a 128
  have hlt : a % 128 < 128 := UInt8.mod_lt a (by decide)
  rw [← UInt16.toNat_inj, ownerIndex_toNat, rangeIndex_toNat hlt hb, hmod]
  rw [UInt8.lt_iff_toNat_lt] at hb
  change b.toNat < 128 at hb
  rw [if_pos hb]
  omega

/-- With a second byte above 127 the number lies below all pairs of its first byte and above
all pairs before. -/
theorem between_pairs {a b c d : UInt8} (hb : ¬ b < 128) (hc : c < 128) (hd : d < 128) :
    (rangeIndex c d ≤ ownerIndex a b ↔ c < a % 128 ∨ a % 128 = 0) ∧
      (ownerIndex a b ≤ rangeIndex c d ↔ a % 128 ≤ c ∧ a % 128 ≠ 0) := by
  have hmod : (a % 128).toNat = a.toNat % 128 := UInt8.toNat_mod a 128
  have hb' := b.toNat_lt
  rw [UInt16.le_iff_toNat_le, UInt16.le_iff_toNat_le, ownerIndex_toNat, rangeIndex_toNat hc hd,
    ne_eq, UInt8.lt_iff_toNat_lt, UInt8.le_iff_toNat_le, ← UInt8.toNat_inj, hmod]
  rw [UInt8.lt_iff_toNat_lt] at hb hc hd
  change ¬ b.toNat < 128 at hb
  change c.toNat < 128 at hc
  change d.toNat < 128 at hd
  have hzero : (0 : UInt8).toNat = 0 := rfl
  rw [if_neg hb, hzero]
  omega

theorem takes_iff (e : Ranged) (a b : UInt8) :
    e.element.rule.Covers (ownerIndex a b) ↔ e.Takes a b := by
  obtain ⟨hl, hl'⟩ := e.lower_ascii
  obtain ⟨hu, hu'⟩ := e.upper_ascii
  apply and_congr_right
  intro _
  change e.element.begin_ ≤ ownerIndex a b ∧ ownerIndex a b ≤ e.element.end_ ↔ _
  rw [e.begin_eq, e.end_eq]
  by_cases hb : b < 128
  · have ha : a % 128 < 128 := UInt8.mod_lt a (by decide)
    rw [if_pos hb, ownerIndex_wrap a hb, rangeIndex_le_rangeIndex hl hl' ha hb,
      rangeIndex_le_rangeIndex ha hb hu hu']
  · rw [if_neg hb, (between_pairs hb hl hl').1, (between_pairs hb hu hu').2]
    constructor
    · rintro ⟨hlow | hlow, hup, hne⟩
      · exact ⟨hlow, hup⟩
      · exact absurd hlow hne
    · rintro ⟨hlow, hup⟩
      refine ⟨Or.inl hlow, hup, ?_⟩
      intro hzero
      rw [hzero] at hlow
      exact UInt8.not_lt_zero hlow

/-! ## Tables of documented ranges -/

/-- A document whose ranges are in the documented forms loads as such a table. -/
theorem loadContent_ranged {ta : List Table} {es : List HostElement}
    (hranges : ∀ t ∈ ta, ∀ range, t.getQualified (ascii "range") = some (.string range) →
      ∃ r : Range, range = r.text)
    (h : loadContent ta = .ok es) : ∃ table : List Ranged, es = table.map Ranged.element := by
  rw [loadContent_eq_ok_iff] at h
  replace hranges := fun t (ht : t ∈ ta.filter Kept) => hranges t (List.mem_filter.mp ht).1
  generalize ta.filter Kept = kept at h hranges
  induction h with
  | nil => exact ⟨[], rfl⟩
  | cons hloaded _ ih =>
    obtain ⟨table, rfl⟩ := ih fun t ht => hranges t (List.mem_cons_of_mem _ ht)
    obtain ⟨range, hrange, hread⟩ := hloaded.range
    obtain ⟨r, rfl⟩ := hranges _ List.mem_cons_self range hrange
    exact ⟨⟨r, _, hread⟩ :: table, rfl⟩

/-- Whatever bytes an owner starts with, it is sent to the default machine exactly where the
first element that takes it, if any, names that machine and port. -/
theorem getAddress_eq_default_iff (table : List Ranged) (defaultElement : Bytes)
    (defaultPort : UInt16) (a b : UInt8) (rest : Bytes) (elem : StorageElement) :
    RouterSeletor.getAddress ⟨table.map Ranged.element, defaultElement, defaultPort⟩
        (a :: b :: rest) elem = (true, ⟨defaultPort, defaultElement⟩) ↔
      ∀ pre e post, table = pre ++ e :: post → e.Takes a b → (∀ e' ∈ pre, ¬ e'.Takes a b) →
        e.element.port = defaultPort ∧ e.element.address = defaultElement := by
  have htarget : ∀ e : Ranged, e.element.rule.target = ⟨defaultPort, defaultElement⟩ ↔
      e.element.port = defaultPort ∧ e.element.address = defaultElement := by
    intro e
    exact StorageElement.mk.injEq _ _ _ _ ▸ Iff.rfl
  rw [getAddress_eq_select, List.map_map, Prod.mk.injEq, select_eq_default_iff]
  simp only [Function.comp_apply, takes_iff, htarget, true_and]

/-- The owner "éric" in UTF-8 starts with the bytes C3 A9; the README's table sends it to the
machine of B~D. -/
theorem accented_owner_ranged :
    ∃ router, RouterSeletor.empty.initializeManager (some readmeDocument) = .ok (true, router) ∧
      router.defaultElement = ascii "192.168.1.12" ∧ router.defaultPort = 3690 ∧
      router.getAddress ([0xC3, 0xA9] ++ ascii "ric") ⟨0, []⟩ =
        (true, ⟨3691, ascii "192.168.1.13"⟩) := by
  refine ⟨_, initializeManager_eq readmeDocument_describes (by simp [readmeEntries]), rfl, rfl, ?_⟩
  decide

end Svnsrv.Router
