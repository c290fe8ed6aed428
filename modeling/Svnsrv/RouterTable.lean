import Svnsrv.Lib.RangeTable
import Svnsrv.Router

/-!
# The documented range table

The README routes an owner by its first two characters, compared as a pair in
lexicographic order. A bound of one character is padded to the pair with '-'
below and 'z' above. The packed numbers of the code order ASCII pairs the same
way, so the loaded table selects what the documented one does.
-/

namespace Svnsrv.Router

open CText Toml RangeTable
set_option autoImplicit false

/-- A character that a range may be written with. -/
abbrev RangeChar := {c : UInt8 // c < 128 ∧ c ≠ tilde ∧ c ≠ 0}

inductive Bound where
  | one (x : RangeChar)
  | two (x y : RangeChar)

/-- The forms X and XY, and L~R. -/
inductive Range where
  | whole (b : Bound)
  | span (l r : Bound)

/-- The first two characters of an owner, or a bound for them. -/
abbrev MagicPath := Lex (UInt8 × UInt8)

instance : DecidableLE MagicPath := fun x y =>
  decidable_of_iff _ (Prod.Lex.toLex_le_toLex (x := ofLex x) (y := ofLex y)).symm

namespace Bound

def text : Bound → Bytes
  | one x => [x.val]
  | two x y => [x.val, y.val]

def padded (pad : UInt8) : Bound → UInt8 × UInt8
  | one x => (x.val, pad)
  | two x y => (x.val, y.val)

def lower (b : Bound) : UInt8 × UInt8 := b.padded 45

def upper (b : Bound) : UInt8 × UInt8 := b.padded 122

theorem padded_ascii (b : Bound) (pad : UInt8) (hpad : pad < 128) :
    (b.padded pad).1 < 128 ∧ (b.padded pad).2 < 128 := by
  cases b with
  | one x => exact ⟨x.2.1, hpad⟩
  | two x y => exact ⟨x.2.1, y.2.1⟩

end Bound

namespace Range

def text : Range → Bytes
  | whole b => b.text
  | span l r => l.text ++ tilde :: r.text

def left : Range → Bound
  | whole b => b
  | span l _ => l

def right : Range → Bound
  | whole b => b
  | span _ r => r

end Range

theorem rangeLoop_char {c : UInt8} {s : RangeScan} (hc : c ≠ tilde) (hc₀ : c ≠ 0) (hi : s.i < 5)
    (range : Bytes) : rangeLoop (c :: range) s =
      rangeLoop range { s with cells := s.cells.set s.p c, p := s.p + 1, i := s.i + 1 } := by
  rw [rangeLoop, if_pos ⟨hc₀, hi⟩, if_neg hc]

theorem rangeLoop_tilde {s : RangeScan} (hi : s.i < 5) (range : Bytes) :
    rangeLoop (tilde :: range) s =
      rangeLoop range { s with p := 2, i := s.i + 1, isSplit := true } := by
  rw [rangeLoop, if_pos ⟨by decide, hi⟩, if_pos rfl]

theorem rangeToIndex_text (r : Range) :
    rangeToIndex r.text =
      (rangeIndex r.left.lower.1 r.left.lower.2, rangeIndex r.right.upper.1 r.right.upper.2) := by
  have htemplate : ascii "--zz" = [45, 45, 122, 122] := by decide
  have hnil : ∀ s, rangeLoop [] s = s := fun _ => rfl
  rcases r with ⟨⟨x, -, hx, hx₀⟩ | ⟨⟨x, -, hx, hx₀⟩, ⟨y, -, hy, hy₀⟩⟩⟩ |
    ⟨⟨x, -, hx, hx₀⟩ | ⟨⟨x, -, hx, hx₀⟩, ⟨y, -, hy, hy₀⟩⟩,
      ⟨u, -, hu, hu₀⟩ | ⟨⟨u, -, hu, hu₀⟩, ⟨v, -, hv, hv₀⟩⟩⟩ <;>
    simp [Range.text, Range.left, Range.right, Bound.text, Bound.lower, Bound.upper,
      Bound.padded, rangeToIndex, RangeScan.start, rangeLoop_char, rangeLoop_tilde, rangeFix, *]

/-! ## Packed pairs -/

theorem ofInt_natCast (n : Nat) : UInt16.ofInt n = UInt16.ofNat n := by
  have hmod : ((n : Int) % 2 ^ 16).toNat = n % 2 ^ 16 := by omega
  rw [UInt16.ofInt, hmod, ← UInt16.toNat_inj]
  simp

theorem rangeIndex_toNat {a b : UInt8} (ha : a < 128) (hb : b < 128) :
    (rangeIndex a b).toNat = a.toNat * 512 + b.toNat := by
  rw [UInt8.lt_iff_toNat_lt] at ha hb
  simp [rangeIndex] at ha hb ⊢
  omega

theorem rangeIndex_le_rangeIndex {a b c d : UInt8} (ha : a < 128) (hb : b < 128)
    (hc : c < 128) (hd : d < 128) :
    rangeIndex a b ≤ rangeIndex c d ↔ toLex (a, b) ≤ toLex (c, d) := by
  rw [UInt16.le_iff_toNat_le, rangeIndex_toNat ha hb, rangeIndex_toNat hc hd,
    Prod.Lex.toLex_le_toLex, UInt8.lt_iff_toNat_lt, UInt8.le_iff_toNat_le, ← UInt8.toNat_inj]
  have hb' := UInt8.toNat_lt b
  have hd' := UInt8.toNat_lt d
  exact pack_le_pack (by omega) (by omega)

theorem ownerIndex_eq {a b : UInt8} (ha : a < 128) (hb : b < 128) :
    ownerIndex a b = rangeIndex a b := by
  have hchar : ∀ c : UInt8, c < 128 → UInt16.ofInt c.toInt8.toInt = c.toUInt16 := by
    intro c hc
    rw [UInt8.lt_iff_toNat_lt] at hc
    have hint : c.toInt8.toInt = c.toNat := BitVec.toInt_eq_toNat_of_lt (by simp at hc ⊢; omega)
    rw [hint, ofInt_natCast, UInt16.ofNat_uInt8ToNat]
  rw [ownerIndex, rangeIndex, hchar a ha, hchar b hb]

/-! ## Documents -/

structure Entry where
  range : Range
  address : Bytes
  port : Option UInt16
  enable : Option Bool

/-- The keys of the Host table besides the entries. -/
structure Host where
  address : Option Bytes
  port : Option UInt16

def portValue (port : UInt16) : Base := .int64 (Int64.ofNat port.toNat)

structure Entry.IsReadFrom (e : Entry) (t : Table) : Prop where
  range : t.getQualified (ascii "range") = some (.string e.range.text)
  address : t.getQualified (ascii "address") = some (.string e.address)
  port : t.getQualified (ascii "port") = e.port.map portValue
  enable : t.getQualified (ascii "enable") = e.enable.map .bool

inductive AreReadFrom : List Entry → List Table → Prop
  | nil : AreReadFrom [] []
  | cons {e : Entry} {t : Table} {entries : List Entry} {ta : List Table}
      (head : e.IsReadFrom t) (tail : AreReadFrom entries ta) :
      AreReadFrom (e :: entries) (t :: ta)

/-- The document `g` holds the router table. -/
structure Describes (g : Table) (host : Host) (entries : List Entry) : Prop where
  address : g.getQualified (ascii "Host.address") = host.address.map .string
  port : g.getQualified (ascii "Host.port") = host.port.map portValue
  content : ∃ ta, g.getTableArrayQualified (ascii "Host.Content") = some ta ∧
    AreReadFrom entries ta

def Entry.rule (e : Entry) : Rule MagicPath StorageElement where
  lower := toLex e.range.left.lower
  upper := toLex e.range.right.upper
  enabled := e.enable.getD true
  target := ⟨e.port.getD 3690, e.address⟩

def Host.target (host : Host) : StorageElement :=
  ⟨host.port.getD 3690, host.address.getD (ascii "192.168.1.12")⟩

/-- What `InitializeManager` makes of an entry. -/
def Entry.element (e : Entry) : HostElement where
  begin_ := rangeIndex e.range.left.lower.1 e.range.left.lower.2
  end_ := rangeIndex e.range.right.upper.1 e.range.right.upper.2
  port := e.port.getD 3690
  enabled := e.enable.getD true
  address := e.address

theorem portOr_eq {t : Table} {key : Bytes} {port : Option UInt16}
    (h : t.getQualified key = port.map portValue) : portOr t key = .ok (port.getD 3690) := by
  cases port with
  | none => simp [portOr, h]
  | some port =>
    have hcast : (Int64.ofNat port.toNat).toInt = port.toNat :=
      Int64.toInt_ofNat_of_lt (by have := port.toNat_lt; omega)
    simp only [portOr, h, Option.map_some, portValue, Base.asInt64, deref, Except.map, hcast,
      ofInt_natCast, UInt16.ofNat_toNat, Option.getD_some]

theorem valueOr_eq {α : Type} {t : Table} {key : Bytes} (as : Base → Option α) {mk : α → Base}
    {x : Option α} (default : α) (has : ∀ a, as (mk a) = some a)
    (h : t.getQualified key = x.map mk) : valueOr t key as default = .ok (x.getD default) := by
  cases x with
  | none => simp [valueOr, h]
  | some x => simp [valueOr, h, has, deref]

theorem loadElement_eq {e : Entry} {t : Table} (h : e.IsReadFrom t) :
    loadElement t = .ok (some e.element) := by
  simp only [loadElement, h.range, h.address, Base.asString, deref, portOr_eq h.port,
    valueOr_eq Base.asBool true (fun _ => rfl) h.enable]
  change Except.ok (some _) = _
  rw [rangeToIndex_text]
  rfl

theorem loadContent_eq {entries : List Entry} {ta : List Table} (h : AreReadFrom entries ta) :
    loadContent ta = .ok (entries.map Entry.element) := by
  induction h with
  | nil => rfl
  | cons head tail ih =>
    simp only [loadContent, loadElement_eq head, ih]
    rfl

theorem initializeManager_eq {g : Table} {host : Host} {entries : List Entry}
    (h : Describes g host entries) (hne : entries ≠ []) :
    RouterSeletor.empty.initializeManager (some g) =
      .ok (true, ⟨entries.map Entry.element, host.target.address, host.target.port⟩) := by
  obtain ⟨ta, hta, hread⟩ := h.content
  simp only [RouterSeletor.initializeManager, portOr_eq h.port,
    valueOr_eq Base.asString _ (fun _ => rfl) h.address, hta, loadContent_eq hread]
  cases entries with
  | nil => exact absurd rfl hne
  | cons e entries => simp [RouterSeletor.empty, Host.target, bind, Except.bind, pure, Except.pure]

/-! ## Routing -/

def HostElement.rule (e : HostElement) : Rule UInt16 StorageElement :=
  ⟨e.begin_, e.end_, e.enabled, ⟨e.port, e.address⟩⟩

/-- The loop of `GetAddress` finds the first rule that covers the packed number. -/
theorem findElement_select (default : StorageElement) (index : UInt16)
    (elements : List HostElement) :
    (match findElement index elements with
      | some e => ⟨e.port, e.address⟩
      | none => default) = select default index (elements.map HostElement.rule) := by
  induction elements with
  | nil => rfl
  | cons e elements ih =>
    simp only [findElement, List.map_cons, select, Rule.Covers, HostElement.rule] at ih ⊢
    by_cases hrange : e.begin_ ≤ index ∧ index ≤ e.end_
    · cases e.enabled <;> simp [hrange, ih]
    · simp [hrange, ih]

theorem getAddress_eq_select (self : RouterSeletor) (a b : UInt8) (rest : Bytes)
    (elem : StorageElement) :
    self.getAddress (a :: b :: rest) elem =
      (true, select ⟨self.defaultPort, self.defaultElement⟩ (ownerIndex a b)
        (self.hostElement.map HostElement.rule)) := by
  rw [← findElement_select, RouterSeletor.getAddress]
  cases findElement (ownerIndex a b) self.hostElement <;> rfl

theorem element_covers (e : Entry) {a b : UInt8} (ha : a < 128) (hb : b < 128) :
    e.element.rule.Covers (ownerIndex a b) ↔ e.rule.Covers (toLex (a, b)) := by
  have hl := e.range.left.padded_ascii 45 (by decide)
  have hu := e.range.right.padded_ascii 122 (by decide)
  rw [ownerIndex_eq ha hb]
  exact and_congr_right fun _ => and_congr (rangeIndex_le_rangeIndex hl.1 hl.2 ha hb)
    (rangeIndex_le_rangeIndex ha hb hu.1 hu.2)

/-- Whatever table a document describes, an owner that starts with two ASCII characters
goes to the first enabled entry whose interval contains them, or to the default. -/
theorem routes_by_documented_table {g : Table} {host : Host} {entries : List Entry}
    (hdoc : Describes g host entries) (hne : entries ≠ []) :
    ∃ router, RouterSeletor.empty.initializeManager (some g) = .ok (true, router) ∧
      ∀ (a b : UInt8) (rest : Bytes) (elem : StorageElement), a < 128 → b < 128 →
        router.getAddress (a :: b :: rest) elem =
          (true, select host.target (toLex (a, b)) (entries.map Entry.rule)) := by
  refine ⟨_, initializeManager_eq hdoc hne, fun a b rest elem ha hb => ?_⟩
  rw [getAddress_eq_select, List.map_map]
  congr 1
  exact select_map_congr _ fun e _ => ⟨element_covers e ha hb, rfl⟩

/-! The range table of the README, cut to two entries. -/

/-- B~D and E~Zz. -/
def readmeEntries : List Entry :=
  [⟨.span (.one ⟨66, by decide⟩) (.one ⟨68, by decide⟩), ascii "192.168.1.13", some 3691, none⟩,
    ⟨.span (.one ⟨69, by decide⟩) (.two ⟨90, by decide⟩ ⟨122, by decide⟩),
      ascii "192.168.1.14", none, some true⟩]

def readmeDocument : Table :=
  [(ascii "Host", .table
    [(ascii "address", .string (ascii "192.168.1.12")), (ascii "port", portValue 3690),
      (ascii "Content", .tableArray
        [[(ascii "range", .string (ascii "B~D")), (ascii "address", .string (ascii "192.168.1.13")),
            (ascii "port", portValue 3691)],
          [(ascii "range", .string (ascii "E~Zz")),
            (ascii "address", .string (ascii "192.168.1.14")), (ascii "enable", .bool true)]])])]

theorem readmeDocument_describes :
    Describes readmeDocument ⟨some (ascii "192.168.1.12"), some 3690⟩ readmeEntries where
  address := rfl
  port := rfl
  content := ⟨_, rfl, .cons ⟨rfl, rfl, rfl, rfl⟩ (.cons ⟨rfl, rfl, rfl, rfl⟩ .nil)⟩

theorem routes_by_readme :
    ∃ router, RouterSeletor.empty.initializeManager (some readmeDocument) = .ok (true, router) ∧
      ∀ (a b : UInt8) (rest : Bytes) (elem : StorageElement), a < 128 → b < 128 →
        router.getAddress (a :: b :: rest) elem =
          (true, select ⟨3690, ascii "192.168.1.12"⟩ (toLex (a, b))
            (readmeEntries.map Entry.rule)) :=
  routes_by_documented_table readmeDocument_describes (by simp [readmeEntries])

end Svnsrv.Router
