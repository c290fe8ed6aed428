import Svnsrv.RouterTable

/-!
# Letter ranges

An entry X~Y of the router table against the entries X, X+1, ..., Y that have
its other keys. The padding makes the intervals of two neighbouring letters meet
for owners whose characters lie between '-' and 'z'.
-/

namespace Svnsrv.Router

open CText Toml RangeTable
set_option autoImplicit false

def letters (x y : UInt8) : List UInt8 :=
  (List.range' x.toNat (y.toNat + 1 - x.toNat)).map UInt8.ofNat

theorem mem_letters {x y c : UInt8} : c ∈ letters x y ↔ x ≤ c ∧ c ≤ y := by
  rw [letters, List.mem_map, UInt8.le_iff_toNat_le, UInt8.le_iff_toNat_le]
  constructor
  · rintro ⟨n, hn, rfl⟩
    have hy := y.toNat_lt
    rw [List.mem_range'_1] at hn
    rw [UInt8.toNat_ofNat_of_lt' (show n < 256 by omega)]
    omega
  · intro h
    exact ⟨c.toNat, List.mem_range'_1.mpr (by omega), UInt8.ofNat_toNat⟩

structure Reranged (t t' : Table) (range : Bytes) : Prop where
  range : t'.getQualified (ascii "range") = some (.string range)
  address : t'.getQualified (ascii "address") = t.getQualified (ascii "address")
  port : t'.getQualified (ascii "port") = t.getQualified (ascii "port")
  enable : t'.getQualified (ascii "enable") = t.getQualified (ascii "enable")

/-- One table for each letter. -/
inductive AreLetters (t : Table) : List UInt8 → List Table → Prop
  | nil : AreLetters t [] []
  | cons {c : UInt8} {cs : List UInt8} {t' : Table} {ts : List Table}
      (head : Reranged t t' [c]) (tail : AreLetters t cs ts) : AreLetters t (c :: cs) (t' :: ts)

/-- Both loads fail alike, or the routers agree on every owner that starts with two
characters between '-' and 'z'. -/
def RouteAlike : Except Fault (Bool × RouterSeletor) → Except Fault (Bool × RouterSeletor) → Prop
  | .ok r, .ok r' => r.1 = r'.1 ∧ ∀ (a b : UInt8) (rest : Bytes) (elem : StorageElement),
      45 ≤ a → a ≤ 122 → 45 ≤ b → b ≤ 122 →
        r.2.getAddress (a :: b :: rest) elem = r'.2.getAddress (a :: b :: rest) elem
  | .error fault, .error fault' => fault = fault'
  | _, _ => False

/-! ## Loading -/

def HostElement.withRange (e : HostElement) (range : Bytes) : HostElement :=
  { e with begin_ := (rangeToIndex range).1, end_ := (rangeToIndex range).2 }

theorem loadElement_reranged {t t' : Table} {range range' : Bytes}
    (hrange : t.getQualified (ascii "range") = some (.string range)) (h : Reranged t t' range') :
    loadElement t' = (loadElement t).map (Option.map (·.withRange range')) := by
  have hport : portOr t' (ascii "port") = portOr t (ascii "port") := by
    rw [portOr, portOr, h.port]
  have henable : valueOr t' (ascii "enable") Base.asBool true =
      valueOr t (ascii "enable") Base.asBool true := by
    rw [valueOr, valueOr, h.enable]
  simp only [loadElement, h.range, h.address, hrange, hport, henable]
  cases t.getQualified (ascii "address") with
  | none => rfl
  | some address =>
    dsimp only
    cases address.asString with
    | none => rfl
    | some address =>
      cases portOr t (ascii "port") with
      | error fault => rfl
      | ok port =>
        cases valueOr t (ascii "enable") Base.asBool true with
        | error fault => rfl
        | ok enabled => rfl

theorem loadContent_append (ta ta' : List Table) :
    loadContent (ta ++ ta') = (loadContent ta).bind fun elements =>
      (loadContent ta').map fun elements' => elements ++ elements' := by
  induction ta with
  | nil =>
    cases h : loadContent ta' with
    | error fault => simp [h, loadContent, Except.bind, Except.map, pure, Except.pure]
    | ok elements => simp [h, loadContent, Except.bind, Except.map, pure, Except.pure]
  | cons t ta ih =>
    rw [List.cons_append, loadContent, loadContent, ih]
    cases loadElement t with
    | error fault => rfl
    | ok e =>
      cases loadContent ta with
      | error fault => rfl
      | ok elements =>
        cases loadContent ta' with
        | error fault => rfl
        | ok elements' => simp [bind, Except.bind, Except.map, pure, Except.pure]

section Letters

variable {t : Table} {range : Bytes} {cs : List UInt8} {ts : List Table}

theorem loadContent_letters_error {fault : Fault}
    (hrange : t.getQualified (ascii "range") = some (.string range))
    (h : AreLetters t cs ts) (hne : cs ≠ []) (ht : loadElement t = .error fault) :
    loadContent ts = .error fault := by
  cases h with
  | nil => exact absurd rfl hne
  | cons head tail =>
    rw [loadContent, loadElement_reranged hrange head, ht]
    rfl

theorem loadContent_letters_ok {o : Option HostElement}
    (hrange : t.getQualified (ascii "range") = some (.string range))
    (h : AreLetters t cs ts) (ht : loadElement t = .ok o) :
    loadContent ts = .ok (o.elim [] fun e => cs.map fun c => e.withRange [c]) := by
  induction h with
  | nil => cases o <;> rfl
  | cons head tail ih =>
    rw [loadContent, loadElement_reranged hrange head, ht, ih]
    cases o <;> rfl

end Letters

/-! ## Routing -/

theorem ascii_of_le {c : UInt8} (h : c ≤ 122) : c < 128 := UInt8.lt_of_le_of_lt h (by decide)

/-- What the padding is for. -/
theorem le_ownerIndex {a b l : UInt8} (ha : a ≤ 122) (hb : 45 ≤ b) (hb' : b ≤ 122) (hl : l ≤ 122) :
    rangeIndex l 45 ≤ ownerIndex a b ↔ l ≤ a := by
  rw [ownerIndex_eq (ascii_of_le ha) (ascii_of_le hb'),
    rangeIndex_le_rangeIndex (ascii_of_le hl) (by decide) (ascii_of_le ha) (ascii_of_le hb'),
    Prod.Lex.toLex_le_toLex]
  constructor
  · rintro (h | ⟨h, -⟩)
    · exact UInt8.le_of_lt h
    · exact UInt8.le_of_eq h
  · intro h
    rcases UInt8.lt_or_eq_of_le h with h | h
    · exact Or.inl h
    · exact Or.inr ⟨h, hb⟩

theorem ownerIndex_le {a b u : UInt8} (ha : a ≤ 122) (hb' : b ≤ 122) (hu : u ≤ 122) :
    ownerIndex a b ≤ rangeIndex u 122 ↔ a ≤ u := by
  rw [ownerIndex_eq (ascii_of_le ha) (ascii_of_le hb'),
    rangeIndex_le_rangeIndex (ascii_of_le ha) (ascii_of_le hb') (ascii_of_le hu) (by decide),
    Prod.Lex.toLex_le_toLex]
  constructor
  · rintro (h | ⟨h, -⟩)
    · exact UInt8.le_of_lt h
    · exact UInt8.le_of_eq h
  · intro h
    rcases UInt8.lt_or_eq_of_le h with h | h
    · exact Or.inl h
    · exact Or.inr ⟨h, hb'⟩

theorem rangeChar {c : UInt8} (h : 45 ≤ c) (h' : c ≤ 122) : c < 128 ∧ c ≠ tilde ∧ c ≠ 0 := by
  refine ⟨ascii_of_le h', ?_, ?_⟩ <;> rintro rfl
  · exact absurd h' (by decide)
  · exact absurd h (by decide)

theorem rangeToIndex_span {x y : UInt8} (hx : 45 ≤ x) (hx' : x ≤ 122) (hy : 45 ≤ y)
    (hy' : y ≤ 122) : rangeToIndex [x, tilde, y] = (rangeIndex x 45, rangeIndex y 122) :=
  rangeToIndex_text (.span (.one ⟨x, rangeChar hx hx'⟩) (.one ⟨y, rangeChar hy hy'⟩))

theorem rangeToIndex_letter {c : UInt8} (hc : 45 ≤ c) (hc' : c ≤ 122) :
    rangeToIndex [c] = (rangeIndex c 45, rangeIndex c 122) :=
  rangeToIndex_text (.whole (.one ⟨c, rangeChar hc hc'⟩))

theorem span_covers_iff (e : HostElement) {x y a b : UInt8} (hx : 45 ≤ x) (hxy : x ≤ y)
    (hy : y ≤ 122) (ha : a ≤ 122) (hb : 45 ≤ b) (hb' : b ≤ 122) :
    (e.withRange [x, tilde, y]).rule.Covers (ownerIndex a b) ↔
      ∃ r ∈ (letters x y).map fun c => (e.withRange [c]).rule, r.Covers (ownerIndex a b) := by
  have hspan : (e.withRange [x, tilde, y]).rule.Covers (ownerIndex a b) ↔
      e.enabled = true ∧ x ≤ a ∧ a ≤ y := by
    simp only [HostElement.rule, HostElement.withRange, Rule.Covers,
      rangeToIndex_span hx (UInt8.le_trans hxy hy) (UInt8.le_trans hx hxy) hy,
      le_ownerIndex ha hb hb' (UInt8.le_trans hxy hy), ownerIndex_le ha hb' hy]
  have hletter : ∀ c ∈ letters x y, (e.withRange [c]).rule.Covers (ownerIndex a b) ↔
      e.enabled = true ∧ c ≤ a ∧ a ≤ c := by
    intro c hc
    rw [mem_letters] at hc
    have hc' := UInt8.le_trans hc.2 hy
    simp only [HostElement.rule, HostElement.withRange, Rule.Covers,
      rangeToIndex_letter (UInt8.le_trans hx hc.1) hc', le_ownerIndex ha hb hb' hc',
      ownerIndex_le ha hb' hc']
  rw [hspan]
  constructor
  · rintro ⟨henabled, hxa, hay⟩
    have hmem : a ∈ letters x y := mem_letters.mpr ⟨hxa, hay⟩
    exact ⟨_, List.mem_map_of_mem hmem,
      (hletter a hmem).mpr ⟨henabled, UInt8.le_refl a, UInt8.le_refl a⟩⟩
  · rintro ⟨r, hr, hcovers⟩
    obtain ⟨c, hc, rfl⟩ := List.mem_map.mp hr
    obtain ⟨henabled, hca, hac⟩ := (hletter c hc).mp hcovers
    rw [mem_letters] at hc
    exact ⟨henabled, UInt8.le_trans hc.1 hca, UInt8.le_trans hac hc.2⟩

theorem loadElement_withRange {t : Table} {range : Bytes} {e : HostElement}
    (hrange : t.getQualified (ascii "range") = some (.string range))
    (h : loadElement t = .ok (some e)) : e = e.withRange range := by
  have hsame := loadElement_reranged hrange ⟨hrange, rfl, rfl, rfl⟩
  rw [h] at hsame
  exact Option.some.inj (Except.ok.inj hsame)

/-- An element whose range is X~Y may be replaced by those of its letters. -/
theorem getAddress_letters {e : HostElement} {x y : UInt8} (hx : 45 ≤ x) (hxy : x ≤ y)
    (hy : y ≤ 122) (he : e = e.withRange [x, tilde, y]) (pre post : List HostElement)
    (defaultElement : Bytes) (defaultPort : UInt16) (a b : UInt8) (rest : Bytes)
    (elem : StorageElement) (ha : a ≤ 122) (hb : 45 ≤ b) (hb' : b ≤ 122) :
    RouterSeletor.getAddress ⟨pre ++ e :: post, defaultElement, defaultPort⟩ (a :: b :: rest) elem =
      RouterSeletor.getAddress ⟨pre ++ ((letters x y).map (fun c => e.withRange [c]) ++ post),
        defaultElement, defaultPort⟩ (a :: b :: rest) elem := by
  rw [getAddress_eq_select, getAddress_eq_select]
  simp only [List.map_append, List.map_cons, List.map_map]
  congr 1
  refine select_replace _ ?_ ?_ _ _
  · rw [he]
    exact span_covers_iff _ hx hxy hy ha hb hb'
  · intro r hr
    obtain ⟨c, -, rfl⟩ := List.mem_map.mp hr
    rfl

/-- Replacing an entry of the document by those of its letters changes no route. -/
theorem letters_route_alike (self : RouterSeletor) {g g' t : Table} {pre post ts : List Table}
    {x y : UInt8} (hx : 45 ≤ x) (hxy : x ≤ y) (hy : y ≤ 122)
    (hrange : t.getQualified (ascii "range") = some (.string [x, tilde, y]))
    (hletters : AreLetters t (letters x y) ts)
    (haddress : g'.getQualified (ascii "Host.address") = g.getQualified (ascii "Host.address"))
    (hport : g'.getQualified (ascii "Host.port") = g.getQualified (ascii "Host.port"))
    (hcontent : g.getTableArrayQualified (ascii "Host.Content") = some (pre ++ t :: post))
    (hcontent' : g'.getTableArrayQualified (ascii "Host.Content") = some (pre ++ (ts ++ post))) :
    RouteAlike (self.initializeManager (some g)) (self.initializeManager (some g')) := by
  have hne : letters x y ≠ [] := List.ne_nil_of_mem (mem_letters.mpr ⟨UInt8.le_refl x, hxy⟩)
  have hportOr : portOr g' (ascii "Host.port") = portOr g (ascii "Host.port") := by
    rw [portOr, portOr, hport]
  have hvalueOr : ∀ default, valueOr g' (ascii "Host.address") Base.asString default =
      valueOr g (ascii "Host.address") Base.asString default := by
    intro default
    rw [valueOr, valueOr, haddress]
  simp only [RouterSeletor.initializeManager, hcontent, hcontent', hportOr, hvalueOr]
  cases valueOr g (ascii "Host.address") Base.asString (ascii "192.168.1.12") with
  | error fault => exact rfl
  | ok defaultElement =>
    cases portOr g (ascii "Host.port") with
    | error fault => exact rfl
    | ok defaultPort =>
      rw [loadContent_append pre, loadContent_append pre, loadContent_append ts, loadContent]
      cases loadContent pre with
      | error fault => exact rfl
      | ok before =>
        cases ht : loadElement t with
        | error fault =>
          rw [loadContent_letters_error hrange hletters hne ht]
          exact rfl
        | ok o =>
          rw [loadContent_letters_ok hrange hletters ht]
          cases loadContent post with
          | error fault => exact rfl
          | ok after =>
            cases o with
            | none => exact And.intro rfl fun _ _ _ _ _ _ _ _ => rfl
            | some e =>
              refine And.intro ?_ fun a b rest elem _ ha hb hb' => ?_
              · obtain ⟨c, cs, hcs⟩ := List.exists_cons_of_ne_nil hne
                have hfull : ∀ a l, (self.hostElement ++ (before ++ a :: l)).isEmpty = false := by
                  intro a l
                  rw [List.isEmpty_eq_false_iff]
                  simp
                simp [hcs, hfull]
              · have he := loadElement_withRange hrange ht
                simpa using getAddress_letters hx hxy hy he (self.hostElement ++ before) after
                  defaultElement defaultPort a b rest elem ha hb hb'

/-- A table of three entries; A~C stands in the middle. -/
def threeEntries (content : List Table) : Table :=
  [(ascii "Host", .table [(ascii "Content", .tableArray
    ([(ascii "range", .string (ascii "Bx")), (ascii "address", .string (ascii "a"))] ::
      (content ++ [[(ascii "range", .string (ascii "A~Zz")),
        (ascii "address", .string (ascii "c"))]])))])]

def entryOf (range : Bytes) : Table :=
  [(ascii "range", .string range), (ascii "address", .string (ascii "b")),
    (ascii "port", portValue 3691)]

theorem letters_route_alike_sample :
    RouteAlike (RouterSeletor.empty.initializeManager (some (threeEntries [entryOf (ascii "A~C")])))
      (RouterSeletor.empty.initializeManager
        (some (threeEntries [entryOf [65], entryOf [66], entryOf [67]]))) := by
  have hletters : AreLetters (entryOf (ascii "A~C")) (letters 65 67)
      [entryOf [65], entryOf [66], entryOf [67]] :=
    .cons ⟨rfl, rfl, rfl, rfl⟩ (.cons ⟨rfl, rfl, rfl, rfl⟩ (.cons ⟨rfl, rfl, rfl, rfl⟩ .nil))
  have hcontent : (threeEntries [entryOf (ascii "A~C")]).getTableArrayQualified
      (ascii "Host.Content") = some ([_] ++ entryOf (ascii "A~C") :: [_]) := rfl
  exact letters_route_alike .empty (by decide) (by decide) (by decide) rfl hletters rfl rfl
    hcontent rfl

end Svnsrv.Router
