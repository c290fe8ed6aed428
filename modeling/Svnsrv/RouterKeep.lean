import Svnsrv.RouterLoad

/-!
# Which documents load whole

The README lets a document name its default machine only, and lets an entry name
any port. The loader refuses the first and stores the low 16 bits of the second.
-/

namespace Svnsrv.Router

open CText Toml
set_option autoImplicit false

/-- A Host.Content entry whose keys have their types; each of them may be missing. -/
structure Stanza where
  range : Option Bytes
  address : Option Bytes
  port : Option Int64
  enable : Option Bool

namespace Stanza

structure IsReadFrom (s : Stanza) (t : Table) : Prop where
  range : t.getQualified (ascii "range") = s.range.map .string
  address : t.getQualified (ascii "address") = s.address.map .string
  port : t.getQualified (ascii "port") = s.port.map .int64
  enable : t.getQualified (ascii "enable") = s.enable.map .bool

/-- The entries that name both a range and an address. -/
def complete (s : Stanza) : Bool := s.range.isSome && s.address.isSome

/-- The element is the one that the entry asks for. -/
structure Gives (s : Stanza) (e : HostElement) : Prop where
  range : ∃ range, s.range = some range ∧ (e.begin_, e.end_) = rangeToIndex range
  address : s.address = some e.address
  port : (e.port.toNat : Int) = s.port.elim 3690 Int64.toInt
  enabled : e.enabled = s.enable.getD true

end Stanza

/-- The entries of a document; a table array of the parser has at least one table. -/
inductive Content (g : Table) : List Stanza → Prop
  | missing (h : g.getTableArrayQualified (ascii "Host.Content") = none) : Content g []
  | present {ta : List Table} {stanzas : List Stanza}
      (h : g.getTableArrayQualified (ascii "Host.Content") = some ta) (hne : ta ≠ [])
      (hread : List.Forall₂ Stanza.IsReadFrom stanzas ta) : Content g stanzas

/-- The document has a default machine and the entries. -/
structure Document (g : Table) (defaultElement : Bytes) (defaultPort : Option UInt16)
    (stanzas : List Stanza) : Prop where
  address : g.getQualified (ascii "Host.address") = some (.string defaultElement)
  nonempty : defaultElement ≠ []
  port : g.getQualified (ascii "Host.port") = defaultPort.map portValue
  content : Content g stanzas

/-- The whole table is loaded, and without entries every owner goes to the default machine. -/
structure LoadsWhole (g : Table) (defaultElement : Bytes) (defaultPort : Option UInt16)
    (stanzas : List Stanza) (router : RouterSeletor) : Prop where
  loaded : RouterSeletor.empty.initializeManager (some g) = .ok (true, router)
  elements : List.Forall₂ Stanza.Gives (stanzas.filter Stanza.complete) router.hostElement
  default : stanzas = [] → ∀ (a b : UInt8) (rest : Bytes) (elem : StorageElement),
    router.getAddress (a :: b :: rest) elem = (true, ⟨defaultPort.getD 3690, defaultElement⟩)

/-- The port of the entry, if it names one, is a port number. -/
def Stanza.PortFits (s : Stanza) : Prop :=
  ∀ i64, s.port = some i64 → 0 ≤ i64.toInt ∧ i64.toInt < 65536

theorem toNat_ofInt_eq_iff (i : Int) : ((UInt16.ofInt i).toNat : Int) = i ↔ 0 ≤ i ∧ i < 65536 := by
  rw [UInt16.ofInt, UInt16.toNat_ofNat']
  omega

section Entries

variable {s : Stanza} {t : Table} (hread : s.IsReadFrom t)
include hread

theorem kept_eq_complete : Kept t = s.complete := by
  rw [Kept, Stanza.complete, hread.range, hread.address, Option.isSome_map, Option.isSome_map]

theorem entryTyped_of_read : EntryTyped t := by
  have htyped : ∀ {α : Type} {key : Bytes} {as : Base → Option α} {mk : α → Base} {o : Option α},
      t.getQualified key = o.map mk → (∀ a, as (mk a) = some a) → Typed t key as := by
    intro α key as mk o h hmk v hv
    rw [h, Option.map_eq_some_iff] at hv
    obtain ⟨a, -, rfl⟩ := hv
    exact Option.isSome_of_eq_some (hmk a)
  exact ⟨htyped hread.range fun _ => rfl, htyped hread.address fun _ => rfl,
    htyped hread.port fun _ => rfl, htyped hread.enable fun _ => rfl⟩

theorem loaded_port_iff {port : UInt16} (h : portOr t (ascii "port") = .ok port) :
    (port.toNat : Int) = s.port.elim 3690 Int64.toInt ↔ s.PortFits := by
  rcases portOr_eq_ok h with ⟨hnone, rfl⟩ | ⟨i64, hsome, rfl⟩
  · have hport : s.port = none := Option.map_eq_none_iff.mp (hread.port.symm.trans hnone)
    simp [Stanza.PortFits, hport]
  · obtain ⟨i, hport, hi⟩ := Option.map_eq_some_iff.mp (hread.port.symm.trans hsome)
    obtain rfl := Base.int64.inj hi
    simp only [Stanza.PortFits, hport, Option.elim_some, Option.some.injEq, forall_eq']
    exact toNat_ofInt_eq_iff i.toInt

theorem gives_iff {e : HostElement} (h : LoadedFrom t e) : s.Gives e ↔ s.PortFits := by
  rw [← loaded_port_iff hread h.port]
  constructor
  · intro hgives
    exact hgives.port
  · intro hport
    obtain ⟨range, hrange, hindex⟩ := h.range
    obtain ⟨range', hrange', heq⟩ := Option.map_eq_some_iff.mp (hread.range.symm.trans hrange)
    obtain ⟨address, haddress, heq'⟩ :=
      Option.map_eq_some_iff.mp (hread.address.symm.trans h.address)
    obtain rfl := Base.string.inj heq
    obtain rfl := Base.string.inj heq'
    refine ⟨⟨range', hrange', hindex⟩, haddress, hport, ?_⟩
    have henable := h.enabled
    rw [valueOr_eq Base.asBool true (fun _ => rfl) hread.enable] at henable
    exact (Except.ok.inj henable).symm

end Entries

theorem exists_read_of_mem {stanzas : List Stanza} {ta : List Table} {t : Table}
    (hread : List.Forall₂ Stanza.IsReadFrom stanzas ta) (ht : t ∈ ta) :
    ∃ s ∈ stanzas, s.IsReadFrom t := by
  induction hread with
  | nil => cases ht
  | cons hs _ ih =>
    rcases List.mem_cons.mp ht with rfl | ht
    · exact ⟨_, List.mem_cons_self, hs⟩
    · obtain ⟨s, hmem, hs⟩ := ih ht
      exact ⟨s, List.mem_cons_of_mem _ hmem, hs⟩

theorem forall₂_gives_iff {stanzas : List Stanza} {ta : List Table} {es : List HostElement}
    (hread : List.Forall₂ Stanza.IsReadFrom stanzas ta)
    (hloaded : List.Forall₂ LoadedFrom (ta.filter Kept) es) :
    List.Forall₂ Stanza.Gives (stanzas.filter Stanza.complete) es ↔
      ∀ s ∈ stanzas, s.complete → s.PortFits := by
  induction hread generalizing es with
  | nil =>
    obtain rfl := List.forall₂_nil_left_iff.mp hloaded
    simp
  | @cons s t stanzas ta hs hread ih =>
    rw [List.forall_mem_cons]
    have hkept := kept_eq_complete hs
    cases hcomplete : s.complete with
    | false =>
      rw [hcomplete] at hkept
      rw [List.filter_cons_of_neg (Bool.eq_false_iff.mp hkept)] at hloaded
      rw [List.filter_cons_of_neg (Bool.eq_false_iff.mp hcomplete), ih hloaded]
      exact ⟨fun h => ⟨fun h0 => absurd h0 Bool.false_ne_true, h⟩, And.right⟩
    | true =>
      rw [hcomplete] at hkept
      rw [List.filter_cons_of_pos hkept] at hloaded
      cases hloaded with
      | cons he hrest =>
        rw [List.filter_cons_of_pos hcomplete, List.forall₂_cons, ih hrest, gives_iff hs he]
        exact and_congr_left fun _ => ⟨fun h _ => h, fun h => h rfl⟩

/-- A document loads whole where it has an entry and no complete entry names a number that is
no port. -/
theorem loads_whole_iff {g : Table} {defaultElement : Bytes} {defaultPort : Option UInt16}
    {stanzas : List Stanza} (hdoc : Document g defaultElement defaultPort stanzas) :
    (∃ router, LoadsWhole g defaultElement defaultPort stanzas router) ↔
      stanzas ≠ [] ∧ ∀ s ∈ stanzas, s.complete → s.PortFits := by
  have haddress : valueOr g (ascii "Host.address") Base.asString (ascii "192.168.1.12") =
      .ok defaultElement :=
    valueOr_eq (x := some defaultElement) Base.asString _ (fun _ => rfl) hdoc.address
  cases hdoc.content with
  | missing hnone =>
    constructor
    · rintro ⟨router, hloaded, -, -⟩
      obtain ⟨d, p, -, -, hr⟩ := (initializeManager_without hnone _).mp hloaded
      cases congrArg Prod.fst hr
    · rintro ⟨hne, -⟩
      exact absurd rfl hne
  | @present ta _ hcontent hne hread =>
    have hstanzas : stanzas ≠ [] := by
      rintro rfl
      exact hne (List.forall₂_nil_left_iff.mp hread)
    constructor
    · rintro ⟨router, hloaded, helements, -⟩
      obtain ⟨d, p, es, -, -, hes, hr⟩ := (initializeManager_with hcontent _).mp hloaded
      obtain rfl : router = ⟨es, d, p⟩ := congrArg Prod.snd hr
      exact ⟨hstanzas, (forall₂_gives_iff hread hes).mp helements⟩
    · rintro ⟨-, hports⟩
      have htyped : ∀ t ∈ ta.filter Kept, ∃ e, LoadedFrom t e := by
        intro t ht
        obtain ⟨hmem, hkept⟩ := List.mem_filter.mp ht
        obtain ⟨s, -, hs⟩ := exists_read_of_mem hread hmem
        exact (exists_loadedFrom hkept).mpr (entryTyped_of_read hs)
      obtain ⟨es, hes⟩ := exists_forall₂.mpr htyped
      refine ⟨⟨es, defaultElement, defaultPort.getD 3690⟩, ?_, ?_, fun h => absurd h hstanzas⟩
      · apply (initializeManager_with hcontent _).mpr
        refine ⟨_, _, es, haddress, portOr_eq hdoc.port, hes, ?_⟩
        rw [List.isEmpty_eq_false_iff.mpr hdoc.nonempty]
        rfl
      · exact (forall₂_gives_iff hread hes).mpr hports

/-- A document that names the default machine and nothing else. -/
def bareDocument : Table :=
  [(ascii "Host", .table
    [(ascii "address", .string (ascii "192.168.1.12")), (ascii "port", portValue 3690)])]

theorem bare_document_refused :
    Document bareDocument (ascii "192.168.1.12") (some 3690) [] ∧
      RouterSeletor.empty.initializeManager (some bareDocument) =
        .ok (false, ⟨[], ascii "192.168.1.12", 3690⟩) :=
  ⟨⟨rfl, by decide, rfl, .missing rfl⟩, rfl⟩

/-- An entry with every key, and one without an address. -/
def twoStanzas : List Stanza :=
  [⟨some (ascii "B~D"), some (ascii "10.0.0.2"), some 3691, some false⟩,
    ⟨some (ascii "E"), none, some 70000, none⟩]

def twoDocument : Table :=
  [(ascii "Host", .table
    [(ascii "address", .string (ascii "192.168.1.12")),
      (ascii "Content", .tableArray
        [[(ascii "range", .string (ascii "B~D")), (ascii "address", .string (ascii "10.0.0.2")),
            (ascii "port", .int64 3691), (ascii "enable", .bool false)],
          [(ascii "range", .string (ascii "E")), (ascii "port", .int64 70000)]])])]

theorem two_document_read :
    Document twoDocument (ascii "192.168.1.12") none twoStanzas where
  address := rfl
  nonempty := by decide
  port := rfl
  content := .present rfl (by simp) (.cons ⟨rfl, rfl, rfl, rfl⟩ (.cons ⟨rfl, rfl, rfl, rfl⟩ .nil))

theorem two_document_loads_whole :
    ∃ router, LoadsWhole twoDocument (ascii "192.168.1.12") none twoStanzas router := by
  apply (loads_whole_iff two_document_read).mpr
  refine ⟨by simp [twoStanzas], ?_⟩
  rw [twoStanzas, List.forall_mem_cons, List.forall_mem_singleton]
  constructor
  · intro _ i64 hport
    obtain rfl := Option.some.inj hport
    exact ⟨by decide, by decide⟩
  · intro hcomplete
    exact absurd hcomplete (by decide)

end Svnsrv.Router
