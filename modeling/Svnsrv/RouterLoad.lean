import Mathlib.Data.List.Forall2
import Svnsrv.RouterTable

/-!
# What a load reads

A value is read without fault where it has the type asked for, and an element
has its fields from the keys of one entry. The entries without a range or an
address are skipped.
-/

namespace Svnsrv.Router

open CText Toml
set_option autoImplicit false

/-- The value of the key, if there is one, has the type read. -/
def Typed {α : Type} (t : Table) (key : Bytes) (as : Base → Option α) : Prop :=
  ∀ v, t.getQualified key = some v → (as v).isSome

/-- An entry that the loop over Host.Content does not skip. -/
def Kept (t : Table) : Bool :=
  (t.getQualified (ascii "range")).isSome && (t.getQualified (ascii "address")).isSome

/-- The element has its fields from the keys of the entry. -/
structure LoadedFrom (t : Table) (e : HostElement) : Prop where
  range : ∃ range, t.getQualified (ascii "range") = some (.string range) ∧
    (e.begin_, e.end_) = rangeToIndex range
  address : t.getQualified (ascii "address") = some (.string e.address)
  port : portOr t (ascii "port") = .ok e.port
  enabled : valueOr t (ascii "enable") Base.asBool true = .ok e.enabled

theorem bind_eq_ok {α β : Type} {x : Except Fault α} {f : α → Except Fault β} {b : β} :
    (x >>= f) = .ok b ↔ ∃ a, x = .ok a ∧ f a = .ok b := by
  cases x with
  | error fault => simp [bind, Except.bind]
  | ok a => simp [bind, Except.bind]

section Values

variable {α : Type} {t : Table} {key : Bytes} {as : Base → Option α} {default x : α}

theorem asString_eq_some {v : Base} {data : Bytes} (h : v.asString = some data) :
    v = .string data := by
  cases v with
  | string data' => exact congrArg Base.string (Option.some.inj h)
  | _ => cases h

theorem deref_eq_ok {o : Option α} : deref o = .ok x ↔ o = some x := by
  cases o with
  | none => simp [deref]
  | some y => simp [deref]

theorem valueOr_eq_ok (h : valueOr t key as default = .ok x) :
    (t.getQualified key = none ∧ x = default) ∨
      ∃ v, t.getQualified key = some v ∧ as v = some x := by
  rw [valueOr] at h
  cases hv : t.getQualified key with
  | none =>
    rw [hv] at h
    exact Or.inl ⟨rfl, (Except.ok.inj h).symm⟩
  | some v =>
    rw [hv] at h
    exact Or.inr ⟨v, rfl, deref_eq_ok.mp h⟩

theorem portOr_eq_ok {port : UInt16} (h : portOr t key = .ok port) :
    (t.getQualified key = none ∧ port = 3690) ∨
      ∃ i64, t.getQualified key = some (.int64 i64) ∧ port = UInt16.ofInt i64.toInt := by
  rw [portOr] at h
  cases hv : t.getQualified key with
  | none =>
    rw [hv] at h
    exact Or.inl ⟨rfl, (Except.ok.inj h).symm⟩
  | some v =>
    rw [hv] at h
    cases v with
    | int64 i64 => exact Or.inr ⟨i64, rfl, (Except.ok.inj h).symm⟩
    | _ => cases h

theorem exists_valueOr : (∃ x, valueOr t key as default = .ok x) ↔ Typed t key as := by
  rw [valueOr, Typed]
  cases t.getQualified key with
  | none => simp
  | some v =>
    cases has : as v with
    | none => simp [deref, has]
    | some x => simp [deref, has]

theorem exists_portOr : (∃ x, portOr t key = .ok x) ↔ Typed t key Base.asInt64 := by
  rw [portOr, Typed]
  cases t.getQualified key with
  | none => simp
  | some v =>
    cases has : v.asInt64 with
    | none => simp [deref, has, Except.map]
    | some x => simp [deref, has, Except.map]

end Values

/-! ## One entry -/

theorem loadElement_skipped {t : Table} (h : Kept t = false) : loadElement t = .ok none := by
  rw [loadElement]
  cases hrange : t.getQualified (ascii "range") with
  | none => rfl
  | some range =>
    cases haddress : t.getQualified (ascii "address") with
    | none => rfl
    | some address => simp [Kept, hrange, haddress] at h

theorem loadElement_kept {t : Table} (h : Kept t = true) (o : Option HostElement) :
    loadElement t = .ok o ↔ ∃ e, o = some e ∧ LoadedFrom t e := by
  rw [Kept, Bool.and_eq_true, Option.isSome_iff_exists, Option.isSome_iff_exists] at h
  obtain ⟨⟨v, hrange⟩, w, haddress⟩ := h
  rw [loadElement, hrange, haddress]
  simp only [bind_eq_ok, deref_eq_ok]
  constructor
  · rintro ⟨range, hv, address, hw, port, hport, enabled, henabled, ho⟩
    obtain rfl := asString_eq_some hv
    obtain rfl := asString_eq_some hw
    exact ⟨_, (Except.ok.inj ho).symm, ⟨range, hrange, rfl⟩, haddress, hport, henabled⟩
  · rintro ⟨e, rfl, hloaded⟩
    obtain ⟨range, hv, hindex⟩ := hloaded.range
    obtain rfl := Option.some.inj (hrange.symm.trans hv)
    obtain rfl := Option.some.inj (haddress.symm.trans hloaded.address)
    refine ⟨range, rfl, e.address, rfl, e.port, hloaded.port, e.enabled, hloaded.enabled, ?_⟩
    rw [← hindex]
    rfl

/-- The keys of the entry that the loader reads have their types. -/
structure EntryTyped (t : Table) : Prop where
  range : Typed t (ascii "range") Base.asString
  address : Typed t (ascii "address") Base.asString
  port : Typed t (ascii "port") Base.asInt64
  enable : Typed t (ascii "enable") Base.asBool

theorem exists_loadedFrom {t : Table} (h : Kept t = true) :
    (∃ e, LoadedFrom t e) ↔ EntryTyped t := by
  rw [Kept, Bool.and_eq_true, Option.isSome_iff_exists, Option.isSome_iff_exists] at h
  obtain ⟨⟨v, hrange⟩, w, haddress⟩ := h
  constructor
  · rintro ⟨e, ⟨range, hrange, -⟩, haddress, hport, henabled⟩
    refine ⟨?_, ?_, exists_portOr.mp ⟨_, hport⟩, exists_valueOr.mp ⟨_, henabled⟩⟩
    · intro v hv
      obtain rfl := Option.some.inj (hrange.symm.trans hv)
      rfl
    · intro v hv
      obtain rfl := Option.some.inj (haddress.symm.trans hv)
      rfl
  · intro h
    obtain ⟨range, hv⟩ := Option.isSome_iff_exists.mp (h.range v hrange)
    obtain ⟨address, hw⟩ := Option.isSome_iff_exists.mp (h.address w haddress)
    obtain rfl := asString_eq_some hv
    obtain rfl := asString_eq_some hw
    obtain ⟨port, hport⟩ := exists_portOr.mpr h.port
    obtain ⟨enabled, henabled⟩ := exists_valueOr.mpr h.enable
    exact ⟨⟨(rangeToIndex range).1, (rangeToIndex range).2, port, enabled, address⟩,
      ⟨range, hrange, rfl⟩, haddress, hport, henabled⟩

/-! ## The whole document -/

/-- The elements come from the entries that are not skipped, in file order. -/
theorem loadContent_eq_ok_iff {ta : List Table} {es : List HostElement} :
    loadContent ta = .ok es ↔ List.Forall₂ LoadedFrom (ta.filter Kept) es := by
  induction ta generalizing es with
  | nil =>
    rw [List.filter_nil, List.forall₂_nil_left_iff]
    exact ⟨fun h => (Except.ok.inj h).symm, fun h => by rw [h]; rfl⟩
  | cons t ta ih =>
    rw [loadContent]
    simp only [bind_eq_ok, ih]
    cases hkept : Kept t with
    | false =>
      rw [List.filter_cons_of_neg (Bool.eq_false_iff.mp hkept), loadElement_skipped hkept]
      constructor
      · rintro ⟨o, ho, rest, hrest, hes⟩
        obtain rfl := Except.ok.inj ho
        obtain rfl := Except.ok.inj hes
        exact hrest
      · intro h
        exact ⟨none, rfl, es, h, rfl⟩
    | true =>
      rw [List.filter_cons_of_pos hkept]
      simp only [loadElement_kept hkept]
      constructor
      · rintro ⟨o, ⟨e, rfl, he⟩, rest, hrest, hes⟩
        obtain rfl := Except.ok.inj hes
        exact .cons he hrest
      · intro h
        rcases es with _ | ⟨e, rest⟩
        · cases h
        · obtain ⟨he, hrest⟩ := List.forall₂_cons.mp h
          exact ⟨some e, ⟨e, rfl, he⟩, rest, hrest, rfl⟩

theorem exists_forall₂ {α β : Type} {R : α → β → Prop} {l : List α} :
    (∃ l', List.Forall₂ R l l') ↔ ∀ a ∈ l, ∃ b, R a b := by
  induction l with
  | nil => exact ⟨fun _ a ha => absurd ha List.not_mem_nil, fun _ => ⟨[], .nil⟩⟩
  | cons a l ih =>
    rw [List.forall_mem_cons, ← ih]
    constructor
    · rintro ⟨l', h⟩
      cases h with
      | cons ha hl => exact ⟨⟨_, ha⟩, _, hl⟩
    · rintro ⟨⟨b, hb⟩, l', hl'⟩
      exact ⟨b :: l', .cons hb hl'⟩

theorem forall₂_split {α β : Type} {R : α → β → Prop} {pre : List α} {a : α} {post : List α}
    {l : List β} (h : List.Forall₂ R (pre ++ a :: post) l) :
    ∃ pre' b post', l = pre' ++ b :: post' ∧ pre'.length = pre.length ∧ R a b := by
  induction pre generalizing l with
  | nil =>
    obtain ⟨b, post', hb, -, rfl⟩ := List.forall₂_cons_left_iff.mp h
    exact ⟨[], b, post', rfl, rfl, hb⟩
  | cons c pre ih =>
    obtain ⟨d, l, -, hl, rfl⟩ := List.forall₂_cons_left_iff.mp h
    obtain ⟨pre', b, post', rfl, hlen, hb⟩ := ih hl
    exact ⟨d :: pre', b, post', rfl, congrArg (· + 1) hlen, hb⟩

theorem exists_loadContent (ta : List Table) :
    (∃ es, loadContent ta = .ok es) ↔ ∀ t ∈ ta, Kept t → EntryTyped t := by
  simp only [loadContent_eq_ok_iff, exists_forall₂, List.mem_filter, and_imp]
  exact forall₃_congr fun t _ hkept => exists_loadedFrom hkept

section Document

variable {self : RouterSeletor} {g : Table}

theorem initializeManager_without (hcontent : g.getTableArrayQualified (ascii "Host.Content") = none)
    (r : Bool × RouterSeletor) :
    self.initializeManager (some g) = .ok r ↔ ∃ defaultElement defaultPort,
      valueOr g (ascii "Host.address") Base.asString (ascii "192.168.1.12") = .ok defaultElement ∧
      portOr g (ascii "Host.port") = .ok defaultPort ∧
      r = (false, ⟨self.hostElement, defaultElement, defaultPort⟩) := by
  simp only [RouterSeletor.initializeManager, bind_eq_ok, hcontent]
  constructor
  · rintro ⟨d, hd, p, hp, hr⟩
    exact ⟨d, p, hd, hp, (Except.ok.inj hr).symm⟩
  · rintro ⟨d, p, hd, hp, rfl⟩
    exact ⟨d, hd, p, hp, rfl⟩

theorem initializeManager_with {ta : List Table}
    (hcontent : g.getTableArrayQualified (ascii "Host.Content") = some ta)
    (r : Bool × RouterSeletor) :
    self.initializeManager (some g) = .ok r ↔ ∃ defaultElement defaultPort es,
      valueOr g (ascii "Host.address") Base.asString (ascii "192.168.1.12") = .ok defaultElement ∧
      portOr g (ascii "Host.port") = .ok defaultPort ∧
      List.Forall₂ LoadedFrom (ta.filter Kept) es ∧
      r = (!(defaultElement.isEmpty && (self.hostElement ++ es).isEmpty),
        ⟨self.hostElement ++ es, defaultElement, defaultPort⟩) := by
  simp only [RouterSeletor.initializeManager, bind_eq_ok, hcontent, loadContent_eq_ok_iff]
  constructor
  · rintro ⟨d, hd, p, hp, es, hes, hr⟩
    exact ⟨d, p, es, hd, hp, hes, (Except.ok.inj hr).symm⟩
  · rintro ⟨d, p, es, hd, hp, hes, rfl⟩
    exact ⟨d, hd, p, hp, es, hes, rfl⟩

end Document

end Svnsrv.Router
