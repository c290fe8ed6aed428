import Mathlib.Data.List.Infix
import Mathlib.Data.List.Nodup
import Svnsrv.Lib.Toml

/-!
# Documents under construction

What a reader of a document does with its tables: a value is inserted under a key,
and the table at the end of a path is changed. A step of a path goes into a table,
or into the last table of an array of tables.

A tree is proper when no table has a key twice and no array of tables is empty.
-/

namespace Toml

open CText
set_option autoImplicit false

namespace Base

/-- `is_value()` -/
def isValue : Base → Bool
  | string _ | int64 _ | double | bool _ | datetime => true
  | array | table _ | tableArray _ => false

/-- The table that a key with this value leads into. -/
def inner : Base → Option Table
  | table map => some map
  | tableArray tables => tables.getLast?
  | _ => none

def setInner (u : Table) : Base → Base
  | table _ => table u
  | tableArray tables => tableArray (tables.dropLast ++ [u])
  | v => v

end Base

namespace Table

def contains (t : Table) (key : Bytes) : Bool := (t.get key).isSome

/-- `map_[key] = value` -/
def insert : Table → Bytes → Base → Table
  | [], key, value => [(key, value)]
  | (k, v) :: t, key, value => if k = key then (k, value) :: t else (k, v) :: insert t key value

/-- The table at the end of a path. -/
def focus : Table → List Bytes → Option Table
  | t, [] => some t
  | t, part :: parts => ((t.get part).bind Base.inner).bind fun u => focus u parts

/-- The same tree with another table there. -/
def setFocus : Table → List Bytes → Table → Table
  | _, [], u => u
  | t, part :: parts, u =>
    match t.get part with
    | none => t
    | some v =>
      match v.inner with
      | none => t
      | some w => t.insert part (v.setInner (setFocus w parts u))

/-! ## Keys -/

variable {t u w : Table} {key other part : Bytes} {parts : List Bytes} {v value : Base}

theorem get_nil : get [] key = none := rfl

theorem get_cons (k : Bytes) : get ((k, v) :: t) key = if k = key then some v else get t key := by
  unfold get
  by_cases hk : k = key
  · rw [if_pos hk, hk, List.lookup_cons_self]
  · have hne : (key == k) = false := beq_false_of_ne (Ne.symm hk)
    rw [if_neg hk, List.lookup_cons, hne]

@[simp] theorem get_insert_self : (t.insert key value).get key = some value := by
  induction t with
  | nil => rw [insert, get_cons, if_pos rfl]
  | cons kv t ih =>
    rw [insert]
    by_cases hk : kv.1 = key
    · rw [if_pos hk, get_cons, if_pos hk]
    · rw [if_neg hk, get_cons, if_neg hk, ih]

theorem get_insert_of_ne (h : other ≠ key) : (t.insert key value).get other = t.get other := by
  induction t with
  | nil => rw [insert, get_cons, if_neg (Ne.symm h)]
  | cons kv t ih =>
    rw [insert]
    by_cases hk : kv.1 = key
    · rw [if_pos hk, get_cons, get_cons, hk]
      rw [if_neg (Ne.symm h), if_neg (Ne.symm h)]
    · rw [if_neg hk, get_cons, get_cons, ih]

theorem insert_insert : (t.insert key v).insert key value = t.insert key value := by
  induction t with
  | nil => simp [insert]
  | cons kv t ih =>
    by_cases hk : kv.1 = key
    · simp [insert, hk]
    · simp [insert, hk, ih]

theorem mem_of_get (h : t.get key = some v) : (key, v) ∈ t := by
  induction t with
  | nil => cases h
  | cons kv t ih =>
    rw [get_cons] at h
    by_cases hk : kv.1 = key
    · rw [if_pos hk] at h
      obtain rfl := Option.some.inj h
      exact hk ▸ List.mem_cons_self
    · rw [if_neg hk] at h
      exact List.mem_cons_of_mem _ (ih h)

/-- An entry of the new table is the one inserted or one of the old table. -/
theorem mem_insert {kv : Bytes × Base} (h : kv ∈ t.insert key value) :
    kv = (key, value) ∨ kv ∈ t := by
  induction t with
  | nil => exact Or.inl (List.mem_singleton.mp h)
  | cons kv' t ih =>
    rw [insert] at h
    by_cases hk : kv'.1 = key
    · rw [if_pos hk, hk] at h
      exact (List.mem_cons.mp h).imp id (List.mem_cons_of_mem _)
    · rw [if_neg hk] at h
      cases List.mem_cons.mp h with
      | inl heq => exact Or.inr (heq ▸ List.mem_cons_self)
      | inr hmem => exact (ih hmem).imp id (List.mem_cons_of_mem _)

theorem keys_insert_of_contains (h : t.contains key = true) :
    (t.insert key value).map Prod.fst = t.map Prod.fst := by
  induction t with
  | nil => cases h
  | cons kv t ih =>
    rw [insert]
    by_cases hk : kv.1 = key
    · rw [if_pos hk]
      rfl
    · rw [contains, get_cons, if_neg hk] at h
      rw [if_neg hk, List.map_cons, List.map_cons, ih h]

theorem insert_of_not_contains (h : t.contains key = false) :
    t.insert key value = t ++ [(key, value)] := by
  induction t with
  | nil => rfl
  | cons kv t ih =>
    rw [contains, get_cons] at h
    by_cases hk : kv.1 = key
    · rw [if_pos hk] at h
      cases h
    · rw [if_neg hk] at h
      rw [insert, if_neg hk, ih h]
      rfl

theorem contains_iff : t.contains key = true ↔ key ∈ t.map Prod.fst := by
  induction t with
  | nil => simp [contains, get_nil]
  | cons kv t ih =>
    rw [contains, get_cons, List.map_cons, List.mem_cons, ← ih]
    by_cases hk : kv.1 = key
    · simp [hk]
    · simp [hk, contains, Ne.symm hk]

/-! ## Paths -/

theorem focus_nil : t.focus [] = some t := by rw [focus]

theorem focus_cons : t.focus (part :: parts) =
    ((t.get part).bind Base.inner).bind fun u => u.focus parts := by rw [focus]

theorem focus_append (path : List Bytes) :
    t.focus (path ++ parts) = (t.focus path).bind fun u => u.focus parts := by
  induction path generalizing t with
  | nil => rw [List.nil_append, focus_nil, Option.bind_some]
  | cons part path ih =>
    rw [List.cons_append, focus_cons, focus_cons]
    cases (t.get part).bind Base.inner with
    | none => rfl
    | some w => exact ih

theorem focus_concat (path : List Bytes) :
    t.focus (path ++ [part]) = (t.focus path).bind fun u => (u.get part).bind Base.inner := by
  rw [focus_append]
  congr 1
  funext u
  rw [focus_cons]
  cases (u.get part).bind Base.inner with
  | none => rfl
  | some w => exact focus_nil

end Table

theorem Base.inner_setInner {v : Base} {u w : Table} (h : v.inner = some w) :
    (v.setInner u).inner = some u := by
  cases v with
  | table map => rfl
  | tableArray tables => simp [setInner, inner]
  | _ => cases h

namespace Table

variable {t u w : Table} {key part : Bytes} {v : Base}

theorem setFocus_cons {parts : List Bytes} (hv : t.get part = some v) (hw : v.inner = some w) :
    t.setFocus (part :: parts) u = t.insert part (v.setInner (w.setFocus parts u)) := by
  rw [setFocus, hv]
  simp only [hw]

theorem exists_of_focus_cons {parts : List Bytes} (h : t.focus (part :: parts) = some u) :
    ∃ v w, t.get part = some v ∧ v.inner = some w ∧ w.focus parts = some u := by
  rw [focus_cons, Option.bind_eq_some_iff] at h
  obtain ⟨w, hinner, hfocus⟩ := h
  obtain ⟨v, hv, hw⟩ := Option.bind_eq_some_iff.mp hinner
  exact ⟨v, w, hv, hw, hfocus⟩

/-- A table that was put at the end of a path is there. -/
theorem focus_setFocus {path : List Bytes} (h : t.focus path = some w) :
    (t.setFocus path u).focus path = some u := by
  induction path generalizing t with
  | nil => rw [setFocus, focus_nil]
  | cons part path ih =>
    obtain ⟨v, w', hv, hw, hfocus⟩ := exists_of_focus_cons h
    rw [setFocus_cons hv hw, focus_cons, get_insert_self, Option.bind_some,
      Base.inner_setInner hw, Option.bind_some]
    exact ih hfocus

end Table

/-! ## Proper trees -/

/-- No table has a key twice and no array of tables is empty, here and below. -/
inductive Proper : Base → Prop
  | value {v : Base} (h : v.isValue = true) : Proper v
  | array : Proper .array
  | table {map : Table} (hkeys : (map.map Prod.fst).Nodup) (hall : ∀ kv ∈ map, Proper kv.2) :
      Proper (.table map)
  | tableArray {tables : List Table} (hne : tables ≠ [])
      (hkeys : ∀ t ∈ tables, (t.map Prod.fst).Nodup)
      (hall : ∀ t ∈ tables, ∀ kv ∈ t, Proper kv.2) : Proper (.tableArray tables)

/-- A table is proper as a value. -/
def Table.Proper (t : Table) : Prop := Toml.Proper (.table t)

namespace Table.Proper

variable {t u : Table} {key : Bytes} {v : Base}

theorem keys (h : t.Proper) : (t.map Prod.fst).Nodup := by
  cases h with
  | value h => cases h
  | table hkeys hall => exact hkeys

theorem values (h : t.Proper) : ∀ kv ∈ t, Toml.Proper kv.2 := by
  cases h with
  | value h => cases h
  | table hkeys hall => exact hall

theorem nil : Table.Proper [] := Toml.Proper.table List.nodup_nil fun kv h => by cases h

theorem get (h : t.Proper) (hv : t.get key = some v) : Toml.Proper v :=
  h.values _ (mem_of_get hv)

theorem insert (h : t.Proper) (hv : Toml.Proper v) : (t.insert key v).Proper := by
  refine Toml.Proper.table ?_ ?_
  · cases hkey : t.contains key with
    | true =>
      rw [keys_insert_of_contains hkey]
      exact h.keys
    | false =>
      have hnew : key ∉ t.map Prod.fst := by
        rw [← contains_iff, hkey]
        exact Bool.false_ne_true
      rw [insert_of_not_contains hkey, List.map_append, List.map_singleton,
        ← List.concat_eq_append]
      exact h.keys.concat hnew
  · intro kv hkv
    cases mem_insert hkv with
    | inl heq => exact heq ▸ hv
    | inr hmem => exact h.values kv hmem

end Table.Proper

namespace Proper

variable {v : Base} {t u : Table}

theorem tables {tables : List Table} (h : Proper (.tableArray tables)) :
    tables ≠ [] ∧ ∀ t ∈ tables, t.Proper := by
  cases h with
  | value h => cases h
  | tableArray hne hkeys hall =>
    exact ⟨hne, fun t ht => Proper.table (hkeys t ht) (hall t ht)⟩

theorem ofTables {tables : List Table} (hne : tables ≠ []) (h : ∀ t ∈ tables, t.Proper) :
    Proper (.tableArray tables) :=
  Proper.tableArray hne (fun t ht => (h t ht).keys) fun t ht => (h t ht).values

theorem inner (h : Proper v) (hv : v.inner = some t) : t.Proper := by
  cases v with
  | table map => exact Option.some.inj hv ▸ h
  | tableArray tables => exact h.tables.2 t (List.mem_of_getLast? hv)
  | _ => cases hv

theorem setInner (h : Proper v) (hu : u.Proper) : Proper (v.setInner u) := by
  cases v with
  | table map => exact hu
  | tableArray tables =>
    refine ofTables (by simp) fun t ht => ?_
    cases List.mem_append.mp ht with
    | inl hmem => exact h.tables.2 t (List.mem_of_mem_dropLast hmem)
    | inr hmem => exact List.mem_singleton.mp hmem ▸ hu
  | _ => exact h

end Proper

namespace Table.Proper

variable {t u w : Table}

theorem focus {path : List Bytes} (h : t.Proper) (hu : t.focus path = some u) : u.Proper := by
  induction path generalizing t with
  | nil => exact Option.some.inj (focus_nil.symm.trans hu) ▸ h
  | cons part path ih =>
    obtain ⟨v, w, hv, hw, hfocus⟩ := exists_of_focus_cons hu
    exact ih ((h.get hv).inner hw) hfocus

theorem setFocus {path : List Bytes} (h : t.Proper) (hw : t.focus path = some w) (hu : u.Proper) :
    (t.setFocus path u).Proper := by
  induction path generalizing t with
  | nil =>
    rw [Table.setFocus]
    exact hu
  | cons part path ih =>
    obtain ⟨v, w', hv, hinner, hfocus⟩ := exists_of_focus_cons hw
    rw [setFocus_cons hv hinner]
    exact h.insert ((h.get hv).setInner (ih ((h.get hv).inner hinner) hfocus))

end Table.Proper

end Toml
