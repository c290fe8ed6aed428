import Svnsrv.RouterTable

/-!
# The order of the table

The lookup takes the first enabled element that holds the owner. Elements that
hold no owner may be dropped, and elements that no owner shares may be permuted.
-/

namespace Svnsrv.Router

open CText RangeTable
set_option autoImplicit false

/-- No packed number lies in both intervals. -/
def HostElement.Apart (e e' : HostElement) : Prop :=
  ∀ index : UInt16, ¬ ((e.begin_ ≤ index ∧ index ≤ e.end_) ∧ e'.begin_ ≤ index ∧ index ≤ e'.end_)

theorem not_covers_of_void {e : HostElement} (h : e.enabled = false ∨ e.end_ < e.begin_)
    (index : UInt16) : ¬ e.rule.Covers index := by
  rintro ⟨henabled, hbegin, hend⟩
  rcases h with h | h
  · exact absurd (h.symm.trans henabled) Bool.false_ne_true
  · exact absurd (UInt16.le_trans hbegin hend) (UInt16.not_le.mpr h)

/-- Of enabled elements apart from one another, at most one covers an owner. -/
theorem pairwise_not_covers {es : List HostElement}
    (h : (es.filter (·.enabled)).Pairwise HostElement.Apart) (index : UInt16) :
    (es.map HostElement.rule).Pairwise fun r r' => ¬ (r.Covers index ∧ r'.Covers index) := by
  rw [List.pairwise_filter] at h
  rw [List.pairwise_map]
  apply h.imp
  rintro e e' hapart ⟨⟨henabled, hrange⟩, henabled', hrange'⟩
  exact hapart henabled henabled' index ⟨hrange, hrange'⟩

/-- Tables that select alike answer alike. -/
theorem getAddress_congr {es es' : List HostElement} {defaultElement : Bytes}
    {defaultPort : UInt16}
    (h : ∀ default index, select default index (es.map HostElement.rule) =
      select default index (es'.map HostElement.rule)) (owner : Bytes) (elem : StorageElement) :
    RouterSeletor.getAddress ⟨es, defaultElement, defaultPort⟩ owner elem =
      RouterSeletor.getAddress ⟨es', defaultElement, defaultPort⟩ owner elem := by
  rcases owner with _ | ⟨a, _ | ⟨b, rest⟩⟩
  · rfl
  · rfl
  · rw [getAddress_eq_select, getAddress_eq_select, h]

/-- An element that is disabled or has begin above end may be deleted, and elements with
disjoint intervals may stand in any order. -/
theorem order_matters_on_overlap (es : List HostElement) (defaultElement : Bytes)
    (defaultPort : UInt16) (owner : Bytes) (elem : StorageElement) :
    (∀ pre e post, es = pre ++ e :: post → e.enabled = false ∨ e.end_ < e.begin_ →
      RouterSeletor.getAddress ⟨pre ++ post, defaultElement, defaultPort⟩ owner elem =
        RouterSeletor.getAddress ⟨es, defaultElement, defaultPort⟩ owner elem) ∧
    ((es.filter (·.enabled)).Pairwise HostElement.Apart → ∀ es' : List HostElement, es.Perm es' →
      RouterSeletor.getAddress ⟨es', defaultElement, defaultPort⟩ owner elem =
        RouterSeletor.getAddress ⟨es, defaultElement, defaultPort⟩ owner elem) := by
  constructor
  · rintro pre e post rfl hvoid
    apply getAddress_congr
    intro default index
    rw [List.map_append, List.map_append, List.map_cons,
      select_drop default (not_covers_of_void hvoid index)]
  · intro hapart es' hperm
    apply getAddress_congr
    intro default index
    exact (select_perm default (pairwise_not_covers hapart index) (hperm.map _)).symm

/-- Two intervals that overlap, one of them disabled, and one without owners. -/
def shadowed : List HostElement :=
  [⟨33000, 34000, 3691, false, ascii "a"⟩, ⟨33300, 33400, 3692, true, ascii "b"⟩,
    ⟨34500, 34450, 3693, true, ascii "c"⟩]

theorem shadowed_apart : (shadowed.filter (·.enabled)).Pairwise HostElement.Apart := by
  apply List.Pairwise.cons
  · intro e he index h
    obtain rfl := List.mem_singleton.mp he
    exact absurd (UInt16.le_trans h.2.1 h.1.2) (by decide)
  · exact List.pairwise_singleton _ _

theorem shadowed_order :
    RouterSeletor.getAddress ⟨shadowed.tail, ascii "d", 3690⟩ (ascii "Ab") ⟨0, []⟩ =
        RouterSeletor.getAddress ⟨shadowed, ascii "d", 3690⟩ (ascii "Ab") ⟨0, []⟩ ∧
      RouterSeletor.getAddress ⟨shadowed.reverse, ascii "d", 3690⟩ (ascii "Ab") ⟨0, []⟩ =
        RouterSeletor.getAddress ⟨shadowed, ascii "d", 3690⟩ (ascii "Ab") ⟨0, []⟩ := by
  have horder := order_matters_on_overlap shadowed (ascii "d") 3690 (ascii "Ab") ⟨0, []⟩
  refine ⟨horder.1 [] _ _ rfl (Or.inl rfl), horder.2 shadowed_apart _ ?_⟩
  exact (List.reverse_perm shadowed).symm

end Svnsrv.Router
