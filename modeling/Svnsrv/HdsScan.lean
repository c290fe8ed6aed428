import Mathlib.Logic.Relation
import Svnsrv.Hds

/-!
# Runs of the handshake scan

A state of the machine is kept over `Quiet` text and left at the first byte
that is not quiet. `outcome b s` is the result of the call seen from the middle
of its loop; the lemmas move it over quiet text, over the bytes that change the
state, and over a string read by length.
-/

namespace Svnsrv.Hds

open CText
set_option autoImplicit false

/-! ## The cursor -/

theorem read_of_append {b : Buffer} {pre post : Bytes} {c : UInt8}
    (hb : b.bytes = pre ++ c :: post) : b.read pre.length = some c := by
  simp [Buffer.read, hb]

theorem nbytes_of_append {b : Buffer} {pre post : Bytes} {c : UInt8}
    (hb : b.bytes = pre ++ c :: post) : b.nbytes = pre.length + 1 + post.length := by
  simp only [Buffer.nbytes, hb, List.length_append, List.length_cons]
  omega

theorem nbytes_bounds (b : Buffer) : 0 ≤ b.nbytes ∧ b.addr + b.nbytes < 2 ^ 63 := by
  have := b.fits
  unfold Buffer.nbytes
  omega

/-- A length that does not leave the address space is compared as a number. -/
theorem pastEnd_of_nonneg {b : Buffer} {p l : Int} (hp : 0 ≤ p) (hpn : p < b.nbytes)
    (hl : 0 ≤ l) (hmax : l ≤ longMax) :
    b.pastEnd (p + l + 1) = true ↔ b.nbytes ≤ p + l + 1 := by
  have := nbytes_bounds b
  unfold longMax at hmax
  simp only [Buffer.pastEnd, decide_eq_true_eq]
  rw [Int.emod_eq_of_lt (by omega) (by omega)]
  omega

/-- A negative length passes the check unless the address wraps below zero. -/
theorem pastEnd_of_neg {b : Buffer} {p l : Int} (hp : 0 ≤ p) (hpn : p < b.nbytes)
    (hl : l < 0) (hmin : longMin ≤ l) :
    b.pastEnd (p + l + 1) = true ↔ b.addr + p + l + 1 < 0 := by
  have := nbytes_bounds b
  unfold longMin at hmin
  simp only [Buffer.pastEnd, decide_eq_true_eq]
  by_cases hw : b.addr + p + l + 1 < 0
  · rw [← Int.add_emod_right, Int.emod_eq_of_lt (by omega) (by omega)]
    omega
  · rw [Int.emod_eq_of_lt (by omega) (by omega)]
    omega

theorem assign_of_neg {b : Buffer} {p l : Int} (hl : l < 0) (hmin : longMin ≤ l) :
    b.assign p l = .error .length_error := by
  unfold longMin at hmin
  have hcount : l % 2 ^ 64 = l + 2 ^ 64 := by
    rw [← Int.add_emod_right, Int.emod_eq_of_lt (by omega) (by omega)]
  simp only [Buffer.assign, hcount]
  rw [if_pos (by omega)]

theorem assign_of_nonneg {b : Buffer} {p l : Int} (hp : 0 ≤ p) (hl : 0 ≤ l)
    (hend : p + l ≤ b.nbytes) :
    b.assign p l = .ok ((b.bytes.drop p.toNat).take l.toNat) := by
  have := nbytes_bounds b
  have hcount : l % 2 ^ 64 = l := Int.emod_eq_of_lt hl (by omega)
  simp only [Buffer.assign, hcount]
  rw [if_neg (by omega), if_pos ⟨hp, hend⟩]

theorem perform_string {b : Buffer} {t : Scan} (field : Field)
    (hp : 0 ≤ t.p) (hpn : t.p < b.nbytes) :
    (perform b (.string t field) = .inr (t.hds.fail field.tooLong) ∧
      (b.nbytes ≤ t.p + strtol t.tmp + 1 ∨ b.addr + t.p + strtol t.tmp + 1 < 0)) ∨
    (perform b (.string t field) = .inr (.abort .length_error) ∧
      strtol t.tmp < 0 ∧ 0 ≤ b.addr + t.p + strtol t.tmp + 1) ∨
    (perform b (.string t field) = .inl { t with
        p := t.p + 1 + strtol t.tmp + 1
        tmp := []
        status := field.parsed
        hds := t.hds.assign field
          ((b.bytes.drop (t.p + 1).toNat).take (strtol t.tmp).toNat) } ∧
      0 ≤ strtol t.tmp ∧ t.p + strtol t.tmp + 1 < b.nbytes) := by
  obtain ⟨hmin, hmax⟩ := strtol_bounds t.tmp
  by_cases hneg : strtol t.tmp < 0
  · have hiff := pastEnd_of_neg hp hpn hneg hmin
    by_cases hw : b.addr + t.p + strtol t.tmp + 1 < 0
    · exact .inl ⟨by simp [perform, hiff.mpr hw], .inr hw⟩
    · have hpast : b.pastEnd (t.p + strtol t.tmp + 1) = false := by
        rw [← Bool.not_eq_true, hiff]
        exact hw
      refine .inr (.inl ⟨?_, hneg, by omega⟩)
      simp [perform, hpast, assign_of_neg hneg hmin]
  · have hnn : 0 ≤ strtol t.tmp := by omega
    have hiff := pastEnd_of_nonneg hp hpn hnn hmax
    by_cases he : b.nbytes ≤ t.p + strtol t.tmp + 1
    · exact .inl ⟨by simp [perform, hiff.mpr he], .inl he⟩
    · have hpast : b.pastEnd (t.p + strtol t.tmp + 1) = false := by
        rw [← Bool.not_eq_true, hiff]
        exact he
      have hassign := assign_of_nonneg (b := b) (show 0 ≤ t.p + 1 by omega) hnn (by omega)
      refine .inr (.inr ⟨?_, hnn, by omega⟩)
      simp only [perform, hpast, Bool.false_eq_true, if_false, hassign]

theorem scanByte_string {s t : Scan} {c : UInt8} {field : Field}
    (h : scanByte s c = .string t field) : t.p = s.p := by
  unfold scanByte statusByte capabilitiesByte at h
  grind

theorem scanByte_next {s t : Scan} {c : UInt8} (h : scanByte s c = .next t) :
    t.p = s.p + 1 := by
  unfold scanByte statusByte capabilitiesByte at h
  grind

/-- Every turn moves the cursor forward and leaves it inside `[buffer, buffer + nbytes]`. -/
theorem scanStep_forward {b : Buffer} {s t : Scan} (hp : 0 ≤ s.p)
    (h : scanStep b s = .inl t) : s.p < t.p ∧ t.p ≤ b.nbytes := by
  unfold scanStep at h
  split at h
  · rename_i hlt
    split at h
    · cases h
    · rename_i c hc
      cases hact : scanByte s c with
      | next u =>
        rw [hact] at h
        have hu := scanByte_next hact
        simp only [perform, Sum.inl.injEq] at h
        subst h
        omega
      | ret code hds => simp [hact, perform] at h
      | string u field =>
        have hu := scanByte_string hact
        rw [hact] at h
        rcases perform_string (b := b) (t := u) field (by omega) (by omega) with
          ⟨hr, -⟩ | ⟨hr, -⟩ | ⟨hr, hl, hend⟩
        · simp [hr] at h
        · simp [hr] at h
        · simp only [hr, Sum.inl.injEq] at h
          subst h
          dsimp only
          omega
  · cases h

/-! ## Runs -/

/-- The locals `t` are reached from `s` by turns of the loop. -/
def Reached (b : Buffer) : Scan → Scan → Prop :=
  Relation.ReflTransGen fun s t => scanStep b s = .inl t

/-- The result of the call from the middle of its loop. -/
def outcome (b : Buffer) (s : Scan) : Outcome := scanLoop b ((b.nbytes - s.p).toNat + 1) s

theorem scanLoop_fuel {b : Buffer} (m n : Nat) {s : Scan} (hp : 0 ≤ s.p)
    (hm : (b.nbytes - s.p).toNat < m) (hn : (b.nbytes - s.p).toNat < n) :
    scanLoop b m s = scanLoop b n s := by
  induction m generalizing n s with
  | zero => omega
  | succ m ih =>
    cases n with
    | zero => omega
    | succ n =>
      simp only [scanLoop]
      cases h : scanStep b s with
      | inr r => rfl
      | inl t =>
        have := scanStep_forward hp h
        exact ih n (by omega) (by omega) (by omega)

theorem outcome_next {b : Buffer} {s t : Scan} (hp : 0 ≤ s.p) (h : scanStep b s = .inl t) :
    outcome b s = outcome b t := by
  have := scanStep_forward hp h
  rw [outcome, scanLoop, h]
  exact scanLoop_fuel _ _ (by omega) (by omega) (by omega)

theorem outcome_stop {b : Buffer} {s : Scan} {r : Outcome} (h : scanStep b s = .inr r) :
    outcome b s = r := by
  rw [outcome, scanLoop, h]

theorem reached_bounds {b : Buffer} {s t : Scan} (h : Reached b s t)
    (hp : 0 ≤ s.p) (hpn : s.p ≤ b.nbytes) : 0 ≤ t.p ∧ t.p ≤ b.nbytes := by
  induction h with
  | refl => exact ⟨hp, hpn⟩
  | tail _ hstep ih =>
    have := scanStep_forward ih.1 hstep
    omega

theorem outcome_reached {b : Buffer} {s t : Scan} (h : Reached b s t)
    (hp : 0 ≤ s.p) (hpn : s.p ≤ b.nbytes) : outcome b s = outcome b t := by
  induction h with
  | refl => rfl
  | tail hrun hstep ih => exact ih.trans (outcome_next (reached_bounds hrun hp hpn).1 hstep)

theorem parse_eq_outcome {b : Buffer} (haddr : b.addr ≠ 0) (hne : b.bytes ≠ [])
    (hds : SubversionHds) : parseSubversionHds b hds = outcome b (.start hds) := by
  have hlen : b.bytes.length ≠ 0 := by simpa using hne
  rw [parseSubversionHds, if_neg (by simp [haddr, hlen]), outcome]
  congr 1

/-- A call runs its loop, or refuses an empty buffer. -/
theorem parse_cases (b : Buffer) (hds : SubversionHds) :
    (b.addr ≠ 0 ∧ b.bytes ≠ [] ∧ parseSubversionHds b hds = outcome b (.start hds)) ∨
    parseSubversionHds b hds =
      .ret 1 { hds with lastError := ascii "Malformed Network data,buffer is empty !" } := by
  by_cases hempty : b.addr = 0 ∨ b.bytes.length = 0
  · exact .inr (by rw [parseSubversionHds, if_pos hempty])
  · obtain ⟨haddr, hlength⟩ := not_or.mp hempty
    have hne : b.bytes ≠ [] := fun h => hlength (h ▸ List.length_nil)
    exact .inl ⟨haddr, hne, parse_eq_outcome haddr hne hds⟩

/-- Fuel never runs out, so the loop ends by itself. -/
theorem outcome_eq_last {b : Buffer} (s : Scan) (hp : 0 ≤ s.p) :
    ∃ t, Reached b s t ∧ scanStep b t = .inr (outcome b s) := by
  generalize hn : (b.nbytes - s.p).toNat = n
  induction n using Nat.strong_induction_on generalizing s with
  | h n ih =>
    cases h : scanStep b s with
    | inr r => exact ⟨s, .refl, by rw [h, outcome_stop h]⟩
    | inl u =>
      have hu := scanStep_forward hp h
      obtain ⟨t, hrun, hlast⟩ := ih _ (by omega) u (by omega) rfl
      exact ⟨t, .head h hrun, by rw [hlast, outcome_next hp h]⟩

end Svnsrv.Hds
