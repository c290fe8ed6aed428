import Mathlib.Data.Int.GCD
import Mathlib.Data.List.Basic
import Mathlib.Data.Nat.ModEq
import Mathlib.Logic.Function.Iterate
import Mathlib.Tactic.LinearCombination

/-!
# Exchanging two blocks along the cycles

A permutation of places is carried out in place, one cycle after another: the
leader of a cycle is swapped with each place of the cycle in turn, and every
place ends with what the place before it held. Where the permutation exchanges
two adjacent blocks, the number of cycles is the gcd of the lengths, and that
many adjacent places lead them.
-/

namespace Exchange

set_option autoImplicit false

variable {α : Type}

/-- Swap two elements, if the list has both places. -/
def swap? (l : List α) (i j : Nat) : Option (List α) :=
  if i < l.length ∧ j < l.length then some (l.swap i j) else none

/-- Go `n` places along a cycle and swap each of them with the leader. -/
def walk (next : Nat → Nat) (leader : Nat) : Nat → Nat → List α → Option (List α)
  | 0, _, l => some l
  | n + 1, pos, l => (swap? l (next pos) leader).bind (walk next leader n (next pos))

/-- Walk the cycles of `n` places that `leaders` lead. -/
def walkAll (next : Nat → Nat) (n : Nat) : List Nat → List α → Option (List α)
  | [], l => some l
  | c :: cs, l => (walk next c n c l).bind (walkAll next n cs)

theorem getElem?_swap_left {l : List α} {i j : Nat} (hi : i < l.length) (hj : j < l.length) :
    (l.swap i j)[i]? = l[j]? := by
  rw [List.getElem?_eq_getElem (by simpa using hi), List.getElem?_eq_getElem hj,
    List.getElem_swap_left_of_lt hj]

theorem getElem?_swap_right {l : List α} {i j : Nat} (hi : i < l.length) (hj : j < l.length) :
    (l.swap i j)[j]? = l[i]? := by
  rw [List.swap_comm]
  exact getElem?_swap_left hj hi

theorem getElem?_swap_of_ne {l : List α} {i j k : Nat} (hi : k ≠ i) (hj : k ≠ j) :
    (l.swap i j)[k]? = l[k]? := by
  by_cases hk : k < l.length
  · rw [List.getElem?_eq_getElem (by simpa using hk), List.getElem?_eq_getElem hk,
      List.getElem_swap_of_ne hi hj]
  · rw [List.getElem?_eq_none (by simpa using hk), List.getElem?_eq_none (by omega)]

/-! ## One cycle -/

/-- Going round from `leader` by `next` takes `n` steps, inside a list of `size` places. -/
structure Cycle (next : Nat → Nat) (leader n size : Nat) : Prop where
  back : next^[n] leader = leader
  distinct : ∀ i j, i < n → j < n → next^[i] leader = next^[j] leader → i = j
  inside : ∀ i, i < n → next^[i] leader < size

/-- The first `j` places after the leader have got what belongs there; what belongs to the place
behind them is at the leader. -/
structure Walked (next : Nat → Nat) (leader : Nat) (l : List α) (j : Nat) (l' : List α) : Prop where
  length : l'.length = l.length
  shifted : ∀ i, i < j → l'[next^[i + 1] leader]? = l[next^[i] leader]?
  held : l'[leader]? = l[next^[j] leader]?
  rest : ∀ k, k ≠ leader → (∀ i, i < j → k ≠ next^[i + 1] leader) → l'[k]? = l[k]?

/-- What a walk round the whole cycle does. -/
structure Turned (next : Nat → Nat) (leader n : Nat) (l l' : List α) : Prop where
  length : l'.length = l.length
  moved : ∀ i, i < n → l'[next^[i + 1] leader]? = l[next^[i] leader]?
  rest : ∀ k, (∀ i, i < n → k ≠ next^[i] leader) → l'[k]? = l[k]?

section

variable {next : Nat → Nat} {leader n : Nat} {l l' : List α}

theorem Walked.refl (next : Nat → Nat) (leader : Nat) (l : List α) : Walked next leader l 0 l :=
  ⟨rfl, fun i hi => absurd hi (Nat.not_lt_zero i), rfl, fun _ _ _ => rfl⟩

theorem Walked.step {j : Nat} (hc : Cycle next leader n l.length) (hj : j + 1 < n)
    (hw : Walked next leader l j l') :
    ∃ l₂, swap? l' (next^[j + 1] leader) leader = some l₂ ∧ Walked next leader l (j + 1) l₂ := by
  have hne : ∀ i, i < n → 0 < i → next^[i] leader ≠ leader := by
    intro i hi hpos heq
    have hzero := hc.distinct i 0 hi (by omega) heq
    omega
  have hpos : next^[j + 1] leader < l'.length := hw.length ▸ hc.inside (j + 1) hj
  have hlead : leader < l'.length := hw.length ▸ hc.inside 0 (by omega)
  have hplace : next^[j + 1] leader ≠ leader := hne (j + 1) hj (by omega)
  refine ⟨l'.swap (next^[j + 1] leader) leader, if_pos ⟨hpos, hlead⟩, ?_, ?_, ?_, ?_⟩
  · rw [List.length_swap, hw.length]
  · intro i hi
    rcases Nat.lt_or_eq_of_le (Nat.le_of_lt_succ hi) with hlt | rfl
    · -- an earlier place of the cycle is neither of the two
      rw [getElem?_swap_of_ne _ (hne (i + 1) (by omega) (by omega))]
      · exact hw.shifted i hlt
      · intro heq
        have := hc.distinct (i + 1) (j + 1) (by omega) hj heq
        omega
    · rw [getElem?_swap_left hpos hlead, hw.held]
  · rw [getElem?_swap_right hpos hlead]
    apply hw.rest _ hplace
    intro i hi heq
    have := hc.distinct (j + 1) (i + 1) hj (by omega) heq
    omega
  · intro k hk hrest
    rw [getElem?_swap_of_ne (hrest j (by omega)) hk]
    exact hw.rest k hk fun i hi => hrest i (by omega)

theorem swap?_self {i : Nat} (hi : i < l.length) : swap? l i i = some l := by
  rw [swap?, if_pos ⟨hi, hi⟩]
  apply congrArg some
  apply List.ext_getElem?
  intro k
  by_cases hk : k = i
  · rw [hk, getElem?_swap_left hi hi]
  · rw [getElem?_swap_of_ne hk hk]

/-- The last swap is one of the leader with itself. -/
theorem Walked.turned (hc : Cycle next leader (n + 1) l.length) (hw : Walked next leader l n l') :
    Turned next leader (n + 1) l l' := by
  refine ⟨hw.length, ?_, ?_⟩
  · intro i hi
    rcases Nat.lt_or_eq_of_le (Nat.le_of_lt_succ hi) with hlt | rfl
    · exact hw.shifted i hlt
    · rw [hc.back, hw.held]
  · intro k hk
    apply hw.rest k (hk 0 (by omega))
    intro i hi
    exact hk (i + 1) (by omega)

theorem Walked.finish {j r : Nat} (hn : j + r + 1 = n) (hc : Cycle next leader n l.length)
    (hw : Walked next leader l j l') :
    ∃ l₂, walk next leader (r + 1) (next^[j] leader) l' = some l₂ ∧ Turned next leader n l l₂ := by
  induction r generalizing j l' with
  | zero =>
    obtain rfl : n = j + 1 := by omega
    have hback : next (next^[j] leader) = leader := by
      rw [← Function.iterate_succ_apply' next j leader, hc.back]
    have hlead : leader < l'.length := hw.length ▸ hc.inside 0 (by omega)
    refine ⟨l', ?_, hw.turned hc⟩
    simp only [walk, hback, swap?_self hlead, Option.bind_some]
  | succ r ih =>
    obtain ⟨l₂, hswap, hnext⟩ := hw.step hc (by omega)
    obtain ⟨l₃, hwalk, hturned⟩ := ih (by omega) hnext
    refine ⟨l₃, ?_, hturned⟩
    rw [walk, ← Function.iterate_succ_apply' next j leader, hswap]
    exact hwalk

theorem walk_cycle (hn : 0 < n) (hc : Cycle next leader n l.length) :
    ∃ l', walk next leader n leader l = some l' ∧ Turned next leader n l l' := by
  obtain ⟨r, rfl⟩ : ∃ r, n = r + 1 := ⟨n - 1, by omega⟩
  exact (Walked.refl next leader l).finish (by omega) hc

end

/-! ## All cycles -/

/-- The places of the cycles that `leaders` lead. -/
def OnCycle (next : Nat → Nat) (n : Nat) (leaders : List Nat) (k : Nat) : Prop :=
  ∃ c ∈ leaders, ∃ i, i < n ∧ k = next^[i] c

theorem onCycle_cons {next : Nat → Nat} {n c k : Nat} {leaders : List Nat} :
    OnCycle next n (c :: leaders) k ↔ (∃ i, i < n ∧ k = next^[i] c) ∨ OnCycle next n leaders k := by
  simp [OnCycle]

theorem walkAll_cycles {next : Nat → Nat} {n : Nat} {leaders : List Nat} {l : List α} (hn : 0 < n)
    (hc : ∀ c ∈ leaders, Cycle next c n l.length)
    (hdisjoint : leaders.Pairwise fun c d => ∀ i j, i < n → j < n → next^[i] c ≠ next^[j] d) :
    ∃ l', walkAll next n leaders l = some l' ∧ l'.length = l.length ∧
      (∀ k, OnCycle next n leaders k → l'[next k]? = l[k]?) ∧
      ∀ k, ¬ OnCycle next n leaders k → l'[k]? = l[k]? := by
  induction leaders generalizing l with
  | nil =>
    refine ⟨l, rfl, rfl, ?_, fun _ _ => rfl⟩
    intro k hk
    obtain ⟨c, hmem, -⟩ := hk
    cases hmem
  | cons c cs ih =>
    obtain ⟨hhead, htail⟩ := List.pairwise_cons.mp hdisjoint
    obtain ⟨l₁, hwalk, hturned⟩ := walk_cycle hn (hc c List.mem_cons_self)
    obtain ⟨l₂, hrest, hlen, hmoved, hkept⟩ := ih (l := l₁)
      (fun d hd => hturned.length ▸ hc d (List.mem_cons_of_mem c hd)) htail
    have hbackc := (hc c List.mem_cons_self).back
    -- no place of the first cycle is on a later one
    have hoff : ∀ i, i < n → ¬ OnCycle next n cs (next^[i] c) := by
      intro i hi hon
      obtain ⟨d, hd, j, hj, heq⟩ := hon
      exact hhead d hd i j hi hj heq
    have hoff' : ∀ i, i < n → ¬ OnCycle next n cs (next^[i + 1] c) := by
      intro i hi
      rcases Nat.lt_or_ge (i + 1) n with hlt | hge
      · exact hoff (i + 1) hlt
      · obtain rfl : n = i + 1 := by omega
        rw [hbackc]
        exact hoff 0 (by omega)
    refine ⟨l₂, by rw [walkAll, hwalk, Option.bind_some, hrest], hlen.trans hturned.length, ?_, ?_⟩
    · intro k hk
      rcases onCycle_cons.mp hk with ⟨i, hi, rfl⟩ | hon
      · rw [← Function.iterate_succ_apply' next i c, hkept _ (hoff' i hi)]
        exact hturned.moved i hi
      · rw [hmoved k hon]
        apply hturned.rest
        intro i hi heq
        exact hoff i hi (heq ▸ hon)
    · intro k hk
      have hnot : ¬ ((∃ i, i < n ∧ k = next^[i] c) ∨ OnCycle next n cs k) :=
        fun h => hk (onCycle_cons.mpr h)
      rw [hkept k fun hon => hnot (.inr hon)]
      apply hturned.rest
      intro i hi heq
      exact hnot (.inl ⟨i, hi, heq⟩)

/-! ## Two adjacent blocks -/

/-- Where an element of `[start, mid)` or of `[mid, stop)` goes when the two are exchanged. -/
def across (start mid stop pos : Nat) : Nat :=
  if mid ≤ pos then pos - (mid - start) else pos + (stop - mid)

section

variable {start mid stop : Nat}

theorem across_add (hmid : start ≤ mid) (hstop : mid < stop) {q : Nat} (hq : q < stop - start) :
    across start mid stop (start + q) = start + (q + (stop - mid)) % (stop - start) := by
  unfold across
  by_cases hside : mid ≤ start + q
  · rw [if_pos hside, show q + (stop - mid) = (q - (mid - start)) + (stop - start) by omega,
      Nat.add_mod_right, Nat.mod_eq_of_lt (by omega)]
    omega
  · rw [if_neg hside, Nat.mod_eq_of_lt (by omega)]
    omega

theorem across_iterate (hmid : start ≤ mid) (hstop : mid < stop) {q : Nat} (hq : q < stop - start)
    (i : Nat) :
    (across start mid stop)^[i] (start + q) = start + (q + i * (stop - mid)) % (stop - start) := by
  induction i with
  | zero => rw [Function.iterate_zero_apply, Nat.zero_mul, Nat.add_zero, Nat.mod_eq_of_lt hq]
  | succ i ih =>
    rw [Function.iterate_succ_apply', ih, across_add hmid hstop (Nat.mod_lt _ (by omega)),
      Nat.mod_add_mod, Nat.add_assoc, ← Nat.succ_mul]

end

/-! ## The cycles of a rotation -/

section

variable {a b : Nat}

theorem gcd_mul_cycle (a b : Nat) : a.gcd b * ((a + b) / a.gcd b) = a + b :=
  Nat.mul_div_cancel' (Nat.dvd_add (Nat.gcd_dvd_left a b) (Nat.gcd_dvd_right a b))

theorem dvd_cycle_mul (a b : Nat) : a + b ∣ (a + b) / a.gcd b * b := by
  obtain ⟨k, hk⟩ := Nat.gcd_dvd_right a b
  refine ⟨k, ?_⟩
  calc (a + b) / a.gcd b * b
      = (a + b) / a.gcd b * (a.gcd b * k) := by rw [← hk]
    _ = a.gcd b * ((a + b) / a.gcd b) * k := by rw [← Nat.mul_assoc, Nat.mul_comm (a.gcd b)]
    _ = (a + b) * k := by rw [gcd_mul_cycle]

theorem cycle_distinct (hb : 0 < b) {q i j : Nat} (hi : i < (a + b) / a.gcd b)
    (hj : j < (a + b) / a.gcd b) (h : (q + i * b) % (a + b) = (q + j * b) % (a + b)) : i = j := by
  have hmul : i * b ≡ j * b [MOD a + b] := Nat.ModEq.add_left_cancel' q h
  have hmod := Nat.ModEq.cancel_right_div_gcd (by omega) hmul
  rw [Nat.gcd_add_self_left] at hmod
  exact hmod.eq_of_lt_of_lt hi hj

theorem cycle_disjoint {c d i j : Nat} (hc : c < a.gcd b) (hd : d < a.gcd b)
    (h : (a + c + i * b) % (a + b) = (a + d + j * b) % (a + b)) : c = d := by
  have hdvd : a.gcd b ∣ a + b := Nat.dvd_add (Nat.gcd_dvd_left a b) (Nat.gcd_dvd_right a b)
  have hmod : a + c + i * b ≡ a + d + j * b [MOD a.gcd b] := Nat.ModEq.of_dvd hdvd h
  have hrest : ∀ e k, a + e + k * b ≡ e [MOD a.gcd b] := by
    intro e k
    have ha : a ≡ 0 [MOD a.gcd b] := Nat.modEq_zero_iff_dvd.mpr (Nat.gcd_dvd_left a b)
    have hb : k * b ≡ 0 [MOD a.gcd b] :=
      Nat.modEq_zero_iff_dvd.mpr (Dvd.dvd.mul_left (Nat.gcd_dvd_right a b) k)
    simpa using (ha.add_right e).add hb
  exact (((hrest c i).symm.trans hmod).trans (hrest d j)).eq_of_lt_of_lt hc hd

/-- A multiple of the gcd is a multiple of `b`, by Bézout's identity. -/
theorem exists_mul_modEq (hb : 0 < b) {d : Nat} (hd : a.gcd b ∣ d) :
    ∃ i, i < (a + b) / a.gcd b ∧ i * b ≡ d [MOD a + b] := by
  have hg : 0 < a.gcd b := Nat.gcd_pos_of_pos_right a hb
  have hlen : 0 < (a + b) / a.gcd b :=
    Nat.div_pos (Nat.le_trans (Nat.gcd_le_right a hb) (Nat.le_add_left b a)) hg
  have hgcd : Int.gcd (b : ℤ) ((a + b : Nat) : ℤ) ∣ d := by
    rw [Int.gcd_natCast_natCast, Nat.gcd_comm, Nat.gcd_add_self_left]
    exact hd
  obtain ⟨x, y, hxy⟩ := Int.gcd_dvd_iff.mp hgcd
  obtain ⟨k, hk⟩ := dvd_cycle_mul a b
  -- the multiplier matters only up to the length of a cycle
  have hrem := Int.emod_nonneg x (b := (((a + b) / a.gcd b : Nat) : ℤ)) (by omega)
  have hlt := Int.emod_lt_of_pos x (b := (((a + b) / a.gcd b : Nat) : ℤ)) (by omega)
  have hdiv := Int.emod_add_mul_ediv x (((a + b) / a.gcd b : Nat) : ℤ)
  generalize (a + b) / a.gcd b = len at *
  refine ⟨(x % (len : ℤ)).toNat, by omega, ?_⟩
  apply (Nat.modEq_iff_dvd).mpr
  refine ⟨k * (x / len) + y, ?_⟩
  have hcast : ((x % (len : ℤ)).toNat : ℤ) = x % len := Int.toNat_of_nonneg hrem
  have hk' : (len : ℤ) * b = (a + b) * k := by exact_mod_cast hk
  push_cast at hxy ⊢
  rw [hcast]
  linear_combination hxy - (b : ℤ) * hdiv + (x / len) * hk'

theorem cycle_cover (hb : 0 < b) {q : Nat} (hq : q < a + b) :
    ∃ c, c < a.gcd b ∧ ∃ i, i < (a + b) / a.gcd b ∧ (a + c + i * b) % (a + b) = q := by
  have hg : 0 < a.gcd b := Nat.gcd_pos_of_pos_right a hb
  have hdvd : a.gcd b ∣ (q - q % a.gcd b) + b :=
    Nat.dvd_add (Nat.dvd_sub_mod q) (Nat.gcd_dvd_right a b)
  obtain ⟨i, hi, hmod⟩ := exists_mul_modEq hb hdvd
  refine ⟨q % a.gcd b, Nat.mod_lt q hg, i, hi, ?_⟩
  have hle : q % a.gcd b ≤ q := Nat.mod_le q _
  have hall : a + q % a.gcd b + i * b ≡ q [MOD a + b] := by
    calc a + q % a.gcd b + i * b
        ≡ a + q % a.gcd b + (q - q % a.gcd b + b) [MOD a + b] := hmod.add_left _
      _ = q + (a + b) := by omega
      _ ≡ q [MOD a + b] := by simp [Nat.ModEq]
  rw [hall, Nat.mod_eq_of_lt hq]

end

/-! ## The exchange -/

/-- The first places of the second block, one for each cycle. -/
def leaders (start mid stop : Nat) : List Nat :=
  (List.range ((mid - start).gcd (stop - mid))).map (mid + ·)

/-- Exchange `[start, mid)` and `[mid, stop)` of a list. -/
def exchange (start mid stop : Nat) (l : List α) : Option (List α) :=
  walkAll (across start mid stop) ((stop - start) / (mid - start).gcd (stop - mid))
    (leaders start mid stop) l

section

variable {start mid stop : Nat}

/-- The places of a cycle, as offsets from `start`. -/
theorem leader_iterate (hmid : start ≤ mid) (hstop : mid < stop) {c : Nat}
    (hc : c < (mid - start).gcd (stop - mid)) (i : Nat) :
    (across start mid stop)^[i] (mid + c) =
      start + (mid - start + c + i * (stop - mid)) % (mid - start + (stop - mid)) := by
  have hle : (mid - start).gcd (stop - mid) ≤ stop - mid := Nat.gcd_le_right _ (by omega)
  have hoffset := across_iterate hmid hstop (q := mid - start + c) (by omega) i
  rw [show start + (mid - start + c) = mid + c by omega] at hoffset
  rw [hoffset, show stop - start = mid - start + (stop - mid) by omega]

theorem leader_cycle (hmid : start ≤ mid) (hstop : mid < stop) {size c : Nat} (hsize : stop ≤ size)
    (hc : c < (mid - start).gcd (stop - mid)) :
    Cycle (across start mid stop) (mid + c) ((stop - start) / (mid - start).gcd (stop - mid)) size := by
  have hspan : stop - start = mid - start + (stop - mid) := by omega
  have hle : (mid - start).gcd (stop - mid) ≤ stop - mid := Nat.gcd_le_right _ (by omega)
  refine ⟨?_, ?_, ?_⟩
  · obtain ⟨k, hk⟩ := dvd_cycle_mul (mid - start) (stop - mid)
    rw [leader_iterate hmid hstop hc, hspan, hk, Nat.add_mul_mod_self_left,
      Nat.mod_eq_of_lt (by omega)]
    omega
  · intro i j hi hj heq
    rw [leader_iterate hmid hstop hc, leader_iterate hmid hstop hc] at heq
    rw [hspan] at hi hj
    exact cycle_distinct (by omega) hi hj (Nat.add_left_cancel heq)
  · intro i _
    rw [leader_iterate hmid hstop hc]
    have := Nat.mod_lt (mid - start + c + i * (stop - mid)) (y := mid - start + (stop - mid)) (by omega)
    omega

theorem onCycle_leaders (hmid : start ≤ mid) (hstop : mid < stop) (k : Nat) :
    OnCycle (across start mid stop) ((stop - start) / (mid - start).gcd (stop - mid))
      (leaders start mid stop) k ↔ start ≤ k ∧ k < stop := by
  constructor
  · intro hon
    obtain ⟨c, hc, i, -, rfl⟩ := hon
    obtain ⟨d, hd, rfl⟩ := List.mem_map.mp hc
    rw [leader_iterate hmid hstop (List.mem_range.mp hd)]
    have := Nat.mod_lt (mid - start + d + i * (stop - mid)) (y := mid - start + (stop - mid)) (by omega)
    omega
  · intro hk
    obtain ⟨c, hc, i, hi, hcover⟩ := cycle_cover (a := mid - start) (b := stop - mid) (by omega)
      (q := k - start) (by omega)
    refine ⟨mid + c, List.mem_map.mpr ⟨c, List.mem_range.mpr hc, rfl⟩, i, ?_, ?_⟩
    · rwa [show stop - start = mid - start + (stop - mid) by omega]
    · rw [leader_iterate hmid hstop hc, hcover]
      omega

theorem leaders_disjoint (hmid : start ≤ mid) (hstop : mid < stop) (n : Nat) :
    (leaders start mid stop).Pairwise fun c d => ∀ i j, i < n → j < n →
      (across start mid stop)^[i] c ≠ (across start mid stop)^[j] d := by
  unfold leaders
  rw [List.pairwise_map]
  refine List.Pairwise.imp_of_mem ?_ List.nodup_range
  intro c d hc hd hne i j _ _ heq
  rw [leader_iterate hmid hstop (List.mem_range.mp hc),
    leader_iterate hmid hstop (List.mem_range.mp hd)] at heq
  exact hne (cycle_disjoint (List.mem_range.mp hc) (List.mem_range.mp hd) (Nat.add_left_cancel heq))

/-- Both blocks keep the order of their elements, and nothing else moves. -/
theorem exchange_eq {pre u v post : List α} (hstart : start = pre.length)
    (hmid : mid = start + u.length) (hstop : stop = mid + v.length) (hv : v ≠ []) :
    exchange start mid stop (pre ++ u ++ v ++ post) = some (pre ++ v ++ u ++ post) := by
  have hpos : 0 < v.length := List.length_pos_iff.mpr hv
  have hle : start ≤ mid := by omega
  have hlt : mid < stop := by omega
  have hg : 0 < (mid - start).gcd (stop - mid) := Nat.gcd_pos_of_pos_right _ (by omega)
  have hn : 0 < (stop - start) / (mid - start).gcd (stop - mid) :=
    Nat.div_pos (Nat.le_trans (Nat.gcd_le_right _ (by omega)) (by omega)) hg
  have hsize : stop ≤ (pre ++ u ++ v ++ post).length := by
    simp only [List.length_append]
    omega
  obtain ⟨l', hwalk, hlen, hmoved, hkept⟩ := walkAll_cycles hn
    (fun c hc => by
      obtain ⟨d, hd, rfl⟩ := List.mem_map.mp hc
      exact leader_cycle (by omega) (by omega) hsize (List.mem_range.mp hd))
    (leaders_disjoint hle hlt _)
  rw [exchange, hwalk]
  apply congrArg some
  apply List.ext_getElem?
  intro k
  have hon := onCycle_leaders hle hlt
  by_cases hfirst : start ≤ k ∧ k < start + v.length
  · -- from the second block
    have hk := hmoved (k + u.length) ((hon _).mpr (by omega))
    rw [across, if_pos (by omega), show k + u.length - (mid - start) = k by omega] at hk
    rw [hk]
    grind
  · by_cases hsecond : start + v.length ≤ k ∧ k < stop
    · have hk := hmoved (k - v.length) ((hon _).mpr (by omega))
      rw [across, if_neg (by omega), show k - v.length + (stop - mid) = k by omega] at hk
      rw [hk]
      grind
    · rw [hkept k fun h => by have := (hon k).mp h; omega]
      grind

end

end Exchange
