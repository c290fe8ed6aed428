import Svnsrv.RouterLoad

/-!
# Where a range is cut

A range names its begin bound to the left of its first tilde and its end bound to
the right, the whole string both without one. The scanner stops after five
characters and writes both bounds through one pointer, so the end bound may be
made of characters that stand to the left.
-/

namespace Svnsrv.Router

open CText Toml
set_option autoImplicit false

/-- The number of the first two characters, padded. -/
def bound (pad : UInt8) (s : Bytes) : UInt16 := rangeIndex (s.getD 0 pad) (s.getD 1 pad)

def leftPart (range : Bytes) : Bytes := range.takeWhile (· ≠ tilde)

def rightPart (range : Bytes) : Bytes :=
  if tilde ∈ range then range.drop ((leftPart range).length + 1) else range

/-- A character that the scanner copies. -/
def Plain (c : UInt8) : Prop := c ≠ tilde ∧ c ≠ 0

instance (c : UInt8) : Decidable (Plain c) := inferInstanceAs (Decidable (_ ∧ _))

/-- The characters that reach the end bound when no tilde is seen in time. -/
def spill (t : Bytes) : Bytes := if t.length ≤ 2 then t else t.drop 2

theorem rangeIndex_inj {a b c d : UInt8} (ha : a < 128) (hb : b < 128) (hc : c < 128)
    (hd : d < 128) : rangeIndex a b = rangeIndex c d ↔ a = c ∧ b = d := by
  rw [← UInt16.toNat_inj, rangeIndex_toNat ha hb, rangeIndex_toNat hc hd, ← UInt8.toNat_inj,
    ← UInt8.toNat_inj]
  rw [UInt8.lt_iff_toNat_lt] at hb hd
  change b.toNat < 128 at hb
  change d.toNat < 128 at hd
  omega

/-! ## No tilde in time -/

theorem start_eq : RangeScan.start = ⟨[45, 45, 122, 122, 0, 0, 0, 0], 0, 0, false⟩ := by
  have htemplate : ascii "--zz" = [45, 45, 122, 122] := by decide
  rw [RangeScan.start, htemplate]
  rfl

section Scan

variable {c : UInt8} {p i : Nat} {isSplit : Bool} {cells : Bytes}

theorem scan_copy (hc : Plain c) (hi : i < 5) (rest : Bytes) :
    rangeLoop (c :: rest) ⟨cells, p, i, isSplit⟩ =
      rangeLoop rest ⟨cells.set p c, p + 1, i + 1, isSplit⟩ :=
  rangeLoop_char hc.1 hc.2 hi rest

theorem scan_jump (hi : i < 5) (rest : Bytes) :
    rangeLoop (tilde :: rest) ⟨cells, p, i, isSplit⟩ = rangeLoop rest ⟨cells, 2, i + 1, true⟩ :=
  rangeLoop_tilde hi rest

theorem scan_zero (s : RangeScan) (rest : Bytes) : rangeLoop (0 :: rest) s = s := by
  rw [rangeLoop, if_neg fun h => h.1 rfl]

theorem scan_full (hi : 5 ≤ i) (rest : Bytes) :
    rangeLoop rest ⟨cells, p, i, isSplit⟩ = ⟨cells, p, i, isSplit⟩ := by
  cases rest with
  | nil => rfl
  | cons c rest => rw [rangeLoop, if_neg fun h => Nat.not_lt.mpr hi h.2]

/-- The fifth character does not reach the first four cells once these are written. -/
theorem scan_last (a b x y : UInt8) (tail : Bytes) (isSplit : Bool) (hp : 4 ≤ p) (hi : 4 ≤ i)
    (rest : Bytes) :
    ∃ tail' p' i' isSplit', 4 ≤ i' ∧ (isSplit = true → isSplit' = true) ∧
      rangeLoop rest ⟨a :: b :: x :: y :: tail, p, i, isSplit⟩ =
        ⟨a :: b :: x :: y :: tail', p', i', isSplit'⟩ := by
  by_cases hi' : i < 5
  · rcases rest with _ | ⟨c, rest⟩
    · exact ⟨_, _, _, _, hi, id, rfl⟩
    · by_cases hzero : c = 0
      · rw [hzero, scan_zero]
        exact ⟨_, _, _, _, hi, id, rfl⟩
      · by_cases htilde : c = tilde
        · rw [htilde, scan_jump hi', scan_full (by omega)]
          exact ⟨_, _, _, _, Nat.le_succ_of_le hi, fun _ => rfl, rfl⟩
        · rw [scan_copy ⟨htilde, hzero⟩ hi', scan_full (by omega)]
          obtain ⟨p, rfl⟩ := Nat.exists_eq_add_of_le' hp
          exact ⟨_, _, _, _, Nat.le_succ_of_le hi, id, rfl⟩
  · rw [scan_full (Nat.not_lt.mp hi')]
    exact ⟨_, _, _, _, hi, id, rfl⟩

/-- The fix-up for short strings leaves such a scan as it is. -/
theorem rangeToIndex_of_scan {range : Bytes} {a b x y : UInt8} {tail : Bytes}
    (hscan : rangeLoop range .start = ⟨a :: b :: x :: y :: tail, p, i, isSplit⟩)
    (h : isSplit = true ∨ 4 ≤ i) : rangeToIndex range = (rangeIndex a b, rangeIndex x y) := by
  have hfix : rangeFix range ⟨a :: b :: x :: y :: tail, p, i, isSplit⟩ =
      a :: b :: x :: y :: tail := by
    simp only [rangeFix]
    split
    · rfl
    · have hi : 4 ≤ i := h.resolve_left ‹_›
      rw [if_neg (by omega), if_neg (by omega)]
  rw [rangeToIndex, hscan, hfix]
  rfl

end Scan

/-- Up to three plain characters are copied to the first cells. -/
theorem scan_plain {t : Bytes} (ht : ∀ c ∈ t, Plain c) (hlen : t.length ≤ 3) (rest : Bytes) :
    rangeLoop (t ++ rest) .start =
      rangeLoop rest ⟨t.getD 0 45 :: t.getD 1 45 :: t.getD 2 122 :: 122 :: [0, 0, 0, 0], t.length,
        t.length, false⟩ := by
  rw [start_eq]
  rcases t with _ | ⟨a, _ | ⟨b, _ | ⟨c, _ | ⟨d, t⟩⟩⟩⟩
  · rfl
  · have ha := ht a (by simp)
    rw [List.cons_append, List.nil_append, scan_copy ha (by decide)]
    rfl
  · have ha := ht a (by simp)
    have hb := ht b (by simp)
    rw [List.cons_append, List.cons_append, List.nil_append, scan_copy ha (by decide),
      scan_copy hb (by decide)]
    rfl
  · have ha := ht a (by simp)
    have hb := ht b (by simp)
    have hc := ht c (by simp)
    rw [List.cons_append, List.cons_append, List.cons_append, List.nil_append,
      scan_copy ha (by decide), scan_copy hb (by decide), scan_copy hc (by decide)]
    rfl
  · simp only [List.length_cons] at hlen
    omega

/-- A string that ends before its fourth character and its first tilde. -/
theorem rangeToIndex_short {t rest : Bytes} (ht : ∀ c ∈ t, Plain c) (hlen : t.length ≤ 3)
    (hstop : ∀ s, rangeLoop rest s = s) :
    rangeToIndex (t ++ rest) = (bound 45 t, bound 122 (spill t)) := by
  rw [rangeToIndex, scan_plain ht hlen, hstop]
  rcases t with _ | ⟨a, _ | ⟨b, _ | ⟨c, _ | ⟨d, t⟩⟩⟩⟩
  · rfl
  · rfl
  · rfl
  · rfl
  · simp only [List.length_cons] at hlen
    omega

/-- Four plain characters fill both bounds, whatever follows. -/
theorem rangeToIndex_four {a b c d : UInt8} (ha : Plain a) (hb : Plain b) (hc : Plain c)
    (hd : Plain d) (rest : Bytes) :
    rangeToIndex (a :: b :: c :: d :: rest) = (rangeIndex a b, rangeIndex c d) := by
  obtain ⟨tail, p, i, isSplit, hi, -, hscan⟩ := scan_last a b c d [0, 0, 0, 0] false
    (Nat.le_refl 4) (Nat.le_refl 4) rest
  have hall : rangeLoop (a :: b :: c :: d :: rest) .start =
      ⟨a :: b :: c :: d :: tail, p, i, isSplit⟩ := by
    rw [start_eq, scan_copy ha (by decide), scan_copy hb (by decide),
      scan_copy hc (by decide), scan_copy hd (by decide)]
    exact hscan
  exact rangeToIndex_of_scan hall (Or.inr hi)

/-! ## A tilde among the first four characters -/

/-- Nothing to the right of the tilde reaches the begin bound, and no tilde or NUL is copied. -/
theorem scan_right {R : Bytes} (hR : ∀ c ∈ R, c < 128) (a b : UInt8) {x y : UInt8} (tail : Bytes)
    {p : Nat} (i : Nat) (hp : 2 ≤ p) (hx : Plain x ∧ x < 128) (hy : Plain y ∧ y < 128) :
    ∃ x' y' tail' p' i', (Plain x' ∧ x' < 128) ∧ (Plain y' ∧ y' < 128) ∧
      rangeLoop R ⟨a :: b :: x :: y :: tail, p, i, true⟩ =
        ⟨a :: b :: x' :: y' :: tail', p', i', true⟩ := by
  induction R generalizing x y tail p i with
  | nil => exact ⟨x, y, tail, p, i, hx, hy, rfl⟩
  | cons c R ih =>
    replace ih := @ih fun c hc => hR c (List.mem_cons_of_mem _ hc)
    by_cases hi : i < 5
    · by_cases hzero : c = 0
      · rw [hzero, scan_zero]
        exact ⟨x, y, tail, p, i, hx, hy, rfl⟩
      · by_cases htilde : c = tilde
        · rw [htilde, scan_jump hi]
          exact ih tail _ (Nat.le_refl 2) hx hy
        · have hc : Plain c ∧ c < 128 := ⟨⟨htilde, hzero⟩, hR c List.mem_cons_self⟩
          rw [scan_copy hc.1 hi]
          obtain ⟨p, rfl⟩ := Nat.exists_eq_add_of_le' hp
          rcases p with _ | _ | p
          · exact ih tail _ (by omega) hc hy
          · exact ih tail _ (by omega) hx hc
          · exact ih _ _ (by omega) hx hy
    · rw [scan_full (Nat.not_lt.mp hi)]
      exact ⟨x, y, tail, p, i, hx, hy, rfl⟩

theorem scan_left {L : Bytes} (hL : ∀ c ∈ L, Plain c) (hlen : L.length ≤ 3) (R : Bytes) :
    rangeLoop (L ++ tilde :: R) .start =
      rangeLoop R ⟨L.getD 0 45 :: L.getD 1 45 :: L.getD 2 122 :: 122 :: [0, 0, 0, 0], 2,
        L.length + 1, true⟩ := by
  rw [scan_plain hL hlen, scan_jump (by omega)]

theorem rangeToIndex_split {L : Bytes} (hL : ∀ c ∈ L, Plain c) (hlen : L.length ≤ 3) {R : Bytes}
    {a b x y : UInt8} {tail : Bytes} {p i : Nat}
    (hscan : rangeLoop R ⟨L.getD 0 45 :: L.getD 1 45 :: L.getD 2 122 :: 122 :: [0, 0, 0, 0], 2,
      L.length + 1, true⟩ = ⟨a :: b :: x :: y :: tail, p, i, true⟩) :
    rangeToIndex (L ++ tilde :: R) = (rangeIndex a b, rangeIndex x y) :=
  rangeToIndex_of_scan ((scan_left hL hlen R).trans hscan) (Or.inl rfl)

section Split

variable {L : Bytes} (hL : ∀ c ∈ L, Plain c)
include hL

theorem split_plain (hL' : ∀ c ∈ L, c < 128) (hlen : L.length ≤ 3) {R : Bytes}
    (hR : ∀ c ∈ R, c < 128) :
    ∃ x y, (Plain x ∧ x < 128) ∧ (Plain y ∧ y < 128) ∧
      rangeToIndex (L ++ tilde :: R) = (bound 45 L, rangeIndex x y) := by
  have hz : Plain 122 ∧ (122 : UInt8) < 128 := by decide
  have hx : Plain (L.getD 2 122) ∧ L.getD 2 122 < 128 := by
    rw [List.getD_eq_getElem?_getD]
    cases hget : L[2]? with
    | none => exact hz
    | some c => exact ⟨hL c (List.mem_of_getElem? hget), hL' c (List.mem_of_getElem? hget)⟩
  obtain ⟨x, y, tail, p, i, hx, hy, hscan⟩ := scan_right hR (L.getD 0 45) (L.getD 1 45)
    [0, 0, 0, 0] (L.length + 1) (Nat.le_refl 2) hx hz
  exact ⟨x, y, hx, hy, rangeToIndex_split hL hlen hscan⟩

theorem split_nil (hlen : L.length ≤ 3) :
    rangeToIndex (L ++ [tilde]) = (bound 45 L, rangeIndex (L.getD 2 122) 122) :=
  rangeToIndex_split hL hlen rfl

theorem split_one (hlen : L.length ≤ 3) {x : UInt8} (hx : Plain x) :
    rangeToIndex (L ++ [tilde, x]) = (bound 45 L, rangeIndex x 122) := by
  apply rangeToIndex_split hL hlen
  rw [scan_copy hx (by omega)]
  rfl

/-- Three characters and the tilde leave room for one. -/
theorem split_late (hlen : L.length = 3) {x : UInt8} (hx : Plain x) (R : Bytes) :
    rangeToIndex (L ++ tilde :: x :: R) = (bound 45 L, rangeIndex x 122) := by
  apply rangeToIndex_split hL (Nat.le_of_eq hlen)
  rw [scan_copy hx (by omega), scan_full (by omega)]
  rfl

theorem split_two (hlen : L.length ≤ 2) (hne : L ≠ []) {x y : UInt8} (hx : Plain x) (hy : Plain y)
    (R : Bytes) : rangeToIndex (L ++ tilde :: x :: y :: R) = (bound 45 L, rangeIndex x y) := by
  have hpos := List.length_pos_iff.mpr hne
  obtain ⟨tail, p, i, isSplit, -, htrue, hscan⟩ := scan_last (L.getD 0 45) (L.getD 1 45) x y
    [0, 0, 0, 0] true (Nat.le_refl 4) (show 4 ≤ L.length + 3 by omega) R
  obtain rfl := htrue rfl
  apply rangeToIndex_split hL (Nat.le_succ_of_le hlen)
  rw [scan_copy hx (by omega), scan_copy hy (by omega)]
  exact hscan

end Split

section Front

variable {x y : UInt8} (hx : Plain x) (hy : Plain y)
include hx hy

/-- After a leading tilde five characters are four of the right part. -/
theorem front_of_scan {R : Bytes} {a b u v : UInt8} {tail : Bytes} {p i : Nat}
    (hscan : rangeLoop R ⟨[45, 45, x, y, 0, 0, 0, 0], 4, 3, true⟩ =
      ⟨a :: b :: u :: v :: tail, p, i, true⟩) :
    rangeToIndex (tilde :: x :: y :: R) = (rangeIndex a b, rangeIndex u v) := by
  have hall : rangeLoop (tilde :: x :: y :: R) .start = ⟨a :: b :: u :: v :: tail, p, i, true⟩ := by
    rw [start_eq, scan_jump (by decide), scan_copy hx (by decide), scan_copy hy (by decide)]
    exact hscan
  exact rangeToIndex_of_scan hall (Or.inl rfl)

theorem front_again {v : UInt8} (hv : Plain v) (R : Bytes) :
    rangeToIndex (tilde :: x :: y :: tilde :: v :: R) = (rangeIndex 45 45, rangeIndex v y) := by
  apply front_of_scan hx hy
  rw [scan_jump (by decide), scan_copy hv (by decide), scan_full (by decide)]
  rfl

theorem front_kept {R : Bytes} (h : R[0]? = some tilde →
      R[1]? = none ∨ R[1]? = some 0 ∨ R[1]? = some tilde) :
    rangeToIndex (tilde :: x :: y :: R) = (rangeIndex 45 45, rangeIndex x y) := by
  rcases R with _ | ⟨c, R⟩
  · exact front_of_scan hx hy rfl
  · by_cases hzero : c = 0
    · rw [hzero]
      exact front_of_scan hx hy (scan_zero _ R)
    · by_cases htilde : c = tilde
      · have hjump : rangeLoop (Router.tilde :: R) ⟨[45, 45, x, y, 0, 0, 0, 0], 4, 3, true⟩ =
            rangeLoop R ⟨[45, 45, x, y, 0, 0, 0, 0], 2, 4, true⟩ :=
          scan_jump (by decide) R
        rw [htilde]
        rcases R with _ | ⟨d, R⟩
        · exact front_of_scan hx hy hjump
        · rcases h (congrArg some htilde) with h | h | h
          · cases h
          · obtain rfl := Option.some.inj h
            exact front_of_scan hx hy (hjump.trans (scan_zero _ R))
          · obtain rfl := Option.some.inj h
            rw [scan_jump (by decide)] at hjump
            exact front_of_scan hx hy (hjump.trans (scan_full (Nat.le_refl 5) R))
      · obtain ⟨tail, p, i, isSplit, -, htrue, hscan⟩ := scan_last 45 45 x y [c, 0, 0, 0] true
          (show 4 ≤ 5 by decide) (Nat.le_refl 4) R
        obtain rfl := htrue rfl
        apply front_of_scan hx hy
        rw [scan_copy ⟨htilde, hzero⟩ (by decide)]
        exact hscan

end Front

/-- What the two parts must be for the end bound to be that of the right part. -/
structure RightCut (L R : Bytes) : Prop where
  zero : 0 ∉ R.take 2
  tilde : tilde ∉ R.take 2
  again : L = [] → R[2]? = some Router.tilde →
    R[3]? = none ∨ R[3]? = some 0 ∨ R[3]? = some Router.tilde ∨ R[3]? = R[0]?
  late : L.length = 3 → R = [] → L[2]? = some 122
  cut : L.length = 3 → 2 ≤ R.length → R[1]? = some 122

theorem getD_ascii {s : Bytes} (hs : ∀ c ∈ s, c < 128) (k : Nat) {pad : UInt8} (hpad : pad < 128) :
    s.getD k pad < 128 := by
  rw [List.getD_eq_getElem?_getD]
  cases hget : s[k]? with
  | none => exact hpad
  | some c => exact hs c (List.mem_of_getElem? hget)

theorem bound_eq_iff {s : Bytes} (hs : ∀ c ∈ s, c < 128) {x y : UInt8} (hx : x < 128)
    (hy : y < 128) : rangeIndex x y = bound 122 s ↔ x = s.getD 0 122 ∧ y = s.getD 1 122 :=
  rangeIndex_inj hx hy (getD_ascii hs 0 (by decide)) (getD_ascii hs 1 (by decide))

theorem rightCut_of_split {L R : Bytes} (hL : ∀ c ∈ L, Plain c) (hL' : ∀ c ∈ L, c < 128)
    (hlen : L.length ≤ 3) (hR : ∀ c ∈ R, c < 128)
    (h : rangeToIndex (L ++ tilde :: R) = (bound 45 L, bound 122 R)) : RightCut L R := by
  have hsnd : ∀ {u v x y : UInt8}, rangeToIndex (L ++ tilde :: R) = (rangeIndex u v, rangeIndex x y) →
      rangeIndex x y = bound 122 R := fun heq => congrArg Prod.snd (heq.symm.trans h)
  obtain ⟨x, y, ⟨hx, hx'⟩, ⟨hy, hy'⟩, heq⟩ := split_plain hL hL' hlen hR
  obtain ⟨rfl, rfl⟩ := (bound_eq_iff hR hx' hy').mp (hsnd heq)
  rcases R with _ | ⟨x, _ | ⟨y, R⟩⟩
  · refine ⟨by simp, by simp, by simp, fun h3 _ => ?_, by simp⟩
    have hlast := (bound_eq_iff hR (getD_ascii hL' 2 (by decide)) hy').mp (hsnd (split_nil hL hlen))
    have hget : L[2]? = some (L.getD 2 122) := by
      simp [List.getD_eq_getElem?_getD, h3]
    rw [hget, hlast.1]
    rfl
  · refine ⟨?_, ?_, by simp, by simp, by simp⟩
    · simpa using fun h0 => hx.2 h0.symm
    · simpa using fun h0 => hx.1 h0.symm
  · have hcut : ∀ v, rangeIndex v y = bound 122 (x :: y :: R) → v < 128 → v = x := fun v hv hv' =>
      ((bound_eq_iff hR hv' hy').mp hv).1
    refine ⟨?_, ?_, ?_, fun _ h0 => absurd h0 (List.cons_ne_nil _ _), ?_⟩
    · simpa using And.intro (fun h0 => hx.2 h0.symm) fun h0 => hy.2 h0.symm
    · simpa using And.intro (fun h0 => hx.1 h0.symm) fun h0 => hy.1 h0.symm
    · rintro rfl hagain
      rcases R with _ | ⟨c, _ | ⟨v, R⟩⟩
      · cases hagain
      · exact Or.inl rfl
      · obtain rfl := Option.some.inj hagain
        by_cases hv : Plain v
        · have hv' : v < 128 := hR v (by simp)
          have hfront := hsnd (front_again hx hy hv R)
          exact Or.inr (Or.inr (Or.inr (congrArg some (hcut v hfront hv'))))
        · by_cases hzero : v = 0
          · exact Or.inr (Or.inl (congrArg some hzero))
          · have htilde : v = tilde := by
              by_contra hne
              exact hv ⟨hne, hzero⟩
            exact Or.inr (Or.inr (Or.inl (congrArg some htilde)))
    · intro h3 _
      have hlate := hsnd (split_late hL h3 hx (y :: R))
      exact congrArg some ((bound_eq_iff hR hx' (by decide)).mp hlate).2.symm

theorem split_of_rightCut {L R : Bytes} (hL : ∀ c ∈ L, Plain c) (hlen : L.length ≤ 3)
    (h : RightCut L R) : rangeToIndex (L ++ tilde :: R) = (bound 45 L, bound 122 R) := by
  obtain ⟨hzero, htilde, hagain, hlate, hcut⟩ := h
  rcases R with _ | ⟨x, _ | ⟨y, R⟩⟩
  · have hlast : L.getD 2 122 = 122 := by
      rw [List.getD_eq_getElem?_getD]
      by_cases h3 : L.length = 3
      · rw [hlate h3 rfl]
        rfl
      · rw [List.getElem?_eq_none (by omega)]
        rfl
    rw [split_nil hL hlen, hlast]
    rfl
  · have hx : Plain x := ⟨fun h0 => htilde (by simp [h0]), fun h0 => hzero (by simp [h0])⟩
    exact split_one hL hlen hx
  · have hx : Plain x := ⟨fun h0 => htilde (by simp [h0]), fun h0 => hzero (by simp [h0])⟩
    have hy : Plain y := ⟨fun h0 => htilde (by simp [h0]), fun h0 => hzero (by simp [h0])⟩
    by_cases h3 : L.length = 3
    · have hy' : y = 122 := Option.some.inj (hcut h3 (by simp))
      rw [split_late hL h3 hx, hy']
      rfl
    · by_cases hne : L = []
      · subst hne
        by_cases hv : R[0]? = some tilde ∧ R[1]? = some x
        · obtain ⟨R', rfl⟩ : ∃ R', R = tilde :: x :: R' := by
            rcases R with _ | ⟨c, _ | ⟨v, R⟩⟩
            · cases hv.1
            · cases hv.2
            · obtain rfl := Option.some.inj hv.1
              obtain rfl := Option.some.inj hv.2
              exact ⟨R, rfl⟩
          exact front_again hx hy hx R'
        · apply front_kept hx hy
          intro hc
          rcases hagain rfl hc with h | h | h | h
          · exact Or.inl h
          · exact Or.inr (Or.inl h)
          · exact Or.inr (Or.inr h)
          · exact absurd ⟨hc, h⟩ hv
      · exact split_two hL (by omega) hne hx hy R

/-! ## Every range -/

/-- When both bounds are those of the two parts. -/
def CutRight (range : Bytes) : Prop :=
  0 ∉ (leftPart range).take 2 ∧
    if tilde ∈ range ∧ 0 ∉ leftPart range ∧ (leftPart range).length ≤ 3 then
      RightCut (leftPart range) (rightPart range)
    else
      ∀ k < 2, (rightPart range).getD k 122 =
        (spill ((leftPart range).takeWhile (· ≠ 0))).getD k 122

theorem eq_takeWhile_append {x : UInt8} {s : Bytes} (h : x ∈ s) :
    s = s.takeWhile (· ≠ x) ++ x :: s.drop ((s.takeWhile (· ≠ x)).length + 1) := by
  induction s with
  | nil => cases h
  | cons c s ih =>
    by_cases hc : c = x
    · rw [List.takeWhile_cons_of_neg (by simp [hc]), hc]
      rfl
    · have hmem : x ∈ s := (List.mem_cons.mp h).resolve_left (Ne.symm hc)
      rw [List.takeWhile_cons_of_pos (by simp [hc]), List.cons_append, List.length_cons,
        List.drop_succ_cons, ← ih hmem]

theorem notMem_takeWhile (x : UInt8) (s : Bytes) : x ∉ s.takeWhile (· ≠ x) := by
  intro h
  simpa using List.mem_takeWhile_imp h

theorem parts_of_tilde {range : Bytes} (h : tilde ∈ range) :
    range = leftPart range ++ tilde :: rightPart range := by
  rw [rightPart, if_pos h]
  exact eq_takeWhile_append h

theorem mem_of_mem_leftPart {range : Bytes} {c : UInt8} (h : c ∈ leftPart range) : c ∈ range :=
  (List.takeWhile_prefix _).mem h

theorem mem_of_mem_rightPart {range : Bytes} {c : UInt8} (h : c ∈ rightPart range) :
    c ∈ range := by
  rw [rightPart] at h
  split at h
  · exact List.mem_of_mem_drop h
  · exact h

/-- The C string that the left part is, and what follows it in the range. -/
theorem exists_rest (range : Bytes) : ∃ rest, range = (leftPart range).takeWhile (· ≠ 0) ++ rest ∧
    (tilde ∈ range ∧ 0 ∉ leftPart range ∨ ∀ s, rangeLoop rest s = s) := by
  by_cases hzero : 0 ∈ leftPart range
  · have hrange : range = leftPart range ++ range.dropWhile (· ≠ tilde) :=
      List.takeWhile_append_dropWhile.symm
    have hleft := eq_takeWhile_append hzero
    generalize (leftPart range).drop _ = u at hleft
    refine ⟨0 :: (u ++ range.dropWhile (· ≠ tilde)), ?_, Or.inr fun s => scan_zero s _⟩
    calc range = leftPart range ++ range.dropWhile (· ≠ tilde) := hrange
      _ = ((leftPart range).takeWhile (· ≠ 0) ++ 0 :: u) ++ range.dropWhile (· ≠ tilde) :=
        congrArg (· ++ _) hleft
      _ = _ := by rw [List.append_assoc, List.cons_append]
  · rw [takeWhile_ne_eq_self_iff.mpr hzero]
    by_cases htilde : tilde ∈ range
    · exact ⟨_, parts_of_tilde htilde, Or.inl ⟨htilde, hzero⟩⟩
    · refine ⟨[], ?_, Or.inr fun _ => rfl⟩
      rw [List.append_nil]
      exact (takeWhile_ne_eq_self_iff.mpr htilde).symm

theorem rangeToIndex_unsplit {range : Bytes}
    (h : ¬ (tilde ∈ range ∧ 0 ∉ leftPart range ∧ (leftPart range).length ≤ 3)) :
    rangeToIndex range = (bound 45 ((leftPart range).takeWhile (· ≠ 0)),
      bound 122 (spill ((leftPart range).takeWhile (· ≠ 0)))) := by
  obtain ⟨rest, hrange, hrest⟩ := exists_rest range
  have hplain : ∀ c ∈ (leftPart range).takeWhile (· ≠ 0), Plain c := by
    intro c hc
    constructor
    · rintro rfl
      exact notMem_takeWhile tilde range ((List.takeWhile_prefix _).mem hc)
    · rintro rfl
      exact notMem_takeWhile 0 _ hc
  have hlong : tilde ∈ range ∧ 0 ∉ leftPart range →
      4 ≤ ((leftPart range).takeWhile (· ≠ 0)).length := by
    intro ⟨htilde, hzero⟩
    rw [takeWhile_ne_eq_self_iff.mpr hzero]
    by_contra hlen
    exact h ⟨htilde, hzero, by omega⟩
  generalize (leftPart range).takeWhile (· ≠ 0) = t at hrange hplain hlong
  rw [hrange]
  by_cases hlen : t.length ≤ 3
  · apply rangeToIndex_short hplain hlen
    exact hrest.resolve_left fun h0 => absurd (hlong h0) (by omega)
  · rcases t with _ | ⟨a, _ | ⟨b, _ | ⟨c, _ | ⟨d, t⟩⟩⟩⟩
    · simp at hlen
    · simp at hlen
    · simp at hlen
    · simp at hlen
    · rw [spill, if_neg (by simp)]
      exact rangeToIndex_four (hplain a (by simp)) (hplain b (by simp)) (hplain c (by simp))
        (hplain d (by simp)) _

theorem forall_lt_two {p : Nat → Prop} : (∀ k < 2, p k) ↔ p 0 ∧ p 1 := by
  constructor
  · intro h
    exact ⟨h 0 (by decide), h 1 (by decide)⟩
  · rintro ⟨h0, h1⟩ k hk
    rcases k with _ | _ | k
    · exact h0
    · exact h1
    · omega

theorem bound_eq_bound_iff {pad : UInt8} (hpad : pad < 128) {s s' : Bytes}
    (hs : ∀ c ∈ s, c < 128) (hs' : ∀ c ∈ s', c < 128) :
    bound pad s = bound pad s' ↔ ∀ k < 2, s.getD k pad = s'.getD k pad := by
  rw [forall_lt_two]
  exact rangeIndex_inj (getD_ascii hs 0 hpad) (getD_ascii hs 1 hpad)
    (getD_ascii hs' 0 hpad) (getD_ascii hs' 1 hpad)

theorem begin_uncut_iff (s : Bytes) :
    (∀ k < 2, (s.takeWhile (· ≠ 0)).getD k 45 = s.getD k 45) ↔ 0 ∉ s.take 2 := by
  rw [forall_lt_two]
  rcases s with _ | ⟨a, _ | ⟨b, s⟩⟩
  · simp
  · by_cases ha : a = 0
    · simp [ha]
    · simp [ha, Ne.symm ha]
  · by_cases ha : a = 0
    · simp [ha]
    · by_cases hb : b = 0
      · simp [ha, hb]
      · simp [ha, hb, Ne.symm ha, Ne.symm hb]

theorem rangeToIndex_eq_iff {range : Bytes} (hascii : ∀ c ∈ range, c < 128) :
    rangeToIndex range = (bound 45 (leftPart range), bound 122 (rightPart range)) ↔
      CutRight range := by
  have hleft : ∀ c ∈ leftPart range, c < 128 := fun c hc => hascii c (mem_of_mem_leftPart hc)
  have hright : ∀ c ∈ rightPart range, c < 128 := fun c hc => hascii c (mem_of_mem_rightPart hc)
  rw [CutRight]
  by_cases hsplit : tilde ∈ range ∧ 0 ∉ leftPart range ∧ (leftPart range).length ≤ 3
  · rw [if_pos hsplit]
    obtain ⟨htilde, hzero, hlen⟩ := hsplit
    have hplain : ∀ c ∈ leftPart range, Plain c := by
      intro c hc
      constructor
      · rintro rfl
        exact notMem_takeWhile tilde range hc
      · rintro rfl
        exact hzero hc
    have hrange : rangeToIndex range =
        rangeToIndex (leftPart range ++ tilde :: rightPart range) :=
      congrArg rangeToIndex (parts_of_tilde htilde)
    rw [hrange]
    constructor
    · intro h
      exact ⟨fun h0 => hzero (List.mem_of_mem_take h0),
        rightCut_of_split hplain hleft hlen hright h⟩
    · rintro ⟨-, h⟩
      exact split_of_rightCut hplain hlen h
  · have ht : ∀ c ∈ (leftPart range).takeWhile (· ≠ 0), c < 128 := fun c hc =>
      hleft c ((List.takeWhile_prefix _).mem hc)
    have hspill : ∀ c ∈ spill ((leftPart range).takeWhile (· ≠ 0)), c < 128 := by
      intro c hc
      rw [spill] at hc
      split at hc
      · exact ht c hc
      · exact ht c (List.mem_of_mem_drop hc)
    rw [if_neg hsplit, rangeToIndex_unsplit hsplit, Prod.mk.injEq,
      bound_eq_bound_iff (by decide) ht hleft, begin_uncut_iff, eq_comm (a := bound 122 (spill _)),
      bound_eq_bound_iff (by decide) hright hspill]

/-- Of the entries that are not skipped, each gives the element of its place, and the element
has the bounds of the two parts of its range exactly where the scanner cuts it right. -/
theorem loaded_bounds_iff_cutRight {self : RouterSeletor} {g : Table} {ta : List Table}
    (hcontent : g.getTableArrayQualified (ascii "Host.Content") = some ta)
    {r : Bool × RouterSeletor} (hload : self.initializeManager (some g) = .ok r) :
    ∃ es, r.2.hostElement = self.hostElement ++ es ∧
      List.Forall₂ (fun t e => ∀ range, t.getQualified (ascii "range") = some (.string range) →
        (∀ c ∈ range, c < 128) →
          (e.begin_ = bound 45 (leftPart range) ∧ e.end_ = bound 122 (rightPart range) ↔
            CutRight range)) (ta.filter Kept) es := by
  obtain ⟨d, p, es, -, -, hes, rfl⟩ := (initializeManager_with hcontent r).mp hload
  refine ⟨es, rfl, hes.imp ?_⟩
  intro t e hloaded range hrange hascii
  obtain ⟨range', hrange', hindex⟩ := hloaded.range
  obtain rfl := Base.string.inj (Option.some.inj (hrange.symm.trans hrange'))
  rw [← rangeToIndex_eq_iff hascii, ← hindex, Prod.mk.injEq]

/-- A document with one entry. -/
def oneRange (range : Bytes) : Table :=
  [(ascii "Host", .table [(ascii "Content", .tableArray
    [[(ascii "range", .string range), (ascii "address", .string (ascii "10.0.0.2"))]])])]

/-- The third character of "abc" is taken for the end bound. -/
theorem long_range_spills :
    ∃ router e, RouterSeletor.empty.initializeManager (some (oneRange (ascii "abc"))) =
        .ok (true, router) ∧ router.hostElement = [e] ∧
      e.end_ = bound 122 (ascii "c") ∧ e.end_ ≠ bound 122 (rightPart (ascii "abc")) :=
  ⟨_, _, rfl, rfl, rfl, by decide⟩

theorem loaded_bounds_sample :
    ∃ es, (RouterSeletor.mk [⟨rangeIndex 66 45, rangeIndex 68 122, 3690, true, ascii "10.0.0.2"⟩]
        (ascii "192.168.1.12") 3690).hostElement = [] ++ es ∧
      List.Forall₂ (fun t e => ∀ range, t.getQualified (ascii "range") = some (.string range) →
        (∀ c ∈ range, c < 128) →
          (e.begin_ = bound 45 (leftPart range) ∧ e.end_ = bound 122 (rightPart range) ↔
            CutRight range))
        (List.filter Kept [[(ascii "range", .string (ascii "B~D")),
          (ascii "address", .string (ascii "10.0.0.2"))]]) es :=
  @loaded_bounds_iff_cutRight .empty (oneRange (ascii "B~D")) _ rfl (true, _) rfl

end Svnsrv.Router
