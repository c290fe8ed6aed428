import Svnsrv.HdsScan

/-!
# The layout of what the handshake scan reads

Every state of the machine keeps itself over some text and gathers it: capability
words, or the digits of a length mark. A `Preamble` is the text up to the ':' of
the URL, split where the state changes. Whether a message is decoded, refused
or makes the parser throw is read off such a split.
-/

namespace Svnsrv.Hds

open CText
set_option autoImplicit false

/-! ## Quiet text -/

def Delimiter (c : UInt8) : Prop := c = lparen ∨ c = rparen ∨ c = space ∨ c = newline

instance : DecidablePred Delimiter := fun c =>
  inferInstanceAs (Decidable (c = lparen ∨ c = rparen ∨ c = space ∨ c = newline))

def Plain (c : UInt8) : Prop := ¬Delimiter c ∧ c ≠ 0

def depthStep (d : UInt32) (c : UInt8) : UInt32 :=
  if c = lparen then d + 1 else if c = rparen then d - 1 else d

/-- The parenthesis depth, counted modulo 2^32 as the machine does. -/
def depthAfter (d : UInt32) (t : Bytes) : UInt32 := t.foldl depthStep d

/-- The bytes over which a state is kept at a given depth. -/
def Keeps : SubversionHdsState → UInt32 → UInt8 → Prop
  | .parseReset, d, _ => d ≠ 1
  | .protocolParsed, d, _ => d = 2
  | .capabilitiesParsed, _, c => c ≠ colon
  | .subversionUrlParsed, d, c => d = 1 ∧ c ≠ colon
  | .subversionRUAParsed, _, _ => True

def QuietByte (st : SubversionHdsState) (d : UInt32) (c : UInt8) : Prop :=
  Delimiter c ∨ (c ≠ 0 ∧ Keeps st d c)

def Quiet (st : SubversionHdsState) : UInt32 → Bytes → Prop
  | _, [] => True
  | d, c :: t => QuietByte st d c ∧ Quiet st (depthStep d c) t

def gatherByte : SubversionHdsState → List Bytes × Bytes → UInt8 → List Bytes × Bytes
  | .protocolParsed, acc, c =>
    if c = lparen ∨ c = rparen then acc
    else if c = space ∨ c = newline then
      if acc.2 = [] then acc else (acc.1 ++ [acc.2], [])
    else (acc.1, acc.2 ++ [c])
  | .capabilitiesParsed, acc, c => if Delimiter c then acc else (acc.1, acc.2 ++ [c])
  | .subversionUrlParsed, acc, c => if Delimiter c then acc else (acc.1, acc.2 ++ [c])
  | _, acc, _ => acc

/-- The capability list and the scratch string after quiet text. -/
def gather (st : SubversionHdsState) (acc : List Bytes × Bytes) (t : Bytes) :
    List Bytes × Bytes := t.foldl (gatherByte st) acc

/-- A length mark as `strtol` gets it. -/
def scratch (t : Bytes) : Bytes := t.filter fun c => ¬Delimiter c

@[simp] theorem depthAfter_nil (d : UInt32) : depthAfter d [] = d := rfl

@[simp] theorem depthAfter_cons (d : UInt32) (c : UInt8) (t : Bytes) :
    depthAfter d (c :: t) = depthAfter (depthStep d c) t := rfl

@[simp] theorem depthAfter_append (d : UInt32) (t u : Bytes) :
    depthAfter d (t ++ u) = depthAfter (depthAfter d t) u := List.foldl_append

@[simp] theorem quiet_append (st : SubversionHdsState) (d : UInt32) (t u : Bytes) :
    Quiet st d (t ++ u) ↔ Quiet st d t ∧ Quiet st (depthAfter d t) u := by
  induction t generalizing d with
  | nil => simp [Quiet]
  | cons c t ih => simp only [List.cons_append, Quiet, ih, depthAfter_cons, and_assoc]

theorem gather_mark {st : SubversionHdsState}
    (hst : st = .capabilitiesParsed ∨ st = .subversionUrlParsed) (acc : List Bytes × Bytes)
    (t : Bytes) : gather st acc t = (acc.1, acc.2 ++ scratch t) := by
  induction t generalizing acc with
  | nil => simp [gather, scratch]
  | cons c t ih =>
    have hbyte : gatherByte st acc c = if Delimiter c then acc else (acc.1, acc.2 ++ [c]) := by
      rcases hst with rfl | rfl <;> rfl
    change gather st (gatherByte st acc c) t = _
    rw [ih, hbyte]
    by_cases hc : Delimiter c <;> simp [scratch, hc]

theorem gather_idle {st : SubversionHdsState}
    (hst : st = .parseReset ∨ st = .subversionRUAParsed) (acc : List Bytes × Bytes)
    (t : Bytes) : gather st acc t = acc := by
  induction t with
  | nil => rfl
  | cons c t ih => rcases hst with rfl | rfl <;> exact ih

/-- Text either keeps the state to its end or up to a first byte that does not. -/
theorem quiet_or_split (st : SubversionHdsState) (d : UInt32) (t : Bytes) :
    Quiet st d t ∨ ∃ u c v, t = u ++ c :: v ∧ Quiet st d u ∧ ¬Delimiter c ∧
      (c = 0 ∨ (c ≠ 0 ∧ ¬Keeps st (depthAfter d u) c)) := by
  induction t generalizing d with
  | nil => exact .inl trivial
  | cons a t ih =>
    by_cases ha : QuietByte st d a
    · rcases ih (depthStep d a) with hq | ⟨u, c, v, rfl, hq, hc⟩
      · exact .inl ⟨ha, hq⟩
      · exact .inr ⟨a :: u, c, v, rfl, ⟨ha, hq⟩, hc⟩
    · refine .inr ⟨[], a, t, rfl, trivial, ?_, ?_⟩
      · exact fun hd => ha (.inl hd)
      · by_cases h0 : a = 0
        · exact .inl h0
        · exact .inr ⟨h0, fun hk => ha (.inr ⟨h0, hk⟩)⟩

/-! ## Runs over quiet text -/

/-- The locals after quiet text. -/
def Scan.over (s : Scan) (t : Bytes) : Scan :=
  let acc := gather s.status (s.hds.mCapabilities, s.tmp) t
  { s with
    p := s.p + t.length
    depth := depthAfter s.depth t
    tmp := acc.2
    hds := { s.hds with mCapabilities := acc.1 } }

theorem scanByte_plain {s : Scan} {c : UInt8} (h : Plain c) :
    scanByte s c = statusByte s c := by
  obtain ⟨hd, h0⟩ := h
  simp only [Delimiter, not_or] at hd
  simp [scanByte, hd, h0]

theorem scanByte_delimiter {s : Scan} {c : UInt8} (h : Delimiter c) :
    scanByte s c = .next (s.over [c]) := by
  obtain ⟨p, tmp, status, depth, hds⟩ := s
  rcases h with rfl | rfl | rfl | rfl <;> cases status <;>
    by_cases ht : tmp = [] <;>
    simp [scanByte, Scan.over, gather, gatherByte, depthStep, Delimiter, ht,
      lparen, rparen, space, newline]

theorem scanByte_quiet {s : Scan} {c : UInt8} (h : QuietByte s.status s.depth c) :
    scanByte s c = .next (s.over [c]) := by
  by_cases hd : Delimiter c
  · exact scanByte_delimiter hd
  obtain ⟨h0, hk⟩ := h.resolve_left hd
  rw [scanByte_plain ⟨hd, h0⟩]
  obtain ⟨p, tmp, status, depth, hds⟩ := s
  have hd' := hd
  simp only [Delimiter, not_or] at hd'
  cases status <;>
    simp_all [Keeps, statusByte, capabilitiesByte, Scan.over, gather, gatherByte, depthStep]

theorem scanStep_byte {b : Buffer} {s : Scan} {pre post : Bytes} {c : UInt8}
    (hb : b.bytes = pre ++ c :: post) (hp : s.p = pre.length) :
    scanStep b s = perform b (scanByte s c) := by
  have hn := nbytes_of_append hb
  rw [scanStep, if_pos (by omega), hp, read_of_append hb]

@[simp] theorem over_p (s : Scan) (t : Bytes) : (s.over t).p = s.p + t.length := rfl
@[simp] theorem over_status (s : Scan) (t : Bytes) : (s.over t).status = s.status := rfl
@[simp] theorem over_depth (s : Scan) (t : Bytes) :
    (s.over t).depth = depthAfter s.depth t := rfl

theorem over_over (s : Scan) (t u : Bytes) : (s.over t).over u = s.over (t ++ u) := by
  simp [Scan.over, gather, List.foldl_append, Int.add_assoc]

theorem over_idle {s : Scan}
    (hst : s.status = .parseReset ∨ s.status = .subversionRUAParsed) (t : Bytes) :
    s.over t = { s with p := s.p + t.length, depth := depthAfter s.depth t } := by
  simp [Scan.over, gather_idle hst]

theorem over_mark {s : Scan}
    (hst : s.status = .capabilitiesParsed ∨ s.status = .subversionUrlParsed) (t : Bytes) :
    s.over t = { s with
      p := s.p + t.length
      depth := depthAfter s.depth t
      tmp := s.tmp ++ scratch t } := by
  simp [Scan.over, gather_mark hst]

theorem outcome_over {b : Buffer} {s : Scan} {pre t post : Bytes}
    (hb : b.bytes = pre ++ (t ++ post)) (hp : s.p = pre.length)
    (hq : Quiet s.status s.depth t) : outcome b s = outcome b (s.over t) := by
  induction t generalizing pre s with
  | nil => simp [Scan.over, gather]
  | cons c t ih =>
    have hstep : scanStep b s = .inl (s.over [c]) := by
      rw [scanStep_byte hb hp, scanByte_quiet hq.1, perform]
    rw [outcome_next (by omega) hstep]
    have hb' : b.bytes = (pre ++ [c]) ++ (t ++ post) := by simpa using hb
    have hrest := ih (s := s.over [c]) hb' (by simp [hp]) hq.2
    rw [hrest, over_over]
    rfl

theorem outcome_congr {b : Buffer} {s t : Scan} (hp : s.p = t.p)
    (h : scanStep b s = scanStep b t) : outcome b s = outcome b t := by
  simp only [outcome, scanLoop, hp, h]

theorem outcome_end {b : Buffer} {s : Scan} (hp : s.p = b.nbytes) :
    outcome b s = finish s.hds :=
  outcome_stop (by rw [scanStep, if_neg (by omega)])

theorem outcome_nul {b : Buffer} {s : Scan} {pre post : Bytes}
    (hb : b.bytes = pre ++ 0 :: post) (hp : s.p = pre.length) :
    outcome b s = s.hds.fail (ascii "Malformed Network data !") := by
  apply outcome_stop
  rw [scanStep_byte hb hp]
  rfl

theorem outcome_finish {b : Buffer} {s : Scan} {pre t : Bytes} (hb : b.bytes = pre ++ t)
    (hp : s.p = pre.length) (hq : Quiet s.status s.depth t) :
    outcome b s = finish (s.over t).hds := by
  have hb' : b.bytes = pre ++ (t ++ []) := by simpa using hb
  rw [outcome_over hb' hp hq]
  apply outcome_end
  simp [Buffer.nbytes, hb, hp]

/-- A state is kept to the end of the buffer, or to a NUL, or to a byte that leaves it. -/
theorem outcome_cases {b : Buffer} {s : Scan} {pre t : Bytes}
    (hb : b.bytes = pre ++ t) (hp : s.p = pre.length) :
    (Quiet s.status s.depth t ∧ outcome b s = finish (s.over t).hds) ∨
    (∃ u v, t = u ++ 0 :: v ∧ Quiet s.status s.depth u ∧
      outcome b s = (s.over u).hds.fail (ascii "Malformed Network data !")) ∨
    (∃ u c v, t = u ++ c :: v ∧ Quiet s.status s.depth u ∧ Plain c ∧
      ¬Keeps s.status (depthAfter s.depth u) c ∧ outcome b s = outcome b (s.over u)) := by
  rcases quiet_or_split s.status s.depth t with hq | ⟨u, c, v, rfl, hq, hd, h⟩
  · exact .inl ⟨hq, outcome_finish hb hp hq⟩
  · have hover := outcome_over hb hp hq
    rcases h with rfl | ⟨h0, hk⟩
    · refine .inr (.inl ⟨u, v, rfl, hq, hover.trans ?_⟩)
      have hb' : b.bytes = (pre ++ u) ++ 0 :: v := by simpa using hb
      exact outcome_nul hb' (by simp [hp])
    · exact .inr (.inr ⟨u, c, v, rfl, hq, ⟨hd, h0⟩, hk, hover⟩)

/-! ## The text before the URL -/

/-- The bytes before the ':' of the URL: up to the version byte, the version byte,
the capability section, and the length mark. -/
structure Preamble where
  lead : Bytes
  version : UInt8
  mid : Bytes
  mark : Bytes
  lead_quiet : Quiet .parseReset 0 lead
  lead_depth : depthAfter 0 lead = 1
  version_plain : Plain version
  mid_quiet : Quiet .protocolParsed 1 mid
  mid_depth : depthAfter 1 mid ≠ 2
  mark_quiet : Quiet .capabilitiesParsed (depthAfter 1 mid) mark
  mark_head : ∀ c ∈ mark.head?, ¬Delimiter c

namespace Preamble

def text (P : Preamble) : Bytes := P.lead ++ P.version :: (P.mid ++ P.mark)

def capabilities (P : Preamble) : List Bytes := (gather .protocolParsed ([], []) P.mid).1

def depth (P : Preamble) : UInt32 := depthAfter (depthAfter 1 P.mid) P.mark

def urlLength (P : Preamble) : Int := strtol (scratch P.mark)

/-- What the record holds when the URL is about to be read. -/
def record (P : Preamble) (hds : SubversionHds) : SubversionHds :=
  { hds with
    protocol := protocolOf P.version
    mCapabilities := (gather .protocolParsed (hds.mCapabilities, []) P.mid).1 }

def atColon (P : Preamble) (hds : SubversionHds) : Scan :=
  ⟨P.text.length, scratch P.mark, .capabilitiesParsed, P.depth, P.record hds⟩

end Preamble

theorem outcome_fallthrough {b : Buffer} {s : Scan} {pre post : Bytes} {c : UInt8}
    (hb : b.bytes = pre ++ c :: post) (hp : s.p = pre.length) (hc : Plain c)
    (hst : s.status = .protocolParsed) (hd : s.depth ≠ 2) :
    outcome b s = outcome b { s with tmp := [], status := .capabilitiesParsed } := by
  refine outcome_congr rfl ?_
  rw [scanStep_byte hb hp, scanStep_byte hb (by exact hp), scanByte_plain hc, scanByte_plain hc]
  simp [statusByte, hst, hd]

theorem outcome_version {b : Buffer} {s : Scan} {pre post : Bytes} {c : UInt8}
    (hb : b.bytes = pre ++ c :: post) (hp : s.p = pre.length) (hc : Plain c)
    (hst : s.status = .parseReset) (hd : s.depth = 1) :
    outcome b s = outcome b { s with
      p := s.p + 1
      status := .protocolParsed
      hds := { s.hds with protocol := protocolOf c } } := by
  refine outcome_next (by omega) ?_
  rw [scanStep_byte hb hp, scanByte_plain hc]
  simp [statusByte, hst, hd, perform]

theorem plain_colon : Plain colon := by
  unfold Plain Delimiter
  decide

/-- A preamble brings the machine to the ':' of the URL with the length mark in `tmp`. -/
theorem outcome_preamble {b : Buffer} {rest : Bytes} (P : Preamble) (hds : SubversionHds)
    (hb : b.bytes = P.text ++ colon :: rest) :
    outcome b (.start hds) = outcome b (P.atColon hds) := by
  have hb' : b.bytes = P.lead ++ (P.version :: (P.mid ++ (P.mark ++ colon :: rest))) := by
    simp [hb, Preamble.text]
  let s₁ : Scan := ⟨P.lead.length, [], .parseReset, 1, hds⟩
  let s₂ : Scan :=
    ⟨P.lead.length + 1, [], .protocolParsed, 1, { hds with protocol := protocolOf P.version }⟩
  let s₃ : Scan := { s₂.over P.mid with tmp := [], status := .capabilitiesParsed }
  have hb₂ : b.bytes = (P.lead ++ [P.version]) ++ (P.mid ++ (P.mark ++ colon :: rest)) := by
    simp [hb']
  have hb₃ : b.bytes = (P.lead ++ P.version :: P.mid) ++ (P.mark ++ colon :: rest) := by
    simp [hb']
  have hp₃ : (s₂.over P.mid).p = (P.lead ++ P.version :: P.mid).length := by
    simp [s₂]
    omega
  have hstart : (Scan.start hds).over P.lead = s₁ := by
    simp [Scan.start, over_idle, P.lead_depth, s₁]
  have hfall : outcome b (s₂.over P.mid) = outcome b s₃ := by
    cases hm : P.mark with
    | nil => exact outcome_fallthrough (by simpa [hm] using hb₃) hp₃ plain_colon rfl P.mid_depth
    | cons c m =>
      have hc : Plain c := by
        have hd := P.mark_head c (by simp [hm])
        have hq := P.mark_quiet
        rw [hm] at hq
        exact ⟨hd, (hq.1.resolve_left hd).1⟩
      exact outcome_fallthrough (by simpa [hm] using hb₃) hp₃ hc rfl P.mid_depth
  calc
    outcome b (.start hds) = outcome b s₁ := by
      rw [outcome_over (hb'.trans (List.nil_append _).symm) rfl P.lead_quiet, hstart]
    _ = outcome b s₂ := outcome_version hb' rfl P.version_plain rfl rfl
    _ = outcome b (s₂.over P.mid) := outcome_over hb₂ (by simp [s₂]) P.mid_quiet
    _ = outcome b s₃ := hfall
    _ = outcome b (s₃.over P.mark) := outcome_over hb₃ hp₃ P.mark_quiet
    _ = outcome b (P.atColon hds) := by
      rw [over_mark (.inl rfl)]
      congr 1
      simp [s₃, s₂, Preamble.atColon, Preamble.text, Preamble.depth, Preamble.record, Scan.over,
        Int.add_assoc]
      omega

theorem scanByte_atColon (P : Preamble) (hds : SubversionHds) :
    scanByte (P.atColon hds) colon = .string (P.atColon hds) .subversionURL := by
  rw [scanByte_plain plain_colon]
  rfl

/-! ## Strings read by length -/

/-- The locals behind a string that has been read and the byte after it. -/
def Scan.behind (t : Scan) (field : Field) (p : Int) (str : Bytes) : Scan :=
  { t with p, tmp := [], status := field.parsed, hds := t.hds.assign field str }

/-- At the ':' behind a length mark: the mark is too long, or negative, or followed by
the string and one byte that the scan skips. -/
theorem outcome_string {b : Buffer} {s t : Scan} {field : Field} {pre rest : Bytes}
    (hb : b.bytes = pre ++ colon :: rest) (hp : s.p = pre.length)
    (hact : scanByte s colon = .string t field) :
    (outcome b s = t.hds.fail field.tooLong ∧
      ((rest.length : Int) ≤ strtol t.tmp ∨ b.addr + pre.length + strtol t.tmp + 1 < 0)) ∨
    (outcome b s = .abort .length_error ∧
      strtol t.tmp < 0 ∧ 0 ≤ b.addr + pre.length + strtol t.tmp + 1) ∨
    (∃ str sep tail, rest = str ++ sep :: tail ∧ strtol t.tmp = str.length ∧
      outcome b s = outcome b (t.behind field (pre ++ colon :: (str ++ [sep])).length str)) := by
  have hn := nbytes_of_append hb
  have ht := scanByte_string hact
  have hstep := scanStep_byte hb hp
  rw [hact] at hstep
  rcases perform_string (b := b) (t := t) field (by omega) (by omega) with
    ⟨hr, h⟩ | ⟨hr, hneg, hw⟩ | ⟨hr, hl, hend⟩
  · exact .inl ⟨outcome_stop (hstep.trans hr), by omega⟩
  · exact .inr (.inl ⟨outcome_stop (hstep.trans hr), hneg, by omega⟩)
  · refine .inr (.inr ?_)
    have hlt : (strtol t.tmp).toNat < rest.length := by omega
    refine ⟨rest.take (strtol t.tmp).toNat, rest[(strtol t.tmp).toNat],
      rest.drop ((strtol t.tmp).toNat + 1), ?_, ?_, ?_⟩
    · rw [← List.drop_eq_getElem_cons hlt, List.take_append_drop]
    · rw [List.length_take]
      omega
    · rw [outcome_next (by omega) (hstep.trans hr)]
      have hdrop : b.bytes.drop (t.p + 1).toNat = rest := by
        have hp' : (t.p + 1).toNat = (pre ++ [colon]).length := by
          simp only [List.length_append, List.length_singleton]
          omega
        have hb' : b.bytes = (pre ++ [colon]) ++ rest := by simp [hb]
        rw [hp', hb', List.drop_left]
      rw [hdrop, Scan.behind]
      congr 2
      simp only [List.length_append, List.length_cons, List.length_take, List.length_nil]
      omega

theorem outcome_string_of_eq {b : Buffer} {s t : Scan} {field : Field} {pre str tail : Bytes}
    {sep : UInt8} (hb : b.bytes = pre ++ colon :: (str ++ sep :: tail)) (hp : s.p = pre.length)
    (hact : scanByte s colon = .string t field) (hl : strtol t.tmp = str.length) :
    outcome b s = outcome b (t.behind field (pre ++ colon :: (str ++ [sep])).length str) := by
  rcases outcome_string hb hp hact with ⟨-, h⟩ | ⟨-, h, -⟩ | ⟨str', sep', tail', hrest, hl', ho⟩
  · simp only [hl, List.length_append, List.length_cons] at h
    omega
  · omega
  · obtain ⟨rfl, hcons⟩ := List.append_inj hrest (by omega)
    rw [ho]
    congr 2
    simp

theorem outcome_tail {b : Buffer} {s : Scan} {pre t : Bytes} (hb : b.bytes = pre ++ t)
    (hp : s.p = pre.length) (hst : s.status = .subversionRUAParsed) :
    (0 ∉ t ∧ outcome b s = finish s.hds) ∨
    (0 ∈ t ∧ outcome b s = s.hds.fail (ascii "Malformed Network data !")) := by
  rcases outcome_cases hb hp with ⟨hq, ho⟩ | ⟨u, v, rfl, -, ho⟩ | ⟨u, c, v, rfl, -, -, hk, -⟩
  · refine .inl ⟨?_, by rw [ho, over_idle (.inr hst)]⟩
    intro h0
    obtain ⟨u, v, rfl⟩ := List.append_of_mem h0
    have := ((quiet_append _ _ _ _).mp hq).2.1
    rcases this with hd | ⟨h, -⟩
    · revert hd
      unfold Delimiter
      decide
    · exact h rfl
  · exact .inr ⟨by simp, by rw [ho, over_idle (.inr hst)]⟩
  · rw [hst] at hk
    exact absurd trivial hk

/-! ## Every buffer -/

/-- The loop ends with the record `h`, at the end of the buffer or at a NUL. -/
def EndsWith (b : Buffer) (s : Scan) (h : SubversionHds) : Prop :=
  outcome b s = finish h ∨ outcome b s = h.fail (ascii "Malformed Network data !")

/-- The loop ends without reading a further string. -/
def EndsUnread (b : Buffer) (s : Scan) : Prop :=
  ∃ h : SubversionHds, EndsWith b s h ∧
    h.subversionURL = s.hds.subversionURL ∧ h.userAgent = s.hds.userAgent

theorem EndsUnread.of_eq {b : Buffer} {s t : Scan} (h : EndsUnread b t)
    (ho : outcome b s = outcome b t) (hurl : t.hds.subversionURL = s.hds.subversionURL)
    (hagent : t.hds.userAgent = s.hds.userAgent) : EndsUnread b s := by
  obtain ⟨r, h, hr, hr'⟩ := h
  exact ⟨r, by rwa [EndsWith, ho], hr.trans hurl, hr'.trans hagent⟩

theorem exit_or_ends {b : Buffer} {s : Scan} {pre t : Bytes}
    (hb : b.bytes = pre ++ t) (hp : s.p = pre.length) :
    (∃ u c v, t = u ++ c :: v ∧ Quiet s.status s.depth u ∧ Plain c ∧
      ¬Keeps s.status (depthAfter s.depth u) c ∧ outcome b s = outcome b (s.over u)) ∨
    ∃ u, EndsWith b s (s.over u).hds := by
  rcases outcome_cases hb hp with ⟨-, ho⟩ | ⟨u, v, -, -, ho⟩ | h
  · exact .inr ⟨t, .inl ho⟩
  · exact .inr ⟨u, .inr ho⟩
  · exact .inl h

theorem mark_or_ends {b : Buffer} {s : Scan} {pre t : Bytes} (hb : b.bytes = pre ++ t)
    (hp : s.p = pre.length) (hst : s.status = .capabilitiesParsed) :
    (∃ mark rest, t = mark ++ colon :: rest ∧ Quiet .capabilitiesParsed s.depth mark) ∨
    EndsUnread b s := by
  rcases exit_or_ends hb hp with ⟨mark, c, rest, rfl, hq, -, hk, -⟩ | ⟨u, h⟩
  · rw [hst] at hq hk
    obtain rfl : c = colon := by simpa [Keeps] using hk
    exact .inl ⟨mark, rest, rfl, hq⟩
  · exact .inr ⟨_, h, rfl, rfl⟩

theorem section_or_ends {b : Buffer} {s : Scan} {pre t : Bytes} (hb : b.bytes = pre ++ t)
    (hp : s.p = pre.length) (hst : s.status = .protocolParsed) :
    (∃ mid mark rest, t = mid ++ (mark ++ colon :: rest) ∧
      Quiet .protocolParsed s.depth mid ∧ depthAfter s.depth mid ≠ 2 ∧
      Quiet .capabilitiesParsed (depthAfter s.depth mid) mark ∧
      ∀ c ∈ mark.head?, ¬Delimiter c) ∨
    EndsUnread b s := by
  rcases exit_or_ends hb hp with ⟨mid, c, v, rfl, hq, hc, hk, ho⟩ | ⟨u, h⟩
  · rw [hst] at hq hk
    have hb' : b.bytes = (pre ++ mid) ++ c :: v := by simp [hb]
    have hp' : (s.over mid).p = (pre ++ mid).length := by simp [hp]
    have hfall := outcome_fallthrough hb' hp' hc hst hk
    rcases mark_or_ends (s := { s.over mid with tmp := [], status := .capabilitiesParsed })
      hb' hp' rfl with ⟨mark, rest, hsplit, hmark⟩ | h
    · refine .inl ⟨mid, mark, rest, by rw [hsplit], hq, hk, hmark, ?_⟩
      intro a ha
      cases mark with
      | nil => simp at ha
      | cons m mark =>
        obtain rfl : m = a := by simpa using ha
        obtain ⟨rfl, -⟩ := List.cons.inj hsplit
        exact hc.1
    · exact .inr (h.of_eq (ho.trans hfall) rfl rfl)
  · exact .inr ⟨_, h, rfl, rfl⟩

theorem preamble_or_ends (b : Buffer) (hds : SubversionHds) :
    (∃ (P : Preamble) (rest : Bytes), b.bytes = P.text ++ colon :: rest) ∨
    EndsUnread b (.start hds) := by
  rcases exit_or_ends (s := .start hds) (List.nil_append b.bytes).symm rfl with
    ⟨lead, c, v, hb, hlead, hc, hk, ho⟩ | ⟨u, h⟩
  · have hdepth : depthAfter 0 lead = 1 := by simpa [Keeps, Scan.start] using hk
    have hversion := outcome_version (s := (Scan.start hds).over lead) hb (by simp [Scan.start])
      hc rfl hdepth
    have hd : ((Scan.start hds).over lead).depth = 1 := hdepth
    have hb' : b.bytes = (lead ++ [c]) ++ v := by simp [hb]
    rcases section_or_ends hb'
      (s := { (Scan.start hds).over lead with
        p := ((Scan.start hds).over lead).p + 1
        status := .protocolParsed
        hds := { ((Scan.start hds).over lead).hds with protocol := protocolOf c } })
      (by simp [Scan.start]) rfl with
      ⟨mid, mark, rest, rfl, hmid, hmd, hmark, hhead⟩ | h
    · simp only [hd] at hmid hmd hmark
      exact .inl ⟨⟨lead, c, mid, mark, hlead, hdepth, hc, hmid, hmd, hmark, hhead⟩, rest,
        by simp [Preamble.text, hb]⟩
    · exact .inr (h.of_eq (ho.trans hversion) rfl rfl)
  · exact .inr ⟨_, h, rfl, rfl⟩

/-- The locals at the ':' of the ra-client, once the switch has looked at the depth. -/
def Scan.atAgent (s : Scan) (mark : Bytes) : Scan :=
  { s.over mark with
    status := if depthAfter s.depth mark ≠ 1 then .subversionRUAParsed else .subversionUrlParsed }

theorem atAgent_tmp {s : Scan} (hst : s.status = .subversionUrlParsed) (mark : Bytes) :
    (s.atAgent mark).tmp = s.tmp ++ scratch mark := by
  simp [Scan.atAgent, over_mark (.inr hst)]

theorem atAgent_hds {s : Scan} (hst : s.status = .subversionUrlParsed) (mark : Bytes) :
    (s.atAgent mark).hds = s.hds := by
  simp [Scan.atAgent, over_mark (.inr hst)]

theorem agent_or_ends {b : Buffer} {s : Scan} {pre t : Bytes} (hb : b.bytes = pre ++ t)
    (hp : s.p = pre.length) (hst : s.status = .subversionUrlParsed) :
    (∃ mark rest, t = mark ++ colon :: rest ∧ Quiet .subversionUrlParsed s.depth mark) ∨
    EndsWith b s s.hds := by
  rcases exit_or_ends hb hp with ⟨mark, c, v, rfl, hq, hc, hk, ho⟩ | ⟨u, h⟩
  · rw [hst] at hq hk
    by_cases hcolon : c = colon
    · exact .inl ⟨mark, v, by rw [hcolon], hq⟩
    · refine .inr ?_
      have hdepth : depthAfter s.depth mark ≠ 1 := by simpa [Keeps, hcolon] using hk
      let u : Scan := { s.over mark with
        p := (s.over mark).p + 1
        status := .subversionRUAParsed
        tmp := (s.over mark).tmp ++ [c] }
      have hstep : scanStep b (s.over mark) = .inl u := by
        have hb' : b.bytes = (pre ++ mark) ++ c :: v := by simp [hb]
        rw [scanStep_byte hb' (by simp [hp]), scanByte_plain hc]
        simp [statusByte, hst, hdepth, hcolon, perform, u]
      have hhds : u.hds = s.hds := by simp [u, over_mark (.inr hst)]
      have hb' : b.bytes = (pre ++ (mark ++ [c])) ++ v := by simp [hb]
      have htail := outcome_tail (s := u) hb' (by simp [u, hp]; omega) rfl
      rw [EndsWith, ho, outcome_next (by simp; omega) hstep, ← hhds]
      exact htail.imp And.right And.right
  · exact .inr (by simpa [over_mark (.inr hst)] using h)

theorem outcome_agent {b : Buffer} {s : Scan} {pre mark rest : Bytes}
    (hb : b.bytes = pre ++ (mark ++ colon :: rest)) (hp : s.p = pre.length)
    (hst : s.status = .subversionUrlParsed) (hq : Quiet .subversionUrlParsed s.depth mark) :
    outcome b s = outcome b (s.over mark) ∧
      scanByte (s.over mark) colon = .string (s.atAgent mark) .userAgent := by
  refine ⟨outcome_over hb hp (hst ▸ hq), ?_⟩
  rw [scanByte_plain plain_colon]
  simp only [statusByte, over_status, hst, ne_eq, not_true, if_false]
  rfl

/-- A right length mark behind the URL: the ra-client is read, and only a NUL in what
follows can still refuse the message. -/
theorem outcome_agent_of_eq {b : Buffer} {s : Scan} {pre mark ra tail : Bytes} {sep : UInt8}
    (hb : b.bytes = pre ++ (mark ++ colon :: (ra ++ sep :: tail))) (hp : s.p = pre.length)
    (hst : s.status = .subversionUrlParsed) (htmp : s.tmp = [])
    (hq : Quiet .subversionUrlParsed s.depth mark) (hl : strtol (scratch mark) = ra.length) :
    (0 ∉ tail ∧ outcome b s = finish (s.hds.assign .userAgent ra)) ∨
    (0 ∈ tail ∧ outcome b s =
      (s.hds.assign .userAgent ra).fail (ascii "Malformed Network data !")) := by
  obtain ⟨hover, hact⟩ := outcome_agent hb hp hst hq
  have hb' : b.bytes = (pre ++ mark) ++ colon :: (ra ++ sep :: tail) := by simp [hb]
  have hl' : strtol (s.atAgent mark).tmp = ra.length := by
    rw [atAgent_tmp hst, htmp, List.nil_append, hl]
  rw [hover, outcome_string_of_eq hb' (by simp [hp]) hact hl', ← atAgent_hds hst mark]
  have hb'' : b.bytes = ((pre ++ mark) ++ colon :: (ra ++ [sep])) ++ tail := by simp [hb]
  exact outcome_tail hb'' rfl rfl

/-- A negative length that does not wrap below address zero when it is added to the
cursor at offset `p`. -/
def Escapes (b : Buffer) (p : Nat) (l : Int) : Prop := l < 0 ∧ 0 ≤ b.addr + p + l + 1

/-- What can come of the text behind the URL. -/
inductive AgentResult (b : Buffer) (s : Scan) (t : Bytes) : Prop
  | unread (h : EndsWith b s s.hds)
  | tooLong (h : outcome b s = s.hds.fail Field.userAgent.tooLong)
  | escapes {pre mark rest : Bytes} (hb : b.bytes = pre ++ (mark ++ colon :: rest))
      (ht : t = mark ++ colon :: rest) (hq : Quiet .subversionUrlParsed s.depth mark)
      (hesc : Escapes b (pre ++ mark).length (strtol (scratch mark)))
      (h : outcome b s = .abort .length_error)
  | read {mark ra rest : Bytes} {sep : UInt8} (ht : t = mark ++ colon :: (ra ++ sep :: rest))
      (hq : Quiet .subversionUrlParsed s.depth mark) (hl : strtol (scratch mark) = ra.length)
      (h : EndsWith b s (s.hds.assign .userAgent ra))

theorem agent_result {b : Buffer} {s : Scan} {pre t : Bytes} (hb : b.bytes = pre ++ t)
    (hp : s.p = pre.length) (hst : s.status = .subversionUrlParsed) (htmp : s.tmp = []) :
    AgentResult b s t := by
  rcases agent_or_ends hb hp hst with ⟨mark, rest, rfl, hq⟩ | he
  · obtain ⟨hover, hact⟩ := outcome_agent hb hp hst hq
    have htmp' : (s.atAgent mark).tmp = scratch mark := by
      rw [atAgent_tmp hst, htmp, List.nil_append]
    have hb' : b.bytes = (pre ++ mark) ++ colon :: rest := by simp [hb]
    rcases outcome_string hb' (by simp [hp]) hact with
      ⟨ho, -⟩ | ⟨ho, hneg, hw⟩ | ⟨ra, sep, tail, rfl, hl, ho⟩
    · exact .tooLong (by rw [hover, ho, atAgent_hds hst])
    · rw [htmp'] at hneg hw
      exact .escapes hb rfl hq ⟨hneg, hw⟩ (by rw [hover, ho])
    · rw [htmp'] at hl
      have hread := outcome_agent_of_eq hb hp hst htmp hq hl
      exact .read rfl hq hl (hread.imp And.right And.right)
  · exact .unread he

/-- The locals behind the URL and the byte after it. -/
def Preamble.behindURL (P : Preamble) (hds : SubversionHds) (url : Bytes) : Scan :=
  (P.atColon hds).behind .subversionURL (P.text.length + url.length + 2) url

/-- What can come of the text up to the end of the URL. -/
inductive UrlResult (b : Buffer) (hds : SubversionHds) : Prop
  | unread (h : EndsUnread b (.start hds))
  | tooLong {r : SubversionHds} (h : outcome b (.start hds) = r.fail Field.subversionURL.tooLong)
  | escapes {P : Preamble} {rest : Bytes} (hb : b.bytes = P.text ++ colon :: rest)
      (hesc : Escapes b P.text.length P.urlLength)
      (h : outcome b (.start hds) = .abort .length_error)
  | read {P : Preamble} {url tail : Bytes} {sep : UInt8}
      (hb : b.bytes = P.text ++ colon :: (url ++ sep :: tail)) (hl : P.urlLength = url.length)
      (h : outcome b (.start hds) = outcome b (P.behindURL hds url))

theorem outcome_url_of_eq {b : Buffer} {P : Preamble} {url tail : Bytes} {sep : UInt8}
    (hds : SubversionHds) (hb : b.bytes = P.text ++ colon :: (url ++ sep :: tail))
    (hl : P.urlLength = url.length) :
    outcome b (.start hds) = outcome b (P.behindURL hds url) := by
  rw [outcome_preamble P hds hb, outcome_string_of_eq hb rfl (scanByte_atColon P hds) hl,
    Preamble.behindURL]
  congr 2
  simp only [List.length_append, List.length_cons, List.length_nil]
  omega

theorem url_result (b : Buffer) (hds : SubversionHds) : UrlResult b hds := by
  rcases preamble_or_ends b hds with ⟨P, rest, hb⟩ | he
  · have hstart := outcome_preamble P hds hb
    rcases outcome_string hb rfl (scanByte_atColon P hds) with
      ⟨ho, -⟩ | ⟨ho, hneg, hw⟩ | ⟨url, sep, tail, rfl, hl, -⟩
    · exact .tooLong (hstart.trans ho)
    · exact .escapes hb ⟨hneg, hw⟩ (hstart.trans ho)
    · exact .read hb hl (outcome_url_of_eq hds hb hl)
  · exact .unread he

end Svnsrv.Hds
