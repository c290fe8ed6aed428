import Svnsrv.HdsAccept

/-!
# Safety of the handshake scan, and truncated input

The only way out of the buffer is a negative length: `p + l + 1` passes the
comparison with `end`, and `assign` gets a count that no string can have. Apart
from that the cursor moves forward inside the buffer and the call returns. A
buffer that is accepted is read the same way when more bytes follow it.
-/

namespace Svnsrv.Hds

open CText
set_option autoImplicit false

/-! ## Negative lengths -/

/-- A length mark of the URL or of the ra-client is a negative number. -/
inductive NegativeLength (b : Buffer) : Prop
  | url {P : Preamble} {rest : Bytes} (haddr : b.addr ≠ 0)
      (hb : b.bytes = P.text ++ colon :: rest)
      (hesc : Escapes b P.text.length (strtol (scratch P.mark)))
  | agent {P : Preamble} {url mark rest : Bytes} {sep : UInt8} (haddr : b.addr ≠ 0)
      (hb : b.bytes = P.text ++ colon :: (url ++ sep :: (mark ++ colon :: rest)))
      (hurl : strtol (scratch P.mark) = url.length)
      (hq : Quiet .subversionUrlParsed P.depth mark)
      (hesc : Escapes b (P.text ++ colon :: (url ++ sep :: mark)).length (strtol (scratch mark)))

theorem outcome_escapes {b : Buffer} {s t : Scan} {field : Field} {pre rest : Bytes}
    (hb : b.bytes = pre ++ colon :: rest) (hp : s.p = pre.length)
    (hact : scanByte s colon = .string t field)
    (hesc : Escapes b pre.length (strtol t.tmp)) : outcome b s = .abort .length_error := by
  obtain ⟨hneg, hw⟩ := hesc
  rcases outcome_string hb hp hact with ⟨-, h⟩ | ⟨ho, -⟩ | ⟨_, _, _, -, h, -⟩
  · omega
  · exact ho
  · omega

theorem behindURL_p (P : Preamble) (hds : SubversionHds) (url : Bytes) (sep : UInt8) :
    (P.behindURL hds url).p = (P.text ++ colon :: (url ++ [sep])).length := by
  simp [Preamble.behindURL, Scan.behind]
  omega

/-- The parser throws exactly on a negative length. -/
theorem parse_abort_iff (b : Buffer) (hds : SubversionHds) (fault : Fault) :
    parseSubversionHds b hds = .abort fault ↔ fault = .length_error ∧ NegativeLength b := by
  constructor
  · intro h
    obtain ⟨haddr, -, heq⟩ := (parse_cases b hds).resolve_right fun heq => by
      rw [heq] at h
      cases h
    rw [heq] at h
    have hends : ∀ {s r}, EndsWith b s r → outcome b s ≠ .abort fault := by
      intro s r he ho
      rcases he with he | he
      · unfold finish SubversionHds.fail at he
        split at he <;> simp [ho] at he
      · simp [ho, SubversionHds.fail] at he
    rcases url_result b hds with ⟨r, he, -⟩ | ho | ⟨hb, hesc, ho⟩ | ⟨hb, hl, ho⟩
    · exact absurd h (hends he)
    · simp [ho, SubversionHds.fail] at h
    · rw [ho] at h
      exact ⟨by cases h; rfl, .url haddr hb hesc⟩
    · rename_i P url tail sep
      have hb' : b.bytes = (P.text ++ colon :: (url ++ [sep])) ++ tail := by simp [hb]
      rw [ho] at h
      rcases agent_result hb' (behindURL_p P hds url sep) rfl rfl with
        he | ho' | ⟨hb'', rfl, hq, hesc, ho'⟩ | ⟨-, -, -, he⟩
      · exact absurd h (hends he)
      · simp [ho', SubversionHds.fail] at h
      · rw [ho'] at h
        refine ⟨by cases h; rfl, .agent haddr hb hl hq ?_⟩
        have hpre := List.append_cancel_right (hb''.symm.trans hb')
        simpa [hpre] using hesc
      · exact absurd h (hends he)
  · rintro ⟨rfl, h⟩
    cases h with
    | @url P rest haddr hb hesc =>
      rw [parse_eq_outcome haddr (by simp [hb]), outcome_preamble P hds hb]
      exact outcome_escapes hb rfl (scanByte_atColon P hds) hesc
    | @agent P url mark rest sep haddr hb hurl hq hesc =>
      have hb' : b.bytes = (P.text ++ colon :: (url ++ [sep])) ++ (mark ++ colon :: rest) := by
        simp [hb]
      obtain ⟨hover, hact⟩ := outcome_agent hb' (behindURL_p P hds url sep) rfl hq
      rw [parse_eq_outcome haddr (by simp [hb]), outcome_url_of_eq hds hb hurl, hover]
      have hcolon : b.bytes = (P.text ++ colon :: (url ++ sep :: mark)) ++ colon :: rest := by
        simp [hb]
      have hp : ((P.behindURL hds url).over mark).p =
          (P.text ++ colon :: (url ++ sep :: mark)).length := by
        rw [over_p, behindURL_p P hds url sep]
        simp only [List.length_append, List.length_cons, List.length_nil]
        omega
      have htmp : ((P.behindURL hds url).atAgent mark).tmp = scratch mark :=
        (atAgent_tmp rfl mark).trans (List.nil_append _)
      exact outcome_escapes hcolon hp hact (htmp ▸ hesc)

/-! ## The safety of one call -/

/-- The locals at some turn of the loop of the call. -/
def Scanned (b : Buffer) (hds : SubversionHds) (s : Scan) : Prop :=
  b.addr ≠ 0 ∧ b.bytes ≠ [] ∧ Reached b (.start hds) s

/-- The turn at `s` calls `assign` with the length read from `t.tmp`. -/
def Assigns (b : Buffer) (s t : Scan) : Prop :=
  s.p < b.nbytes ∧ ∃ c field, b.read s.p = some c ∧ scanByte s c = .string t field ∧
    b.pastEnd (t.p + strtol t.tmp + 1) = false

structure ScanSafe (b : Buffer) (hds : SubversionHds) : Prop where
  cursor : ∀ s, Scanned b hds s → 0 ≤ s.p ∧ s.p ≤ b.nbytes
  forward : ∀ s t, Scanned b hds s → scanStep b s = .inl t → s.p < t.p
  lengths : ∀ s t, Scanned b hds s → Assigns b s t →
    0 ≤ strtol t.tmp ∧ strtol t.tmp ≤ b.nbytes - (t.p + 1)
  returns : ∃ code h, code ≤ 2 ∧ parseSubversionHds b hds = .ret code h

theorem scanned_bounds {b : Buffer} {hds : SubversionHds} {s : Scan} (h : Scanned b hds s) :
    0 ≤ s.p ∧ s.p ≤ b.nbytes :=
  reached_bounds h.2.2 (by simp [Scan.start]) (nbytes_bounds b).1

/-- A length that `assign` gets is in range, or the call throws. -/
theorem assigns_cases {b : Buffer} {hds : SubversionHds} {s t : Scan}
    (hs : Scanned b hds s) (ha : Assigns b s t) :
    (0 ≤ strtol t.tmp ∧ strtol t.tmp ≤ b.nbytes - (t.p + 1)) ∨
    parseSubversionHds b hds = .abort .length_error := by
  obtain ⟨hlt, c, field, hread, hact, hend⟩ := ha
  have hp := (scanned_bounds hs).1
  have ht := scanByte_string hact
  have hstep : scanStep b s = perform b (.string t field) := by
    rw [scanStep, if_pos hlt, hread, ← hact]
  rcases perform_string (b := b) (t := t) field (by omega) (by omega) with
    ⟨hr, -⟩ | ⟨hr, -⟩ | ⟨-, hl, hle⟩
  · simp [perform, hend] at hr
    split at hr <;> simp [SubversionHds.fail] at hr
  · refine .inr ?_
    rw [parse_eq_outcome hs.1 hs.2.1,
      outcome_reached hs.2.2 (by simp [Scan.start]) (nbytes_bounds b).1]
    exact outcome_stop (hstep.trans hr)
  · exact .inl (by omega)

/-- What the parser reports. -/
def messages : List Bytes :=
  [ascii "Malformed Network data,buffer is empty !", ascii "Malformed Network data !",
    Field.tooLong .subversionURL, Field.tooLong .userAgent,
    ascii "Parse Subversion Handsake failed, cannot resolve url !"]

/-- A call that began with the message `old` ends with one of its result codes and at most a
message of its own, or with an exception. -/
def Outcome.Coded (old : Bytes) : Outcome → Prop
  | .ret code hds => code ≤ 2 ∧ (hds.lastError = old ∨ hds.lastError ∈ messages)
  | .abort _ => True

theorem coded_fail {old : Bytes} (hds : SubversionHds) {msg : Bytes} (hmsg : msg ∈ messages) :
    (hds.fail msg).Coded old := ⟨Nat.le_refl 2, .inr hmsg⟩

theorem tooLong_mem (field : Field) : field.tooLong ∈ messages := by
  cases field <;> simp [messages]

theorem coded_finish (hds : SubversionHds) : (finish hds).Coded hds.lastError := by
  unfold finish
  split
  · exact coded_fail hds (by simp [messages])
  · exact ⟨Nat.zero_le 2, .inl rfl⟩

theorem scanByte_ret {s : Scan} {c : UInt8} {code : Nat} {h : SubversionHds}
    (hact : scanByte s c = .ret code h) :
    code = 2 ∧ h.lastError = ascii "Malformed Network data !" := by
  unfold scanByte statusByte capabilitiesByte at hact
  grind

theorem scanByte_lastError {s t : Scan} {c : UInt8}
    (hact : scanByte s c = .next t ∨ ∃ field, scanByte s c = .string t field) :
    t.hds.lastError = s.hds.lastError := by
  unfold scanByte statusByte capabilitiesByte at hact
  grind

theorem scanStep_lastError {b : Buffer} {s t : Scan} (hstep : scanStep b s = .inl t) :
    t.hds.lastError = s.hds.lastError := by
  unfold scanStep at hstep
  split at hstep
  · split at hstep
    · cases hstep
    · rename_i c _
      cases hact : scanByte s c with
      | next u =>
        simp only [hact, perform, Sum.inl.injEq] at hstep
        subst hstep
        exact scanByte_lastError (.inl hact)
      | ret code h => simp [hact, perform] at hstep
      | string u field =>
        have hu := scanByte_lastError (.inr ⟨field, hact⟩)
        simp only [hact, perform] at hstep
        split at hstep
        · cases hstep
        · split at hstep
          · cases hstep
          · cases hstep
            cases field <;> exact hu
  · cases hstep

theorem scanStep_coded {b : Buffer} {s : Scan} {r : Outcome} (hstep : scanStep b s = .inr r) :
    r.Coded s.hds.lastError := by
  unfold scanStep at hstep
  split at hstep
  · split at hstep
    · cases hstep
      trivial
    · rename_i c _
      cases hact : scanByte s c with
      | next t => simp [hact, perform] at hstep
      | ret code h =>
        simp only [hact, perform, Sum.inr.injEq] at hstep
        subst hstep
        obtain ⟨rfl, herror⟩ := scanByte_ret hact
        exact ⟨Nat.le_refl 2, .inr (by simp [herror, messages])⟩
      | string t field =>
        simp only [hact, perform] at hstep
        split at hstep
        · cases hstep
          exact coded_fail t.hds (tooLong_mem field)
        · split at hstep <;> cases hstep
          trivial
  · cases hstep
    exact coded_finish s.hds

theorem reached_lastError {b : Buffer} {s t : Scan} (h : Reached b s t) :
    t.hds.lastError = s.hds.lastError := by
  induction h with
  | refl => rfl
  | tail _ hstep ih => exact (scanStep_lastError hstep).trans ih

theorem parse_coded (b : Buffer) (hds : SubversionHds) :
    (parseSubversionHds b hds).Coded hds.lastError := by
  rcases parse_cases b hds with ⟨-, -, heq⟩ | heq
  · rw [heq]
    obtain ⟨t, hreached, hlast⟩ := outcome_eq_last (b := b) (.start hds) (by simp [Scan.start])
    have hcoded := scanStep_coded hlast
    rwa [reached_lastError hreached] at hcoded
  · rw [heq]
    exact ⟨Nat.le_succ 1, .inr (by simp [messages])⟩

/-- The scan of a buffer is safe exactly when the buffer has no negative length mark. -/
theorem scanSafe_iff (b : Buffer) (hds : SubversionHds) :
    ScanSafe b hds ↔ ¬NegativeLength b := by
  constructor
  · intro h hneg
    obtain ⟨code, r, -, hret⟩ := h.returns
    rw [(parse_abort_iff b hds .length_error).mpr ⟨rfl, hneg⟩] at hret
    cases hret
  · intro hneg
    have hno : ∀ fault, parseSubversionHds b hds ≠ .abort fault := fun fault h =>
      hneg ((parse_abort_iff b hds fault).mp h).2
    refine ⟨fun s hs => scanned_bounds hs,
      fun s t hs hstep => (scanStep_forward (scanned_bounds hs).1 hstep).1, ?_, ?_⟩
    · intro s t hs ha
      exact (assigns_cases hs ha).resolve_right (hno _)
    · have hcoded := parse_coded b hds
      cases h : parseSubversionHds b hds with
      | ret code r =>
        rw [h] at hcoded
        exact ⟨code, r, hcoded.1, rfl⟩
      | abort fault => exact absurd h (hno fault)

/-- The length mark -1 makes the call throw. -/
theorem negative_length_unsafe :
    parseSubversionHds ⟨4096, ascii "( 2 ( ) -1:x ", by decide⟩ (.fresh 0) =
      .abort .length_error ∧
    ¬ScanSafe ⟨4096, ascii "( 2 ( ) -1:x ", by decide⟩ (.fresh 0) := by
  have habort : parseSubversionHds ⟨4096, ascii "( 2 ( ) -1:x ", by decide⟩ (.fresh 0) =
      .abort .length_error := by decide
  refine ⟨habort, fun h => ?_⟩
  obtain ⟨code, r, -, hret⟩ := h.returns
  rw [habort] at hret
  cases hret

/-! ## Truncated input -/

/-- A record that more input may only add an ra-client to. -/
structure Agrees (h h' : SubversionHds) : Prop where
  protocol : h'.protocol = h.protocol
  mCapabilities : h'.mCapabilities = h.mCapabilities
  subversionURL : h'.subversionURL = h.subversionURL
  userAgent : h.userAgent ≠ [] → h'.userAgent = h.userAgent

theorem agent_kept {b : Buffer} {P : Preamble} {hds h' : SubversionHds}
    {url tail agent : Bytes} {sep : UInt8} (more : Bytes)
    (hb : b.bytes = P.text ++ colon :: (url ++ sep :: (tail ++ more)))
    (hslice : AgentSlice P.depth [] tail agent) (hne : agent ≠ [])
    (hacc : outcome b (P.behindURL hds url) = .ret 0 h') : h'.userAgent = agent := by
  obtain ⟨mark, sep', rest, rfl, hq, hl⟩ := hslice.resolve_left hne
  have hb' : b.bytes = (P.text ++ colon :: (url ++ [sep])) ++
      (mark ++ colon :: (agent ++ sep' :: (rest ++ more))) := by simp [hb]
  have hends := outcome_agent_of_eq hb' (behindURL_p P hds url sep) rfl rfl hq hl
  obtain ⟨-, rfl⟩ := endsWith_ret (hends.imp And.right And.right) hacc
  rfl

/-- Bytes behind an accepted buffer change nothing that was reported: if the longer
buffer is accepted too, only an ra-client that was missing can appear. -/
theorem accepted_prefix_agrees (b b' : Buffer) (more : Bytes) (garbage garbage' : UInt32)
    (h h' : SubversionHds) (hmore : b'.bytes = b.bytes ++ more)
    (hacc : parseSubversionHds b (.fresh garbage) = .ret 0 h)
    (hacc' : parseSubversionHds b' (.fresh garbage') = .ret 0 h') : Agrees h h' := by
  obtain ⟨-, P, url, tail, agent, sep, hb, hl, -, rfl, hslice⟩ := parse_accepted rfl hacc
  have haddr' := (parse_accepted rfl hacc').1
  have hb' : b'.bytes = P.text ++ colon :: (url ++ sep :: (tail ++ more)) := by
    simp [hmore, hb]
  rw [parse_eq_outcome haddr' (by simp [hb']), outcome_url_of_eq _ hb' hl] at hacc'
  obtain ⟨-, agent', rfl, -⟩ := accepted_behindURL hb' hacc'
  exact ⟨rfl, rfl, rfl, fun hne => agent_kept more hb' hslice hne hacc'⟩

/-- The first read of a message stops inside its last list. -/
theorem accepted_prefix_agrees_split :
    Agrees ⟨2, [ascii "a"], ascii "abc", ascii "SV", []⟩
      ⟨2, [ascii "a"], ascii "abc", ascii "SV", []⟩ :=
  accepted_prefix_agrees ⟨4096, ascii "( 2 ( a ) 3:abc 2:SV ", by decide⟩
    ⟨8192, ascii "( 2 ( a ) 3:abc 2:SV ( ) ) ", by decide⟩ (ascii "( ) ) ") 0 1 _ _
    (by decide) (by decide) (by decide)

end Svnsrv.Hds
