import Svnsrv.HdsDecode

/-!
# What the parser makes of the start of a message

A read may return only the first bytes of a response. The parser has no notion
of input that is still to come: it refuses a cut before the end of the URL or
inside the ra-client, and takes every other one for a complete message.
-/

namespace Svnsrv.Hds

open CText RaSvn
set_option autoImplicit false

/-! ## Messages with their pieces -/

/-- How the ra-client and the client of a response are written. -/
inductive AgentPart : Option (Bytes × Option Bytes) → Type
  | none : AgentPart none
  | some {ra : Bytes} {client : Option Bytes} (digits sep clientText : Bytes)
      (hdigits : IsNumeral digits ra.length) (hsep : IsSeparator sep)
      (hclient : Text (.list (client.toList.map .string)) clientText) : AgentPart (some (ra, client))

namespace AgentPart

def text {agent : Option (Bytes × Option Bytes)} : AgentPart agent → Bytes
  | none => []
  | @some ra _ digits sep clientText _ _ _ => (digits ++ colon :: (ra ++ sep)) ++ clientText

/-- The first `k` bytes end before the ':' of the ra-client or behind the byte after it. -/
def Safe {agent : Option (Bytes × Option Bytes)} (k : Nat) : AgentPart agent → Prop
  | none => True
  | @some ra _ digits _ _ _ _ _ => k ≤ digits.length ∨ (digits ++ colon :: ra).length < k

instance {agent : Option (Bytes × Option Bytes)} (k : Nat) :
    (part : AgentPart agent) → Decidable (part.Safe k)
  | .none => inferInstanceAs (Decidable True)
  | @AgentPart.some ra _ digits _ _ _ _ _ =>
    inferInstanceAs (Decidable (k ≤ digits.length ∨ (digits ++ colon :: ra).length < k))

theorem isText {agent : Option (Bytes × Option Bytes)} (part : AgentPart agent) :
    AgentText agent part.text := by
  cases part with
  | none => exact .none
  | some digits sep clientText hdigits hsep hclient => exact .some (.string hdigits hsep) hclient

theorem safe_of_lt {agent : Option (Bytes × Option Bytes)} {k : Nat} (part : AgentPart agent)
    (h : part.text.length < k) : part.Safe k := by
  cases part with
  | none => trivial
  | some digits sep clientText hdigits hsep hclient =>
    refine .inr ?_
    simp only [text, List.length_append, List.length_cons] at h ⊢
    omega

end AgentPart

theorem AgentText.exists_part {agent : Option (Bytes × Option Bytes)} {t : Bytes}
    (h : AgentText agent t) : ∃ part : AgentPart agent, part.text = t := by
  cases h with
  | none => exact ⟨.none, rfl⟩
  | some hra hclient =>
    cases hra with
    | string hdigits hsep => exact ⟨.some _ _ _ hdigits hsep hclient, rfl⟩

/-- A response and the pieces of one of its spellings. -/
structure Message where
  response : Response
  lead : Bytes
  afterVersion : Bytes
  caps : Bytes
  digits : Bytes
  sep : Bytes
  agent : AgentPart response.agent
  trail : Bytes
  lead_sep : IsSeparator lead
  afterVersion_sep : IsSeparator afterVersion
  caps_text : Text (.list (response.capabilities.map .word)) caps
  digits_numeral : IsNumeral digits response.url.length
  sep_sep : IsSeparator sep
  trail_sep : IsSeparator trail

namespace Message

/-- Everything in front of the ':' of the URL. -/
def head (m : Message) : Bytes :=
  lparen :: (m.lead ++ versionByte m.response.version :: (m.afterVersion ++ (m.caps ++ m.digits)))

/-- Everything behind the URL. -/
def behind (m : Message) : Bytes := m.sep ++ (m.agent.text ++ rparen :: m.trail)

def text (m : Message) : Bytes := m.head ++ colon :: (m.response.url ++ m.behind)

def urlEnd (m : Message) : Nat := (m.head ++ colon :: m.response.url).length

/-- The first `k` bytes reach beyond the URL and do not end inside the ra-client. -/
def SafeCut (m : Message) (k : Nat) : Prop :=
  m.urlEnd < k ∧ m.agent.Safe (k - (m.urlEnd + m.sep.length))

instance (m : Message) (k : Nat) : Decidable (m.SafeCut k) := inferInstanceAs (Decidable (_ ∧ _))

theorem safeCut_whole (m : Message) : m.SafeCut m.text.length := by
  have hlength : m.text.length = m.urlEnd + m.sep.length + m.agent.text.length + 1 +
      m.trail.length := by
    simp only [text, urlEnd, behind, List.length_append, List.length_cons]
    omega
  exact ⟨by omega, m.agent.safe_of_lt (by omega)⟩

end Message

theorem responseText_iff (r : Response) (t : Bytes) :
    ResponseText r t ↔ ∃ m : Message, m.response = r ∧ m.text = t := by
  constructor
  · rintro ⟨hs₀, hs₁, hcaps, hurl, hagent, hs₂⟩
    obtain ⟨part, rfl⟩ := hagent.exists_part
    cases hurl with
    | string hdigits hsep =>
      refine ⟨⟨r, _, _, _, _, _, part, _, hs₀, hs₁, hcaps, hdigits, hsep, hs₂⟩, rfl, ?_⟩
      simp [Message.text, Message.head, Message.behind]
  · rintro ⟨m, rfl, rfl⟩
    have hmk := ResponseText.mk m.lead_sep m.afterVersion_sep m.caps_text
      (.string m.digits_numeral m.sep_sep) m.agent.isText m.trail_sep
    simpa [Message.text, Message.head, Message.behind] using hmk

/-! ## Prefixes -/

theorem prefix_append_cases {α : Type} {t u v : List α} (h : t <+: u ++ v) :
    t <+: u ∨ ∃ w, t = u ++ w ∧ w <+: v := by
  obtain ⟨r, hr⟩ := h
  rcases List.append_eq_append_iff.mp hr with ⟨a, rfl, -⟩ | ⟨w, rfl, rfl⟩
  · exact .inl (List.prefix_append t a)
  · exact .inr ⟨w, rfl, List.prefix_append w r⟩

theorem Quiet.of_prefix {st : SubversionHdsState} {d : UInt32} {t u : Bytes} (h : t <+: u)
    (hu : Quiet st d u) : Quiet st d t := by
  obtain ⟨v, rfl⟩ := h
  exact ((quiet_append st d t v).mp hu).1

theorem separator_colon {ws : Bytes} (h : IsSeparator ws) : colon ∉ ws := by
  intro hmem
  rcases h.2 _ hmem with hc | hc
  · exact absurd hc (by decide)
  · exact absurd hc (by decide)

theorem numeral_colon {ds : Bytes} {n : Nat} (h : IsNumeral ds n) : colon ∉ ds :=
  fun hmem => (digit_facts (h.digits _ hmem)).2.2.1 rfl

theorem words_colon {words : List Bytes} {t : Bytes} (h : Texts (words.map .word) t) :
    colon ∉ t := by
  induction words generalizing t with
  | nil =>
    cases h
    exact List.not_mem_nil
  | cons w words ih =>
    cases h with
    | cons head tail =>
      cases head with
      | word hw hsep =>
        have hword : colon ∉ w :=
          fun hmem => (not_structural_of_wordByte (hw.2 _ hmem)).2.2.2.2.1 rfl
        simp [hword, separator_colon hsep, ih tail]

namespace Message

variable (m : Message)

theorem head_colon : colon ∉ m.head := by
  have hversion : colon ≠ versionByte m.response.version := by
    generalize m.response.version = d
    revert d
    decide
  have hcaps : colon ∉ m.caps := by
    have htext := m.caps_text
    generalize m.caps = caps at htext ⊢
    cases htext with
    | list hsep hwords hsep' =>
      have hl : colon ≠ lparen := by decide
      have hr : colon ≠ rparen := by decide
      simp [hl, hr, separator_colon hsep, words_colon hwords, separator_colon hsep']
  have hl : colon ≠ lparen := by decide
  simp [head, hl, hversion, separator_colon m.lead_sep, separator_colon m.afterVersion_sep, hcaps,
    numeral_colon m.digits_numeral]

end Message

/-- A cut inside the head leaves the URL unread. -/
theorem refused_of_head {b : Buffer} {m : Message} (hb : b.bytes <+: m.head) (protocol : UInt32) :
    ∃ hds, outcome b (.start (.fresh protocol)) = .ret 2 hds := by
  rcases preamble_or_ends b (.fresh protocol) with ⟨P, rest, hsplit⟩ | ⟨h, hends, hurl, -⟩
  · refine absurd (hb.subset ?_) m.head_colon
    rw [hsplit]
    simp
  · rcases hends with hends | hends
    · refine ⟨_, hends.trans (if_pos ?_)⟩
      exact hurl
    · exact ⟨_, hends⟩

section Cut

variable {b : Buffer} {m : Message} (protocol : UInt32)

theorem Message.exists_preamble (m : Message) :
    ∃ P : Preamble, P.text = m.head ∧ P.depth = 1 ∧ scratch P.mark = m.digits := by
  obtain ⟨P, htext, -, -, hdepth, hmark⟩ := Hds.exists_preamble m.response.version m.lead_sep
    m.afterVersion_sep m.caps_text m.digits_numeral
  exact ⟨P, htext, hdepth, hmark⟩

theorem Message.urlLength {P : Preamble} (hmark : scratch P.mark = m.digits)
    (hlen : (m.response.url.length : Int) < 2 ^ 63) : P.urlLength = m.response.url.length := by
  rw [Preamble.urlLength, hmark]
  exact strtol_numeral m.digits_numeral (by omega)

/-- A cut inside the URL makes its length mark too long. -/
theorem refused_of_url {t : Bytes} (hb : b.bytes = m.head ++ colon :: t)
    (ht : t <+: m.response.url) (hlen : (m.response.url.length : Int) < 2 ^ 63) :
    ∃ hds, outcome b (.start (.fresh protocol)) = .ret 2 hds := by
  obtain ⟨P, htext, -, hmark⟩ := m.exists_preamble
  rw [← htext] at hb
  have hl : strtol (P.atColon (.fresh protocol)).tmp = m.response.url.length :=
    Message.urlLength hmark hlen
  have hle := ht.length_le
  rw [outcome_preamble P _ hb]
  rcases outcome_string hb rfl (scanByte_atColon P _) with ⟨ho, -⟩ | ⟨-, hneg, -⟩ | ⟨str, sep, tail,
    rfl, hstr, -⟩
  · exact ⟨_, ho⟩
  · omega
  · simp only [List.length_append, List.length_cons] at hle
    omega

theorem outcome_behind {c : UInt8} {t : Bytes}
    (hb : b.bytes = m.head ++ colon :: (m.response.url ++ c :: t))
    (hlen : (m.response.url.length : Int) < 2 ^ 63) :
    ∃ s : Scan, outcome b (.start (.fresh protocol)) = outcome b s ∧
      s.p = (m.head ++ colon :: (m.response.url ++ [c])).length ∧ s.status = .subversionUrlParsed ∧
      s.tmp = [] ∧ s.depth = 1 ∧ s.hds.subversionURL = m.response.url := by
  obtain ⟨P, htext, hdepth, hmark⟩ := m.exists_preamble
  rw [← htext] at hb ⊢
  refine ⟨_, outcome_url_of_eq _ hb (Message.urlLength hmark hlen), ?_, rfl, rfl, hdepth, rfl⟩
  simp [Preamble.behindURL, Scan.behind]
  omega

end Cut

section Agent

variable {b : Buffer} {s : Scan} {pre blanks : Bytes} (hp : s.p = pre.length)
  (hst : s.status = .subversionUrlParsed) (htmp : s.tmp = []) (hd : s.depth = 1)
  (hblanks : ∀ c ∈ blanks, c = space ∨ c = newline)

include hp hst in
theorem accepted_quiet {t u : Bytes} (hb : b.bytes = pre ++ t) (ht : t <+: u)
    (hu : Quiet .subversionUrlParsed s.depth u) (hurl : s.hds.subversionURL ≠ []) :
    outcome b s = .ret 0 s.hds := by
  have hq : Quiet s.status s.depth t := by
    rw [hst]
    exact hu.of_prefix ht
  rw [outcome_finish hb hp hq, over_mark (.inr hst)]
  exact if_neg hurl

include hd hblanks in
theorem quiet_digits {digits : Bytes} {n : Nat} (hdigits : IsNumeral digits n) :
    Quiet .subversionUrlParsed s.depth (blanks ++ digits) := by
  have hdepth : depthAfter 1 blanks = 1 :=
    depthAfter_of_ne_paren 1 fun c hc => (blank_facts (hblanks c hc)).2.1
  rw [hd, quiet_append, hdepth]
  exact ⟨quiet_of_delimiters 1 fun c hc => (blank_facts (hblanks c hc)).1,
    numeral_quiet hdigits fun c hc => ⟨rfl, hc⟩⟩

include hp hst htmp hd hblanks in
/-- A cut inside the ra-client makes its length mark too long. -/
theorem refused_of_agent {digits ra t : Bytes} (hdigits : IsNumeral digits ra.length)
    (hb : b.bytes = pre ++ ((blanks ++ digits) ++ colon :: t)) (ht : t <+: ra)
    (hlen : (ra.length : Int) < 2 ^ 63) : ∃ hds, outcome b s = .ret 2 hds := by
  have hq := quiet_digits hd hblanks hdigits
  obtain ⟨hover, hact⟩ := outcome_agent hb hp hst hq
  have hl : strtol (s.atAgent (blanks ++ digits)).tmp = ra.length := by
    rw [atAgent_tmp hst, htmp, List.nil_append, scratch_blanks hblanks, numeral_scratch hdigits]
    exact strtol_numeral hdigits (by omega)
  have hb' : b.bytes = (pre ++ (blanks ++ digits)) ++ colon :: t := by simp [hb]
  have hle := ht.length_le
  rw [hover]
  rcases outcome_string hb' (by simp [hp]) hact with ⟨ho, -⟩ | ⟨-, hneg, -⟩ | ⟨str, sep, tail,
    rfl, hstr, -⟩
  · exact ⟨_, ho⟩
  · omega
  · simp only [List.length_append, List.length_cons] at hle
    omega

include hp hst htmp hd hblanks in
theorem accepted_agent {digits ra t : Bytes} {c : UInt8} (hdigits : IsNumeral digits ra.length)
    (hb : b.bytes = pre ++ ((blanks ++ digits) ++ colon :: (ra ++ c :: t))) (hnul : 0 ∉ t)
    (hlen : (ra.length : Int) < 2 ^ 63) (hurl : s.hds.subversionURL ≠ []) :
    outcome b s = .ret 0 { s.hds with userAgent := ra } := by
  have hl : strtol (scratch (blanks ++ digits)) = ra.length := by
    rw [scratch_blanks hblanks, numeral_scratch hdigits]
    exact strtol_numeral hdigits (by omega)
  rcases outcome_agent_of_eq hb hp hst htmp (quiet_digits hd hblanks hdigits) hl with
    ⟨-, ho⟩ | ⟨h0, -⟩
  · exact ho.trans (if_neg hurl)
  · exact absurd h0 hnul

include hp hst htmp hd hblanks in
/-- The end of a response is accepted unless it is cut inside the ra-client. -/
theorem outcome_agent_prefix {t trail : Bytes} {agent : Option (Bytes × Option Bytes)}
    (part : AgentPart agent) (hb : b.bytes = pre ++ t)
    (ht : t <+: blanks ++ (part.text ++ rparen :: trail)) (htrail : IsSeparator trail)
    (hnul : ∀ ra client, agent = some (ra, some client) → 0 ∉ client)
    (hlen : (part.text.length : Int) < 2 ^ 63) (hurl : s.hds.subversionURL ≠ []) :
    (part.Safe (t.length - blanks.length) → ∃ hds, outcome b s = .ret 0 hds ∧
      hds.subversionURL = s.hds.subversionURL) ∧
    (¬part.Safe (t.length - blanks.length) → ∃ hds, outcome b s = .ret 2 hds) := by
  cases part with
  | none =>
    have hq : Quiet .subversionUrlParsed s.depth (blanks ++ ([] ++ rparen :: trail)) :=
      (quiet_append _ _ _ _).mpr ⟨quiet_of_delimiters _ fun c hc => (blank_facts (hblanks c hc)).1,
        .inl (.inr (.inl rfl)), separator_quiet htrail _ _⟩
    have ho := accepted_quiet hp hst hb ht hq hurl
    exact ⟨fun _ => ⟨_, ho, rfl⟩, fun hunsafe => absurd trivial hunsafe⟩
  | @some ra client digits sep clientText hdigits hsep hclient =>
    have hra : (ra.length : Int) < 2 ^ 63 := by
      simp only [AgentPart.text, List.length_append, List.length_cons] at hlen
      omega
    have hsplit : blanks ++ ((AgentPart.some digits sep clientText hdigits hsep hclient).text ++
        rparen :: trail) = (blanks ++ digits) ++ colon :: (ra ++ (sep ++ (clientText ++
          rparen :: trail))) := by
      simp [AgentPart.text]
    have hbefore : t <+: blanks ++ digits →
        (∃ hds, outcome b s = .ret 0 hds ∧ hds.subversionURL = s.hds.subversionURL) ∧
          t.length - blanks.length ≤ digits.length := by
      intro hquiet
      have hle := hquiet.length_le
      rw [List.length_append] at hle
      exact ⟨⟨_, accepted_quiet hp hst hb hquiet (quiet_digits hd hblanks hdigits) hurl, rfl⟩,
        by omega⟩
    have hinside : ∀ w, t = (blanks ++ digits) ++ colon :: w → w <+: ra →
        (∃ hds, outcome b s = .ret 2 hds) ∧ ¬(AgentPart.some digits sep clientText hdigits hsep
          hclient).Safe (t.length - blanks.length) := by
      rintro w rfl hw
      refine ⟨refused_of_agent hp hst htmp hd hblanks hdigits hb hw hra, ?_⟩
      have hle := hw.length_le
      simp only [AgentPart.Safe, List.length_append, List.length_cons]
      omega
    rw [hsplit] at ht
    rcases prefix_append_cases ht with hquiet | ⟨w, rfl, hw⟩
    · obtain ⟨haccepted, hle⟩ := hbefore hquiet
      exact ⟨fun _ => haccepted, fun hunsafe => absurd (.inl hle) hunsafe⟩
    rcases List.prefix_cons_iff.mp hw with rfl | ⟨w, rfl, hra'⟩
    · obtain ⟨haccepted, hle⟩ := hbefore (by simp)
      exact ⟨fun _ => haccepted, fun hunsafe => absurd (.inl hle) hunsafe⟩
    rcases prefix_append_cases hra' with hcut | ⟨v, rfl, hv⟩
    · obtain ⟨hrefused, hunsafe⟩ := hinside w rfl hcut
      exact ⟨fun hsafe => absurd hsafe hunsafe, fun _ => hrefused⟩
    cases v with
    | nil =>
      obtain ⟨hrefused, hunsafe⟩ := hinside _ rfl (by simp)
      exact ⟨fun hsafe => absurd hsafe hunsafe, fun _ => hrefused⟩
    | cons c v =>
      have hv0 : 0 ∉ v := by
        intro h0
        have hclient0 := client_text_nul hclient fun c hc => hnul ra c (by rw [hc])
        have hmem := hv.subset (List.mem_cons_of_mem c h0)
        simp [separator_nul hsep, hclient0, rparen, separator_nul htrail] at hmem
      have ho := accepted_agent hp hst htmp hd hblanks hdigits hb hv0 hra hurl
      refine ⟨fun _ => ⟨_, ho, rfl⟩, fun hunsafe => absurd (.inr ?_) hunsafe⟩
      simp only [List.length_append, List.length_cons]
      omega

end Agent

/-- The first `k` bytes of a message are accepted with its URL, or refused. -/
structure CutOutcome (m : Message) (k : Nat) (o : Outcome) : Prop where
  accepted : m.SafeCut k → ∃ hds, o = .ret 0 hds ∧ hds.subversionURL = m.response.url
  refused : ¬m.SafeCut k → ∃ hds, o = .ret 2 hds

theorem parse_prefix (m : Message) (b : Buffer) (protocol : UInt32) (haddr : b.addr ≠ 0)
    (hne : b.bytes ≠ []) (hb : b.bytes <+: m.text) (hlen : m.text.length < 2 ^ 63) :
    CutOutcome m b.bytes.length (parseSubversionHds b (.fresh protocol)) := by
  rw [parse_eq_outcome haddr hne]
  have hlengths := congrArg List.length (show m.text = m.head ++ colon :: (m.response.url ++
    (m.sep ++ (m.agent.text ++ rparen :: m.trail))) from rfl)
  simp only [List.length_append, List.length_cons] at hlengths
  have hend : m.urlEnd = m.head.length + (m.response.url.length + 1) := by simp [Message.urlEnd]
  have hurl : (m.response.url.length : Int) < 2 ^ 63 := by omega
  have hrefused : b.bytes.length ≤ m.urlEnd →
      (∃ hds, outcome b (.start (.fresh protocol)) = .ret 2 hds) →
      CutOutcome m b.bytes.length (outcome b (.start (.fresh protocol))) :=
    fun hle h => ⟨fun hsafe => absurd hsafe.1 (Nat.not_lt.mpr hle), fun _ => h⟩
  have hinside : ∀ w, b.bytes = m.head ++ colon :: w → w <+: m.response.url →
      CutOutcome m b.bytes.length (outcome b (.start (.fresh protocol))) := by
    intro w hw hpre
    refine hrefused ?_ (refused_of_url protocol hw hpre hurl)
    have hle := hpre.length_le
    rw [hw, List.length_append, List.length_cons]
    omega
  rcases prefix_append_cases hb with hhead | ⟨w, hw, hcolon⟩
  · exact hrefused (by have := hhead.length_le; omega) (refused_of_head hhead protocol)
  rcases List.prefix_cons_iff.mp hcolon with rfl | ⟨w, rfl, hrest⟩
  · refine hrefused ?_ (refused_of_head (m := m) (by simp [hw]) protocol)
    rw [hw, List.append_nil]
    omega
  rcases prefix_append_cases hrest with hcut | ⟨v, rfl, hv⟩
  · exact hinside w hw hcut
  cases v with
  | nil => exact hinside _ hw (by simp)
  | cons c t =>
    obtain ⟨sep, blanks, hsep, -⟩ := m.sep_sep.exists_cons
    have hbehind : c :: t <+: sep :: (blanks ++ (m.agent.text ++ rparen :: m.trail)) := by
      rw [Message.behind, hsep] at hv
      exact hv
    obtain ⟨rfl, ht⟩ := List.cons_prefix_cons.mp hbehind
    have hblanks : ∀ a ∈ blanks, a = space ∨ a = newline := by
      intro a ha
      apply m.sep_sep.2
      rw [hsep]
      exact List.mem_cons_of_mem c ha
    obtain ⟨s, ho, hp, hst, htmp, hd, hread⟩ := outcome_behind protocol hw hurl
    have hb' : b.bytes = (m.head ++ colon :: (m.response.url ++ [c])) ++ t := by simp [hw]
    have hcount : b.bytes.length - (m.urlEnd + m.sep.length) = t.length - blanks.length := by
      rw [hw, hsep]
      simp only [List.length_append, List.length_cons]
      omega
    have hlt : m.urlEnd < b.bytes.length := by
      rw [hw]
      simp only [List.length_append, List.length_cons]
      omega
    have hagent := outcome_agent_prefix hp hst htmp hd hblanks m.agent hb' ht m.trail_sep
      m.response.client_nul (by omega) (hread ▸ m.response.url_ne)
    rw [hread] at hagent
    rw [ho]
    refine ⟨fun hsafe => hagent.1 (hcount ▸ hsafe.2), fun hunsafe => hagent.2 fun hsafe => ?_⟩
    exact hunsafe ⟨hlt, hcount ▸ hsafe⟩

end Svnsrv.Hds
