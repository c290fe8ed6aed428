import Svnsrv.HdsDecode

/-!
# What the handshake parser accepts

The parser asks for less than the prototype does. Here is the exact shape of
an accepted buffer: a preamble whose length mark `strtol` reads as the length of
the URL behind it, at least one byte after the URL, and for a reported ra-client
a second length mark beyond that byte. A version is read from one byte: of several
digits the second one already ends the capability section.
-/

namespace Svnsrv.Hds

open CText RaSvn
set_option autoImplicit false

theorem finish_eq_ret {r h : SubversionHds} (hf : finish r = .ret 0 h) :
    r.subversionURL ≠ [] ∧ h = r := by
  unfold finish SubversionHds.fail at hf
  split at hf
  · cases hf
  · rename_i hne
    cases hf
    exact ⟨hne, rfl⟩

theorem endsWith_ret {b : Buffer} {s : Scan} {r h : SubversionHds} (he : EndsWith b s r)
    (ho : outcome b s = .ret 0 h) : r.subversionURL ≠ [] ∧ h = r := by
  rcases he with he | he
  · exact finish_eq_ret (he.symm.trans ho)
  · rw [he] at ho
    cases ho

/-- The reported ra-client: left as it was, or a slice behind a second length mark. -/
def AgentSlice (d : UInt32) (old tail agent : Bytes) : Prop :=
  agent = old ∨ ∃ mark sep rest, tail = mark ++ colon :: (agent ++ sep :: rest) ∧
    Quiet .subversionUrlParsed d mark ∧ strtol (scratch mark) = agent.length

/-- What follows the URL can only refuse the message or add the ra-client. -/
theorem accepted_behindURL {b : Buffer} {P : Preamble} {hds h : SubversionHds}
    {url tail : Bytes} {sep : UInt8} (hb : b.bytes = P.text ++ colon :: (url ++ sep :: tail))
    (hacc : outcome b (P.behindURL hds url) = .ret 0 h) :
    url ≠ [] ∧ ∃ agent, h = { P.record hds with subversionURL := url, userAgent := agent } ∧
      AgentSlice P.depth hds.userAgent tail agent := by
  have hb' : b.bytes = (P.text ++ colon :: (url ++ [sep])) ++ tail := by simp [hb]
  have hp : (P.behindURL hds url).p = (P.text ++ colon :: (url ++ [sep])).length := by
    simp [Preamble.behindURL, Scan.behind]
    omega
  rcases agent_result hb' hp rfl rfl with he | ho | ⟨-, -, -, -, ho⟩ | ⟨ht, hq, hl, he⟩
  · obtain ⟨hne, rfl⟩ := endsWith_ret he hacc
    exact ⟨hne, hds.userAgent, rfl, .inl rfl⟩
  · rw [ho] at hacc
    cases hacc
  · rw [ho] at hacc
    cases hacc
  · obtain ⟨hne, rfl⟩ := endsWith_ret he hacc
    exact ⟨hne, _, rfl, .inr ⟨_, _, _, ht, hq, hl⟩⟩

/-- An accepted buffer, split where the machine changed its state. -/
theorem parse_accepted {b : Buffer} {hds h : SubversionHds} (hurl : hds.subversionURL = [])
    (hacc : parseSubversionHds b hds = .ret 0 h) :
    b.addr ≠ 0 ∧ ∃ (P : Preamble) (url tail agent : Bytes) (sep : UInt8),
      b.bytes = P.text ++ colon :: (url ++ sep :: tail) ∧
      P.urlLength = url.length ∧ url ≠ [] ∧
      h = { P.record hds with subversionURL := url, userAgent := agent } ∧
      AgentSlice P.depth hds.userAgent tail agent := by
  obtain ⟨haddr, -, heq⟩ := (parse_cases b hds).resolve_right fun heq => by
    rw [heq] at hacc
    cases hacc
  refine ⟨haddr, ?_⟩
  rw [heq] at hacc
  rcases url_result b hds with ⟨r, he, hr, -⟩ | ho | ⟨-, -, ho⟩ | ⟨hb, hl, ho⟩
  · have hret := endsWith_ret he hacc
    exact absurd (hr.trans hurl) hret.1
  · rw [ho] at hacc
    cases hacc
  · rw [ho] at hacc
    cases hacc
  · rw [ho] at hacc
    obtain ⟨hne, agent, hh, hagent⟩ := accepted_behindURL hb hacc
    exact ⟨_, _, _, agent, _, hb, hl, hne, hh, hagent⟩

/-! ## The capability list -/

def isBlank (c : UInt8) : Bool := c == space || c == newline

def isParen (c : UInt8) : Bool := c == lparen || c == rparen

/-- The words of a capability section: parentheses are dropped, spaces and newlines
separate, and a last word without a separator behind it does not count. -/
def words (t : Bytes) : List Bytes :=
  (((t.filter fun c => !isParen c).splitOnP isBlank).dropLast).filter fun w => !w.isEmpty

theorem gather_eq_pieces (t : Bytes) (caps : List Bytes) {tmp : Bytes}
    (htmp : ∀ c ∈ tmp, isBlank c = false) :
    (gather .protocolParsed (caps, tmp) t).1 =
      caps ++ (((tmp ++ t.filter fun c => !isParen c).splitOnP isBlank).dropLast.filter
        fun w => !w.isEmpty) := by
  induction t generalizing caps tmp with
  | nil => simp [gather, List.splitOnP_eq_singleton htmp]
  | cons c t ih =>
    change (gather _ (gatherByte _ _ c) t).1 = _
    by_cases hparen : c = lparen ∨ c = rparen
    · have hp : isParen c = true := by simpa [isParen] using hparen
      rw [gatherByte, if_pos hparen, ih caps htmp, List.filter_cons_of_neg (by simp [hp])]
    have hp : isParen c = false := by simpa [isParen] using hparen
    rw [List.filter_cons_of_pos (by simp [hp])]
    by_cases hblank : c = space ∨ c = newline
    · have hb : isBlank c = true := by simpa [isBlank] using hblank
      have hsplit := List.splitOnP_append_cons_of_forall_mem htmp c hb
        (t.filter fun c => !isParen c)
      have hne := List.splitOnP_ne_nil isBlank (t.filter fun c => !isParen c)
      rw [gatherByte, if_neg hparen, if_pos hblank, hsplit, List.dropLast_cons_of_ne_nil hne]
      by_cases hw : tmp = []
      · rw [if_pos hw, hw, ih caps (by simp)]
        rfl
      · rw [if_neg hw, ih _ (by simp), List.filter_cons_of_pos (by simpa using hw)]
        simp
    · have hb : isBlank c = false := by simpa [isBlank] using hblank
      rw [gatherByte, if_neg hparen, if_neg hblank, ih caps ?_]
      · simp
      · intro a ha
        rcases List.mem_append.mp ha with ha | ha
        · exact htmp a ha
        · rwa [List.mem_singleton.mp ha]

theorem Preamble.capabilities_eq_words (P : Preamble) : P.capabilities = words P.mid :=
  (gather_eq_pieces P.mid [] (List.forall_mem_nil _)).trans (List.nil_append _)

/-! ## Accepted and documented messages -/

/-- A buffer that starts as the prototype says, with the digits `ds` of its version. -/
inductive DocumentedPrefix (ds : Bytes) (version : Nat) (caps : List Bytes) (url : Bytes) :
    Bytes → Prop
  | mk {s₀ s₁ capsText urlText : Bytes} (rest : Bytes) (hs₀ : IsSeparator s₀)
      (hds : IsNumeral ds version) (hs₁ : IsSeparator s₁)
      (hcaps : Text (.list (caps.map .word)) capsText) (hurl : Text (.string url) urlText) :
      DocumentedPrefix ds version caps url
        (lparen :: (s₀ ++ (ds ++ (s₁ ++ (capsText ++ (urlText ++ rest))))))

theorem oneDigit_version {c : UInt8} {n : Nat} (h : IsNumeral [c] n) :
    ∃ d : Fin 10, c = versionByte d ∧ n = d := by
  have hc := (isDigit_iff c).mp (h.digits c List.mem_cons_self)
  have hn : c.toNat - 48 = n := by simpa [numeral] using h.value
  refine ⟨⟨n, by omega⟩, ?_, rfl⟩
  have hlt : 48 + n < UInt8.size := by
    unfold UInt8.size
    omega
  change c = UInt8.ofNat (48 + n)
  rw [← UInt8.toNat_inj, UInt8.toNat_ofNat_of_lt' hlt]
  omega

/-- On a documented message with a one-digit version the parser reports what is written. -/
theorem accepted_documented {b : Buffer} {hds h : SubversionHds} {c : UInt8} {n : Nat}
    {caps : List Bytes} {url : Bytes} (hcaps : hds.mCapabilities = [])
    (hdoc : DocumentedPrefix [c] n caps url b.bytes)
    (hacc : outcome b (.start hds) = .ret 0 h) :
    h.protocol = UInt32.ofNat n ∧ h.mCapabilities = caps ∧ h.subversionURL = url := by
  generalize hm : b.bytes = m at hdoc
  cases hdoc with
  | @mk s₀ s₁ capsText urlText rest hs₀ hds' hs₁ hcapsText hurl =>
    obtain ⟨d, rfl, rfl⟩ := oneDigit_version hds'
    cases hurl with
    | @string _ ds ws hlen hws =>
      obtain ⟨sep, more, rfl, -⟩ := hws.exists_cons
      obtain ⟨P, htext, hversion, hcapabilities, -, hmark⟩ :=
        exists_preamble d hs₀ hs₁ hcapsText hlen
      have hb : b.bytes = P.text ++ colon :: (url ++ sep :: (more ++ rest)) := by
        simp [hm, htext]
      have hfits : (url.length : Int) < 2 ^ 63 := by
        have := b.fits
        have := congrArg List.length hb
        simp only [List.length_append, List.length_cons] at this
        omega
      have hl : P.urlLength = url.length := by
        rw [Preamble.urlLength, hmark]
        exact strtol_numeral hlen (by omega)
      rw [outcome_url_of_eq hds hb hl] at hacc
      obtain ⟨-, agent, rfl, -⟩ := accepted_behindURL hb hacc
      refine ⟨?_, ?_, rfl⟩
      · exact (congrArg protocolOf hversion).trans (version_facts d).2
      · have hrecord : (P.record hds).mCapabilities = P.capabilities := by
          simp [Preamble.record, Preamble.capabilities, hcaps]
        exact hrecord.trans hcapabilities

/-- The exact shape of what is accepted, and what is reported for it; a buffer that does
start as documented is reported as it is written. -/
theorem accepted_shape (b : Buffer) (protocol : UInt32) (h : SubversionHds)
    (hacc : parseSubversionHds b (.fresh protocol) = .ret 0 h) :
    (∃ (P : Preamble) (url tail : Bytes) (sep : UInt8),
      b.bytes = P.text ++ colon :: (url ++ sep :: tail) ∧
      strtol (scratch P.mark) = url.length ∧ url ≠ [] ∧
      h.protocol = protocolOf P.version ∧ h.mCapabilities = words P.mid ∧
      h.subversionURL = url) ∧
    ∀ c n caps url, DocumentedPrefix [c] n caps url b.bytes →
      h.protocol = UInt32.ofNat n ∧ h.mCapabilities = caps ∧ h.subversionURL = url := by
  constructor
  · obtain ⟨-, P, url, tail, agent, sep, hb, hl, hne, rfl, -⟩ := parse_accepted rfl hacc
    exact ⟨P, url, tail, sep, hb, hl, hne, rfl, P.capabilities_eq_words, rfl⟩
  · intro c n caps url hdoc
    obtain ⟨haddr, P, _, _, _, _, hb, -⟩ := parse_accepted rfl hacc
    rw [parse_eq_outcome haddr (by simp [hb])] at hacc
    exact accepted_documented rfl hdoc hacc

example : ∃ (P : Preamble) (url tail : Bytes) (sep : UInt8),
    ascii "( 12 ( a ) 3:abc ) " = P.text ++ colon :: (url ++ sep :: tail) ∧
    strtol (scratch P.mark) = url.length ∧ url ≠ [] ∧
    1 = protocolOf P.version ∧ [] = words P.mid ∧ ascii "ab" = url :=
  (accepted_shape ⟨4096, ascii "( 12 ( a ) 3:abc ) ", by decide⟩ 0
    ⟨1, [], ascii "ab", [], []⟩ (by decide)).1

/-! ## Versions of several digits -/

/-- Quiet text up to a byte that is not quiet is the only such text. -/
theorem quiet_split_unique {st : SubversionHdsState} {d : UInt32} {u u' v v' : Bytes}
    {c c' : UInt8} (hu : Quiet st d u) (hu' : Quiet st d u')
    (hc : ¬QuietByte st (depthAfter d u) c) (hc' : ¬QuietByte st (depthAfter d u') c')
    (h : u ++ c :: v = u' ++ c' :: v') : u = u' ∧ c = c' ∧ v = v' := by
  induction u generalizing d u' with
  | nil =>
    cases u' with
    | nil => exact ⟨rfl, List.cons.inj h⟩
    | cons a u' =>
      obtain ⟨rfl, -⟩ := List.cons.inj h
      exact absurd hu'.1 hc
  | cons a u ih =>
    cases u' with
    | nil =>
      obtain ⟨rfl, -⟩ := List.cons.inj h
      exact absurd hu.1 hc'
    | cons a' u' =>
      obtain ⟨rfl, hbehind⟩ := List.cons.inj h
      obtain ⟨rfl, rfl, rfl⟩ := ih hu.2 hu'.2 hc hc' hbehind
      exact ⟨rfl, rfl, rfl⟩

theorem not_quiet_colon (d : UInt32) : ¬QuietByte .capabilitiesParsed d colon := by
  rintro (hd | ⟨-, hk⟩)
  · exact plain_colon.1 hd
  · exact hk rfl

theorem quiet_mark {t : Bytes} {d : UInt32} (h : ∀ c ∈ t, Delimiter c ∨ (c ≠ 0 ∧ c ≠ colon)) :
    Quiet .capabilitiesParsed d t := by
  induction t generalizing d with
  | nil => trivial
  | cons c t ih =>
    exact ⟨h c List.mem_cons_self, ih fun a ha => h a (List.mem_cons_of_mem c ha)⟩

theorem texts_words_bytes {words : List Bytes} {t : Bytes} (h : Texts (words.map .word) t) :
    ∀ c ∈ t, Delimiter c ∨ (c ≠ 0 ∧ c ≠ colon) := by
  induction words generalizing t with
  | nil =>
    cases h
    exact List.forall_mem_nil _
  | cons w words ih =>
    cases h with
    | cons head tail =>
      cases head with
      | word hw sep =>
        refine List.forall_mem_append.mpr ⟨List.forall_mem_append.mpr ⟨?_, ?_⟩, ih tail⟩
        · intro c hc
          obtain ⟨-, -, -, -, hcolon, hzero⟩ := not_structural_of_wordByte (hw.2 c hc)
          exact .inr ⟨hzero, hcolon⟩
        · exact fun c hc => .inl (blank_facts (sep.2 c hc)).1

theorem capsText_bytes {caps : List Bytes} {t : Bytes} (h : Text (.list (caps.map .word)) t) :
    ∀ c ∈ t, Delimiter c ∨ (c ≠ 0 ∧ c ≠ colon) := by
  cases h with
  | list hws hwords hws' =>
    have hblank : ∀ {ws : Bytes}, IsSeparator ws →
        ∀ c ∈ ws, Delimiter c ∨ (c ≠ 0 ∧ c ≠ colon) :=
      fun hws c hc => .inl (blank_facts (hws.2 c hc)).1
    refine List.forall_mem_cons.mpr ⟨.inl (.inl rfl), List.forall_mem_append.mpr
      ⟨hblank hws, List.forall_mem_append.mpr ⟨texts_words_bytes hwords, ?_⟩⟩⟩
    exact List.forall_mem_cons.mpr ⟨.inl (.inr (.inl rfl)), hblank hws'⟩

/-- The second digit of a version ends the capability section, and begins the length mark. -/
theorem several_digits {P : Preamble} {s₀ s₁ capsText lenText more rest rest' : Bytes}
    {c d : UInt8} {n l : Nat} {caps : List Bytes} (hs₀ : IsSeparator s₀)
    (hversion : IsNumeral (c :: d :: more) n) (hs₁ : IsSeparator s₁)
    (hcaps : Text (.list (caps.map .word)) capsText) (hlen : IsNumeral lenText l)
    (h : P.text ++ colon :: rest = lparen :: (s₀ ++ (c :: d :: more ++
      (s₁ ++ (capsText ++ (lenText ++ colon :: rest')))))) :
    P.version = c ∧ P.mid = [] ∧ P.mark = d :: more ++ (s₁ ++ (capsText ++ lenText)) ∧
      rest = rest' := by
  have hdigit : ∀ a ∈ c :: d :: more, ¬Delimiter a ∧ a ≠ 0 ∧ a ≠ colon := by
    intro a ha
    obtain ⟨hdelim, -, hcolon, hzero⟩ := digit_facts (hversion.digits a ha)
    exact ⟨hdelim, hzero, hcolon⟩
  have hnotfirst : ∀ {a : UInt8} {e : UInt32}, ¬Delimiter a → e = 1 →
      ¬QuietByte .parseReset e a := by
    rintro a e hdelim rfl (hd | ⟨-, hk⟩)
    · exact hdelim hd
    · exact hk rfl
  obtain ⟨hdc, -⟩ := hdigit c List.mem_cons_self
  obtain ⟨hdd, -⟩ := hdigit d (List.mem_cons_of_mem c List.mem_cons_self)
  -- both texts leave the first state at the first digit
  have hfirst : P.lead ++ P.version :: (P.mid ++ (P.mark ++ colon :: rest)) =
      (lparen :: s₀) ++ c :: (d :: more ++ (s₁ ++ (capsText ++ (lenText ++ colon :: rest')))) := by
    simpa [Preamble.text] using h
  have hlead : Quiet .parseReset 0 (lparen :: s₀) :=
    ⟨.inl (.inl rfl), separator_quiet hs₀ _ _⟩
  obtain ⟨-, hfound, hbehind⟩ := quiet_split_unique P.lead_quiet hlead
    (hnotfirst P.version_plain.1 P.lead_depth) (hnotfirst hdc (separator_depth hs₀ 1)) hfirst
  have hmid : P.mid = [] := by
    cases hm : P.mid with
    | nil => rfl
    | cons a mid =>
      have hquiet := P.mid_quiet
      rw [hm] at hbehind hquiet
      obtain ⟨rfl, -⟩ := List.cons.inj hbehind
      rcases hquiet.1 with hd | ⟨-, hk⟩
      · exact absurd hd hdd
      · exact absurd (show (1 : UInt32) = 2 from hk) (by decide)
  rw [hmid, List.nil_append] at hbehind
  have hsplit : P.mark ++ colon :: rest =
      (d :: more ++ (s₁ ++ (capsText ++ lenText))) ++ colon :: rest' := by
    simpa using hbehind
  have hquiet : ∀ a ∈ d :: more ++ (s₁ ++ (capsText ++ lenText)),
      Delimiter a ∨ (a ≠ 0 ∧ a ≠ colon) := by
    refine List.forall_mem_append.mpr ⟨?_, List.forall_mem_append.mpr ⟨?_,
      List.forall_mem_append.mpr ⟨capsText_bytes hcaps, ?_⟩⟩⟩
    · exact fun a ha => .inr (hdigit a (List.mem_cons_of_mem c ha)).2
    · exact fun a ha => .inl (blank_facts (hs₁.2 a ha)).1
    · intro a ha
      obtain ⟨-, -, hcolon, hzero⟩ := digit_facts (hlen.digits a ha)
      exact .inr ⟨hzero, hcolon⟩
  obtain ⟨hmark, -, hrest⟩ := quiet_split_unique P.mark_quiet
    (quiet_mark hquiet) (not_quiet_colon _) (not_quiet_colon _) hsplit
  exact ⟨hfound, hmid, hmark, hrest⟩

theorem scratch_append (t u : Bytes) : scratch (t ++ u) = scratch t ++ scratch u :=
  List.filter_append t u

theorem scratch_empty_list {t : Bytes} (h : Text (.list []) t) : scratch t = [] := by
  cases h with
  | list hws hnone hws' =>
    cases hnone
    refine List.filter_eq_nil_iff.mpr fun c hc => ?_
    simp only [List.nil_append, List.mem_cons, List.mem_append] at hc
    have hdelim : Delimiter c := by
      rcases hc with rfl | hc | rfl | hc
      · exact .inl rfl
      · exact (blank_facts (hws.2 c hc)).1
      · exact .inr (.inl rfl)
      · exact (blank_facts (hws'.2 c hc)).1
    simpa using hdelim

/-- Such a message is read as one of its first digit, without capabilities; the URL is right if
the other digits are zeros and there are no capabilities. -/
theorem accepted_severalDigits {b : Buffer} {protocol : UInt32} {h : SubversionHds}
    {c d : UInt8} {more : Bytes} {n : Nat} {caps : List Bytes} {url : Bytes}
    (hdoc : DocumentedPrefix (c :: d :: more) n caps url b.bytes)
    (hacc : parseSubversionHds b (.fresh protocol) = .ret 0 h) :
    h.protocol = protocolOf c ∧ h.mCapabilities = [] ∧
      (caps = [] → (∀ a ∈ d :: more, a = 48) → h.subversionURL = url) := by
  obtain ⟨-, P, url', tail, agent, sep, hb, hl, -, rfl, -⟩ := parse_accepted rfl hacc
  generalize hm : b.bytes = m at hdoc
  cases hdoc with
  | @mk s₀ s₁ capsText urlText rest hs₀ hversion hs₁ hcapsText hurl =>
    cases hurl with
    | @string _ lenText ws hlen hws =>
      have htext : P.text ++ colon :: (url' ++ sep :: tail) =
          lparen :: (s₀ ++ (c :: d :: more ++ (s₁ ++ (capsText ++ (lenText ++ colon ::
            (url ++ (ws ++ rest))))))) := by
        rw [← hb, hm]
        simp
      obtain ⟨hfound, hmid, hmark, hrest⟩ :=
        several_digits hs₀ hversion hs₁ hcapsText hlen htext
      refine ⟨congrArg protocolOf hfound, ?_, ?_⟩
      · change P.capabilities = []
        rw [Preamble.capabilities, hmid]
        rfl
      · rintro rfl hzeros
        have hdigits : IsNumeral (d :: more ++ lenText) url.length := by
          have hzero : ∀ a ∈ d :: more, isDigit a = true := fun a ha => by
            rw [hzeros a ha]
            rfl
          refine ⟨List.cons_ne_nil _ _, List.forall_mem_append.mpr ⟨hzero, hlen.digits⟩, ?_⟩
          rw [numeral_append, (numeral_eq_zero_iff hzero).mpr hzeros, Nat.zero_mul, Nat.zero_add,
            hlen.value]
        have hscratch : scratch P.mark = d :: more ++ lenText := by
          have hempty : scratch capsText = [] := scratch_empty_list hcapsText
          have hmore : IsNumeral (d :: more) (numeral (d :: more)) :=
            ⟨List.cons_ne_nil _ _, fun a ha => hversion.digits a (List.mem_cons_of_mem c ha), rfl⟩
          rw [hmark, scratch_append, numeral_scratch hmore, scratch_blanks hs₁.2, scratch_append,
            hempty, numeral_scratch hlen]
          rfl
        have hfits : (url.length : Int) < 2 ^ 63 := by
          have hroom := b.fits
          rw [hm] at hroom
          simp only [List.length_append, List.length_cons] at hroom
          omega
        have hlength : (url'.length : Int) = url.length := by
          rw [← hl, Preamble.urlLength, hscratch]
          exact strtol_numeral hdigits (by omega)
        exact (List.append_inj hrest (by omega)).1

theorem DocumentedPrefix.isNumeral {ds : Bytes} {n : Nat} {caps : List Bytes} {url m : Bytes}
    (h : DocumentedPrefix ds n caps url m) : IsNumeral ds n := by
  cases h with
  | mk _ _ hds _ _ _ => exact hds

theorem protocolOf_digit {c : UInt8} {n : Nat} (h : IsNumeral [c] n) :
    (protocolOf c).toNat = n := by
  obtain ⟨d, rfl, rfl⟩ := oneDigit_version h
  rw [(version_facts d).2]
  exact UInt32.toNat_ofNat_of_lt' (Nat.lt_trans d.isLt (by decide))

/-- Further digits leave the value of the first one only if all of them are zeros. -/
theorem zeros_of_first {c d : UInt8} {more : Bytes} {n : Nat} (hfirst : IsNumeral [c] n)
    (h : IsNumeral (c :: d :: more) n) : ∀ a ∈ c :: d :: more, a = 48 := by
  have hvalue : numeral (c :: d :: more) = n * 10 ^ (d :: more).length + numeral (d :: more) := by
    rw [← List.singleton_append, numeral_append, hfirst.value]
  rw [h.value, List.length_cons, Nat.pow_succ] at hvalue
  have hpow : 0 < 10 ^ more.length := Nat.pow_pos (by decide)
  have hn : n = 0 := by
    by_contra hne
    have hle : n * 1 ≤ n * 10 ^ more.length := Nat.mul_le_mul_left n hpow
    rw [← Nat.mul_assoc] at hvalue
    omega
  exact (numeral_eq_zero_iff h.digits).mp (h.value.trans hn)

/-- The parser reports the values of a documented prefix if and only if its version is written
with one digit, or with zeros only and without capabilities behind it. -/
theorem accepted_documented_iff (b : Buffer) (protocol : UInt32) (h : SubversionHds)
    (hacc : parseSubversionHds b (.fresh protocol) = .ret 0 h) :
    (∃ ds, DocumentedPrefix ds h.protocol.toNat h.mCapabilities h.subversionURL b.bytes) ↔
      ∃ ds n caps url, DocumentedPrefix ds n caps url b.bytes ∧
        (ds.length = 1 ∨ ((∀ d ∈ ds, d = 48) ∧ caps = [])) := by
  constructor
  · rintro ⟨ds, hdoc⟩
    refine ⟨ds, _, _, _, hdoc, ?_⟩
    have hversion := hdoc.isNumeral
    rcases ds with _ | ⟨c, _ | ⟨d, more⟩⟩
    · exact absurd rfl hversion.nonempty
    · exact .inl rfl
    · obtain ⟨hprotocol, hcaps, -⟩ := accepted_severalDigits hdoc hacc
      have hfirst : IsNumeral [c] (numeral [c]) :=
        ⟨List.cons_ne_nil _ _, fun a ha => hversion.digits a (by
          rw [List.mem_singleton.mp ha]
          exact List.mem_cons_self), rfl⟩
      rw [hprotocol, protocolOf_digit hfirst] at hversion
      exact .inr ⟨zeros_of_first hfirst hversion, hcaps⟩
  · rintro ⟨ds, n, caps, url, hdoc, hshort⟩
    have hversion := hdoc.isNumeral
    rcases ds with _ | ⟨c, _ | ⟨d, more⟩⟩
    · exact absurd rfl hversion.nonempty
    · obtain ⟨hprotocol, rfl, rfl⟩ := (accepted_shape b protocol h hacc).2 c n caps url hdoc
      have hn : h.protocol.toNat = n := by
        obtain ⟨d, -, rfl⟩ := oneDigit_version hversion
        rw [hprotocol]
        exact UInt32.toNat_ofNat_of_lt' (Nat.lt_trans d.isLt (by decide))
      exact ⟨[c], hn ▸ hdoc⟩
    · obtain ⟨hzeros, rfl⟩ := hshort.resolve_left (by simp)
      obtain ⟨hprotocol, hcaps, hurl⟩ := accepted_severalDigits hdoc hacc
      have hc : c = 48 := hzeros c List.mem_cons_self
      have hn : n = 0 :=
        hversion.value.symm.trans ((numeral_eq_zero_iff hversion.digits).mpr hzeros)
      refine ⟨c :: d :: more, ?_⟩
      rw [hprotocol, hcaps, hurl rfl fun a ha => hzeros a (List.mem_cons_of_mem c ha), hc]
      subst hn hc
      exact hdoc

theorem accepted_documented_iff_sample :
    (∃ ds, DocumentedPrefix ds 2 [] (ascii "abc") (ascii "( 2 ( ) 3:abc ) ")) ↔
      ∃ ds n caps url, DocumentedPrefix ds n caps url (ascii "( 2 ( ) 3:abc ) ") ∧
        (ds.length = 1 ∨ ((∀ d ∈ ds, d = 48) ∧ caps = [])) :=
  accepted_documented_iff ⟨4096, ascii "( 2 ( ) 3:abc ) ", by decide⟩ 0
    ⟨2, [], ascii "abc", [], []⟩ (by decide)

theorem twoDigit_documented :
    DocumentedPrefix (ascii "12") 12 [ascii "a"] (ascii "abc") (ascii "( 12 ( a ) 3:abc ) ") := by
  have hcaps : Text (.list ([ascii "a"].map .word)) _ :=
    text_list (.cons (text_word (ascii "a") (by decide)) .nil)
  have hurl := text_string (ascii "abc") (ascii "3") (by decide)
  have hversion : IsNumeral (ascii "12") 12 := by decide
  exact .mk (ascii ") ") isSeparator_space hversion isSeparator_space hcaps hurl

/-- No digits spell version 1 at the start of a message that starts with version 12. -/
theorem twoDigit_not_one {ds : Bytes} {caps : List Bytes} {url : Bytes} :
    ¬DocumentedPrefix ds 1 caps url (ascii "( 12 ( a ) 3:abc ) ") := by
  intro h
  have hm : ascii "( 12 ( a ) 3:abc ) " =
      40 :: 32 :: 49 :: 50 :: 32 :: ascii "( a ) 3:abc ) " := by decide
  rw [hm] at h
  generalize ascii "( a ) 3:abc ) " = more at h
  generalize hm : 40 :: 32 :: 49 :: 50 :: 32 :: more = m at h
  cases h with
  | @mk s₀ s₁ capsText urlText rest hs₀ hds hs₁ hcaps hurl =>
    obtain ⟨a, r, rfl, -⟩ := hs₀.exists_cons
    obtain ⟨e, ds, rfl⟩ := List.exists_cons_of_ne_nil hds.nonempty
    obtain ⟨y, s, rfl, hy⟩ := hs₁.exists_cons
    obtain ⟨-, -, hm⟩ : (40 : UInt8) = lparen ∧ 32 = a ∧ 49 :: 50 :: 32 :: more =
        r ++ (e :: ds ++ (y :: s ++ (capsText ++ (urlText ++ rest)))) := by
      simpa using hm
    cases r with
    | cons x r =>
      -- the separator would have to go on with the digit 1
      obtain ⟨rfl, -⟩ := List.cons.inj hm
      exact absurd (hs₀.2 49 (by simp)) (by decide)
    | nil =>
      obtain ⟨rfl, hm₁⟩ := List.cons.inj hm
      rcases ds with _ | ⟨f, _ | ⟨g, ds⟩⟩
      · obtain ⟨rfl, -⟩ := List.cons.inj hm₁
        exact absurd hy (by decide)
      · obtain ⟨rfl, -⟩ := List.cons.inj hm₁
        exact absurd hds.value (by decide)
      · obtain ⟨rfl, hm₂⟩ := List.cons.inj hm₁
        obtain ⟨rfl, -⟩ := List.cons.inj hm₂
        exact absurd (hds.digits 32 (by simp)) (by decide)

/-- Version 12, capability `a` and URL `abc` are taken for version 1, no capability and
URL `ab`: the accepted buffer has no documented prefix with the reported values. -/
theorem twoDigit_version_undocumented :
    parseSubversionHds ⟨4096, ascii "( 12 ( a ) 3:abc ) ", by decide⟩ (.fresh 0) =
      .ret 0 ⟨1, [], ascii "ab", [], []⟩ ∧
    DocumentedPrefix (ascii "12") 12 [ascii "a"] (ascii "abc") (ascii "( 12 ( a ) 3:abc ) ") ∧
    ¬∃ ds, DocumentedPrefix ds 1 [] (ascii "ab") (ascii "( 12 ( a ) 3:abc ) ") :=
  ⟨by decide, twoDigit_documented, fun ⟨_, h⟩ => twoDigit_not_one h⟩

end Svnsrv.Hds
