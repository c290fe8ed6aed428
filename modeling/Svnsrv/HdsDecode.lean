import Svnsrv.Lib.RaSvn
import Svnsrv.HdsLayout

/-!
# Decoding a documented response

The client answers the greeting with an item of the prototype

    response: ( version:number ( cap:word ... ) url:string
                ? ra-client:string ( ? client:string ) )

`ResponseText r m` says that `m` spells the response `r`. Every such message is
a preamble, the URL, and text that the last two states pass over.
-/

namespace Svnsrv.Hds

open CText RaSvn
set_option autoImplicit false

/-- A response with a one-digit version. Strings may hold any octets, only `client`
has no NUL. -/
structure Response where
  version : Fin 10
  capabilities : List Bytes
  url : Bytes
  agent : Option (Bytes × Option Bytes)
  url_ne : url ≠ []
  client_nul : ∀ ra client, agent = some (ra, some client) → 0 ∉ client

def versionByte (d : Fin 10) : UInt8 := UInt8.ofNat (48 + d.val)

/-- The optional end of a response. -/
inductive AgentText : Option (Bytes × Option Bytes) → Bytes → Prop
  | none : AgentText none []
  | some {ra t u : Bytes} {client : Option Bytes} (hra : Text (.string ra) t)
      (hclient : Text (.list (client.toList.map .string)) u) :
      AgentText (some (ra, client)) (t ++ u)

inductive ResponseText (r : Response) : Bytes → Prop
  | mk {s₀ s₁ s₂ caps url agent : Bytes} (hs₀ : IsSeparator s₀) (hs₁ : IsSeparator s₁)
      (hcaps : Text (.list (r.capabilities.map .word)) caps) (hurl : Text (.string r.url) url)
      (hagent : AgentText r.agent agent) (hs₂ : IsSeparator s₂) :
      ResponseText r (lparen :: (s₀ ++ versionByte r.version ::
        (s₁ ++ (caps ++ (url ++ (agent ++ rparen :: s₂))))))

/-- What the parser should report for `r`. -/
def Response.record (r : Response) : SubversionHds where
  protocol := UInt32.ofNat r.version
  mCapabilities := r.capabilities
  subversionURL := r.url
  userAgent := (r.agent.map Prod.fst).getD []
  lastError := []

/-! ## Pieces of a message -/

theorem quiet_of_delimiters {st : SubversionHdsState} {t : Bytes} (d : UInt32)
    (h : ∀ c ∈ t, Delimiter c) : Quiet st d t := by
  induction t generalizing d with
  | nil => trivial
  | cons c t ih =>
    exact ⟨.inl (h c List.mem_cons_self), ih _ fun a ha => h a (List.mem_cons_of_mem c ha)⟩

theorem depthAfter_of_ne_paren {t : Bytes} (d : UInt32)
    (h : ∀ c ∈ t, c ≠ lparen ∧ c ≠ rparen) : depthAfter d t = d := by
  induction t with
  | nil => rfl
  | cons c t ih =>
    have hc := h c List.mem_cons_self
    rw [depthAfter_cons, depthStep, if_neg hc.1, if_neg hc.2]
    exact ih fun a ha => h a (List.mem_cons_of_mem c ha)

theorem quiet_of_keeps {st : SubversionHdsState} {t : Bytes} {d : UInt32}
    (hp : ∀ c ∈ t, c ≠ lparen ∧ c ≠ rparen) (h : ∀ c ∈ t, c ≠ 0 ∧ Keeps st d c) :
    Quiet st d t := by
  induction t with
  | nil => trivial
  | cons c t ih =>
    have hc := hp c List.mem_cons_self
    have hstep : depthStep d c = d := by rw [depthStep, if_neg hc.1, if_neg hc.2]
    refine ⟨.inr (h c List.mem_cons_self), ?_⟩
    rw [hstep]
    exact ih (fun a ha => hp a (List.mem_cons_of_mem c ha))
      fun a ha => h a (List.mem_cons_of_mem c ha)

theorem blank_facts {c : UInt8} (h : c = space ∨ c = newline) :
    Delimiter c ∧ (c ≠ lparen ∧ c ≠ rparen) ∧ c ≠ 0 := by
  rcases h with rfl | rfl <;> exact ⟨by unfold Delimiter; decide, by decide, by decide⟩

theorem separator_quiet {ws : Bytes} (h : IsSeparator ws) (st : SubversionHdsState)
    (d : UInt32) : Quiet st d ws :=
  quiet_of_delimiters d fun c hc => (blank_facts (h.2 c hc)).1

@[simp] theorem separator_depth {ws : Bytes} (h : IsSeparator ws) (d : UInt32) :
    depthAfter d ws = d :=
  depthAfter_of_ne_paren d fun c hc => (blank_facts (h.2 c hc)).2.1

theorem separator_nul {ws : Bytes} (h : IsSeparator ws) : 0 ∉ ws :=
  fun h0 => (blank_facts (h.2 0 h0)).2.2 rfl

theorem digit_facts {c : UInt8} (h : isDigit c = true) :
    ¬Delimiter c ∧ (c ≠ lparen ∧ c ≠ rparen) ∧ c ≠ colon ∧ c ≠ 0 := by
  obtain ⟨hl, hr, hs, hn, hcolon, h0⟩ := not_structural_of_wordByte (wordByte_of_isDigit h)
  exact ⟨by simp [Delimiter, hl, hr, hs, hn], ⟨hl, hr⟩, hcolon, h0⟩

@[simp] theorem numeral_depth {ds : Bytes} {n : Nat} (h : IsNumeral ds n) (d : UInt32) :
    depthAfter d ds = d :=
  depthAfter_of_ne_paren d fun c hc => (digit_facts (h.digits c hc)).2.1

theorem numeral_quiet {ds : Bytes} {n : Nat} (h : IsNumeral ds n) {st : SubversionHdsState}
    {d : UInt32} (hk : ∀ c, c ≠ colon → Keeps st d c) : Quiet st d ds :=
  quiet_of_keeps (fun c hc => (digit_facts (h.digits c hc)).2.1) fun c hc =>
    have hf := digit_facts (h.digits c hc)
    ⟨hf.2.2.2, hk c hf.2.2.1⟩

theorem numeral_scratch {ds : Bytes} {n : Nat} (h : IsNumeral ds n) : scratch ds = ds :=
  List.filter_eq_self.mpr fun c hc => by simpa using (digit_facts (h.digits c hc)).1

theorem numeral_nul {ds : Bytes} {n : Nat} (h : IsNumeral ds n) : 0 ∉ ds :=
  fun h0 => (digit_facts (h.digits 0 h0)).2.2.2 rfl

theorem scratch_blanks {blanks : Bytes} (h : ∀ c ∈ blanks, c = space ∨ c = newline) (t : Bytes) :
    scratch (blanks ++ t) = scratch t := by
  have hblank : scratch blanks = [] :=
    List.filter_eq_nil_iff.mpr fun c hc => by simpa using (blank_facts (h c hc)).1
  rw [scratch, List.filter_append]
  exact (congrArg (· ++ scratch t) hblank).trans (List.nil_append _)

/-! ## The capability section -/

theorem gather_append (st : SubversionHdsState) (acc : List Bytes × Bytes) (t u : Bytes) :
    gather st acc (t ++ u) = gather st (gather st acc t) u := List.foldl_append

theorem gather_paren {c : UInt8} (h : c = lparen ∨ c = rparen) (acc : List Bytes × Bytes)
    (t : Bytes) : gather .protocolParsed acc (c :: t) = gather .protocolParsed acc t := by
  change gather _ (gatherByte _ _ c) t = _
  rw [gatherByte, if_pos h]

theorem gather_blanks {t : Bytes} (h : ∀ c ∈ t, c = space ∨ c = newline) (caps : List Bytes) :
    gather .protocolParsed (caps, []) t = (caps, []) := by
  induction t with
  | nil => rfl
  | cons c t ih =>
    have hc := h c List.mem_cons_self
    have hp := (blank_facts hc).2.1
    change gather _ (gatherByte _ _ c) t = _
    rw [gatherByte, if_neg (by simp [hp]), if_pos hc, if_pos rfl]
    exact ih fun a ha => h a (List.mem_cons_of_mem c ha)

theorem gather_separator {ws : Bytes} (h : IsSeparator ws) (caps : List Bytes) {w : Bytes}
    (hw : w ≠ []) : gather .protocolParsed (caps, w) ws = (caps ++ [w], []) := by
  obtain ⟨c, r, rfl, hc⟩ := h.exists_cons
  have hp := (blank_facts hc).2.1
  change gather _ (gatherByte _ _ c) r = _
  rw [gatherByte, if_neg (by simp [hp]), if_pos hc, if_neg hw]
  exact gather_blanks (fun a ha => h.2 a (List.mem_cons_of_mem c ha)) _

theorem gather_word {w : Bytes} (h : ∀ c ∈ w, wordByte c = true) (caps : List Bytes)
    (tmp : Bytes) : gather .protocolParsed (caps, tmp) w = (caps, tmp ++ w) := by
  induction w generalizing tmp with
  | nil => simp [gather]
  | cons c w ih =>
    obtain ⟨hl, hr, hs, hn, -, -⟩ := not_structural_of_wordByte (h c List.mem_cons_self)
    change gather _ (gatherByte _ _ c) w = _
    rw [gatherByte, if_neg (by simp [hl, hr]), if_neg (by simp [hs, hn]),
      ih (fun a ha => h a (List.mem_cons_of_mem c ha))]
    simp

theorem words_gather {words : List Bytes} {t : Bytes} (h : Texts (words.map .word) t)
    (caps : List Bytes) :
    Quiet .protocolParsed 2 t ∧ depthAfter 2 t = 2 ∧
      gather .protocolParsed (caps, []) t = (caps ++ words, []) := by
  induction words generalizing t caps with
  | nil =>
    cases h
    exact ⟨trivial, rfl, by simp [gather]⟩
  | cons w words ih =>
    cases h with
    | @cons _ _ _ u head tail =>
      cases head with
      | @word _ ws hw sep =>
        obtain ⟨hq, hd, hg⟩ := ih tail (caps ++ [w])
        have hparen : ∀ c ∈ w, c ≠ lparen ∧ c ≠ rparen := fun c hc =>
          have hf := not_structural_of_wordByte (hw.2 c hc)
          ⟨hf.1, hf.2.1⟩
        have hword : Quiet .protocolParsed 2 w := quiet_of_keeps hparen fun c hc =>
          ⟨(not_structural_of_wordByte (hw.2 c hc)).2.2.2.2.2, rfl⟩
        have hwd : depthAfter 2 w = 2 := depthAfter_of_ne_paren 2 hparen
        refine ⟨?_, ?_, ?_⟩
        · simp [hword, hwd, separator_quiet sep, separator_depth sep, hq]
        · simp [hwd, separator_depth sep, hd]
        · rw [gather_append, gather_append, gather_word hw.2, List.nil_append,
            gather_separator sep caps hw.1, hg, List.append_assoc]
          rfl

/-! ## The whole message -/

theorem version_facts (d : Fin 10) :
    Plain (versionByte d) ∧ protocolOf (versionByte d) = UInt32.ofNat d := by
  unfold Plain Delimiter
  revert d
  decide

theorem exists_preamble (d : Fin 10) {words : List Bytes} {s₀ s₁ caps ds : Bytes} {n : Nat}
    (hs₀ : IsSeparator s₀) (hs₁ : IsSeparator s₁)
    (hcaps : Text (.list (words.map .word)) caps) (hds : IsNumeral ds n) :
    ∃ P : Preamble, P.text = lparen :: (s₀ ++ versionByte d :: (s₁ ++ (caps ++ ds))) ∧
      P.version = versionByte d ∧ P.capabilities = words ∧ P.depth = 1 ∧
      scratch P.mark = ds := by
  cases hcaps with
  | @list _ ws t ws' hws hwords hws' =>
    obtain ⟨hq, hd, hg⟩ := words_gather hwords []
    have hl : depthStep 1 lparen = 2 := rfl
    have hr : depthStep 2 rparen = 1 := rfl
    have hmidd : depthAfter 1 (s₁ ++ lparen :: (ws ++ (t ++ rparen :: ws'))) = 1 := by
      simp [separator_depth hs₁, separator_depth hws, separator_depth hws', hl, hd, hr]
    have hmid : Quiet .protocolParsed 1 (s₁ ++ lparen :: (ws ++ (t ++ rparen :: ws'))) := by
      simp only [quiet_append, separator_quiet hs₁, separator_depth hs₁, Quiet, true_and, hl]
      refine ⟨.inl (.inl rfl), ?_⟩
      simp only [separator_quiet hws, separator_depth hws, hq, hd, hr, true_and]
      exact ⟨.inl (.inr (.inl rfl)), separator_quiet hws' _ _⟩
    have hgather : gather .protocolParsed ([], [])
        (s₁ ++ lparen :: (ws ++ (t ++ rparen :: ws'))) = (words, []) := by
      rw [gather_append, gather_blanks hs₁.2, gather_paren (.inl rfl), gather_append,
        gather_blanks hws.2, gather_append, hg, gather_paren (.inr rfl), List.nil_append,
        gather_blanks hws'.2]
    refine ⟨⟨lparen :: s₀, versionByte d, s₁ ++ lparen :: (ws ++ (t ++ rparen :: ws')), ds,
      ⟨.inl (.inl rfl), separator_quiet hs₀ _ _⟩, separator_depth hs₀ 1, (version_facts d).1,
      hmid, by rw [hmidd]; decide, numeral_quiet hds fun c hc => hc, ?_⟩, ?_, rfl, ?_, ?_, ?_⟩
    · intro c hc
      exact (digit_facts (hds.digits c (List.mem_of_mem_head? hc))).1
    · simp [Preamble.text]
    · simp only [Preamble.capabilities, hgather]
    · simp only [Preamble.depth, hmidd, numeral_depth hds]
    · exact numeral_scratch hds

theorem client_text_nul {client : Option Bytes} {u : Bytes}
    (h : Text (.list (client.toList.map .string)) u) (hnul : ∀ c, client = some c → 0 ∉ c) :
    0 ∉ u := by
  cases h with
  | @list _ ws t ws' hws ht hws' =>
    have ht0 : 0 ∉ t := by
      cases client with
      | none =>
        cases ht
        simp
      | some c =>
        cases ht with
        | cons head tail =>
          cases tail
          cases head with
          | string hds hsep =>
            simp [numeral_nul hds, separator_nul hsep, hnul c rfl, colon]
    simp [separator_nul hws, separator_nul hws', ht0, lparen, rparen]

theorem outcome_agent_text {b : Buffer} {s : Scan} {pre blanks t s₂ : Bytes}
    {agent : Option (Bytes × Option Bytes)}
    (hb : b.bytes = pre ++ (blanks ++ (t ++ rparen :: s₂))) (hp : s.p = pre.length)
    (hst : s.status = .subversionUrlParsed) (htmp : s.tmp = []) (hd : s.depth = 1)
    (hblanks : ∀ c ∈ blanks, c = space ∨ c = newline) (ht : AgentText agent t)
    (hnul : ∀ ra client, agent = some (ra, some client) → 0 ∉ client)
    (hs₂ : IsSeparator s₂) (hagent : s.hds.userAgent = []) :
    outcome b s = finish { s.hds with userAgent := (agent.map Prod.fst).getD [] } := by
  have hbq : ∀ d, Quiet .subversionUrlParsed d blanks := fun d =>
    quiet_of_delimiters d fun c hc => (blank_facts (hblanks c hc)).1
  have hbd : depthAfter 1 blanks = 1 :=
    depthAfter_of_ne_paren 1 fun c hc => (blank_facts (hblanks c hc)).2.1
  cases ht with
  | none =>
    have hq : Quiet s.status s.depth (blanks ++ ([] ++ rparen :: s₂)) := by
      rw [hst, quiet_append]
      exact ⟨hbq _, .inl (.inr (.inl rfl)), separator_quiet hs₂ _ _⟩
    rw [outcome_finish hb hp hq]
    simp [over_mark (.inr hst), ← hagent]
  | @some ra t u client hra hclient =>
    cases hra with
    | @string _ ds ws hds hws =>
      obtain ⟨sep, more, rfl, hsep⟩ := hws.exists_cons
      have hb' : b.bytes = pre ++ ((blanks ++ ds) ++
          colon :: (ra ++ sep :: (more ++ (u ++ rparen :: s₂)))) := by simp [hb]
      have hq : Quiet .subversionUrlParsed s.depth (blanks ++ ds) := by
        rw [hd, quiet_append, hbd]
        exact ⟨hbq _, numeral_quiet hds fun c hc => ⟨rfl, hc⟩⟩
      have hlen : (ra.length : Int) < 2 ^ 63 := by
        have := b.fits
        have := congrArg List.length hb'
        simp only [List.length_append, List.length_cons] at this
        omega
      have hmark : strtol (scratch (blanks ++ ds)) = ra.length := by
        rw [scratch_blanks hblanks, numeral_scratch hds]
        exact strtol_numeral hds (by omega)
      have hnul' : 0 ∉ more ++ (u ++ rparen :: s₂) := by
        have hmore : 0 ∉ more := fun h0 => separator_nul hws (List.mem_cons_of_mem sep h0)
        have hu := client_text_nul hclient fun c hc => hnul ra c (by rw [hc])
        simp [hmore, hu, separator_nul hs₂, rparen]
      rcases outcome_agent_of_eq hb' hp hst htmp hq hmark with ⟨-, ho⟩ | ⟨h0, -⟩
      · exact ho
      · exact absurd h0 hnul'

theorem outcome_response {r : Response} {b : Buffer} (protocol : UInt32)
    (hb : ResponseText r b.bytes) : outcome b (.start (.fresh protocol)) = .ret 0 r.record := by
  generalize hm : b.bytes = m at hb
  cases hb with
  | @mk s₀ s₁ s₂ caps url agent hs₀ hs₁ hcaps hurl hagent hs₂ =>
    cases hurl with
    | @string _ ds ws hds hws =>
      obtain ⟨sep, more, rfl, hsep⟩ := hws.exists_cons
      obtain ⟨P, htext, hversion, hcapabilities, hdepth, hmark⟩ :=
        exists_preamble r.version hs₀ hs₁ hcaps hds
      have hb : b.bytes = P.text ++ colon :: (r.url ++ sep :: (more ++ (agent ++ rparen :: s₂))) := by
        simp [hm, htext]
      have hlen : (r.url.length : Int) < 2 ^ 63 := by
        have := b.fits
        have := congrArg List.length hb
        simp only [List.length_append, List.length_cons] at this
        omega
      have hl : P.urlLength = r.url.length := by
        rw [Preamble.urlLength, hmark]
        exact strtol_numeral hds (by omega)
      have hbehind : b.bytes = (P.text ++ colon :: (r.url ++ [sep])) ++
          (more ++ (agent ++ rparen :: s₂)) := by simp [hb]
      rw [outcome_url_of_eq _ hb hl,
        outcome_agent_text hbehind (by simp [Preamble.behindURL, Scan.behind]; omega) rfl rfl
          hdepth (fun c hc => hws.2 c (List.mem_cons_of_mem sep hc)) hagent r.client_nul hs₂ rfl]
      have hgather : (gather .protocolParsed ([], []) P.mid).1 = r.capabilities := hcapabilities
      simp [finish, Preamble.behindURL, Scan.behind, SubversionHds.assign, Preamble.atColon,
        Preamble.record, r.url_ne, hversion, (version_facts r.version).2, Response.record,
        SubversionHds.fresh, hgather]

theorem ResponseText.ne_nil {r : Response} {m : Bytes} (h : ResponseText r m) : m ≠ [] := by
  cases h
  simp

/-- Decoding undoes encoding: a message that spells `r` is accepted and reported as `r`. -/
theorem parse_response (r : Response) (b : Buffer) (protocol : UInt32)
    (hb : ResponseText r b.bytes) (haddr : b.addr ≠ 0) :
    parseSubversionHds b (.fresh protocol) = .ret 0 r.record := by
  rw [parse_eq_outcome haddr hb.ne_nil]
  exact outcome_response protocol hb

/-- A response with an ra-client that holds a space and a client that is a parenthesis. -/
def depthResponse : Response where
  version := 2
  capabilities := [ascii "depth"]
  url := ascii "svn://h/a"
  agent := some (ascii "S 1", some (ascii ")"))
  url_ne := by decide
  client_nul := by
    intro ra client h
    cases h
    decide

theorem depthResponse_text :
    ResponseText depthResponse (ascii "( 2 ( depth ) 9:svn://h/a 3:S 1 ( 1:) ) ) ") := by
  have hword := text_word (ascii "depth") (by decide)
  have hcaps := text_list (.cons hword .nil)
  have hurl := text_string (ascii "svn://h/a") (ascii "9") (by decide)
  have hra := text_string (ascii "S 1") (ascii "3") (by decide)
  have hstring := text_string (ascii ")") (ascii "1") (by decide)
  have hclient := text_list (.cons hstring .nil)
  have hagent : AgentText depthResponse.agent _ := .some hra hclient
  exact ResponseText.mk (r := depthResponse) isSeparator_space isSeparator_space hcaps hurl hagent
    isSeparator_space

theorem parse_depthResponse :
    parseSubversionHds
      ⟨4096, ascii "( 2 ( depth ) 9:svn://h/a 3:S 1 ( 1:) ) ) ", by decide⟩ (.fresh 7) =
      .ret 0 ⟨2, [ascii "depth"], ascii "svn://h/a", ascii "S 1", []⟩ :=
  parse_response depthResponse ⟨4096, _, by decide⟩ 7 depthResponse_text (by decide)

end Svnsrv.Hds
