import Svnsrv.HdsSafety

/-!
# The shape of what the handshake parser returns

Whatever the buffer holds, the strings of an accepted handshake are slices behind a
':' with a byte after them, its capabilities are words, and a call that does not
return 0 leaves a message.
-/

namespace Svnsrv.Hds

open CText
set_option autoImplicit false

/-- A capability: no parenthesis, no space, no newline and no NUL in it. -/
def IsWord (w : Bytes) : Prop := w ≠ [] ∧ ∀ c ∈ w, Plain c

/-- `str` is the part of the buffer right after the ':' at offset `k`, and a byte follows it. -/
def SliceAt (b : Buffer) (k : Nat) (str : Bytes) : Prop :=
  ∃ pre sep post, pre.length = k ∧ b.bytes = pre ++ colon :: (str ++ sep :: post)

/-- The shape of an accepted record. -/
structure Shaped (b : Buffer) (hds : SubversionHds) : Prop where
  capabilities : ∀ w ∈ hds.mCapabilities, IsWord w
  url_ne : hds.subversionURL ≠ []
  slices : ∃ k, SliceAt b k hds.subversionURL ∧
    (hds.userAgent = [] ∨
      ∃ k', k + 1 + hds.subversionURL.length ≤ k' ∧ SliceAt b k' hds.userAgent)

/-! ## Capabilities -/

theorem plain_of_quietByte {st : SubversionHdsState} {d : UInt32} {c : UInt8}
    (hq : QuietByte st d c) (hd : ¬Delimiter c) : Plain c := ⟨hd, (hq.resolve_left hd).1⟩

/-- One byte of the capability section keeps the list and the scratch string free of delimiters. -/
theorem gatherByte_words {d : UInt32} {c : UInt8} {caps : List Bytes} {tmp : Bytes}
    (hq : QuietByte .protocolParsed d c) (hcaps : ∀ w ∈ caps, IsWord w)
    (htmp : ∀ a ∈ tmp, Plain a) :
    (∀ w ∈ (gatherByte .protocolParsed (caps, tmp) c).1, IsWord w) ∧
      ∀ a ∈ (gatherByte .protocolParsed (caps, tmp) c).2, Plain a := by
  by_cases hparen : c = lparen ∨ c = rparen
  · rw [gatherByte, if_pos hparen]
    exact ⟨hcaps, htmp⟩
  by_cases hblank : c = space ∨ c = newline
  · rw [gatherByte, if_neg hparen, if_pos hblank]
    by_cases hempty : tmp = []
    · rw [if_pos hempty]
      exact ⟨hcaps, htmp⟩
    · rw [if_neg hempty]
      refine ⟨?_, List.forall_mem_nil _⟩
      intro w hw
      rcases List.mem_append.mp hw with hw | hw
      · exact hcaps w hw
      · rw [List.mem_singleton.mp hw]
        exact ⟨hempty, htmp⟩
  · rw [gatherByte, if_neg hparen, if_neg hblank]
    refine ⟨hcaps, ?_⟩
    intro a ha
    rcases List.mem_append.mp ha with ha | ha
    · exact htmp a ha
    · rw [List.mem_singleton.mp ha]
      apply plain_of_quietByte hq
      intro hd
      rcases hd with hd | hd | hd
      · exact hparen (.inl hd)
      · exact hparen (.inr hd)
      · exact hblank hd

theorem gather_words {t : Bytes} {d : UInt32} {caps : List Bytes} {tmp : Bytes}
    (hq : Quiet .protocolParsed d t) (hcaps : ∀ w ∈ caps, IsWord w)
    (htmp : ∀ a ∈ tmp, Plain a) :
    ∀ w ∈ (gather .protocolParsed (caps, tmp) t).1, IsWord w := by
  induction t generalizing d caps tmp with
  | nil => exact hcaps
  | cons c t ih =>
    obtain ⟨hcaps', htmp'⟩ := gatherByte_words hq.1 hcaps htmp
    exact ih hq.2 hcaps' htmp'

theorem Preamble.record_words (P : Preamble) {hds : SubversionHds}
    (hcaps : ∀ w ∈ hds.mCapabilities, IsWord w) :
    ∀ w ∈ (P.record hds).mCapabilities, IsWord w :=
  gather_words P.mid_quiet hcaps (List.forall_mem_nil _)

/-! ## Slices -/

theorem agentSlice_cases {d : UInt32} {tail agent : Bytes} (h : AgentSlice d [] tail agent) :
    agent = [] ∨ ∃ mark sep rest, tail = mark ++ colon :: (agent ++ sep :: rest) := by
  rcases h with hempty | ⟨mark, sep, rest, htail, -, -⟩
  · exact .inl hempty
  · exact .inr ⟨mark, sep, rest, htail⟩

theorem shaped_of_accepted {b : Buffer} {garbage : UInt32} {hds : SubversionHds}
    (hacc : parseSubversionHds b (.fresh garbage) = .ret 0 hds) : Shaped b hds := by
  obtain ⟨-, P, url, tail, agent, sep, hb, -, hne, rfl, hagent⟩ := parse_accepted rfl hacc
  refine ⟨P.record_words (List.forall_mem_nil _), hne, P.text.length,
    ⟨P.text, sep, tail, rfl, hb⟩, ?_⟩
  rcases agentSlice_cases hagent with rfl | ⟨mark, sep', rest, rfl⟩
  · exact .inl rfl
  · -- the mark of the ra-client begins behind the byte after the URL
    refine .inr ⟨(P.text ++ colon :: (url ++ sep :: mark)).length, ?_,
      P.text ++ colon :: (url ++ sep :: mark), sep', rest, rfl, by simp [hb]⟩
    simp only [List.length_append, List.length_cons]
    omega

/-! ## Messages -/

theorem ne_nil_of_mem_messages {msg : Bytes} (h : msg ∈ messages) : msg ≠ [] := by
  intro hnil
  subst hnil
  revert h
  decide

/-- A result other than 0 comes with a message. -/
def Outcome.Explained : Outcome → Prop
  | .ret code hds => code ≠ 0 → hds.lastError ∈ messages
  | .abort _ => True

theorem explained_finish (hds : SubversionHds) : (finish hds).Explained := by
  unfold finish
  split
  · exact fun _ => by simp [messages]
  · exact fun h => absurd rfl h

theorem perform_explained {b : Buffer} {s : Scan} {c : UInt8} {r : Outcome}
    (h : perform b (scanByte s c) = .inr r) : r.Explained := by
  cases hact : scanByte s c with
  | next t => simp [hact, perform] at h
  | ret code hds =>
    simp only [hact, perform, Sum.inr.injEq] at h
    subst h
    intro _
    simp [(scanByte_ret hact).2, messages]
  | string t field =>
    simp only [hact, perform] at h
    split at h
    · cases h
      exact fun _ => tooLong_mem field
    · split at h
      · cases h
        trivial
      · cases h

theorem scanStep_explained {b : Buffer} {s : Scan} {r : Outcome} (h : scanStep b s = .inr r) :
    r.Explained := by
  unfold scanStep at h
  split at h
  · split at h
    · cases h
      trivial
    · exact perform_explained h
  · cases h
    exact explained_finish s.hds

theorem parse_explained (b : Buffer) (hds : SubversionHds) :
    (parseSubversionHds b hds).Explained := by
  rcases parse_cases b hds with ⟨-, -, heq⟩ | heq
  · rw [heq]
    obtain ⟨t, -, hlast⟩ := outcome_eq_last (b := b) (.start hds) (by simp [Scan.start])
    exact scanStep_explained hlast
  · rw [heq]
    exact fun _ => by simp [messages]

/-- Every result of a parse into a fresh record is shaped, or explained. -/
theorem parse_result_shape (b : Buffer) (garbage : UInt32) (code : Nat) (hds : SubversionHds)
    (hret : parseSubversionHds b (.fresh garbage) = .ret code hds) :
    (code = 0 → Shaped b hds) ∧ (code ≠ 0 → hds.lastError ≠ []) := by
  constructor
  · intro hcode
    subst hcode
    exact shaped_of_accepted hret
  · intro hcode
    have hexplained := parse_explained b (.fresh garbage)
    rw [hret] at hexplained
    exact ne_nil_of_mem_messages (hexplained hcode)

/-- The parentheses of this buffer do not match. -/
theorem parse_result_shape_unbalanced :
    Shaped ⟨4096, ascii "(2(x y )3:abc 2:SV)", by decide⟩
      ⟨2, [ascii "x", ascii "y"], ascii "abc", ascii "SV", []⟩ :=
  (parse_result_shape ⟨4096, ascii "(2(x y )3:abc 2:SV)", by decide⟩ 0 0
    ⟨2, [ascii "x", ascii "y"], ascii "abc", ascii "SV", []⟩ (by decide)).1 rfl

end Svnsrv.Hds
