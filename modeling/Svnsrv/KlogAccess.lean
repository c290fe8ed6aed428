import Svnsrv.HdsDecode
import Svnsrv.SessionBuffers
import Svnsrv.SessionLog

/-!
# Records of handshakes

What a session writes to the access log for a routed handshake, and when the
record stays in the array in which `access` builds it.
-/

namespace Svnsrv.Klog

open CText Hds Router Uri Proxy
set_option autoImplicit false

/-! ## The access record of a routed handshake -/

/-- The text that `read_downstream_handshake` passes to `Access` for the handshake it has read,
if it gets that far. -/
def accessText (router : RouterSeletor) (b : Hds.Buffer) (hds : SubversionHds)
    (node : StorageElement) : Option Bytes :=
  match parseSubversionHds b hds with
  | .ret 0 hds =>
    match subversionUriCanonicalize hds.subversionURL (.fresh 0) with
    | (0, svnurl) =>
      let (found, node) := router.getAddress svnurl.owner node
      if found = false ∨ node.address = [] then none
      else some (storageText node.address hds.subversionURL)
    | _ => none
  | _ => none

theorem accessText_eq {router : RouterSeletor} {b : Hds.Buffer} {hds hds' : SubversionHds}
    {old node : StorageElement} (h : Routed router b hds hds' old node) :
    accessText router b hds old = some (storageText node.address hds'.subversionURL) := by
  obtain ⟨svnurl, huri, hroute⟩ := h.canonical
  simp [accessText, h.parsed, huri, hroute, h.address]

/-- The handler of the handshake logs that text. -/
theorem handshakeEntry_of_accessText {s : SubversionSession} {env : Env} {now : Now} {n : Nat}
    {t : Bytes} (h : accessText env.router (s.handshake env n) s.hds s.node = some t) :
    s.handshakeEntry env now n = some (.access now (formatted t)) := by
  unfold accessText at h
  unfold SubversionSession.handshakeEntry
  cases hparse : parseSubversionHds (s.handshake env n) s.hds with
  | abort fault => simp [hparse] at h
  | ret code hds =>
    cases code with
    | succ code => simp [hparse] at h
    | zero =>
      obtain ⟨code, svnurl, huri⟩ : ∃ code svnurl,
          subversionUriCanonicalize hds.subversionURL (.fresh 0) = (code, svnurl) := ⟨_, _, rfl⟩
      cases code with
      | succ code => simp [hparse, huri] at h
      | zero =>
        simp only [hparse, huri] at h ⊢
        split_ifs at h with hnone
        rw [if_neg hnone, Option.some.inj h]

/-- A record stays in its buffer exactly when the newline behind the stamp and the reported
length does; for a routed handshake this bounds the node's address and the URL together. -/
theorem records_contained_iff (tm : Tm) :
    (∀ router b hds hds' old node, Routed router b hds hds' old node →
      ∃ t, accessText router b hds old = some t ∧
        (Contained (access tm (formatted t)) ↔
          (decimalInt (1900 + tm.tm_year)).length + (cString node.address).length +
            (cString hds'.subversionURL).length + 40 ≤ 4095 ∨
          intMax < (cString node.address).length + (cString hds'.subversionURL).length + 18)) ∧
    (∀ msg, Contained (access tm msg) ↔
      0 ≤ ((decimalInt (1900 + tm.tm_year)).length + 22 : Int) + msg.ret ∧
      ((decimalInt (1900 + tm.tm_year)).length + 22 : Int) + msg.ret ≤ 4095) ∧
    ∀ level id tid msg, Contained (log level id tid tm msg) ↔
      0 ≤ ((leveMessage level).length + (decimalInt id.toInt).length +
        (decimal tid.toNat).length + (decimalInt (1900 + tm.tm_year)).length + 48 : Int) +
          msg.ret ∧
      ((leveMessage level).length + (decimalInt id.toInt).length +
        (decimal tid.toNat).length + (decimalInt (1900 + tm.tm_year)).length + 48 : Int) +
          msg.ret ≤ 4095 := by
  refine ⟨?_, access_contained_iff tm, ?_⟩
  · intro router b hds hds' old node hrouted
    exact ⟨_, accessText_eq hrouted, storage_contained_iff _ _ _⟩
  · intro level id tid msg
    have hlength := length_logStamp level id tid tm
    rw [log, record_contained_iff (logStamp_fits level id tid tm) msg]
    omega

def sampleBuffer : Hds.Buffer := ⟨4096, sampleHandshake, by decide⟩

theorem sampleBuffer_routed : Routed sampleEnv.router sampleBuffer (.fresh 0)
    ⟨2, [ascii "a"], ascii "svn://h/ab", [], []⟩ ⟨0, []⟩ ⟨3690, ascii "10.0.0.1"⟩ where
  parsed := by decide
  canonical := ⟨⟨ascii "svn", [], ascii "h", 3690, ascii "ab", [], [slash]⟩, by decide, by decide⟩
  address := by decide

theorem records_contained_sample :
    ∃ t, accessText sampleEnv.router sampleBuffer (.fresh 0) ⟨0, []⟩ = some t ∧
      Contained (access sampleTm (formatted t)) := by
  obtain ⟨t, ht, hiff⟩ := (records_contained_iff sampleTm).1 _ _ _ _ _ _ sampleBuffer_routed
  exact ⟨t, ht, hiff.mpr (.inl (by decide))⟩

/-! ## A record that leaves its buffer -/

theorem canonicalize_path (t : Bytes) :
    subversionUriCanonicalize (ascii "svn://h/ab/r/" ++ t) (.fresh 0) =
      (0, ⟨ascii "svn", [], ascii "h", 3690, ascii "ab", ascii "r", slash :: t⟩) := by
  have hloop : uriLoop 0 ⟨[], [], [], 0, [], [], [] ++ [slash]⟩
      (ascii "svn://h/ab/r/" ++ t) =
        (true, ⟨ascii "svn", [], ascii "h", 0, ascii "ab", ascii "r", [slash] ++ t⟩) :=
    Eq.trans rfl (uriLoop_path _ t)
  have hne : ascii "svn://h/ab/r/" ++ t ≠ [] := by simp [ascii]
  simp only [subversionUriCanonicalize, if_neg hne, SubversionURL.fresh, hloop]
  rfl

/-- A URL of 4100 bytes. -/
def longURL : Bytes := ascii "svn://h/ab/r/" ++ List.replicate 4087 97

theorem length_longURL : longURL.length = 4100 := by
  rw [longURL, List.length_append, List.length_replicate]
  rfl

theorem longURL_ne_nil : longURL ≠ [] := by
  intro h
  have hlength := length_longURL
  rw [h] at hlength
  cases hlength

def longResponse : Response where
  version := depthResponse.version
  capabilities := []
  url := longURL
  agent := none
  url_ne := longURL_ne_nil
  client_nul := by
    intro ra client h
    cases h

def longHandshake : Bytes := ascii "( 2 ( ) 4100:" ++ (longURL ++ ascii " ) ")

theorem length_longHandshake : longHandshake.length = 4116 := by
  rw [longHandshake, List.length_append, List.length_append, length_longURL]
  rfl

theorem longHandshake_text : ResponseText longResponse longHandshake := by
  have hdigits : IsNumeral (ascii "4100") longURL.length := by
    rw [length_longURL]
    decide
  have htext := ResponseText.mk (r := longResponse) RaSvn.isSeparator_space
    RaSvn.isSeparator_space (RaSvn.text_list .nil) (RaSvn.text_string longURL _ hdigits) .none
    RaSvn.isSeparator_space
  have hspelled : ∀ url : Bytes, lparen :: ([space] ++ versionByte 2 :: ([space] ++
      ((lparen :: ([space] ++ ([] ++ rparen :: [space]))) ++ ((ascii "4100" ++ colon ::
        (url ++ [space])) ++ ([] ++ rparen :: [space]))))) =
      ascii "( 2 ( ) 4100:" ++ (url ++ ascii " ) ") := by
    intro url
    simp only [List.append_assoc, List.cons_append]
    rfl
  rw [longHandshake, ← hspelled]
  exact htext

def longBuffer : Hds.Buffer := ⟨4096, longHandshake, by rw [length_longHandshake]; decide⟩

theorem longBuffer_routed : Routed sampleEnv.router longBuffer (.fresh 0) longResponse.record
    ⟨0, []⟩ ⟨3690, ascii "10.0.0.1"⟩ where
  parsed := by
    rw [parse_eq_outcome (by decide) longHandshake_text.ne_nil]
    exact outcome_response 0 longHandshake_text
  canonical := ⟨_, canonicalize_path (List.replicate 4087 97), rfl⟩
  address := by decide

/-- The newline behind the record of a handshake with a URL of 4100 bytes is stored outside. -/
theorem long_url_overruns :
    longBuffer.bytes.length ≤ 32768 ∧
    Routed sampleEnv.router longBuffer (.fresh 0) longResponse.record ⟨0, []⟩
      ⟨3690, ascii "10.0.0.1"⟩ ∧
    ∃ t, accessText sampleEnv.router longBuffer (.fresh 0) ⟨0, []⟩ = some t ∧
      ¬Contained (access sampleTm (formatted t)) := by
  have hlength : longBuffer.bytes.length = 4116 := length_longHandshake
  have hurl : cString longURL = longURL := by
    apply takeWhile_ne_eq_self_iff.mpr
    rw [longURL, List.mem_append, not_or]
    refine ⟨by decide, fun hzero => ?_⟩
    exact absurd (List.eq_of_mem_replicate hzero) (by decide)
  refine ⟨by omega, longBuffer_routed, _, accessText_eq longBuffer_routed, ?_⟩
  rw [access_formatted_iff, length_storageText]
  have hstring : (cString longResponse.record.subversionURL).length = 4100 := by
    change (cString longURL).length = 4100
    rw [hurl, length_longURL]
  have haddress : (cString (⟨3690, ascii "10.0.0.1"⟩ : StorageElement).address).length = 8 := by
    decide
  unfold intMax
  omega

end Svnsrv.Klog
