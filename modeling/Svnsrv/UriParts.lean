import Svnsrv.Lib.Split
import Svnsrv.Uri

/-!
# What the parts of a URL become

The URL is cut at its first five slashes into scheme, nothing, authority, owner,
repository and path. The scan is compared with that cut, and then with URLs that
are put together from well-formed components.
-/

namespace Svnsrv.Uri

open CText Split
set_option autoImplicit false

def authorityByte (parts : Bytes × Bytes) (c : UInt8) : Bytes × Bytes :=
  if c = atSign then (parts.2, parts.1)
  else if c = colon then (parts.1, strPort)
  else (parts.1, parts.2 ++ [c])

def authority (parts : Bytes × Bytes) (part : Bytes) : Bytes × Bytes :=
  part.foldl authorityByte parts

@[simp] theorem authority_nil (parts : Bytes × Bytes) : authority parts [] = parts := rfl

@[simp] theorem authority_cons (parts : Bytes × Bytes) (c : UInt8) (part : Bytes) :
    authority parts (c :: part) = authority (authorityByte parts c) part := rfl

theorem authority_append (parts : Bytes × Bytes) (s t : Bytes) :
    authority parts (s ++ t) = authority (authority parts s) t :=
  List.foldl_append

/-- The record after a scan from part `d` to the end of `url`. -/
def SubversionURL.filled (u : SubversionURL) (part : Nat → Bytes) : SubversionURL where
  scheme := u.scheme ++ (part 0).filter (· ≠ colon)
  account := (authority (u.account, u.host) (part 2)).1
  host := (authority (u.account, u.host) (part 2)).2
  port := u.port
  owner := u.owner ++ part 3
  repository := u.repository ++ part 4
  path := u.path ++ part 5

theorem uriByte_authority (u : SubversionURL) (c : UInt8) :
    uriByte 2 u c = some { u with
      account := (authorityByte (u.account, u.host) c).1,
      host := (authorityByte (u.account, u.host) c).2 } := by
  unfold authorityByte
  simp only [uriByte]
  split
  · rfl
  · split <;> rfl

/-- The scan stops at the first character of part 1, else it fills the record. -/
theorem uriLoop_eq {d : Nat} (hd : d ≤ 5) (u : SubversionURL) (url : Bytes) :
    uriLoop d u url =
      if piece slash 5 d url 1 = [] then (true, u.filled (piece slash 5 d url))
      else (false, { u with scheme := u.scheme ++ (piece slash 5 d url 0).filter (· ≠ colon) }) := by
  induction url generalizing d u with
  | nil => simp [uriLoop, SubversionURL.filled]
  | cons c url ih =>
    by_cases hc : c = slash ∧ d < 5
    · obtain ⟨rfl, hlt⟩ := hc
      have hpieces : piece slash 5 d (slash :: url) = piece slash 5 (d + 1) url :=
        funext fun i => piece_sep hlt url i
      rw [uriLoop, if_pos ⟨rfl, hlt⟩, ih hlt u, hpieces]
    · have hpieces := piece_cons hc url
      rw [uriLoop, if_neg hc]
      have hcase : d = 0 ∨ d = 1 ∨ d = 2 ∨ d = 3 ∨ d = 4 ∨ d = 5 := by omega
      rcases hcase with rfl | rfl | rfl | rfl | rfl | rfl
      · by_cases hcolon : c = colon
        · subst hcolon
          simp [uriByte, ih (Nat.zero_le 5), SubversionURL.filled, hpieces]
        · simp [uriByte, hcolon, ih (Nat.zero_le 5), SubversionURL.filled, hpieces]
      · simp [uriByte, hpieces, piece_of_lt]
      · rw [uriByte_authority]
        simp [ih, SubversionURL.filled, hpieces, piece_of_lt]
      · simp [uriByte, ih, SubversionURL.filled, hpieces, piece_of_lt]
      · simp [uriByte, ih, SubversionURL.filled, hpieces, piece_of_lt]
      · simp [uriByte, ih, SubversionURL.filled, hpieces, piece_of_lt]

theorem canonicalize_eq (port : UInt32) {url : Bytes} (hne : url ≠ []) :
    subversionUriCanonicalize url (.fresh port) =
      if piece slash 5 0 url 1 = [] then
        (0, ⟨(piece slash 5 0 url 0).filter (· ≠ colon), (authority ([], []) (piece slash 5 0 url 2)).1,
          (authority ([], []) (piece slash 5 0 url 2)).2,
          defaultPort ((piece slash 5 0 url 0).filter (· ≠ colon)), piece slash 5 0 url 3,
          piece slash 5 0 url 4, slash :: piece slash 5 0 url 5⟩)
      else
        (2, ⟨(piece slash 5 0 url 0).filter (· ≠ colon), [], [], port, [], [], [slash]⟩) := by
  by_cases h : piece slash 5 0 url 1 = []
  · simp [subversionUriCanonicalize, uriLoop_eq, hne, h, SubversionURL.filled,
      SubversionURL.fresh, strPort]
  · simp [subversionUriCanonicalize, uriLoop_eq, hne, h, SubversionURL.fresh]

theorem piece_whole (url : Bytes) (i : Nat) : piece slash 5 0 url i = (cut slash 5 url).getD i [] :=
  if_pos (Nat.zero_le i)

/-- Cut at the first five slashes, two URLs differ in scheme and authority only. -/
def SameBehindAuthority (url url' : Bytes) : Prop :=
  ∀ i, i ≠ 0 → i ≠ 2 → (cut slash 5 url).getD i [] = (cut slash 5 url').getD i []

/-- The empty string is the one URL for which nothing is stored. -/
theorem path_of_no_url :
    SameBehindAuthority [] (ascii "svn") ∧
      (subversionUriCanonicalize [] (.fresh 0)).2.path ≠
        (subversionUriCanonicalize (ascii "svn") (.fresh 0)).2.path := by
  refine ⟨fun i h0 _ => ?_, by decide⟩
  obtain ⟨i, rfl⟩ := Nat.exists_eq_succ_of_ne_zero h0
  rfl

theorem canonicalize_parts (port : UInt32) :
    (∀ url,
      ((subversionUriCanonicalize url (.fresh port)).1 = 1 ↔ url = []) ∧
      ((subversionUriCanonicalize url (.fresh port)).1 = 2 ↔
        1 < (cut slash 5 url).length ∧ (cut slash 5 url).getD 1 [] ≠ []) ∧
      (url ≠ [] → ¬(1 < (cut slash 5 url).length ∧ (cut slash 5 url).getD 1 [] ≠ []) →
        (subversionUriCanonicalize url (.fresh port)).1 = 0 ∧
        (subversionUriCanonicalize url (.fresh port)).2.owner = (cut slash 5 url).getD 3 [] ∧
        (subversionUriCanonicalize url (.fresh port)).2.repository = (cut slash 5 url).getD 4 [] ∧
        (subversionUriCanonicalize url (.fresh port)).2.path =
          slash :: (cut slash 5 url).getD 5 [])) ∧
    ∀ url url', url ≠ [] → url' ≠ [] → SameBehindAuthority url url' →
      (subversionUriCanonicalize url (.fresh port)).2.owner =
        (subversionUriCanonicalize url' (.fresh port)).2.owner ∧
      (subversionUriCanonicalize url (.fresh port)).2.repository =
        (subversionUriCanonicalize url' (.fresh port)).2.repository ∧
      (subversionUriCanonicalize url (.fresh port)).2.path =
        (subversionUriCanonicalize url' (.fresh port)).2.path := by
  have hfirst : ∀ url : Bytes, (1 < (cut slash 5 url).length ∧ (cut slash 5 url).getD 1 [] ≠ []) ↔
      (cut slash 5 url).getD 1 [] ≠ [] := by
    intro url
    refine ⟨And.right, fun h => ⟨?_, h⟩⟩
    by_contra hle
    rw [List.getD_eq_getElem?_getD, List.getElem?_eq_none (Nat.le_of_not_lt hle)] at h
    exact h rfl
  constructor
  · intro url
    rw [hfirst]
    by_cases hne : url = []
    · subst hne
      exact ⟨iff_of_true rfl rfl, iff_of_false (Nat.succ_ne_self 1).symm (not_not_intro rfl),
        fun h => absurd rfl h⟩
    · rw [canonicalize_eq port hne]
      simp only [piece_whole]
      by_cases h : (cut slash 5 url).getD 1 [] = []
      · rw [if_pos h]
        exact ⟨iff_of_false Nat.zero_ne_one hne, iff_of_false (Nat.succ_ne_zero 1).symm (not_not_intro h),
          fun _ _ => ⟨rfl, rfl, rfl, rfl⟩⟩
      · rw [if_neg h]
        exact ⟨iff_of_false (Nat.succ_ne_self 1) hne, iff_of_true rfl h, fun _ hnot => absurd h hnot⟩
  · intro url url' hne hne' hsame
    rw [canonicalize_eq port hne, canonicalize_eq port hne']
    simp only [piece_whole, hsame 1 (by decide) (by decide), hsame 3 (by decide) (by decide),
      hsame 4 (by decide) (by decide), hsame 5 (by decide) (by decide)]
    split
    · exact ⟨rfl, rfl, rfl⟩
    · exact ⟨rfl, rfl, rfl⟩

theorem canonicalize_parts_sample :
    (subversionUriCanonicalize (ascii "svn://a@b:1/apache/subversion/x/y") (.fresh 0)).2.path =
        ascii "/x/y" ∧
      (subversionUriCanonicalize (ascii "svn://a@b:1/apache/subversion/x/y") (.fresh 0)).2.owner =
        (subversionUriCanonicalize (ascii "http://c/apache/subversion/x/y") (.fresh 0)).2.owner := by
  have hparts := canonicalize_parts 0
  refine ⟨((hparts.1 _).2.2 (by decide) (by decide)).2.2.2.trans (by decide),
    (hparts.2 _ _ (by decide) (by decide) fun i h0 h2 => ?_).1⟩
  have hcut : cut slash 5 (ascii "svn://a@b:1/apache/subversion/x/y") =
      [ascii "svn:", [], ascii "a@b:1", ascii "apache", ascii "subversion", ascii "x/y"] := by decide
  have hcut' : cut slash 5 (ascii "http://c/apache/subversion/x/y") =
      [ascii "http:", [], ascii "c", ascii "apache", ascii "subversion", ascii "x/y"] := by decide
  rw [hcut, hcut']
  match i, h0, h2 with
  | 1, _, _ => rfl
  | i + 3, _, _ => rfl

/-! ## URLs made of components -/

/-- A scheme, an account or a host. -/
abbrev Word := {s : Bytes // s ≠ [] ∧ slash ∉ s ∧ colon ∉ s ∧ atSign ∉ s}

abbrev Segment := {s : Bytes // slash ∉ s}

structure Port where
  digits : Bytes
  value : Nat
  numeral : IsNumeral digits value
  le : value ≤ 65535

structure Locator where
  scheme : Word
  account : Option Word
  host : Word
  port : Option Port
  owner : Segment
  repository : Segment
  tail : Option Bytes

namespace Locator

def accountText (l : Locator) : Bytes := l.account.elim [] fun a => a.val ++ [atSign]

def portText (l : Locator) : Bytes := l.port.elim [] fun p => colon :: p.digits

def authorityText (l : Locator) : Bytes := l.accountText ++ l.host.val ++ l.portText

/-- The repository and the path. -/
def repositoryText (l : Locator) : Bytes :=
  l.repository.val ++ l.tail.elim [] fun t => slash :: t

def text (l : Locator) : Bytes :=
  l.scheme.val ++ colon :: slash :: slash ::
    (l.authorityText ++ slash :: (l.owner.val ++ slash :: l.repositoryText))

/-- What the call is expected to find in the authority. -/
structure Decoded (l : Locator) (r : Nat × SubversionURL) : Prop where
  code : r.1 = 0
  scheme : r.2.scheme = l.scheme.val
  account : r.2.account = l.account.elim [] Subtype.val
  host : r.2.host = l.host.val
  port : r.2.port = l.port.elim (if l.scheme.val = ascii "svn+ssh" then 21 else 3690)
    fun p => UInt32.ofNat p.value

end Locator

theorem defaultPort_eq (scheme : Bytes) :
    defaultPort scheme = if scheme = ascii "svn+ssh" then 21 else 3690 := by
  have hne : ascii "svn" ≠ ascii "svn+ssh" := by decide
  unfold defaultPort
  by_cases hsvn : scheme = ascii "svn"
  · rw [if_pos hsvn, if_neg (hsvn ▸ hne)]
  · rw [if_neg hsvn]

theorem Port.digits_ne (p : Port) {c : UInt8} (hc : c ∈ p.digits) :
    c ≠ slash ∧ c ≠ colon ∧ c ≠ atSign := by
  have hdigit := (isDigit_iff c).mp (p.numeral.digits c hc)
  refine ⟨?_, ?_, ?_⟩ <;> rintro rfl <;> revert hdigit <;> decide

theorem authority_chars {s : Bytes} (hat : atSign ∉ s) (hcolon : colon ∉ s) (account host : Bytes) :
    authority (account, host) s = (account, host ++ s) := by
  induction s generalizing host with
  | nil => simp
  | cons c s ih =>
    rw [List.mem_cons, not_or] at hat hcolon
    rw [authority_cons, authorityByte, if_neg (Ne.symm hat.1), if_neg (Ne.symm hcolon.1),
      ih hat.2 hcolon.2, List.append_assoc]
    rfl

namespace Locator

theorem slash_not_mem_authorityText (l : Locator) : slash ∉ l.authorityText := by
  have haccount : slash ∉ l.accountText := by
    unfold accountText
    cases l.account with
    | none => exact List.not_mem_nil
    | some a =>
      have hne : slash ≠ atSign := by decide
      simp [a.2.2.1, hne]
  have hport : slash ∉ l.portText := by
    unfold portText
    cases l.port with
    | none => exact List.not_mem_nil
    | some p =>
      intro hmem
      rcases List.mem_cons.mp hmem with h | h
      · exact absurd h (by decide)
      · exact (p.digits_ne h).1 rfl
  simp [authorityText, haccount, hport, l.host.2.2.1]

theorem authority_account (l : Locator) :
    authority ([], []) l.accountText = (l.account.elim [] Subtype.val, []) := by
  unfold accountText
  cases l.account with
  | none => rfl
  | some a =>
    rw [Option.elim_some, authority_append, authority_chars a.2.2.2.2 a.2.2.2.1]
    simp [authorityByte]

/-- A written port ends up as the host. -/
theorem authority_text (l : Locator) :
    authority ([], []) l.authorityText =
      (l.account.elim [] Subtype.val, l.port.elim l.host.val Port.digits) := by
  rw [authorityText, authority_append, authority_append, authority_account,
    authority_chars l.host.2.2.2.2 l.host.2.2.2.1]
  unfold portText
  cases l.port with
  | none => rfl
  | some p =>
    have hdigits := authority_chars (fun h => (p.digits_ne h).2.2 rfl) (fun h => (p.digits_ne h).2.1 rfl)
    have hne : colon ≠ atSign := by decide
    rw [Option.elim_some, authority_cons, authorityByte, if_neg hne, if_pos rfl, hdigits]
    rfl

/-- The pieces in front of the repository are the components. -/
theorem cut_text (l : Locator) :
    cut slash 5 l.text = (l.scheme.val ++ [colon]) :: [] :: l.authorityText :: l.owner.val ::
      cut slash 1 l.repositoryText := by
  have hne : slash ≠ colon := by decide
  have hscheme : slash ∉ l.scheme.val ++ [colon] := by
    simp [l.scheme.2.2.1, hne]
  have hcut := (isCut_cut 1 l.repositoryText).more l.owner.2 |>.more l.slash_not_mem_authorityText
    |>.more (p := []) List.not_mem_nil |>.more hscheme
  have htext : l.scheme.val ++ [colon] ++ slash :: ([] ++ slash :: (l.authorityText ++ slash ::
      (l.owner.val ++ slash :: l.repositoryText))) = l.text := by
    simp [text]
  rw [htext] at hcut
  exact hcut.eq_cut.symm

theorem canonicalize_text (l : Locator) (port : UInt32) :
    subversionUriCanonicalize l.text (.fresh port) =
      (0, ⟨l.scheme.val, l.account.elim [] Subtype.val, l.port.elim l.host.val Port.digits,
        defaultPort l.scheme.val, l.owner.val, (cut slash 1 l.repositoryText).getD 0 [],
        slash :: (cut slash 1 l.repositoryText).getD 1 []⟩) := by
  have hne : l.text ≠ [] := by simp [text]
  have hscheme : (l.scheme.val ++ [colon]).filter (· ≠ colon) = l.scheme.val := by
    rw [List.filter_append, List.filter_eq_self.mpr]
    · simp
    · intro c hc
      exact decide_eq_true fun h => l.scheme.2.2.2.1 (h ▸ hc)
  rw [canonicalize_eq port hne]
  simp only [piece_whole, cut_text, List.getD_cons_zero, List.getD_cons_succ, hscheme,
    authority_text, if_pos]

end Locator

theorem authority_decoded_iff (l : Locator) (port : UInt32) :
    l.Decoded (subversionUriCanonicalize l.text (.fresh port)) ↔
      ∀ p, l.port = some p →
        l.host.val = p.digits ∧
          (if l.scheme.val = ascii "svn+ssh" then 21 else 3690) = UInt32.ofNat p.value := by
  rw [l.canonicalize_text port, defaultPort_eq]
  cases hport : l.port with
  | none =>
    refine iff_of_true ⟨rfl, rfl, rfl, rfl, ?_⟩ fun p hp => nomatch hp
    rw [hport]
    rfl
  | some p =>
    constructor
    · rintro ⟨-, -, -, hhost, hvalue⟩ p' hp
      obtain rfl := Option.some.inj hp
      rw [hport] at hvalue
      exact ⟨hhost.symm, hvalue⟩
    · intro h
      obtain ⟨hhost, hvalue⟩ := h p rfl
      refine ⟨rfl, rfl, rfl, hhost.symm, ?_⟩
      rw [hport]
      exact hvalue

def sampleLocator : Locator where
  scheme := ⟨ascii "svn", by decide⟩
  account := none
  host := ⟨ascii "git.oschina.net", by decide⟩
  port := some ⟨ascii "1234", 1234, by decide, by decide⟩
  owner := ⟨ascii "subversion", by decide⟩
  repository := ⟨ascii "home", by decide⟩
  tail := none

/-- The port of svn://git.oschina.net:1234/subversion/home is lost, and so is its host. -/
theorem written_port_lost :
    sampleLocator.text = ascii "svn://git.oschina.net:1234/subversion/home" ∧
      (subversionUriCanonicalize sampleLocator.text (.fresh 0)).2.host = ascii "1234" ∧
      (subversionUriCanonicalize sampleLocator.text (.fresh 0)).2.port = 3690 ∧
      ¬sampleLocator.Decoded (subversionUriCanonicalize sampleLocator.text (.fresh 0)) := by
  refine ⟨by decide, by decide, by decide, fun h => ?_⟩
  have hport : (subversionUriCanonicalize sampleLocator.text (.fresh 0)).2.port = 3690 := by decide
  exact absurd (hport.symm.trans h.port) (by decide)

end Svnsrv.Uri
