import Svnsrv.KlogAccess

/-!
# Lines of the access log

The record of a routed handshake, byte by byte, up to the newline that closes it.
`access` formats the URL of the client as it is.
-/

namespace Svnsrv.Klog

open CText Hds Router Uri Proxy
set_option autoImplicit false

/-- A record is one line, and the line shows the whole URL. One byte lies between the URL and
the newline. -/
structure OneLine (stamp address url bytes : Bytes) : Prop where
  last : bytes.getLast? = some newline
  once : bytes.count newline = 1
  complete : ∃ c, bytes =
    stamp ++ (ascii "Storage: " ++ cString address ++ ascii " | URL: " ++ url) ++ [c, newline]

/-! ## What a record holds -/

theorem formatted_of_fits {t : Bytes} (h : t.length ≤ 4095) : formatted t = .text t := by
  rw [formatted, if_pos]
  rw [intMax]
  omega

/-- A message is stored behind the stamp, but for its last byte where that would be the end of
the buffer. -/
theorem message_stored {stamp body : Bytes} {e : UInt8} {c : Cells 4096 UInt8}
    (hc : c.Holds (stamp ++ [0])) (hfits : stamp.length + body.length + 1 ≤ 4095) :
    ∃ c' d z, vsnprintf c stamp.length (4095 - stamp.length) (.text (body ++ [e])) = some c' ∧
      (d = e ∨ d = 0) ∧ c'.Holds ((stamp ++ body ++ [d]) ++ z) := by
  obtain ⟨d, z, hd, htext, hroom⟩ : ∃ d z, (d = e ∨ d = 0) ∧
      (body ++ [e]).take (4095 - stamp.length - 1) ++ [0] = body ++ d :: z ∧ z.length ≤ 1 ∧
        (z = [] ∨ stamp.length + body.length + 2 ≤ 4095) := by
    by_cases hall : (body ++ [e]).length ≤ 4095 - stamp.length - 1
    · refine ⟨e, [0], .inl rfl, ?_, Nat.le_refl 1, .inr ?_⟩
      · rw [List.take_of_length_le hall, List.append_assoc, List.singleton_append]
      · rw [List.length_append, List.length_singleton] at hall
        omega
    · refine ⟨0, [], .inr rfl, ?_, Nat.zero_le 1, .inl rfl⟩
      rw [List.length_append, List.length_singleton] at hall
      have hend : 4095 - stamp.length - 1 = body.length := by omega
      rw [hend, List.take_left]
  have hlen : stamp.length + (body ++ d :: z).length ≤ 4096 := by
    rw [List.length_append, List.length_cons]
    omega
  obtain ⟨c', hwrite, hc'⟩ := hc.write (body ++ d :: z) hlen
  refine ⟨c', d, z, ?_, hd, ?_⟩
  · simp only [vsnprintf]
    rw [if_neg (by omega), htext]
    exact hwrite
  · have hline : (stamp ++ body ++ [d]) ++ z = stamp ++ (body ++ d :: z) := by simp
    rw [hline]
    exact hc'

theorem record_bytes {stamp : Bytes} (hstamp : stamp.length < 4095) (body : Bytes) (e : UInt8)
    (hfits : stamp.length + body.length + 1 ≤ 4095) :
    ∃ rec d, record stamp (formatted (body ++ [e])) = some rec ∧ (d = e ∨ d = 0) ∧
      rec.bytes = stamp ++ body ++ [d, newline] := by
  have hlen : (body ++ [e]).length = body.length + 1 := by simp
  have hl := room_eq hstamp
  obtain ⟨c₁, hfirst, hc₁⟩ := stamp_stored hstamp
  obtain ⟨c₂, d, z, hsecond, hd, hc₂⟩ := message_stored (e := e) hc₁ hfits
  have hline : (stamp ++ body ++ [d]).length = stamp.length + (body.length + 1) := by
    simp
  obtain ⟨c₃, hthird, hc₃⟩ := hc₂.write [newline] (by rw [hline, List.length_singleton]; omega)
  have hbytes := hc₃.contents (by rw [List.length_append, hline, List.length_singleton]; omega)
  rw [List.length_append, hline, List.length_singleton] at hbytes
  rw [hline, ← hlen] at hthird
  refine ⟨⟨c₃, (stamp.length + (body ++ [e]).length + 1 : Int).toNat⟩, d, ?_, hd, ?_⟩
  · rw [formatted_of_fits (by omega), record, hfirst, Option.bind_eq_bind, Option.bind_some]
    dsimp only [Formatted.ret]
    rw [hl, hsecond, Option.bind_some, ← Int.natCast_add, hthird]
    rfl
  · have hsize : (stamp.length + (body ++ [e]).length + 1 : Int).toNat =
        stamp.length + (body.length + 1) + 1 := by
      rw [hlen]
      omega
    rw [Record.bytes, hsize, hbytes]
    simp

/-! ## Newlines -/

theorem not_newline_of_isDigit {c : UInt8} (h : isDigit c = true) : c ≠ newline := by
  rintro rfl
  cases h

theorem newline_not_mem_decimal (n : Nat) : newline ∉ decimal n := fun h =>
  not_newline_of_isDigit ((isNumeral_decimal n).digits _ h) rfl

theorem newline_not_mem_decimalInt (v : Int) : newline ∉ decimalInt v := by
  rw [decimalInt]
  split
  · rw [List.mem_cons, not_or]
    exact ⟨by decide, newline_not_mem_decimal _⟩
  · exact newline_not_mem_decimal _

theorem newline_not_mem_decimal02 (n : Nat) : newline ∉ decimal02 n := by
  rw [decimal02, List.mem_append, not_or]
  refine ⟨fun h => ?_, newline_not_mem_decimal n⟩
  exact absurd (List.eq_of_mem_replicate h) (by decide)

theorem newline_not_mem_wday (i : Fin 7) : newline ∉ wday i := by
  revert i
  decide

theorem newline_not_mem_accessStamp (tm : Tm) : newline ∉ accessStamp tm := by
  have hfixed : newline ∉ ascii "[" ∧ newline ∉ ascii "/" ∧ newline ∉ ascii " " ∧
      newline ∉ ascii ":" ∧ newline ∉ ascii "] " := by decide
  simp only [accessStamp, Tm.text, List.mem_append, not_or, hfixed, newline_not_mem_decimalInt,
    newline_not_mem_decimal02, newline_not_mem_wday, not_false_eq_true, and_self]

/-- A record of the right form is one line where nothing that was formatted breaks it. -/
theorem oneLine_iff {stamp address url : Bytes} {c : UInt8} (hstamp : newline ∉ stamp)
    (hc : c ≠ newline) :
    OneLine stamp address url (stamp ++ (ascii "Storage: " ++ cString address ++
        ascii " | URL: " ++ cString url) ++ [c, newline]) ↔
      newline ∉ cString address ∧ newline ∉ url ∧ 0 ∉ url := by
  have hcount : ∀ front : Bytes, (front ++ [c, newline]).count newline = 1 ↔ newline ∉ front := by
    intro front
    have htail : [c, newline].count newline = 1 := by simp [hc]
    rw [List.count_append, htail, Nat.add_eq_right, List.count_eq_zero]
  have hfront : newline ∉ stamp ++ (ascii "Storage: " ++ cString address ++ ascii " | URL: " ++
      cString url) ↔ newline ∉ cString address ∧ newline ∉ cString url := by
    have hfixed : newline ∉ ascii "Storage: " ∧ newline ∉ ascii " | URL: " := by decide
    simp only [List.mem_append, not_or, hstamp, hfixed, not_false_eq_true, true_and, and_true]
  constructor
  · intro h
    obtain ⟨haddress, hurl⟩ := hfront.mp ((hcount _).mp h.once)
    obtain ⟨d, hd⟩ := h.complete
    have hsame := List.append_cancel_left (List.append_cancel_left (List.append_inj_left' hd rfl))
    exact ⟨haddress, hsame ▸ hurl, takeWhile_ne_eq_self_iff.mp hsame⟩
  · rintro ⟨haddress, hurl, hzero⟩
    have hsame : cString url = url := takeWhile_ne_eq_self_iff.mpr hzero
    refine ⟨?_, (hcount _).mpr (hfront.mpr ⟨haddress, hsame.symm ▸ hurl⟩), c, ?_⟩
    · rw [List.getLast?_append_of_ne_nil _ (by simp)]
      rfl
    · rw [hsame]

/-! ## The record of a routed handshake -/

theorem storageText_eq (address url : Bytes) : storageText address url =
    (ascii "Storage: " ++ cString address ++ ascii " | URL: " ++ cString url) ++ [space] := rfl

/-- For a record that fits, one request is one line exactly where the address has no newline
before its end, and the URL has neither a newline nor a NUL. -/
theorem access_oneLine_iff (tm : Tm) {router : RouterSeletor} {b : Hds.Buffer}
    {hds hds' : SubversionHds} {old node : StorageElement} (h : Routed router b hds hds' old node)
    (hfits : (accessStamp tm).length +
      (storageText node.address hds'.subversionURL).length + 1 ≤ 4096) :
    ∃ text rec, accessText router b hds old = some text ∧
      access tm (formatted text) = some rec ∧
      (OneLine (accessStamp tm) node.address hds'.subversionURL rec.bytes ↔
        newline ∉ cString node.address ∧ newline ∉ hds'.subversionURL ∧
          0 ∉ hds'.subversionURL) := by
  rw [storageText_eq, List.length_append, List.length_singleton] at hfits
  obtain ⟨rec, c, hrecord, hc, hbytes⟩ := record_bytes (accessStamp_fits tm)
    (ascii "Storage: " ++ cString node.address ++ ascii " | URL: " ++ cString hds'.subversionURL)
    space (by omega)
  rw [← storageText_eq] at hrecord
  refine ⟨_, rec, accessText_eq h, hrecord, ?_⟩
  rw [hbytes]
  apply oneLine_iff (newline_not_mem_accessStamp tm)
  rcases hc with rfl | rfl <;> decide

theorem access_oneLine_sample : ∃ text rec,
    accessText sampleEnv.router sampleBuffer (.fresh 0) ⟨0, []⟩ = some text ∧
    access sampleTm (formatted text) = some rec ∧
    (OneLine (accessStamp sampleTm) (ascii "10.0.0.1") (ascii "svn://h/ab") rec.bytes ↔
      newline ∉ cString (ascii "10.0.0.1") ∧ newline ∉ ascii "svn://h/ab" ∧
        0 ∉ ascii "svn://h/ab") :=
  access_oneLine_iff sampleTm sampleBuffer_routed (by decide)

/-- A path of which a part reads as a record of its own. -/
def forgedURL : Bytes := ascii "svn://h/ab/r/\n[] "

def forgedBuffer : Hds.Buffer :=
  ⟨4096, ascii "( 2 ( a ) 17:" ++ forgedURL ++ ascii " ( ) ) ", by decide⟩

theorem forgedBuffer_routed : Routed sampleEnv.router forgedBuffer (.fresh 0)
    ⟨2, [ascii "a"], forgedURL, [], []⟩ ⟨0, []⟩ ⟨3690, ascii "10.0.0.1"⟩ where
  parsed := by decide
  canonical := ⟨⟨ascii "svn", [], ascii "h", 3690, ascii "ab", ascii "r", ascii "/\n[] "⟩, by decide,
    by decide⟩
  address := by decide

/-- The URL of an accepted handshake ends a line of the access log. -/
theorem forged_line :
    Routed sampleEnv.router forgedBuffer (.fresh 0) ⟨2, [ascii "a"], forgedURL, [], []⟩ ⟨0, []⟩
      ⟨3690, ascii "10.0.0.1"⟩ ∧
    (accessStamp sampleTm).length + (storageText (ascii "10.0.0.1") forgedURL).length + 1 ≤ 4096 ∧
    ∃ text rec, accessText sampleEnv.router forgedBuffer (.fresh 0) ⟨0, []⟩ = some text ∧
      access sampleTm (formatted text) = some rec ∧ rec.bytes.count newline = 2 ∧
      ¬ OneLine (accessStamp sampleTm) (ascii "10.0.0.1") forgedURL rec.bytes := by
  obtain ⟨rec, c, hrecord, hc, hbytes⟩ := record_bytes (accessStamp_fits sampleTm)
    (ascii "Storage: " ++ cString (ascii "10.0.0.1") ++ ascii " | URL: " ++ cString forgedURL)
    space (by decide)
  rw [← storageText_eq] at hrecord
  have hcount : rec.bytes.count newline = 2 := by
    rw [hbytes]
    rcases hc with rfl | rfl <;> decide
  refine ⟨forgedBuffer_routed, by decide, _, rec, accessText_eq forgedBuffer_routed, hrecord,
    hcount, fun h => ?_⟩
  have honce := h.once
  rw [hcount] at honce
  cases honce

end Svnsrv.Klog
