import Svnsrv.Lib.Cells
import Svnsrv.Lib.CText

/-!
# Log records

`Klogger::access` and `Klogger::log` of klog.cc. A record is built in an array of
the stack frame: a time stamp, the message, and a newline behind both. `vsnprintf`
reports the length the message would have had, which is where the newline goes.
-/

namespace Svnsrv.Klog

open CText
set_option autoImplicit false

/-! ## The C library -/

def intMax : Nat := 2 ^ 31 - 1

/-- `%d` -/
def decimalInt (v : Int) : Bytes :=
  if v < 0 then minus :: decimal v.natAbs else decimal v.toNat

/-- `%02d` of a number that is not negative. -/
def decimal02 (n : Nat) : Bytes := List.replicate (2 - (decimal n).length) 48 ++ decimal n

/-- `%s` -/
def cString (s : Bytes) : Bytes := s.takeWhile (· ≠ 0)

/-- What `std::localtime` returns. -/
structure Tm where
  tm_year : Int
  tm_mon : Fin 12
  tm_mday : Fin 32
  tm_hour : Fin 24
  tm_min : Fin 60
  tm_sec : Fin 61
  tm_wday : Fin 7
  year_fits : (1900 + tm_year).natAbs ≤ 2 ^ 31
  deriving DecidableEq, Repr

/-- What the formatting functions make of their arguments: the whole text, or an error after
some bytes have been stored. -/
inductive Formatted where
  | text (t : Bytes)
  | failed (ret : Int) (stored : Bytes) (negative : ret < 0)
  deriving DecidableEq, Repr

/-- The result of `vsnprintf`: the length of the whole text, or a negative number. -/
def Formatted.ret : Formatted → Int
  | .text t => t.length
  | .failed ret _ _ => ret

/-- A text that is too long to be counted is an error. -/
def formatted (t : Bytes) : Formatted :=
  if t.length ≤ intMax then .text t else .failed (-1) t (by decide)

/-- `vsnprintf(p, l, ...)`: at most `l - 1` characters and a NUL. -/
def vsnprintf {n : Nat} (c : Cells n UInt8) (p : Int) (l : Nat) :
    Formatted → Option (Cells n UInt8)
  | .text t => if l = 0 then some c else c.write p (t.take (l - 1) ++ [0])
  | .failed _ stored _ => c.write p (stored.take l)

/-! ## Klogger -/

inductive KloggerLevel where
  | kDebug
  | kInfo
  | kWarn
  | kError
  | kFatal
  deriving DecidableEq, Repr

def leveMessage : KloggerLevel → Bytes
  | .kDebug => ascii "Debug"
  | .kInfo => ascii "Info"
  | .kWarn => ascii "Warn"
  | .kError => ascii "Error"
  | .kFatal => ascii "Fatal"

def wday : Fin 7 → Bytes
  | 0 => ascii "Sun"
  | 1 => ascii "Mon"
  | 2 => ascii "Tue"
  | 3 => ascii "Wed"
  | 4 => ascii "Thu"
  | 5 => ascii "Fri"
  | 6 => ascii "Sat"

/-- `"%d/%02d/%02d %s %02d:%02d:%02d"` -/
def Tm.text (tm : Tm) : Bytes :=
  decimalInt (1900 + tm.tm_year) ++ ascii "/" ++ decimal02 (tm.tm_mon + 1) ++ ascii "/" ++
    decimal02 tm.tm_mday ++ ascii " " ++ wday tm.tm_wday ++ ascii " " ++ decimal02 tm.tm_hour ++
    ascii ":" ++ decimal02 tm.tm_min ++ ascii ":" ++ decimal02 tm.tm_sec

def accessStamp (tm : Tm) : Bytes := ascii "[" ++ tm.text ++ ascii "] "

/-- `"[%s] Process: %d Thread: %" PRIu64 " Time: ..."` -/
def logStamp (level : KloggerLevel) (id : Int32) (tid : UInt64) (tm : Tm) : Bytes :=
  ascii "[" ++ leveMessage level ++ ascii "] Process: " ++ decimalInt id.toInt ++
    ascii " Thread: " ++ decimal tid.toNat ++ ascii " Time: " ++ tm.text ++ ascii " "

/-- The arguments `(buffer, total + 1)` of the writer. -/
structure Record where
  buffer : Cells 4096 UInt8
  size : Nat

/-- The bytes that the writer is given. -/
def Record.bytes (r : Record) : Bytes := r.buffer.contents r.size

/-- What `access` and `log` share; none is a store outside the buffer. -/
def record (stamp : Bytes) (msg : Formatted) : Option Record := do
  let buffer ← vsnprintf (n := 4096) .blank 0 4095 (.text stamp)
  let len : Int := stamp.length
  let l : Nat := ((4095 - len) % 2 ^ 64).toNat     -- size_t l
  let buffer ← vsnprintf buffer len l msg
  let total := len + msg.ret
  let buffer ← buffer.write total [newline]
  return ⟨buffer, (total + 1).toNat⟩

def access (tm : Tm) (msg : Formatted) : Option Record := record (accessStamp tm) msg

def log (level : KloggerLevel) (id : Int32) (tid : UInt64) (tm : Tm) (msg : Formatted) :
    Option Record := record (logStamp level id tid tm) msg

/-- A record is built inside the buffer, and what is handed to the writer is initialised. -/
def Contained (r : Option Record) : Prop :=
  ∃ rec, r = some rec ∧ rec.size ≤ 4096 ∧ rec.buffer.Filled rec.size

/-! ## Stamps -/

theorem length_decimal02 {n : Nat} (h : n < 100) : (decimal02 n).length = 2 := by
  have := length_decimal_le (k := 2) (by decide) h
  rw [decimal02, List.length_append, List.length_replicate]
  omega

theorem length_decimalInt_le {v : Int} (h : v.natAbs ≤ 2 ^ 31) : (decimalInt v).length ≤ 11 := by
  have habs := length_decimal_le (n := v.natAbs) (k := 10) (by decide) (by omega)
  have hnat := length_decimal_le (n := v.toNat) (k := 10) (by decide) (by omega)
  unfold decimalInt
  split
  · rw [List.length_cons]
    omega
  · omega

theorem length_wday (i : Fin 7) : (wday i).length = 3 := by
  revert i
  decide

theorem length_leveMessage_le (level : KloggerLevel) : (leveMessage level).length ≤ 5 := by
  cases level <;> decide

theorem length_text (tm : Tm) :
    tm.text.length = (decimalInt (1900 + tm.tm_year)).length + 19 := by
  have hmon := length_decimal02 (n := tm.tm_mon + 1) (by omega)
  have hmday := length_decimal02 (n := tm.tm_mday) (by omega)
  have hhour := length_decimal02 (n := tm.tm_hour) (by omega)
  have hmin := length_decimal02 (n := tm.tm_min) (by omega)
  have hsec := length_decimal02 (n := tm.tm_sec) (by omega)
  simp only [Tm.text, List.length_append, hmon, hmday, hhour, hmin, hsec, length_wday]
  rfl

theorem length_accessStamp (tm : Tm) :
    (accessStamp tm).length = (decimalInt (1900 + tm.tm_year)).length + 22 := by
  simp only [accessStamp, List.length_append, length_text]
  have : (ascii "[").length = 1 ∧ (ascii "] ").length = 2 := by decide
  omega

theorem length_logStamp (level : KloggerLevel) (id : Int32) (tid : UInt64) (tm : Tm) :
    (logStamp level id tid tm).length = (leveMessage level).length + (decimalInt id.toInt).length +
      (decimal tid.toNat).length + (decimalInt (1900 + tm.tm_year)).length + 48 := by
  have hfixed : (ascii "[").length = 1 ∧ (ascii "] Process: ").length = 11 ∧
      (ascii " Thread: ").length = 9 ∧ (ascii " Time: ").length = 7 ∧
      (ascii " ").length = 1 := by decide
  simp only [logStamp, List.length_append, length_text]
  omega

theorem accessStamp_fits (tm : Tm) : (accessStamp tm).length < 4095 := by
  have := length_accessStamp tm
  have := length_decimalInt_le tm.year_fits
  omega

theorem logStamp_short (level : KloggerLevel) (id : Int32) (tid : UInt64) (tm : Tm) :
    (logStamp level id tid tm).length ≤ 95 := by
  have := length_logStamp level id tid tm
  have := length_decimalInt_le tm.year_fits
  have := length_leveMessage_le level
  have := id.toInt_lt
  have := id.le_toInt
  have := length_decimalInt_le (v := id.toInt) (by omega)
  have := tid.toNat_lt
  have := length_decimal_le (n := tid.toNat) (k := 20) (by decide) (by omega)
  omega

theorem logStamp_fits (level : KloggerLevel) (id : Int32) (tid : UInt64) (tm : Tm) :
    (logStamp level id tid tm).length < 4095 :=
  Nat.lt_of_le_of_lt (logStamp_short level id tid tm) (by decide)

/-! ## Records -/

/-- What `vsnprintf` leaves of the message: everything before the place of the newline is
initialised, if that place is in the buffer. -/
theorem vsnprintf_filled {c : Cells 4096 UInt8} {len : Nat} (hc : c.Filled (len + 1))
    (hlen : len < 4095) (msg : Formatted) :
    ∃ c', vsnprintf c len (4095 - len) msg = some c' ∧
      ∀ total : Nat, (total : Int) = len + msg.ret → total ≤ 4095 → c'.Filled total := by
  cases msg with
  | text t =>
    have hdata : (t.take (4095 - len - 1) ++ [0]).length = min (4095 - len - 1) t.length + 1 := by
      simp
    obtain ⟨c', hwrite, hfilled⟩ := hc.write len (t.take (4095 - len - 1) ++ [0])
      (by omega) (by omega) (by omega)
    refine ⟨c', ?_, ?_⟩
    · simp only [vsnprintf]
      rw [if_neg (by omega)]
      exact hwrite
    · intro total htotal hle
      simp only [Formatted.ret] at htotal
      apply hfilled.mono
      omega
  | failed ret stored negative =>
    have hdata : (stored.take (4095 - len)).length ≤ 4095 - len := List.length_take_le _ _
    obtain ⟨c', hwrite, hfilled⟩ := hc.write len (stored.take (4095 - len))
      (by omega) (by omega) (by omega)
    refine ⟨c', hwrite, ?_⟩
    intro total htotal hle
    simp only [Formatted.ret] at htotal
    apply hfilled.mono
    omega

/-- The room behind a stamp, as the `size_t` that `vsnprintf` is given. -/
theorem room_eq {n : Nat} (h : n < 4095) : ((4095 - (n : Int)) % 2 ^ 64).toNat = 4095 - n := by
  rw [Int.emod_eq_of_lt (by omega) (by omega)]
  omega

theorem stamp_stored {stamp : Bytes} (hstamp : stamp.length < 4095) :
    ∃ c, vsnprintf (n := 4096) .blank 0 4095 (.text stamp) = some c ∧ c.Holds (stamp ++ [0]) := by
  have hblank : Cells.Holds ([] ++ []) (Cells.blank : Cells 4096 UInt8) :=
    fun i hi => absurd hi (Nat.not_lt_zero _)
  obtain ⟨c, hwrite, hc⟩ := hblank.write (stamp ++ [0]) (by simp; omega)
  have htake : stamp.take (4095 - 1) = stamp := List.take_of_length_le (by omega)
  refine ⟨c, ?_, hc⟩
  simp only [vsnprintf, htake]
  exact hwrite

/-- Before the newline is stored, everything that stands before its place is initialised. -/
theorem record_eq {stamp : Bytes} (hstamp : stamp.length < 4095) (msg : Formatted) :
    ∃ c : Cells 4096 UInt8, record stamp msg =
        (c.write (stamp.length + msg.ret) [newline]).bind
          (fun buffer => some ⟨buffer, (stamp.length + msg.ret + 1).toNat⟩) ∧
      ∀ total : Nat, (total : Int) = stamp.length + msg.ret → total ≤ 4095 → c.Filled total := by
  obtain ⟨c, hfirst, hstored⟩ := stamp_stored hstamp
  have hc : c.Filled (stamp.length + 1) := hstored.filled.mono (by simp)
  obtain ⟨c', hmsg, hbefore⟩ := vsnprintf_filled hc hstamp msg
  have hl := room_eq hstamp
  refine ⟨c', ?_, hbefore⟩
  simp only [record, hfirst, hl, hmsg, Option.bind_eq_bind, Option.bind_some]
  rfl

theorem record_bounds {stamp : Bytes} (hstamp : stamp.length < 4095) {msg : Formatted}
    (h : (record stamp msg).isSome) :
    0 ≤ stamp.length + msg.ret ∧ stamp.length + msg.ret ≤ 4095 := by
  obtain ⟨c, hrecord, -⟩ := record_eq hstamp msg
  by_contra hnot
  rw [hrecord, Cells.write_eq_none (by simp; omega)] at h
  cases h

/-- The newline behind a stamp and a message is in the buffer, or the store is outside. -/
theorem record_contained_iff {stamp : Bytes} (hstamp : stamp.length < 4095) (msg : Formatted) :
    Contained (record stamp msg) ↔
      0 ≤ stamp.length + msg.ret ∧ stamp.length + msg.ret ≤ 4095 := by
  constructor
  · rintro ⟨rec, hrec, -, -⟩
    exact record_bounds hstamp (Option.isSome_of_mem hrec)
  · rintro ⟨hmin, hmax⟩
    obtain ⟨c, hrecord, hbefore⟩ := record_eq hstamp msg
    obtain ⟨total, htotal⟩ := Int.eq_ofNat_of_zero_le hmin
    rw [hrecord]
    rw [htotal] at hmax ⊢
    have hfill := hbefore total htotal.symm (by omega)
    obtain ⟨c', hwrite, hall⟩ := hfill.write total [newline] (by omega)
      (by omega) (by simp; omega)
    refine ⟨⟨c', (total + 1 : Int).toNat⟩, by rw [hwrite]; rfl, ?_, ?_⟩
    · change total + 1 ≤ 4096
      omega
    · apply hall.mono
      simp

theorem record_isSome_iff {stamp : Bytes} (hstamp : stamp.length < 4095) (msg : Formatted) :
    (record stamp msg).isSome ↔ Contained (record stamp msg) := by
  constructor
  · exact fun h => (record_contained_iff hstamp msg).mpr (record_bounds hstamp h)
  · rintro ⟨rec, hrec, -⟩
    exact Option.isSome_of_mem hrec

/-- A short message always fits behind the stamp. -/
theorem log_isSome (level : KloggerLevel) (id : Int32) (tid : UInt64) (tm : Tm) {t : Bytes}
    (h : t.length ≤ 4000) : (log level id tid tm (formatted t)).isSome := by
  have hformatted : formatted t = .text t := by
    rw [formatted, if_pos]
    rw [intMax]
    omega
  rw [log, record_isSome_iff (logStamp_fits level id tid tm), hformatted,
    record_contained_iff (logStamp_fits level id tid tm)]
  have hstamp := logStamp_short level id tid tm
  simp only [Formatted.ret]
  omega

/-! ## Access records -/

theorem access_contained_iff (tm : Tm) (msg : Formatted) :
    Contained (access tm msg) ↔
      0 ≤ ((decimalInt (1900 + tm.tm_year)).length + 22 : Int) + msg.ret ∧
      ((decimalInt (1900 + tm.tm_year)).length + 22 : Int) + msg.ret ≤ 4095 := by
  have hlength := length_accessStamp tm
  rw [access, record_contained_iff (accessStamp_fits tm) msg]
  omega

/-- An access record of a counted text is contained when it is short enough; a text that is
too long to be counted leaves the stamp. -/
theorem access_formatted_iff (tm : Tm) (t : Bytes) :
    Contained (access tm (formatted t)) ↔
      (decimalInt (1900 + tm.tm_year)).length + 22 + t.length ≤ 4095 ∨ intMax < t.length := by
  rw [access_contained_iff, formatted]
  have hyear := length_decimalInt_le tm.year_fits
  split
  · simp only [Formatted.ret]
    omega
  · simp only [Formatted.ret]
    omega

/-- `"Storage: %s | URL: %s "` -/
def storageText (address url : Bytes) : Bytes :=
  ascii "Storage: " ++ cString address ++ ascii " | URL: " ++ cString url ++ ascii " "

theorem length_storageText (address url : Bytes) :
    (storageText address url).length = (cString address).length + (cString url).length + 18 := by
  have hfixed : (ascii "Storage: ").length = 9 ∧ (ascii " | URL: ").length = 8 ∧
      (ascii " ").length = 1 := by decide
  simp only [storageText, List.length_append]
  omega

/-- The year, the address and the URL leave room for the newline behind the record of a routed
handshake; or its text is too long to be counted. -/
def StorageFits (tm : Tm) (address url : Bytes) : Prop :=
  (decimalInt (1900 + tm.tm_year)).length + (cString address).length + (cString url).length + 40 ≤
      4095 ∨
    intMax < (cString address).length + (cString url).length + 18

instance (tm : Tm) (address url : Bytes) : Decidable (StorageFits tm address url) :=
  inferInstanceAs (Decidable (_ ∨ _))

theorem storage_contained_iff (tm : Tm) (address url : Bytes) :
    Contained (access tm (formatted (storageText address url))) ↔ StorageFits tm address url := by
  rw [access_formatted_iff, length_storageText, StorageFits]
  omega

theorem storage_isSome_iff (tm : Tm) (address url : Bytes) :
    (access tm (formatted (storageText address url))).isSome ↔ StorageFits tm address url := by
  rw [← storage_contained_iff, access, record_isSome_iff (accessStamp_fits tm)]

end Svnsrv.Klog
