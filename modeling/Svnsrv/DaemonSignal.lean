import Svnsrv.Lib.ScanNumber
import Svnsrv.Daemon
import Svnsrv.DaemonArgv

/-!
# Whom the daemon commands signal

`check_pid`, `DaemonStop` and `DaemonRestart`, with every `kill` they call. The filter of
`check_pid` refuses 0 and the caller, but neither a negative number, which names a process group
or every process, nor one that does not fit in an `int`.
-/

namespace Svnsrv.Daemon

open CText
set_option autoImplicit false

/-- What the pid file holds when it is read, none if it cannot be opened, and what `kill(pid, 0)`
finds: false if it fails with `ESRCH`. -/
structure Look where
  content : Option Bytes
  running : Int → Bool

inductive Signal where
  | probe                 -- 0
  | usr1
  deriving DecidableEq, Repr

/-- A call of `kill`, and the text from which its pid was read. -/
structure Sent where
  text : Bytes
  pid : Int
  signal : Signal
  deriving DecidableEq, Repr

def checkPid (look : Look) (getpid : Nat) : Int × List Sent :=
  match look.content with
  | none => (0, [])
  | some text =>
    match scanInt text with
    | none => (0, [])
    | some pid =>
      if pid = 0 ∨ pid = getpid then (0, [])
      else (if look.running pid then pid else 0, [⟨text, pid, .probe⟩])

/-- `delivered` is whether `kill` returns 0. -/
def daemonStop (look : Look) (getpid : Nat) (delivered : Bool) : Bool × List Sent :=
  let (pid, sent) := checkPid look getpid
  if pid = 0 then (false, sent)
  else (delivered, sent ++ [⟨look.content.getD [], pid, .usr1⟩])

/-- It looks at the pid file twice. The child, for which `fork` is 0, executes the command line or
exits, and does not return. -/
def daemonRestart (first second : Look) (getpid : Nat) (proc : Int → ProcEntry) (fork : Int) :
    Option Bool × List Sent :=
  let (pid, sent) := checkPid first getpid
  if pid = 0 then (some false, sent)
  else match parsePathAndArgv (proc pid) (List.replicate 4096 0) 4096 with
    | none => (some false, sent)
    | some _ =>
      let sent := sent ++ [⟨first.content.getD [], pid, .usr1⟩]
      if fork = 0 then (none, sent)
      else
        let (nid, probes) := checkPid second getpid
        (some (nid ≠ 0), sent ++ probes)

/-! ## check_pid in steps -/

def Check.probes : Check → List Int
  | .probing pid => [pid]
  | _ => []

/-- The steps of `check_pid` while nobody else touches the file. -/
def Check.run (files : Files Bytes Bytes) (pidfile : Bytes) (getpid : Nat) (running : Int → Bool) :
    Nat → Check → Option (Int × List Int)
  | 0, _ => none
  | fuel + 1, c =>
    match c.next files pidfile getpid running with
    | .inr r => some (r, c.probes)
    | .inl c' => (Check.run files pidfile getpid running fuel c').map fun r =>
        (r.1, c.probes ++ r.2)

theorem checkPid_eq_run (files : Files Bytes Bytes) (pidfile : Bytes) (getpid : Nat)
    (running : Int → Bool) :
    Check.run files pidfile getpid running 3 .opening =
      let r := checkPid ⟨(files.dir pidfile).map files.data, running⟩ getpid
      some (r.1, r.2.map Sent.pid) := by
  cases hdir : files.dir pidfile with
  | none => simp [Check.run, Check.next, Check.probes, checkPid, hdir]
  | some i =>
    cases hscan : scanInt (files.data i) with
    | none => simp [Check.run, Check.next, Check.probes, checkPid, hdir, hscan]
    | some pid =>
      by_cases hself : pid = 0 ∨ pid = getpid
      · simp [Check.run, Check.next, Check.probes, checkPid, hdir, hscan, hself]
      · cases hrun : running pid <;>
          simp [Check.run, Check.next, Check.probes, checkPid, hdir, hscan, hself, hrun]

/-! ## The number in the file -/

/-- The `int` that `%d` makes of a number. -/
def intOf (v : Int) : Int := (clampLong v).bmod (2 ^ 32)

theorem intOf_of_range {v : Int} (hpos : 0 < v) (hmax : v < 2 ^ 31) : intOf v = v := by
  rw [intOf, clampLong_of_mem (by unfold longMin; omega) (by unfold longMax; omega),
    Int.bmod_eq_of_le (by omega) (by omega)]

theorem intOf_lt (v : Int) : intOf v < 2 ^ 31 := by
  have h := Int.bmod_lt (x := clampLong v) (m := 2 ^ 32) (by decide)
  unfold intOf
  omega

theorem scanInt_eq (t : Bytes) : scanInt t = (leadingNumber t).map intOf := by
  cases hdrop : t.dropWhile isSpace with
  | nil => simp [scanInt, leadingNumber, hdrop]
  | cons c r =>
    by_cases hne : (if c = minus ∨ c = plus then r else c :: r).takeWhile isDigit = []
    · simp [scanInt, leadingNumber, hdrop, hne]
    · cases hnumber : leadingNumber t with
      | none => simp [leadingNumber, hdrop, hne] at hnumber
      | some v =>
        rw [Option.map_some, intOf, ← strtol_of_leadingNumber hnumber]
        simp only [scanInt, hdrop, if_neg hne]

theorem numberAt_unique {t : Bytes} {v w : Int} (hv : NumberAt t v) (hw : NumberAt t w) : v = w :=
  Option.some.inj ((numberAt_iff.mp hv).symm.trans (numberAt_iff.mp hw))

/-! ## The targets -/

/-- One process, named by a decimal number in the text, and not the caller. -/
def Proper (getpid : Nat) (text : Bytes) (pid : Int) : Prop :=
  0 < pid ∧ NumberAt text pid ∧ pid ≠ getpid

def Addressed (getpid : Nat) (sent : List Sent) : Prop :=
  ∀ k ∈ sent, Proper getpid k.text k.pid

/-- A number in the file is a pid, or the filter refuses what `%d` makes of it. -/
def Harmless (getpid : Nat) (look : Look) : Prop :=
  ∀ text v, look.content = some text → NumberAt text v →
    (0 < v ∧ v < 2 ^ 31) ∨ intOf v = 0 ∨ intOf v = getpid

theorem proper_iff {getpid : Nat} {text : Bytes} {v : Int} (hv : NumberAt text v)
    (hself : intOf v ≠ getpid) : Proper getpid text (intOf v) ↔ 0 < v ∧ v < 2 ^ 31 := by
  constructor
  · intro hproper
    obtain ⟨hpos, hnumber, -⟩ := hproper
    have heq := numberAt_unique hv hnumber
    have hlt := intOf_lt v
    omega
  · intro hrange
    obtain ⟨hpos, hmax⟩ := hrange
    have heq := intOf_of_range hpos hmax
    rw [heq] at hself ⊢
    exact ⟨hpos, hv, hself⟩

/-- `check_pid` sends nothing, or probes what `%d` makes of the number in the file. -/
theorem checkPid_cases (look : Look) (getpid : Nat) :
    (checkPid look getpid = (0, []) ∧ Harmless getpid look) ∨
    ∃ text v, look.content = some text ∧ NumberAt text v ∧ intOf v ≠ 0 ∧ intOf v ≠ getpid ∧
      checkPid look getpid =
        (if look.running (intOf v) then intOf v else 0, [⟨text, intOf v, .probe⟩]) := by
  cases hcontent : look.content with
  | none =>
    refine .inl ⟨by simp only [checkPid, hcontent], ?_⟩
    intro text v htext
    rw [hcontent] at htext
    cases htext
  | some text =>
    cases hnumber : leadingNumber text with
    | none =>
      refine .inl ⟨by simp [checkPid, hcontent, scanInt_eq, hnumber], ?_⟩
      intro text' v htext hv
      obtain rfl : text = text' := Option.some.inj (hcontent.symm.trans htext)
      rw [numberAt_iff.mp hv] at hnumber
      cases hnumber
    | some v =>
      by_cases hself : intOf v = 0 ∨ intOf v = getpid
      · refine .inl ⟨by simp [checkPid, hcontent, scanInt_eq, hnumber, hself], ?_⟩
        intro text' w htext hw
        obtain rfl : text = text' := Option.some.inj (hcontent.symm.trans htext)
        obtain rfl := numberAt_unique (numberAt_iff.mpr hnumber) hw
        exact .inr hself
      · refine .inr ⟨text, v, rfl, numberAt_iff.mpr hnumber, fun h => hself (.inl h),
          fun h => hself (.inr h), ?_⟩
        simp [checkPid, hcontent, scanInt_eq, hnumber, hself]

theorem harmless_iff {look : Look} {getpid : Nat} {text : Bytes} {v : Int}
    (hcontent : look.content = some text) (hv : NumberAt text v) (hzero : intOf v ≠ 0)
    (hself : intOf v ≠ getpid) : Harmless getpid look ↔ 0 < v ∧ v < 2 ^ 31 := by
  constructor
  · intro h
    exact (h text v hcontent hv).resolve_right (not_or.mpr ⟨hzero, hself⟩)
  · intro hrange text' w htext hw
    obtain rfl : text = text' := Option.some.inj (hcontent.symm.trans htext)
    obtain rfl := numberAt_unique hv hw
    exact .inl hrange

theorem addressed_checkPid (look : Look) (getpid : Nat) :
    Addressed getpid (checkPid look getpid).2 ↔ Harmless getpid look := by
  rcases checkPid_cases look getpid with ⟨heq, hharmless⟩ | ⟨text, v, hcontent, hv, hzero, hself, heq⟩
  · rw [heq]
    exact ⟨fun _ => hharmless, fun _ => List.forall_mem_nil _⟩
  · rw [heq, harmless_iff hcontent hv hzero hself, ← proper_iff hv hself]
    exact List.forall_mem_singleton

/-- A pid that `check_pid` has returned is signalled as it was probed. -/
theorem addressed_signal (look : Look) (getpid : Nat) (hpid : (checkPid look getpid).1 ≠ 0) :
    Addressed getpid ((checkPid look getpid).2 ++
      [⟨look.content.getD [], (checkPid look getpid).1, .usr1⟩]) ↔ Harmless getpid look := by
  rcases checkPid_cases look getpid with ⟨heq, -⟩ | ⟨text, v, hcontent, hv, hzero, hself, heq⟩
  · rw [heq] at hpid
    exact absurd rfl hpid
  · have hrun : look.running (intOf v) = true := by
      by_contra hrun
      rw [heq, if_neg hrun] at hpid
      exact hpid rfl
    have hproper := proper_iff hv hself
    rw [heq, if_pos hrun, harmless_iff hcontent hv hzero hself, ← hproper, hcontent,
      Option.getD_some]
    constructor
    · exact fun h => h _ List.mem_cons_self
    · exact fun h => List.forall_mem_cons.mpr ⟨h, List.forall_mem_singleton.mpr h⟩

theorem addressed_append (getpid : Nat) (l l' : List Sent) :
    Addressed getpid (l ++ l') ↔ Addressed getpid l ∧ Addressed getpid l' :=
  List.forall_mem_append

/-- `DaemonRestart` gets to its second look at the pid file. -/
def Rechecks (first : Look) (getpid : Nat) (proc : Int → ProcEntry) (fork : Int) : Prop :=
  let pid := (checkPid first getpid).1
  pid ≠ 0 ∧ parsePathAndArgv (proc pid) (List.replicate 4096 0) 4096 ≠ none ∧ fork ≠ 0

theorem addressed_stop (look : Look) (getpid : Nat) (delivered : Bool) :
    Addressed getpid (daemonStop look getpid delivered).2 ↔ Harmless getpid look := by
  unfold daemonStop
  dsimp only
  split
  · exact addressed_checkPid look getpid
  · rename_i hpid
    exact addressed_signal look getpid hpid

theorem addressed_restart (first second : Look) (getpid : Nat) (proc : Int → ProcEntry)
    (fork : Int) :
    Addressed getpid (daemonRestart first second getpid proc fork).2 ↔
      Harmless getpid first ∧ (Rechecks first getpid proc fork → Harmless getpid second) := by
  unfold daemonRestart Rechecks
  dsimp only
  split
  · rename_i hpid
    rw [addressed_checkPid]
    exact (and_iff_left fun h => absurd hpid h.1).symm
  · rename_i hpid
    split
    · rename_i hparse
      rw [addressed_checkPid]
      exact (and_iff_left fun h => absurd hparse h.2.1).symm
    · rename_i hparse
      split
      · rename_i hfork
        rw [addressed_signal first getpid hpid]
        exact (and_iff_left fun h => absurd hfork h.2.2).symm
      · rename_i hfork
        have hreach : (checkPid first getpid).1 ≠ 0 ∧ parsePathAndArgv
            (proc (checkPid first getpid).1) (List.replicate 4096 0) 4096 ≠ none ∧ fork ≠ 0 :=
          ⟨hpid, by rw [hparse]; exact Option.some_ne_none _, hfork⟩
        rw [addressed_append, addressed_signal first getpid hpid, addressed_checkPid,
          forall_prop_of_true hreach]

/-- Every `kill` of the three functions is addressed to one process exactly if each pid file that is
looked at is harmless. -/
theorem signals_addressed_iff (first second : Look) (getpid : Nat) (proc : Int → ProcEntry)
    (delivered : Bool) (fork : Int) :
    (Addressed getpid (checkPid first getpid).2 ↔ Harmless getpid first) ∧
    (Addressed getpid (daemonStop first getpid delivered).2 ↔ Harmless getpid first) ∧
    (Addressed getpid (daemonRestart first second getpid proc fork).2 ↔
      Harmless getpid first ∧ (Rechecks first getpid proc fork → Harmless getpid second)) :=
  ⟨addressed_checkPid first getpid, addressed_stop first getpid delivered,
    addressed_restart first second getpid proc fork⟩

/-- With `-1` in the pid file the stop command signals every process. -/
theorem stop_signals_all :
    (daemonStop ⟨some (ascii "-1"), fun _ => true⟩ 100 true).2 =
      [⟨ascii "-1", -1, .probe⟩, ⟨ascii "-1", -1, .usr1⟩] ∧
    ¬Addressed 100 (daemonStop ⟨some (ascii "-1"), fun _ => true⟩ 100 true).2 := by
  have hsent : (daemonStop ⟨some (ascii "-1"), fun _ => true⟩ 100 true).2 =
      [⟨ascii "-1", -1, .probe⟩, ⟨ascii "-1", -1, .usr1⟩] := by decide
  refine ⟨hsent, ?_⟩
  rw [hsent]
  intro h
  exact absurd (h _ List.mem_cons_self).1 (by decide)

end Svnsrv.Daemon
