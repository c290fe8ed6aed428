import Svnsrv.Lib.Transition
import Svnsrv.Daemon

/-!
# Starting a daemon

Any number of invocations of `svnsrv -D` with one pid file. The check of the file and
the write of it are separate steps of two processes, so two invocations that check
before either has written both become daemons; and a write that fails leaves an empty file.
-/

namespace Svnsrv.Daemon

open CText
set_option autoImplicit false

/-- What a process is doing. -/
inductive Proc where
  | other
  | checking (c : Check)
  | forking               -- `check_pid` has returned 0
  | leaving               -- goes to `exit`
  | detaching             -- the new process, up to the `fopen` of `write_pid`
  | writing (i : Nat)     -- has the pid file open
  | daemon                -- `Daemonize` has returned 0
  deriving DecidableEq, Repr

namespace Proc

/-- Its check of the pid file has passed, and it has not written its own pid yet. -/
def committed : Proc → Bool
  | forking | detaching | writing _ => true
  | _ => false

/-- It has read a pid and not probed it yet. -/
def probing : Proc → Bool
  | checking (.probing _) => true
  | _ => false

/-- What may not be beside a process between its check and its write. -/
def rival (x : Proc) : Bool := x.committed || x.probing || x = daemon

end Proc

structure Sys where
  files : Files Bytes Bytes
  table : Nat → Option Proc

inductive SysEvent where
  | invoke (pid : Nat)
  | appear (pid : Nat)                        -- some other process
  | die (pid : Nat)
  | check (pid : Nat) (group : Bool)          -- whether a process group exists
  | fork (pid : Nat) (child : Option Nat)     -- none if it fails
  | create (pid : Nat) (ok : Bool)            -- whether nothing up to `fopen` fails
  | write (pid : Nat) (ok : Bool)             -- whether `fprintf` and `fclose` succeed
  deriving DecidableEq, Repr

namespace Sys

def set (s : Sys) (pid : Nat) (x : Option Proc) : Sys :=
  { s with table := Function.update s.table pid x }

/-- A pid that the system can give to a new process. -/
def free (s : Sys) (pid : Nat) : Prop := 0 < pid ∧ pid ≤ pidMax ∧ s.table pid = none

instance (s : Sys) (pid : Nat) : Decidable (s.free pid) := inferInstanceAs (Decidable (_ ∧ _ ∧ _))

/-- Whether `kill(pid, 0)` finds a process, or a process group. -/
def running (s : Sys) (group : Bool) (pid : Int) : Bool :=
  if 0 < pid then (s.table pid.toNat).isSome else group

def step (pidfile : Bytes) (s : Sys) : SysEvent → Option Sys
  | .invoke pid => if s.free pid then some (s.set pid (some (.checking .opening))) else none
  | .appear pid => if s.free pid then some (s.set pid (some .other)) else none
  | .die pid => if (s.table pid).isSome then some (s.set pid none) else none
  | .check pid group =>
    match s.table pid with
    | some (.checking c) =>
      match c.next s.files pidfile pid (s.running group) with
      | .inl c => some (s.set pid (some (.checking c)))
      | .inr r => some (s.set pid (some (if r = 0 then .forking else .leaving)))
    | _ => none
  | .fork pid child =>
    if s.table pid = some .forking then
      match child with
      | none => some (s.set pid (some .leaving))
      | some c =>
        if s.free c then some ((s.set pid (some .leaving)).set c (some .detaching)) else none
    else none
  | .create pid ok =>
    if s.table pid = some .detaching then
      if ok then
        let (files, i) := truncate s.files pidfile
        some { s.set pid (some (.writing i)) with files }
      else some (s.set pid (some .leaving))
    else none
  | .write pid ok =>
    match s.table pid with
    | some (.writing i) =>
      -- `write_pid` returns true either way
      some { s.set pid (some .daemon) with files := if ok then writePid s.files i pid else s.files }
    | _ => none

end Sys

/-- No two live processes have got 0 from `Daemonize`. -/
def AtMostOne (s : Sys) : Prop :=
  ∀ p q, s.table p = some .daemon → s.table q = some .daemon → p = q

def Sys.Reads (s : Sys) (pid : Nat) : Prop := ∃ i, s.table pid = some (.checking (.reading i))

/-- With the next step of a process its check passes. -/
def Sys.Passes (pidfile : Bytes) (s : Sys) (pid : Nat) (group : Bool) : Prop :=
  ∃ c, s.table pid = some (.checking c) ∧
    c.next s.files pidfile pid (s.running group) = .inr 0

/-- The pid file is read, and a check passes, only while no other process is between its check
and its write; and a check passes only while no other process is about to probe. -/
def Exclusive (pidfile : Bytes) (s : Sys) : SysEvent → Prop
  | .check pid group =>
    (s.Reads pid ∨ s.Passes pidfile pid group →
      ∀ q x, q ≠ pid → s.table q = some x → x.committed = false) ∧
    (s.Passes pidfile pid group → ∀ q x, q ≠ pid → s.table q = some x → x.probing = false)
  | _ => True

/-- A pid that is written gets into the file. -/
def Recorded : SysEvent → Prop
  | .write _ ok => ok = true
  | _ => True

/-! ## The invariant -/

/-- A daemon's pid is in the file, what has been read from it is that pid, and no process is
between its check and its write beside a daemon or another such process. -/
structure Orderly (pidfile : Bytes) (s : Sys) : Prop where
  range : ∀ p x, s.table p = some x → x ≠ .other → 0 < p ∧ p ≤ pidMax
  reading : ∀ p i, s.table p = some (.checking (.reading i)) → s.files.dir pidfile = some i
  writing : ∀ p i, s.table p = some (.writing i) →
    s.files.dir pidfile = some i ∧ s.files.data i = []
  alone : ∀ p q x y, s.table p = some x → x.committed = true → s.table q = some y →
    y.rival = true → q = p
  stored : ∀ p, s.table p = some .daemon →
    ∃ i, s.files.dir pidfile = some i ∧ s.files.data i = decimal p
  known : ∀ p q pid, s.table p = some .daemon → s.table q = some (.checking (.probing pid)) →
    pid = p
  unique : AtMostOne s

/-- What has to hold for a process to go to `x`. -/
structure Fits (pidfile : Bytes) (s : Sys) (p : Nat) (x : Proc) : Prop where
  range : x ≠ .other → 0 < p ∧ p ≤ pidMax
  reading : ∀ i, x = .checking (.reading i) → s.files.dir pidfile = some i
  writing : ∀ i, x = .writing i → s.files.dir pidfile = some i ∧ s.files.data i = []
  alone : x.committed = true ∨ x = .daemon →
    ∀ q y, q ≠ p → s.table q = some y → y.rival = false
  rival : x.rival = true → ∀ q y, q ≠ p → s.table q = some y → y.committed = false
  stored : x = .daemon → ∃ i, s.files.dir pidfile = some i ∧ s.files.data i = decimal p
  known : ∀ pid q, x = .checking (.probing pid) → s.table q = some .daemon → pid = q

section Steps

variable {pidfile : Bytes} {s : Sys} {p q : Nat} {x y : Proc}

theorem set_cases {o : Option Proc} (h : (s.set p o).table q = some x) :
    (q = p ∧ o = some x) ∨ (q ≠ p ∧ s.table q = some x) := by
  by_cases hq : q = p
  · subst hq
    refine .inl ⟨rfl, ?_⟩
    rw [← h]
    exact (Function.update_self q o s.table).symm
  · refine .inr ⟨hq, ?_⟩
    rw [← h]
    exact (Function.update_of_ne hq o s.table).symm

theorem Proc.committed_of_not_rival (h : x.rival = false) : x.committed = false := by
  simp only [Proc.rival, Bool.or_eq_false_iff] at h
  exact h.1.1

theorem Orderly.set (h : Orderly pidfile s) (hx : Fits pidfile s p x) :
    Orderly pidfile (s.set p (some x)) := by
  constructor
  · intro q y hq hy
    rcases set_cases hq with ⟨rfl, ⟨⟩⟩ | ⟨-, hq⟩
    · exact hx.range hy
    · exact h.range q y hq hy
  · intro q i hq
    rcases set_cases hq with ⟨rfl, hy⟩ | ⟨-, hq⟩
    · exact hx.reading i (Option.some.inj hy)
    · exact h.reading q i hq
  · intro q i hq
    rcases set_cases hq with ⟨rfl, hy⟩ | ⟨-, hq⟩
    · exact hx.writing i (Option.some.inj hy)
    · exact h.writing q i hq
  · intro q r y z hq hy hr hz
    rcases set_cases hq with ⟨rfl, ⟨⟩⟩ | ⟨hne, hq'⟩
    · rcases set_cases hr with ⟨rfl, -⟩ | ⟨hne, hr'⟩
      · rfl
      · rw [hx.alone (.inl hy) r z hne hr'] at hz
        cases hz
    · rcases set_cases hr with ⟨rfl, ⟨⟩⟩ | ⟨-, hr'⟩
      · rw [hx.rival hz q y hne hq'] at hy
        cases hy
      · exact h.alone q r y z hq' hy hr' hz
  · intro q hq
    rcases set_cases hq with ⟨rfl, hy⟩ | ⟨-, hq⟩
    · exact hx.stored (Option.some.inj hy)
    · exact h.stored q hq
  · intro q r pid hq hr
    rcases set_cases hq with ⟨rfl, hy⟩ | ⟨-, hq⟩
    · have hdaemon := Option.some.inj hy
      rcases set_cases hr with ⟨-, hz⟩ | ⟨hne, hr⟩
      · rw [hdaemon] at hz
        cases hz
      · cases hx.alone (.inr hdaemon) r _ hne hr
    · rcases set_cases hr with ⟨-, hz⟩ | ⟨-, hr⟩
      · exact hx.known pid q (Option.some.inj hz) hq
      · exact h.known q r pid hq hr
  · intro q r hq hr
    rcases set_cases hq with ⟨rfl, hy⟩ | ⟨hne, hq'⟩
    · rcases set_cases hr with ⟨rfl, -⟩ | ⟨hne, hr'⟩
      · rfl
      · cases hx.alone (.inr (Option.some.inj hy)) r _ hne hr'
    · rcases set_cases hr with ⟨rfl, hz⟩ | ⟨-, hr'⟩
      · cases hx.alone (.inr (Option.some.inj hz)) q _ hne hq'
      · exact h.unique q r hq' hr'

/-- A process that is none of the others' business. -/
def Proc.idle : Proc → Bool
  | .other | .leaving | .checking .opening => true
  | _ => false

theorem Proc.rival_of_idle (h : x.idle = true) : x.rival = false := by
  cases x with
  | checking c => cases c <;> first | rfl | cases h
  | other | leaving => rfl
  | forking | detaching | writing i | daemon => cases h

theorem Proc.committed_of_idle (h : x.idle = true) : x.committed = false := by
  cases x with
  | checking c | other | leaving | daemon => rfl
  | forking | detaching | writing i => cases h

theorem fits_idle (hidle : x.idle = true) (hrange : x ≠ .other → 0 < p ∧ p ≤ pidMax) :
    Fits pidfile s p x := by
  refine ⟨hrange, ?_, ?_, ?_, ?_, ?_, ?_⟩
  · rintro i rfl
    cases hidle
  · rintro i rfl
    cases hidle
  · rintro (hc | rfl)
    · rw [Proc.committed_of_idle hidle] at hc
      cases hc
    · cases hidle
  · intro hr
    rw [Proc.rival_of_idle hidle] at hr
    cases hr
  · rintro rfl
    cases hidle
  · rintro pid q rfl
    cases hidle

theorem fits_reading {i : Nat} (hrange : 0 < p ∧ p ≤ pidMax) (hi : s.files.dir pidfile = some i) :
    Fits pidfile s p (.checking (.reading i)) := by
  refine ⟨fun _ => hrange, ?_, ?_, ?_, ?_, ?_, ?_⟩
  · intro j hj
    cases hj
    exact hi
  · intro j hj
    cases hj
  · rintro (hc | hd)
    · cases hc
    · cases hd
  · intro hr
    cases hr
  · intro hd
    cases hd
  · intro pid q hx
    cases hx

theorem fits_probing {pid : Int} (hrange : 0 < p ∧ p ≤ pidMax)
    (hothers : ∀ q y, q ≠ p → s.table q = some y → y.committed = false)
    (hknown : ∀ q, s.table q = some .daemon → pid = q) :
    Fits pidfile s p (.checking (.probing pid)) := by
  refine ⟨fun _ => hrange, ?_, ?_, ?_, fun _ => hothers, ?_, ?_⟩
  · intro j hj
    cases hj
  · intro j hj
    cases hj
  · rintro (hc | hd)
    · cases hc
    · cases hd
  · intro hd
    cases hd
  · intro pid' q hx hq
    cases hx
    exact hknown q hq

theorem fits_committed (hx : x = .forking ∨ x = .detaching) (hrange : 0 < p ∧ p ≤ pidMax)
    (hothers : ∀ q y, q ≠ p → s.table q = some y → y.rival = false) : Fits pidfile s p x := by
  refine ⟨fun _ => hrange, ?_, ?_, fun _ => hothers, ?_, ?_, ?_⟩
  · intro i hi
    rcases hx with rfl | rfl <;> cases hi
  · intro i hi
    rcases hx with rfl | rfl <;> cases hi
  · exact fun _ q y hne hq => Proc.committed_of_not_rival (hothers q y hne hq)
  · intro hd
    rcases hx with rfl | rfl <;> cases hd
  · intro pid q hp
    rcases hx with rfl | rfl <;> cases hp

theorem fits_writing {i : Nat} (hrange : 0 < p ∧ p ≤ pidMax)
    (hi : s.files.dir pidfile = some i ∧ s.files.data i = [])
    (hothers : ∀ q y, q ≠ p → s.table q = some y → y.rival = false) :
    Fits pidfile s p (.writing i) := by
  refine ⟨fun _ => hrange, ?_, ?_, fun _ => hothers, ?_, ?_, ?_⟩
  · intro j hj
    cases hj
  · intro j hj
    cases hj
    exact hi
  · exact fun _ q y hne hq => Proc.committed_of_not_rival (hothers q y hne hq)
  · intro hd
    cases hd
  · intro pid q hp
    cases hp

theorem fits_daemon (hrange : 0 < p ∧ p ≤ pidMax)
    (hothers : ∀ q y, q ≠ p → s.table q = some y → y.rival = false)
    (hstored : ∃ i, s.files.dir pidfile = some i ∧ s.files.data i = decimal p) :
    Fits pidfile s p .daemon := by
  refine ⟨fun _ => hrange, ?_, ?_, fun _ => hothers, ?_, fun _ => hstored, ?_⟩
  · intro j hj
    cases hj
  · intro j hj
    cases hj
  · exact fun _ q y hne hq => Proc.committed_of_not_rival (hothers q y hne hq)
  · intro pid q hp
    cases hp

theorem Orderly.remove (h : Orderly pidfile s) : Orderly pidfile (s.set p none) := by
  have hold : ∀ {q x}, (s.set p none).table q = some x → s.table q = some x := by
    intro q x hq
    rcases set_cases hq with ⟨-, ⟨⟩⟩ | ⟨-, hq⟩
    exact hq
  constructor
  · exact fun q x hq => h.range q x (hold hq)
  · exact fun q i hq => h.reading q i (hold hq)
  · exact fun q i hq => h.writing q i (hold hq)
  · exact fun q r x y hq hx hr hy => h.alone q r x y (hold hq) hx (hold hr) hy
  · exact fun q hq => h.stored q (hold hq)
  · exact fun q r pid hq hr => h.known q r pid (hold hq) (hold hr)
  · exact fun q r hq hr => h.unique q r (hold hq) (hold hr)

theorem Orderly.others (h : Orderly pidfile s) (hp : s.table p = some x)
    (hx : x.committed = true) {y : Proc} (hne : q ≠ p) (hq : s.table q = some y) :
    y.rival = false := by
  by_contra hrival
  exact hne (h.alone p q x y hp hx hq (by simpa using hrival))

/-! ## The check -/

variable {c : Check} {group : Bool}

theorem Orderly.stored_pid (h : Orderly pidfile s) (hq : s.table q = some .daemon) {i : Nat}
    (hi : s.files.dir pidfile = some i) : scanInt (s.files.data i) = some (q : Int) := by
  obtain ⟨j, hj, hdata⟩ := h.stored q hq
  obtain rfl : i = j := Option.some.inj (hi.symm.trans hj)
  rw [hdata]
  exact scanInt_decimal (h.range q _ hq (by decide)).2

theorem Orderly.no_daemon (h : Orderly pidfile s) (hp : s.table p = some (.checking c))
    (hpass : c.next s.files pidfile p (s.running group) = .inr 0) (hne : q ≠ p) :
    s.table q ≠ some .daemon := by
  intro hq
  have hpos := (h.range q _ hq (by decide)).1
  cases c with
  | opening =>
    obtain ⟨i, hi, -⟩ := h.stored q hq
    simp [Check.next, hi] at hpass
  | reading i =>
    have hscan := h.stored_pid hq (h.reading p i hp)
    have hself : ¬((q : Int) = 0 ∨ (q : Int) = p) := by omega
    simp only [Check.next, hscan, if_neg hself] at hpass
    cases hpass
  | probing pid =>
    obtain rfl := h.known q p pid hq hp
    have hrunning : s.running group q = true := by
      simp [Sys.running, hpos, hq]
    simp only [Check.next, hrunning, if_true] at hpass
    have hzero : (q : Int) = 0 := Sum.inr.inj hpass
    omega

theorem Orderly.pass (h : Orderly pidfile s) (hp : s.table p = some (.checking c))
    (hpass : c.next s.files pidfile p (s.running group) = .inr 0)
    (hC : Exclusive pidfile s (.check p group)) : Orderly pidfile (s.set p (some .forking)) := by
  have hpasses : s.Passes pidfile p group := ⟨c, hp, hpass⟩
  have hcommitted := hC.1 (.inr hpasses)
  apply h.set
  apply fits_committed (.inl rfl) (h.range p _ hp (by simp))
  intro q y hne hq
  have hdaemon : y ≠ .daemon := by
    rintro rfl
    exact h.no_daemon hp hpass hne hq
  simp [Proc.rival, hcommitted q y hne hq, hC.2 hpasses q y hne hq, hdaemon]

theorem Orderly.check {t : Sys} (h : Orderly pidfile s)
    (hC : Exclusive pidfile s (.check p group))
    (hstep : s.step pidfile (.check p group) = some t) : Orderly pidfile t := by
  simp only [Sys.step] at hstep
  split at hstep
  · rename_i c hp
    have hrange : 0 < p ∧ p ≤ pidMax := h.range p _ hp (by simp)
    split at hstep
    · rename_i c' hnext
      cases hstep
      apply h.set
      rcases Check.next_inl hnext with ⟨rfl, i, hi, rfl⟩ | ⟨i, pid, rfl, hscan, -, -, rfl⟩
      · exact fits_reading hrange hi
      · have hi := h.reading p i hp
        apply fits_probing hrange (hC.1 (.inl ⟨i, hp⟩))
        intro q hq
        exact Option.some.inj (hscan.symm.trans (h.stored_pid hq hi))
    · rename_i r hnext
      cases hstep
      by_cases hr : r = 0
      · subst hr
        exact h.pass hp hnext hC
      · rw [if_neg hr]
        exact h.set (fits_idle rfl fun _ => hrange)
  · cases hstep

/-! ## The other steps -/

theorem Orderly.fork {child : Option Nat} {t : Sys} (h : Orderly pidfile s)
    (hstep : s.step pidfile (.fork p child) = some t) : Orderly pidfile t := by
  simp only [Sys.step] at hstep
  split at hstep
  · rename_i hp
    have hleaving : Orderly pidfile (s.set p (some .leaving)) :=
      h.set (fits_idle rfl fun _ => h.range p _ hp (by simp))
    cases child with
    | none =>
      cases hstep
      exact hleaving
    | some c =>
      simp only at hstep
      split at hstep
      · rename_i hfree
        cases hstep
        have hothers : ∀ q y, (s.set p (some .leaving)).table q = some y → y.rival = false := by
          intro q y hq
          rcases set_cases hq with ⟨-, ⟨⟩⟩ | ⟨hne, hq⟩
          · rfl
          · exact h.others hp rfl hne hq
        apply hleaving.set
        exact fits_committed (.inr rfl) ⟨hfree.1, hfree.2.1⟩ fun q y _ hq => hothers q y hq
      · cases hstep
  · cases hstep

/-- A process between its check and its write may change the files, as long as the pid file
stays the same file. -/
theorem Orderly.rewrite (h : Orderly pidfile s) {x₀ : Proc} (hp : s.table p = some x₀)
    (hx₀ : x₀.committed = true) {files : Files Bytes Bytes}
    (hdir : ∀ i, s.files.dir pidfile = some i → files.dir pidfile = some i)
    (hx : Fits pidfile { s.set p (some .leaving) with files } p x) :
    Orderly pidfile { s.set p (some x) with files } := by
  have hleaving : Orderly pidfile (s.set p (some .leaving)) :=
    h.set (fits_idle rfl fun _ => h.range p _ hp (by rintro rfl; cases hx₀))
  have hothers : ∀ q y, (s.set p (some .leaving)).table q = some y → y.rival = false := by
    intro q y hq
    rcases set_cases hq with ⟨-, ⟨⟩⟩ | ⟨hne, hq⟩
    · rfl
    · exact h.others hp hx₀ hne hq
  have hfiles : Orderly pidfile { s.set p (some .leaving) with files } := by
    constructor
    · exact hleaving.range
    · exact fun q i hq => hdir i (hleaving.reading q i hq)
    · intro q i hq
      cases hothers q _ hq
    · exact hleaving.alone
    · intro q hq
      cases hothers q _ hq
    · exact hleaving.known
    · exact hleaving.unique
  have hset := hfiles.set hx
  simpa [Sys.set] using hset

theorem Orderly.bystanders (h : Orderly pidfile s) {x₀ : Proc} (hp : s.table p = some x₀)
    (hx₀ : x₀.committed = true) {y : Proc} (hne : q ≠ p)
    (hq : (s.set p (some .leaving)).table q = some y) :
    y.rival = false := by
  rcases set_cases hq with ⟨heq, -⟩ | ⟨-, hq⟩
  · exact absurd heq hne
  · exact h.others hp hx₀ hne hq

theorem Orderly.create {ok : Bool} {t : Sys} (h : Orderly pidfile s)
    (hstep : s.step pidfile (.create p ok) = some t) : Orderly pidfile t := by
  simp only [Sys.step] at hstep
  split at hstep
  · rename_i hp
    have hrange := h.range p _ hp (by simp)
    cases ok with
    | false =>
      cases hstep
      exact h.set (fits_idle rfl fun _ => hrange)
    | true =>
      have hopened := Files.opened_openOrCreate s.files pidfile []
      cases hstep
      apply h.rewrite hp rfl
      · exact fun i hi => hopened.keeps pidfile i hi
      · apply fits_writing hrange ⟨hopened.found, Files.put_data_self _⟩
        exact fun q y hne hq => h.bystanders hp rfl hne hq
  · cases hstep

theorem Orderly.write {t : Sys} (h : Orderly pidfile s)
    (hstep : s.step pidfile (.write p true) = some t) : Orderly pidfile t := by
  simp only [Sys.step, if_true] at hstep
  split at hstep
  · rename_i i hp
    obtain ⟨hdir, hdata⟩ := h.writing p i hp
    cases hstep
    apply h.rewrite hp rfl
    · exact fun i hi => hi
    · apply fits_daemon (h.range p _ hp (by simp))
      · exact fun q y hne hq => h.bystanders hp rfl hne hq
      · refine ⟨i, hdir, ?_⟩
        simp [writePid, hdata]
  · cases hstep

theorem Orderly.step {e : SysEvent} {t : Sys} (h : Orderly pidfile s)
    (hC : Exclusive pidfile s e) (hrecorded : Recorded e) (hstep : s.step pidfile e = some t) :
    Orderly pidfile t := by
  cases e with
  | invoke pid =>
    simp only [Sys.step] at hstep
    split at hstep
    · rename_i hfree
      cases hstep
      exact h.set (fits_idle rfl fun _ => ⟨hfree.1, hfree.2.1⟩)
    · cases hstep
  | appear pid =>
    simp only [Sys.step] at hstep
    split at hstep
    · cases hstep
      exact h.set (fits_idle rfl fun hne => absurd rfl hne)
    · cases hstep
  | die pid =>
    simp only [Sys.step] at hstep
    split at hstep
    · cases hstep
      exact h.remove
    · cases hstep
  | check pid group => exact h.check hC hstep
  | fork pid child => exact h.fork hstep
  | create pid ok => exact h.create hstep
  | write pid ok =>
    obtain rfl : ok = true := hrecorded
    exact h.write hstep

end Steps

end Svnsrv.Daemon
