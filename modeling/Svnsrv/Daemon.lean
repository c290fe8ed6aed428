import Svnsrv.Lib.CText
import Svnsrv.Lib.Files

/-!
# The daemon

`check_pid`, `write_pid`, `SignalDaemonKill` and `DaemonWait` of daemonize_linux.inl,
cut into the steps between which another process or a signal can come.
-/

namespace Svnsrv.Daemon

open CText
set_option autoImplicit false

/-! ## The pid file -/

/-- `fscanf(fp, "%d", &pid)`: a `long` is read and stored in an `int`. -/
def scanInt (t : Bytes) : Option Int :=
  let number := match t.dropWhile isSpace with
    | [] => []
    | c :: r => if c = minus ∨ c = plus then r else c :: r
  if number.takeWhile isDigit = [] then none else some ((strtol t).bmod (2 ^ 32))

def pidMax : Nat := 2 ^ 31 - 1

theorem scanInt_decimal {pid : Nat} (h : pid ≤ pidMax) : scanInt (decimal pid) = some (pid : Int) := by
  have hnumeral := isNumeral_decimal pid
  unfold pidMax at h
  have hstrtol := strtol_numeral hnumeral (by omega)
  obtain ⟨c, r, hcons⟩ := List.exists_cons_of_ne_nil hnumeral.nonempty
  have hc := hnumeral.digits c (hcons ▸ List.mem_cons_self)
  have hsign := ne_sign_of_isDigit hc
  have hdrop : (decimal pid).dropWhile isSpace = c :: r := by
    rw [hcons, List.dropWhile_cons_of_neg (by simp [not_isSpace_of_isDigit hc])]
  simp only [scanInt, hdrop, hsign.1, hsign.2, or_self, if_false, hstrtol]
  rw [if_neg (by simp [hc]), Int.bmod_eq_of_le (by omega) (by omega)]

/-- Where a process is in `check_pid`. -/
inductive Check where
  | opening
  | reading (i : Nat)
  | probing (pid : Int)
  deriving DecidableEq, Repr

/-- The next step of `check_pid`, or what it returns. `running pid` is false if `kill(pid, 0)`
fails with `ESRCH`. -/
def Check.next (files : Files Bytes Bytes) (pidfile : Bytes) (getpid : Nat) (running : Int → Bool) :
    Check → Check ⊕ Int
  | .opening =>
    match files.dir pidfile with
    | none => .inr 0
    | some i => .inl (.reading i)
  | .reading i =>
    match scanInt (files.data i) with
    | none => .inr 0
    | some pid => if pid = 0 ∨ pid = getpid then .inr 0 else .inl (.probing pid)
  | .probing pid => if running pid then .inr pid else .inr 0

theorem Check.next_inl {files : Files Bytes Bytes} {pidfile : Bytes} {getpid : Nat}
    {running : Int → Bool} {c c' : Check} (h : c.next files pidfile getpid running = .inl c') :
    (c = .opening ∧ ∃ i, files.dir pidfile = some i ∧ c' = .reading i) ∨
    ∃ i pid, c = .reading i ∧ scanInt (files.data i) = some pid ∧ pid ≠ 0 ∧ pid ≠ getpid ∧
      c' = .probing pid := by
  cases c with
  | opening =>
    simp only [next] at h
    split at h
    · cases h
    · rename_i i hi
      cases h
      exact .inl ⟨rfl, i, hi, rfl⟩
  | reading i =>
    simp only [next] at h
    split at h
    · cases h
    · rename_i pid hscan
      split at h
      · cases h
      · rename_i hself
        cases h
        obtain ⟨hzero, hself⟩ := not_or.mp hself
        exact .inr ⟨i, pid, rfl, hscan, hzero, hself, rfl⟩
  | probing pid =>
    simp only [next] at h
    split at h <;> cases h

theorem Check.next_inr {files : Files Bytes Bytes} {pidfile : Bytes} {getpid : Nat}
    {running : Int → Bool} {c : Check} {r : Int} (h : c.next files pidfile getpid running = .inr r) :
    (c = .opening ∧ files.dir pidfile = none ∧ r = 0) ∨
    (∃ i, c = .reading i ∧ r = 0 ∧
      ∀ pid, scanInt (files.data i) = some pid → pid = 0 ∨ pid = getpid) ∨
    ∃ pid, c = .probing pid ∧ r = if running pid then pid else 0 := by
  cases c with
  | opening =>
    simp only [next] at h
    split at h
    · rename_i hnone
      cases h
      exact .inl ⟨rfl, hnone, rfl⟩
    · cases h
  | reading i =>
    refine .inr (.inl ⟨i, rfl, ?_⟩)
    simp only [next] at h
    split at h
    · rename_i hscan
      cases h
      refine ⟨rfl, fun pid hpid => ?_⟩
      rw [hscan] at hpid
      cases hpid
    · rename_i pid hscan
      split at h
      · rename_i hself
        cases h
        refine ⟨rfl, fun pid' hpid => ?_⟩
        obtain rfl := Option.some.inj (hscan.symm.trans hpid)
        exact hself
      · cases h
  | probing pid =>
    refine .inr (.inr ⟨pid, rfl, ?_⟩)
    simp only [next] at h
    split at h
    · rename_i hrun
      cases h
      rw [if_pos hrun]
    · rename_i hrun
      cases h
      rw [if_neg hrun]

/-- `fopen(pidfile, "w+")` -/
def truncate (files : Files Bytes Bytes) (pidfile : Bytes) : Files Bytes Bytes × Nat :=
  let (files, i) := files.openOrCreate pidfile []
  (files.put i [], i)

/-- `fprintf(fp, "%d", getpid())` at the start of a file, and `fclose`. -/
def writePid (files : Files Bytes Bytes) (i getpid : Nat) : Files Bytes Bytes :=
  files.put i (decimal getpid ++ (files.data i).drop (decimal getpid).length)

/-! ## SignalDaemonKill -/

inductive Deed where
  | unlink (path : Bytes)
  | kill (pid : Int)        -- SIGUSR1
  | destroy (msg : Bytes)
  | exit (status : Int)
  deriving DecidableEq, Repr

/-- The globals of the handler; `mask` is none when the name of the pid file is not cached. -/
structure Globals where
  child_pid : Int
  mask : Option Bytes
  deriving DecidableEq, Repr

def Globals.unlinkMask (g : Globals) : List Deed := (g.mask.map Deed.unlink).toList

def signalDaemonKill (g : Globals) : List Deed :=
  if g.child_pid = 0 then [.destroy (ascii "svnsrv worker shutdown"), .exit 0]
  else if g.child_pid = -1 then
    (if g.child_pid > 0 then g.unlinkMask else []) ++
      [.destroy (ascii "svnsrv single shutdown"), .exit 0]
  else
    (if g.child_pid > 0 then g.unlinkMask ++ [.kill g.child_pid] else []) ++
      [.destroy (ascii "svnsrv master shutdown"), .exit 0]

/-! ## DaemonWait -/

/-- Where a process is after `Daemonize` has returned 0. -/
inductive Place where
  | returned
  | single                -- serves by itself
  | forking               -- before `fork()`
  | forked (r : Int)      -- `fork` has returned `r`
  | stored                -- `child_pid` holds it
  | waiting               -- in `waitpid`
  | reaped                -- behind `waitpid`
  | failed                -- `DaemonWait` has returned false
  | exited
  deriving DecidableEq, Repr

/-- A daemon, its worker if that is alive, and whom it has signalled. -/
structure Life where
  globals : Globals
  place : Place
  worker : Option Int
  files : Files Bytes Bytes
  signalled : List Int

inductive LifeEvent where
  | daemonWait (crashRestart : Bool)
  | fork (r : Int)
  | store
  | test                  -- `if (child_pid < 0)`
  | crash                 -- the worker dies
  | reap
  | reset
  deriving DecidableEq, Repr

def forkReturns (r : Int) : Prop := r = -1 ∨ 0 < r

instance (r : Int) : Decidable (forkReturns r) := inferInstanceAs (Decidable (_ ∨ _))

namespace Life

def goto (s : Life) (place : Place) : Life := { s with place }

def setChildPid (s : Life) (child_pid : Int) : Life :=
  { s with globals := { s.globals with child_pid } }

def step (s : Life) : LifeEvent → Option Life
  | .daemonWait crashRestart =>
    if s.place = .returned then
      some (if crashRestart then s.goto .forking else (s.setChildPid (-1)).goto .single)
    else none
  | .fork r =>
    if s.place = .forking ∧ forkReturns r then
      some { s with place := .forked r, worker := if 0 < r then some r else s.worker }
    else none
  | .store =>
    match s.place with
    | .forked r => some ((s.setChildPid r).goto .stored)
    | _ => none
  | .test =>
    if s.place = .stored then
      some (s.goto (if s.globals.child_pid < 0 then .failed else .waiting))
    else none
  | .crash => if s.worker.isSome then some { s with worker := none } else none
  | .reap =>
    if s.place = .waiting ∧ s.worker ≠ some s.globals.child_pid then some (s.goto .reaped)
    else none
  | .reset => if s.place = .reaped then some ((s.setChildPid 0).goto .forking) else none

def deed (s : Life) : Deed → Life
  | .unlink path => { s with files := s.files.unlink path }
  | .kill pid => { s with signalled := s.signalled ++ [pid] }
  | .destroy _ => s
  | .exit _ => s.goto .exited

def deliver (s : Life) : Life := (signalDaemonKill s.globals).foldl deed s

end Life

end Svnsrv.Daemon
