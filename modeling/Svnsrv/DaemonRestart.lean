import Svnsrv.DaemonStart

/-!
# Restarting a daemon

`DaemonRestart` signals the daemon, executes its command line in a child and reads the
pid file again. Its first `waitpid` does not wait, since the daemon is not its child,
so the signalled process may still be there when the file is read.
-/

namespace Svnsrv.Daemon

open CText
set_option autoImplicit false

/-- Where the launcher is in `DaemonRestart`. -/
inductive Launcher where
  | checking (c : Check)
  | parsing (pid : Int)             -- before `ParsePathAndArgv`
  | signalling (pid : Int)          -- before `kill(pid, SIGUSR1)`
  | waiting (pid : Int)             -- in `waitpid(pid, ...)`
  | forking
  | waitingChild (cpid : Nat)       -- in `waitpid(cpid, ...)`
  | rechecking (c : Check)
  | returned (result : Bool)
  deriving DecidableEq, Repr

/-- The daemon that is restarted. -/
inductive Old where
  | running (signalled : Bool)
  | handling (deeds : List Deed)    -- what is left for its handler
  | gone
  deriving DecidableEq, Repr

/-- `kin` lists the processes that the restart has started: the child of the launcher, and the
process this forks in `Daemonize`. -/
structure Restart where
  sys : Sys
  launcher : Launcher
  old : Old
  kin : List Nat

inductive RestartEvent where
  | look (group : Bool)             -- a step of `check_pid`
  | parse (ok : Bool)
  | signal
  | wait
  | fork (child : Option Nat)
  | exec (ok : Bool)
  | reap
  | handle (g : Globals)            -- the old daemon's handler begins
  | deed
  | start (e : SysEvent)            -- of the executed process and its child
  deriving DecidableEq, Repr

namespace Restart

/-- `waitpid` on a process that is not a child returns at once. -/
def step (pidfile : Bytes) (self old : Nat) (s : Restart) : RestartEvent → Option Restart
  | .look group =>
    match s.launcher with
    | .checking c =>
      match c.next s.sys.files pidfile self (s.sys.running group) with
      | .inl c => some { s with launcher := .checking c }
      | .inr pid => some { s with launcher := if pid = 0 then .returned false else .parsing pid }
    | .rechecking c =>
      match c.next s.sys.files pidfile self (s.sys.running group) with
      | .inl c => some { s with launcher := .rechecking c }
      | .inr nid => some { s with launcher := .returned (decide (nid ≠ 0)) }
    | _ => none
  | .parse ok =>
    match s.launcher with
    | .parsing pid => some { s with launcher := if ok then .signalling pid else .returned false }
    | _ => none
  | .signal =>
    match s.launcher, s.old with
    | .signalling pid, .running signalled =>
      some { s with launcher := .waiting pid, old := .running (signalled || decide (pid = old)) }
    | .signalling pid, _ => some { s with launcher := .waiting pid }
    | _, _ => none
  | .wait =>
    match s.launcher with
    | .waiting _ => some { s with launcher := .forking }
    | _ => none
  | .fork child =>
    if s.launcher = .forking then
      match child with
      | none => some { s with launcher := .rechecking .opening }
      | some c =>
        if s.sys.free c then
          some { s with sys := s.sys.set c (some .other), launcher := .waitingChild c,
                        kin := s.kin ++ [c] }
        else none
    else none
  | .exec ok =>
    match s.launcher with
    | .waitingChild c =>
      if s.sys.table c = some .other then
        some { s with sys := s.sys.set c (some (if ok then .checking .opening else .leaving)) }
      else none
    | _ => none
  | .reap =>
    match s.launcher with
    | .waitingChild c =>
      if s.sys.table c = none then some { s with launcher := .rechecking .opening } else none
    | _ => none
  | .handle g =>
    if s.old = .running true ∧ (g.mask = none ∨ g.mask = some pidfile) then
      some { s with old := .handling (signalDaemonKill g) }
    else none
  | .deed =>
    match s.old with
    | .handling (.unlink path :: deeds) =>
      some { s with sys := { s.sys with files := s.sys.files.unlink path }, old := .handling deeds }
    | .handling (.exit _ :: _) => some { s with sys := s.sys.set old none, old := .gone }
    | .handling (_ :: deeds) => some { s with old := .handling deeds }
    | _ => none
  | .start e =>
    match e with
    | .invoke _ | .appear _ => none
    | .die pid => (s.sys.step pidfile e).map fun sys =>
        { s with sys, old := if pid = old then .gone else s.old }
    | .fork _ child => (s.sys.step pidfile e).map fun sys =>
        { s with sys, kin := s.kin ++ child.toList }
    | _ => (s.sys.step pidfile e).map fun sys => { s with sys }

end Restart

/-- The pid file names a live daemon, and this is not the process that was signalled. -/
def NamesNewDaemon (pidfile : Bytes) (old : Nat) (s : Restart) : Prop :=
  ∃ (p : Nat) (i : Nat), s.sys.files.dir pidfile = some i ∧
    scanInt (s.sys.files.data i) = some (p : Int) ∧ s.sys.table p = some .daemon ∧
    (p = old → s.old = .gone)

/-- When the launcher probes the pid of the signalled process at the end, that process is gone,
and only a daemon may have got its pid, and has not failed to write it. -/
def Settled (pidfile : Bytes) (old : Nat) (s : Restart) : Prop :=
  s.launcher = .rechecking (.probing old) →
    s.old = .gone ∧ ∀ x, s.sys.table old = some x →
      x = .daemon ∧ ∃ i, s.sys.files.dir pidfile = some i ∧ s.sys.files.data i ≠ []

end Svnsrv.Daemon
