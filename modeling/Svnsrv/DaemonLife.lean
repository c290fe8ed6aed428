import Svnsrv.Lib.Transition
import Svnsrv.Daemon

/-!
# Stopping a daemon

`SignalDaemonKill` infers from `child_pid` what process it runs in. The value is 0
wherever the master has no worker's pid stored, and -1 in a single process, whose
branch asks for a positive value.
-/

namespace Svnsrv.Daemon

open CText
set_option autoImplicit false

/-- `Daemonize` has returned 0 in the process `getpid`, with its pid in the file; the name of
the file is cached if there was memory for it. -/
structure Started (pidfile : Bytes) (getpid : Nat) (s : Life) : Prop where
  child_pid : s.globals.child_pid = 0
  mask : s.globals.mask = none ∨ s.globals.mask = some pidfile
  place : s.place = .returned
  worker : s.worker = none
  stored : ∃ i, s.files.dir pidfile = some i ∧ s.files.data i = decimal getpid

/-- The states of a daemon until a signal comes. -/
def Lives (pidfile : Bytes) (getpid : Nat) (s : Life) : Prop :=
  Transition.Reachable (Started pidfile getpid) (fun s e t => s.step e = some t) s

/-- The handler leaves neither the pid file nor a worker that does not know. -/
structure LeavesNothing (pidfile : Bytes) (s : Life) : Prop where
  unlinked : s.deliver.files.dir pidfile = none
  signalled : ∀ w, s.worker = some w → w ∈ s.deliver.signalled
  exited : s.deliver.place = .exited

/-! ## What the handler does -/

theorem deliver_positive {s : Life} {pidfile : Bytes} (hpos : 0 < s.globals.child_pid)
    (hmask : s.globals.mask = some pidfile) :
    s.deliver = { s with
      files := s.files.unlink pidfile
      signalled := s.signalled ++ [s.globals.child_pid]
      place := .exited } := by
  have h0 : s.globals.child_pid ≠ 0 := by omega
  have h1 : s.globals.child_pid ≠ -1 := by omega
  simp only [Life.deliver, signalDaemonKill, if_neg h0, if_neg h1, if_pos hpos,
    Globals.unlinkMask, hmask]
  rfl

theorem foldl_deed_files {deeds : List Deed} (h : ∀ path, .unlink path ∉ deeds) (s : Life) :
    (deeds.foldl Life.deed s).files = s.files := by
  induction deeds generalizing s with
  | nil => rfl
  | cons d deeds ih =>
    rw [List.foldl_cons, ih fun path hmem => h path (List.mem_cons_of_mem d hmem)]
    cases d with
    | unlink path => exact absurd List.mem_cons_self (h path)
    | _ => rfl

theorem deliver_files {s : Life} (h : ¬(0 < s.globals.child_pid ∧ s.globals.mask.isSome)) :
    s.deliver.files = s.files := by
  apply foldl_deed_files
  intro path
  have hmask : 0 < s.globals.child_pid → .unlink path ∉ s.globals.unlinkMask := by
    intro hpos
    have hnone : s.globals.mask = none := by
      rw [← Option.not_isSome_iff_eq_none]
      exact fun hsome => h ⟨hpos, hsome⟩
    rw [Globals.unlinkMask, hnone]
    exact List.not_mem_nil
  unfold signalDaemonKill
  split
  · simp
  · split
    · have hneg : ¬s.globals.child_pid > 0 := by omega
      simp [hneg]
    · split
      · rename_i hpos
        simp [hmask hpos]
      · simp

/-! ## A daemon's life -/

/-- What is known of `child_pid` and the worker at a place. -/
def Place.Knows (place : Place) (child_pid : Int) (worker : Option Int) : Prop :=
  match place with
  | .returned | .forking => child_pid = 0 ∧ worker = none
  | .forked r => child_pid = 0 ∧ (worker = none ∨ worker = some r)
  | .stored => worker = none ∨ worker = some child_pid
  | .waiting => worker = none ∨ worker = some child_pid
  | .reaped => worker = none
  | .single => child_pid = -1 ∧ worker = none
  | .failed => child_pid < 0
  | .exited => False

/-- The pid file stays as it is, and `child_pid` is as the place says. -/
structure Living (pidfile : Bytes) (s : Life) : Prop where
  mask : s.globals.mask = none ∨ s.globals.mask = some pidfile
  file : ∃ i, s.files.dir pidfile = some i
  knows : s.place.Knows s.globals.child_pid s.worker

theorem Started.living {pidfile : Bytes} {getpid : Nat} {s : Life} (h : Started pidfile getpid s) :
    Living pidfile s where
  mask := h.mask
  file := by
    obtain ⟨i, hi, -⟩ := h.stored
    exact ⟨i, hi⟩
  knows := by
    rw [h.place]
    exact ⟨h.child_pid, h.worker⟩

theorem step_frame {s t : Life} {e : LifeEvent} (hstep : s.step e = some t) :
    t.globals.mask = s.globals.mask ∧ t.files = s.files := by
  cases e with
  | store =>
    cases hplace : s.place with
    | forked r =>
      simp only [Life.step, hplace] at hstep
      cases hstep
      exact ⟨rfl, rfl⟩
    | _ => simp [Life.step, hplace] at hstep
  | daemonWait crashRestart =>
    simp only [Life.step] at hstep
    split at hstep
    · cases crashRestart <;> cases hstep <;> exact ⟨rfl, rfl⟩
    · cases hstep
  | _ =>
    simp only [Life.step] at hstep
    split at hstep
    · cases hstep
      exact ⟨rfl, rfl⟩
    · cases hstep

theorem Place.Knows.step {s t : Life} {e : LifeEvent}
    (h : s.place.Knows s.globals.child_pid s.worker) (hstep : s.step e = some t) :
    t.place.Knows t.globals.child_pid t.worker := by
  cases e with
  | daemonWait crashRestart =>
    simp only [Life.step] at hstep
    split at hstep
    · rename_i hplace
      rw [hplace] at h
      obtain ⟨hzero, hnone⟩ := h
      cases crashRestart with
      | false =>
        cases hstep
        exact ⟨rfl, hnone⟩
      | true =>
        cases hstep
        exact ⟨hzero, hnone⟩
    · cases hstep
  | fork r =>
    simp only [Life.step] at hstep
    split at hstep
    · rename_i hfork
      rw [hfork.1] at h
      obtain ⟨hzero, hnone⟩ := h
      cases hstep
      refine ⟨hzero, ?_⟩
      by_cases hr : 0 < r
      · exact .inr (if_pos hr)
      · exact .inl ((if_neg hr).trans hnone)
    · cases hstep
  | store =>
    cases hplace : s.place with
    | forked r =>
      simp only [Life.step, hplace] at hstep
      cases hstep
      rw [hplace] at h
      exact h.2
    | _ => simp [Life.step, hplace] at hstep
  | test =>
    simp only [Life.step] at hstep
    split at hstep
    · rename_i hplace
      rw [hplace] at h
      cases hstep
      by_cases hneg : s.globals.child_pid < 0
      · simp only [Life.goto, if_pos hneg]
        exact hneg
      · simp only [Life.goto, if_neg hneg]
        exact h
    · cases hstep
  | crash =>
    simp only [Life.step] at hstep
    split at hstep
    · rename_i hworker
      cases hstep
      obtain ⟨w, hw⟩ := Option.isSome_iff_exists.mp hworker
      cases hplace : s.place with
      | returned | forking | single | reaped =>
        rw [hplace, hw] at h
        simp [Place.Knows] at h
      | forked r =>
        rw [hplace] at h
        exact ⟨h.1, .inl rfl⟩
      | stored | waiting => exact .inl rfl
      | failed =>
        rw [hplace] at h
        exact h
      | exited =>
        rw [hplace] at h
        exact h
    · cases hstep
  | reap =>
    simp only [Life.step] at hstep
    split at hstep
    · rename_i hreap
      rw [hreap.1] at h
      cases hstep
      exact h.resolve_right hreap.2
    · cases hstep
  | reset =>
    simp only [Life.step] at hstep
    split at hstep
    · rename_i hplace
      rw [hplace] at h
      cases hstep
      exact ⟨rfl, h⟩
    · cases hstep

theorem living_of_lives {pidfile : Bytes} {getpid : Nat} {s : Life}
    (h : Lives pidfile getpid s) : Living pidfile s := by
  apply h.invariant (I := Living pidfile) Started.living
  intro a b e ha hstep
  obtain ⟨hmask, hfiles⟩ := step_frame hstep
  constructor
  · rw [hmask]
    exact ha.mask
  · rw [hfiles]
    exact ha.file
  · exact ha.knows.step hstep

theorem Place.Knows.worker_eq {place : Place} {child_pid w : Int} {worker : Option Int}
    (h : place.Knows child_pid worker) (hpos : 0 < child_pid) (hw : worker = some w) :
    w = child_pid := by
  subst hw
  cases place with
  | returned | forking | single | forked r =>
    have := h.1
    omega
  | stored | waiting =>
    rcases h with h | h
    · cases h
    · exact Option.some.inj h
  | reaped => cases h
  | failed =>
    have : child_pid < 0 := h
    omega
  | exited => exact h.elim

/-- Wherever the signal comes, the handler leaves nothing behind exactly if `child_pid` is
positive and the name of the pid file is cached. -/
theorem leavesNothing_iff (pidfile : Bytes) (getpid : Nat) (s : Life)
    (h : Lives pidfile getpid s) :
    LeavesNothing pidfile s ↔ 0 < s.globals.child_pid ∧ s.globals.mask.isSome := by
  have hliving := living_of_lives h
  constructor
  · intro hclean
    by_contra hnot
    obtain ⟨i, hi⟩ := hliving.file
    have hnone := hclean.unlinked
    rw [deliver_files hnot, hi] at hnone
    cases hnone
  · rintro ⟨hpos, hsome⟩
    have hmask : s.globals.mask = some pidfile := by
      rcases hliving.mask with hnone | hmask
      · rw [hnone] at hsome
        cases hsome
      · exact hmask
    have hdeliver := deliver_positive hpos hmask
    constructor
    · rw [hdeliver]
      exact Function.update_self ..
    · intro w hw
      rw [hdeliver, hliving.knows.worker_eq hpos hw]
      simp
    · rw [hdeliver]

/-! ## The daemon 7 with the pid file "p" -/

def pidFiles : Files Bytes Bytes where
  dir := Function.update (fun _ => none) (ascii "p") (some 0)
  data := fun _ => decimal 7
  next := 1
  dir_lt := by
    intro name i h
    by_cases hname : name = ascii "p"
    · subst hname
      rw [Function.update_self] at h
      cases h
      exact Nat.one_pos
    · rw [Function.update_of_ne hname] at h
      cases h

def sampleLife : Life := ⟨⟨0, some (ascii "p")⟩, .returned, none, pidFiles, []⟩

theorem sampleLife_started : Started (ascii "p") 7 sampleLife :=
  ⟨rfl, .inr rfl, rfl, rfl, 0, by decide, rfl⟩

/-- The worker 8 has died, and the worker 9 is alive. -/
def masterEvents : List LifeEvent :=
  [.daemonWait true, .fork 8, .store, .test, .crash, .reap, .reset, .fork 9, .store, .test]

theorem masterEvents_run : (Transition.exec Life.step sampleLife masterEvents).isSome := by decide

def sampleMaster : Life := Option.get _ masterEvents_run

theorem leavesNothing_iff_sample : LeavesNothing (ascii "p") sampleMaster :=
  (leavesNothing_iff (ascii "p") 7 sampleMaster
    (Transition.reachable_exec sampleLife_started masterEvents_run)).mpr (by decide)

/-- A single process leaves the pid file, and so does a master that is signalled before it has
stored the pid of its worker, which goes on alone. -/
theorem daemon_leaves_pidfile :
    (∃ s, Lives (ascii "p") 7 s ∧ s.globals.mask = some (ascii "p") ∧ s.place = .single ∧
      s.deliver.place = .exited ∧ (s.deliver.files.dir (ascii "p")).isSome) ∧
    ∃ s, Lives (ascii "p") 7 s ∧ s.globals.mask = some (ascii "p") ∧ s.worker = some 8 ∧
      s.deliver.place = .exited ∧ (s.deliver.files.dir (ascii "p")).isSome ∧
      s.deliver.signalled = [] :=
  ⟨Transition.exists_reachable_of_exec sampleLife_started
      (show (Transition.exec Life.step sampleLife [.daemonWait false]).any _ by decide),
    Transition.exists_reachable_of_exec sampleLife_started
      (show (Transition.exec Life.step sampleLife [.daemonWait true, .fork 8]).any _ by decide)⟩

end Svnsrv.Daemon
