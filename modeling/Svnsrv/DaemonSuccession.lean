import Svnsrv.Lib.Transition
import Svnsrv.DaemonRestart

/-!
# Who is found after a restart

The pid file holds the pid of the old daemon until its successor truncates it, and the
successor exists only once the old daemon has removed the file or is gone. So the
launcher finds the one or the other, and the other if the old daemon is gone.
-/

namespace Svnsrv.Daemon

open CText
set_option autoImplicit false

/-! ## The invariant -/

/-- The old daemon does not unlink the pid file any more. -/
def Old.Quiet (pidfile : Bytes) : Old → Prop
  | .running _ => False
  | .handling deeds => .unlink pidfile ∉ deeds
  | .gone => True

/-- A handler unlinks the pid file once at most, and nothing else. -/
def Old.Tidy (pidfile : Bytes) : Old → Prop
  | .handling deeds => deeds.count (.unlink pidfile) ≤ 1 ∧ ∀ path, .unlink path ∈ deeds → path = pidfile
  | _ => True

def Named (s : Sys) (p : Nat) : Prop := ∀ x, s.table p = some x → x = .daemon

namespace Restart

variable (pidfile : Bytes) (old : Nat) (s : Restart)

/-- What the old daemon has written may still be there. -/
def Stale : Prop := s.kin.length < 2 ∨ s.old = .gone

/-- The pid file holds the pid of a process that is a daemon if it is there. -/
def Entered (n : Nat) : Prop :=
  Named s.sys n ∧ ∃ i, s.sys.files.dir pidfile = some i ∧ s.sys.files.data i = decimal n

/-- What can be read from a file that has been the pid file. -/
def Content (i : Nat) : Prop :=
  (s.sys.files.data i = decimal old ∧ s.Stale) ∨ ∃ c n, s.kin = [c, n] ∧
    (s.sys.files.data i = [] ∨ (s.sys.files.data i = decimal n ∧ s.Entered pidfile n))

/-- The pid that has been read there. -/
def Found (pid : Int) : Prop :=
  (pid = old ∧ s.Stale) ∨ ∃ c n : Nat, s.kin = [c, n] ∧ pid = n ∧ s.Entered pidfile n

/-- The child of the launcher, before it has forked. -/
def ElderAt : Proc → Prop
  | .other | .leaving | .checking .opening => True
  | .checking (.reading i) => s.sys.files.data i = decimal old
  | .checking (.probing pid) => pid = old
  | .forking => s.old = .gone ∨ (s.old.Quiet pidfile ∧ s.sys.files.dir pidfile = none)
  | _ => False

/-- The process that the child has forked. -/
def YoungerAt (n : Nat) : Proc → Prop
  | .detaching | .leaving => True
  | .writing i => s.sys.files.dir pidfile = some i ∧ s.sys.files.data i = []
  | .daemon => ∃ i, s.sys.files.dir pidfile = some i ∧
    (s.sys.files.data i = decimal n ∨ s.sys.files.data i = [])
  | _ => False

/-- The processes that the restart has started. -/
inductive Chain : List Nat → Prop
  | nobody : Chain []
  | elder {c : Nat} (hc : c = old → s.old = .gone)
      (at_c : ∀ x, s.sys.table c = some x → s.ElderAt pidfile old x) : Chain [c]
  | both {c n : Nat} (hc : c = old → s.old = .gone) (hn : n = old → s.old = .gone) (hne : n ≠ c)
      (hmax : n ≤ pidMax) (quiet : s.old.Quiet pidfile)
      (at_c : ∀ x, s.sys.table c = some x → x = .leaving)
      (at_n : ∀ x, s.sys.table n = some x → s.YoungerAt pidfile n x) : Chain [c, n]

/-- The child of the launcher has ended. -/
def Reaped : Prop := ∀ c, s.kin.head? = some c → s.sys.table c = none

def RecheckAt : Check → Prop
  | .opening => True
  | .reading i => s.Content pidfile old i
  | .probing pid => s.Found pidfile old pid

def LauncherAt : Launcher → Prop
  | .checking _ | .parsing _ | .signalling _ | .waiting _ | .forking => s.kin = []
  | .waitingChild c => s.kin.head? = some c
  | .rechecking c => s.Reaped ∧ s.RecheckAt pidfile old c
  | .returned _ => True

structure Sane : Prop where
  range : 0 < old ∧ old ≤ pidMax
  present : s.old ≠ .gone → s.sys.table old = some .daemon
  missing : s.sys.files.dir pidfile = none → s.old.Quiet pidfile
  tidy : s.old.Tidy pidfile
  members : ∀ p x, s.sys.table p = some x →
    (x = .other ∧ p ≠ old) ∨ (p = old ∧ s.old ≠ .gone) ∨ p ∈ s.kin
  chain : s.Chain pidfile old s.kin
  file : ∀ i, s.sys.files.dir pidfile = some i → s.Content pidfile old i
  launcher : s.LauncherAt pidfile old s.launcher

end Restart

open Restart

section Launcher

variable {pidfile : Bytes} {old self : Nat} {s t : Restart}

theorem Restart.Sane.goto (h : s.Sane pidfile old) {l : Launcher} (hl : s.LauncherAt pidfile old l) :
    Sane pidfile old { s with launcher := l } where
  range := h.range
  present := h.present
  missing := h.missing
  tidy := h.tidy
  members := h.members
  chain := by
    have hchain := h.chain
    change Chain pidfile old _ s.kin
    generalize s.kin = kin at hchain ⊢
    cases hchain with
    | nobody => exact .nobody
    | elder hc at_c => exact .elder hc at_c
    | both hc hn hne hmax quiet at_c at_n => exact .both hc hn hne hmax quiet at_c at_n
  file := h.file
  launcher := hl

theorem scan_content (h : s.Sane pidfile old) {i : Nat} (hi : s.Content pidfile old i) {pid : Int}
    (hscan : scanInt (s.sys.files.data i) = some pid) : s.Found pidfile old pid := by
  rcases hi with ⟨hold, hstale⟩ | ⟨c, n, hkin, hempty | ⟨hn, hentered⟩⟩
  · rw [hold, scanInt_decimal h.range.2] at hscan
    exact .inl ⟨(Option.some.inj hscan).symm, hstale⟩
  · rw [hempty] at hscan
    cases hscan
  · have hchain := h.chain
    rw [hkin] at hchain
    cases hchain with
    | both _ _ _ hmax _ _ _ =>
      rw [hn, scanInt_decimal hmax] at hscan
      exact .inr ⟨c, n, hkin, (Option.some.inj hscan).symm, hentered⟩

theorem Restart.Sane.look {group : Bool} (h : s.Sane pidfile old)
    (hstep : s.step pidfile self old (.look group) = some t) : t.Sane pidfile old := by
  have hl := h.launcher
  simp only [Restart.step] at hstep
  split at hstep
  · rename_i c hlauncher
    rw [hlauncher] at hl
    split at hstep
    · cases hstep
      exact h.goto hl
    · cases hstep
      apply h.goto
      split
      · trivial
      · exact hl
  · rename_i c hlauncher
    rw [hlauncher] at hl
    obtain ⟨hreaped, hcheck⟩ := hl
    split at hstep
    · rename_i c' hnext
      cases hstep
      refine h.goto ⟨hreaped, ?_⟩
      rcases Check.next_inl hnext with ⟨rfl, i, hi, rfl⟩ | ⟨i, pid, rfl, hscan, -, -, rfl⟩
      · exact h.file i hi
      · exact scan_content h hcheck hscan
    · cases hstep
      exact h.goto trivial
  · cases hstep

end Launcher

/-! ## The old daemon -/

section OldDaemon

variable {pidfile : Bytes} {old self : Nat} {s t : Restart}

theorem content_elder (hkin : s.kin.length < 2) {i : Nat} (hi : s.Content pidfile old i) :
    s.sys.files.data i = decimal old := by
  rcases hi with ⟨hold, -⟩ | ⟨c, n, hpair, -⟩
  · exact hold
  · rw [hpair] at hkin
    exact absurd hkin (Nat.lt_irrefl 2)

theorem found_elder (hkin : s.kin.length < 2) {pid : Int} (hpid : s.Found pidfile old pid) :
    pid = old := by
  rcases hpid with ⟨hold, -⟩ | ⟨c, n, hpair, -⟩
  · exact hold
  · rw [hpair] at hkin
    exact absurd hkin (Nat.lt_irrefl 2)

theorem elderAt_mono {x : Proc} (hdata : t.sys.files.data = s.sys.files.data)
    (hforking : s.ElderAt pidfile old .forking → t.ElderAt pidfile old .forking)
    (h : s.ElderAt pidfile old x) : t.ElderAt pidfile old x := by
  cases x with
  | forking => exact hforking h
  | checking c =>
    cases c with
    | reading i =>
      change t.sys.files.data i = _
      rw [hdata]
      exact h
    | _ => exact h
  | _ => exact h

theorem launcherAt_mono {l : Launcher} (hkin : t.kin = s.kin)
    (hrecheck : ∀ c, s.Reaped → s.RecheckAt pidfile old c → t.Reaped ∧ t.RecheckAt pidfile old c)
    (hl : s.LauncherAt pidfile old l) : t.LauncherAt pidfile old l := by
  cases l with
  | rechecking c => exact hrecheck c hl.1 hl.2
  | returned r => trivial
  | waitingChild c =>
    change t.kin.head? = some c
    rw [hkin]
    exact hl
  | _ => exact hkin.trans hl

theorem youngerAt_congr {n : Nat} {x : Proc} (hfiles : t.sys.files = s.sys.files)
    (h : s.YoungerAt pidfile n x) : t.YoungerAt pidfile n x := by
  cases x with
  | writing i =>
    change t.sys.files.dir pidfile = _ ∧ t.sys.files.data i = _
    rw [hfiles]
    exact h
  | daemon =>
    change ∃ i, t.sys.files.dir pidfile = _ ∧ (t.sys.files.data i = _ ∨ t.sys.files.data i = _)
    rw [hfiles]
    exact h
  | _ => exact h

/-- Processes end, and the old daemon has less to do. -/
structure Fades (pidfile : Bytes) (s t : Restart) : Prop where
  files : t.sys.files = s.sys.files
  kin : t.kin = s.kin
  launcher : t.launcher = s.launcher
  table : ∀ p x, t.sys.table p = some x → s.sys.table p = some x
  quiet : s.old.Quiet pidfile → t.old.Quiet pidfile
  gone : s.old = .gone → t.old = .gone

theorem Fades.stale (h : Fades pidfile s t) (hs : s.Stale) : t.Stale := by
  rw [Restart.Stale, h.kin]
  exact hs.imp_right h.gone

theorem Fades.entered (h : Fades pidfile s t) {n : Nat} (hn : s.Entered pidfile n) :
    t.Entered pidfile n := by
  rw [Restart.Entered, h.files]
  exact ⟨fun x hx => hn.1 x (h.table n x hx), hn.2⟩

theorem Fades.content (h : Fades pidfile s t) {i : Nat} (hi : s.Content pidfile old i) :
    t.Content pidfile old i := by
  rw [Restart.Content, h.files, h.kin]
  rcases hi with ⟨hold, hstale⟩ | ⟨c, n, hkin, hempty | ⟨hn, hentered⟩⟩
  · exact .inl ⟨hold, h.stale hstale⟩
  · exact .inr ⟨c, n, hkin, .inl hempty⟩
  · exact .inr ⟨c, n, hkin, .inr ⟨hn, h.entered hentered⟩⟩

theorem Fades.forking (h : Fades pidfile s t) (hf : s.ElderAt pidfile old .forking) :
    t.ElderAt pidfile old .forking := by
  rcases hf with hgone | ⟨hquiet, hnone⟩
  · exact .inl (h.gone hgone)
  · refine .inr ⟨h.quiet hquiet, ?_⟩
    rw [h.files]
    exact hnone

theorem Fades.chain (h : Fades pidfile s t) {kin : List Nat} (hchain : s.Chain pidfile old kin) :
    t.Chain pidfile old kin := by
  cases hchain with
  | nobody => exact .nobody
  | elder hc at_c =>
    exact .elder (fun heq => h.gone (hc heq)) fun x hx =>
      elderAt_mono (congrArg Files.data h.files) h.forking (at_c x (h.table _ x hx))
  | both hc hn hne hmax quiet at_c at_n =>
    exact .both (fun heq => h.gone (hc heq)) (fun heq => h.gone (hn heq)) hne hmax (h.quiet quiet)
      (fun x hx => at_c x (h.table _ x hx)) fun x hx => youngerAt_congr h.files
        (at_n x (h.table _ x hx))

theorem Fades.reaped (h : Fades pidfile s t) (hr : s.Reaped) : t.Reaped := by
  intro c hc
  rw [h.kin] at hc
  by_contra hne
  obtain ⟨x, hx⟩ := Option.ne_none_iff_exists'.mp hne
  have hsome := h.table c x hx
  rw [hr c hc] at hsome
  cases hsome

theorem Fades.launcherAt (h : Fades pidfile s t) {l : Launcher} (hl : s.LauncherAt pidfile old l) :
    t.LauncherAt pidfile old l := by
  refine launcherAt_mono h.kin (fun c hreaped hcheck => ⟨h.reaped hreaped, ?_⟩) hl
  cases c with
  | opening => trivial
  | reading i => exact h.content hcheck
  | probing pid =>
    rcases hcheck with ⟨hold, hstale⟩ | ⟨c, n, hkin, hn, hentered⟩
    · exact .inl ⟨hold, h.stale hstale⟩
    · exact .inr ⟨c, n, h.kin.trans hkin, hn, h.entered hentered⟩

theorem Restart.Sane.fade (hs : s.Sane pidfile old) (h : Fades pidfile s t)
    (hpresent : s.old ≠ .gone → (t.old ≠ .gone ∧ t.sys.table old = some .daemon) ∨
      (t.old = .gone ∧ t.sys.table old = none))
    (htidy : t.old.Tidy pidfile) : t.Sane pidfile old where
  range := hs.range
  present := by
    intro hne
    rcases hpresent (fun hgone => hne (h.gone hgone)) with ⟨-, hdaemon⟩ | ⟨hgone, -⟩
    · exact hdaemon
    · exact absurd hgone hne
  missing := by
    rw [h.files]
    exact fun hnone => h.quiet (hs.missing hnone)
  tidy := htidy
  members := by
    intro p x hx
    rw [h.kin]
    rcases hs.members p x (h.table p x hx) with hother | ⟨rfl, hne⟩ | hmem
    · exact .inl hother
    · rcases hpresent hne with ⟨hne', -⟩ | ⟨-, hnone⟩
      · exact .inr (.inl ⟨rfl, hne'⟩)
      · rw [hnone] at hx
        cases hx
    · exact .inr (.inr hmem)
  chain := by
    rw [h.kin]
    exact h.chain hs.chain
  file := by
    rw [h.files]
    exact fun i hi => h.content (hs.file i hi)
  launcher := by
    rw [h.launcher]
    exact h.launcherAt hs.launcher

theorem Restart.Sane.turn (h : s.Sane pidfile old) {o : Old} (hne : s.old ≠ .gone)
    (ho : o ≠ .gone) (hquiet : s.old.Quiet pidfile → o.Quiet pidfile) (htidy : o.Tidy pidfile) :
    Sane pidfile old { s with old := o } :=
  h.fade ⟨rfl, rfl, rfl, fun _ _ hx => hx, hquiet, fun hgone => absurd hgone hne⟩
    (fun _ => .inl ⟨ho, h.present hne⟩) htidy

theorem Restart.Sane.vanish (h : s.Sane pidfile old) :
    Sane pidfile old { s with sys := s.sys.set old none, old := .gone } := by
  apply h.fade (t := { s with sys := s.sys.set old none, old := .gone }) ?_ ?_ trivial
  · refine ⟨rfl, rfl, rfl, fun p x hx => ?_, fun _ => trivial, fun _ => rfl⟩
    rcases set_cases hx with ⟨-, ⟨⟩⟩ | ⟨-, hx⟩
    exact hx
  · exact fun _ => .inr ⟨rfl, Function.update_self ..⟩

theorem tidy_signalDaemonKill {g : Globals} (hmask : g.mask = none ∨ g.mask = some pidfile) :
    (Old.handling (signalDaemonKill g)).Tidy pidfile := by
  have hunlink : g.unlinkMask.count (.unlink pidfile) ≤ 1 ∧
      ∀ path, .unlink path ∈ g.unlinkMask → path = pidfile := by
    rcases hmask with hmask | hmask
    · simp [Globals.unlinkMask, hmask]
    · simp [Globals.unlinkMask, hmask]
  obtain ⟨hcount, hpath⟩ := hunlink
  unfold signalDaemonKill
  split
  · simp [Old.Tidy]
  · split
    · split
      · refine ⟨?_, fun path hmem => hpath path ?_⟩
        · simpa [List.count_append] using hcount
        · simpa using hmem
      · simp [Old.Tidy]
    · split
      · refine ⟨?_, fun path hmem => hpath path ?_⟩
        · simpa [List.count_append] using hcount
        · simpa using hmem
      · simp [Old.Tidy]

theorem Restart.Sane.unlink (h : s.Sane pidfile old) {path : Bytes} {deeds : List Deed}
    (hold : s.old = .handling (.unlink path :: deeds)) :
    Sane pidfile old { s with sys := { s.sys with files := s.sys.files.unlink path },
                              old := .handling deeds } := by
  have htidy := h.tidy
  rw [hold] at htidy
  obtain ⟨hcount, hpath⟩ := htidy
  obtain rfl := hpath path List.mem_cons_self
  rw [List.count_cons_self] at hcount
  have hquiet : Old.Quiet path (.handling deeds) :=
    List.count_eq_zero.mp (by omega)
  have hloud : ¬s.old.Quiet path := by
    rw [hold]
    exact fun hq => hq List.mem_cons_self
  have hhere : s.old ≠ .gone := by
    rw [hold]
    simp
  have hshort : s.kin.length < 2 := by
    have hchain := h.chain
    generalize s.kin = kin at hchain ⊢
    cases hchain with
    | nobody => exact Nat.zero_lt_two
    | elder _ _ => exact Nat.one_lt_two
    | both _ _ _ _ quiet _ _ => exact absurd quiet hloud
  constructor
  · exact h.range
  · exact fun _ => h.present (by simp [hold])
  · exact fun _ => hquiet
  · exact ⟨by omega, fun path' hmem => hpath path' (List.mem_cons_of_mem _ hmem)⟩
  · intro p x hx
    rcases h.members p x hx with hother | ⟨heq, -⟩ | hmem
    · exact .inl hother
    · exact .inr (.inl ⟨heq, by simp⟩)
    · exact .inr (.inr hmem)
  · have hchain := h.chain
    change Chain path old _ s.kin
    generalize s.kin = kin at hchain ⊢
    cases hchain with
    | nobody => exact .nobody
    | elder hc at_c =>
      refine .elder (fun heq => absurd (hc heq) hhere) fun x hx =>
        elderAt_mono (s := s) rfl ?_ (at_c x hx)
      rintro (hgone | ⟨hq, -⟩)
      · exact absurd hgone hhere
      · exact absurd hq hloud
    | both _ _ _ _ quiet _ _ => exact absurd quiet hloud
  · intro i hi
    have hnone : (s.sys.files.unlink path).dir path = none := Function.update_self ..
    rw [hnone] at hi
    cases hi
  · refine launcherAt_mono (s := s) rfl (fun check hreaped hcheck => ⟨hreaped, ?_⟩) h.launcher
    cases check with
    | opening => trivial
    | reading i => exact .inl ⟨content_elder hshort hcheck, .inl hshort⟩
    | probing pid => exact .inl ⟨found_elder hshort hcheck, .inl hshort⟩

theorem Restart.Sane.handle {g : Globals} (h : s.Sane pidfile old)
    (hstep : s.step pidfile self old (.handle g) = some t) : t.Sane pidfile old := by
  simp only [Restart.step] at hstep
  split at hstep
  · rename_i hg
    obtain ⟨hrunning, hmask⟩ := hg
    cases hstep
    apply h.turn
    · simp [hrunning]
    · simp
    · rw [hrunning]
      exact False.elim
    · exact tidy_signalDaemonKill hmask
  · cases hstep

theorem Restart.Sane.deed (h : s.Sane pidfile old)
    (hstep : s.step pidfile self old .deed = some t) : t.Sane pidfile old := by
  have hskip : ∀ d deeds, s.old = .handling (d :: deeds) → (∀ path, d ≠ .unlink path) →
      Sane pidfile old { s with old := .handling deeds } := by
    intro d deeds hold hd
    have htidy := h.tidy
    rw [hold] at htidy
    apply h.turn
    · simp [hold]
    · simp
    · rw [hold]
      exact fun hq hmem => hq (List.mem_cons_of_mem d hmem)
    · refine ⟨?_, fun path hmem => htidy.2 path (List.mem_cons_of_mem d hmem)⟩
      rw [← List.count_cons_of_ne (hd pidfile)]
      exact htidy.1
  simp only [Restart.step] at hstep
  split at hstep
  · rename_i path deeds hold
    cases hstep
    exact h.unlink hold
  · cases hstep
    exact h.vanish
  · rename_i d deeds hunlink hexit hold
    cases hstep
    exact hskip d deeds hold hunlink
  · cases hstep

end OldDaemon

/-! ## The processes of the restart -/

section Kin

variable {pidfile : Bytes} {old self c n : Nat} {s t : Restart}

theorem Restart.Sane.elder (h : s.Sane pidfile old) (hkin : s.kin = [c]) :
    (c = old → s.old = .gone) ∧ ∀ x, s.sys.table c = some x → s.ElderAt pidfile old x := by
  have hchain := h.chain
  rw [hkin] at hchain
  cases hchain with
  | elder hc at_c => exact ⟨hc, at_c⟩

theorem Restart.Sane.present_set (h : s.Sane pidfile old) {p : Nat} (hp : p = old → s.old = .gone)
    (o : Option Proc) (hne : s.old ≠ .gone) : (s.sys.set p o).table old = some .daemon := by
  have hself : old ≠ p := fun heq => hne (hp heq.symm)
  rw [← h.present hne]
  exact Function.update_of_ne hself ..

theorem not_reaped {l : List Nat} {x : Proc} (hkin : s.kin = c :: l)
    (hc : s.sys.table c = some x) : ¬s.Reaped := by
  intro hreaped
  have hnone := hreaped c (by rw [hkin]; rfl)
  rw [hc] at hnone
  cases hnone

theorem Restart.Sane.set_elder (h : s.Sane pidfile old) (hkin : s.kin = [c]) {x y : Proc}
    (hcurrent : s.sys.table c = some y) (hx : s.ElderAt pidfile old x) :
    Sane pidfile old { s with sys := s.sys.set c (some x) } := by
  obtain ⟨hc, at_c⟩ := h.elder hkin
  have hshort : s.kin.length < 2 := by
    rw [hkin]
    exact Nat.one_lt_two
  constructor
  · exact h.range
  · exact h.present_set hc _
  · exact h.missing
  · exact h.tidy
  · intro p y hy
    rcases set_cases hy with ⟨rfl, -⟩ | ⟨-, hy⟩
    · refine .inr (.inr ?_)
      change p ∈ s.kin
      rw [hkin]
      exact List.mem_singleton_self p
    · exact h.members p y hy
  · change Chain pidfile old _ s.kin
    rw [hkin]
    refine .elder hc fun y hy => ?_
    rcases set_cases hy with ⟨-, ⟨⟩⟩ | ⟨hne, -⟩
    · exact elderAt_mono (s := s) rfl id hx
    · exact absurd rfl hne
  · exact fun i hi => .inl ⟨content_elder hshort (h.file i hi), .inl hshort⟩
  · refine launcherAt_mono (s := s) rfl (fun check hreaped => ?_) h.launcher
    exact absurd hreaped (not_reaped hkin hcurrent)

theorem Restart.Sane.mem_kin (h : s.Sane pidfile old) {p : Nat} {x : Proc}
    (hp : s.sys.table p = some x) (hother : x ≠ .other) (hdaemon : x ≠ .daemon) : p ∈ s.kin := by
  rcases h.members p x hp with ⟨heq, -⟩ | ⟨rfl, hne⟩ | hmem
  · exact absurd heq hother
  · rw [h.present hne] at hp
    exact absurd (Option.some.inj hp).symm hdaemon
  · exact hmem

/-- A process of the restart that may still fork is the first one. -/
theorem Restart.Sane.kin_of_elder (h : s.Sane pidfile old) {p : Nat} {x : Proc}
    (hp : s.sys.table p = some x) (hother : x ≠ .other) (hdaemon : x ≠ .daemon)
    (hleaving : x ≠ .leaving) (hyounger : ∀ n, ¬s.YoungerAt pidfile n x) : s.kin = [p] := by
  have hmem := h.mem_kin hp hother hdaemon
  have hchain := h.chain
  generalize s.kin = kin at hchain hmem
  cases hchain with
  | nobody => cases hmem
  | elder _ _ =>
    obtain rfl := List.mem_singleton.mp hmem
    rfl
  | @both c n _ _ _ _ _ at_c at_n =>
    rcases List.mem_cons.mp hmem with rfl | hmem
    · exact absurd (at_c x hp) hleaving
    · obtain rfl := List.mem_singleton.mp hmem
      exact absurd (at_n x hp) (hyounger p)

theorem Restart.Sane.exec {ok : Bool} (h : s.Sane pidfile old)
    (hstep : s.step pidfile self old (.exec ok) = some t) : t.Sane pidfile old := by
  have hl := h.launcher
  simp only [Restart.step] at hstep
  split at hstep
  · rename_i c hlauncher
    split at hstep
    · rename_i hother
      cases hstep
      rw [hlauncher] at hl
      have hhead : s.kin.head? = some c := hl
      have hkin : s.kin = [c] := by
        have hchain := h.chain
        generalize s.kin = kin at hchain hhead
        cases hchain with
        | nobody => cases hhead
        | elder _ _ =>
          cases hhead
          rfl
        | both _ _ _ _ _ at_c _ =>
          cases hhead
          cases at_c _ hother
      apply h.set_elder hkin hother
      cases ok <;> trivial
    · cases hstep
  · cases hstep

theorem Restart.Sane.check {p : Nat} {group : Bool} (h : s.Sane pidfile old)
    (hstep : s.step pidfile self old (.start (.check p group)) = some t) :
    t.Sane pidfile old := by
  simp only [Restart.step, Sys.step] at hstep
  split at hstep
  · rename_i check hp
    have hkin := h.kin_of_elder hp (by simp) (by simp) (by simp) (fun _ => id)
    obtain ⟨hc, at_c⟩ := h.elder hkin
    have hcheck := at_c _ hp
    split at hstep
    · rename_i check' hnext
      cases hstep
      apply h.set_elder hkin hp
      rcases Check.next_inl hnext with ⟨rfl, i, hi, rfl⟩ | ⟨i, pid, rfl, hscan, -, -, rfl⟩
      · exact content_elder (by rw [hkin]; exact Nat.one_lt_two) (h.file i hi)
      · have hdata : s.sys.files.data i = decimal old := hcheck
        rw [hdata, scanInt_decimal h.range.2] at hscan
        exact (Option.some.inj hscan).symm
    · rename_i r hnext
      cases hstep
      apply h.set_elder hkin hp
      have hpos := h.range.1
      rcases Check.next_inr hnext with ⟨rfl, hnone, rfl⟩ | ⟨i, rfl, rfl, hself⟩ | ⟨pid, rfl, rfl⟩
      · exact .inr ⟨h.missing hnone, hnone⟩
      · have hdata : s.sys.files.data i = decimal old := hcheck
        have hpid := hself old (by rw [hdata, scanInt_decimal h.range.2])
        exact .inl (hc (by omega))
      · obtain rfl : pid = old := hcheck
        split
        · rw [if_neg (by omega)]
          trivial
        · rename_i hrunning
          refine .inl (by_contra fun hne => hrunning ?_)
          simp [Sys.running, hpos, h.present hne]
  · cases hstep

theorem Restart.Sane.gone_of_free (h : s.Sane pidfile old) (hfree : s.sys.free c) (hc : c = old) :
    s.old = .gone := by
  by_contra hne
  have hdaemon := h.present hne
  rw [← hc, hfree.2.2] at hdaemon
  cases hdaemon

theorem Restart.Sane.bear (h : s.Sane pidfile old) (hkin : s.kin = []) (hfree : s.sys.free c) :
    Sane pidfile old { s with sys := s.sys.set c (some .other), launcher := .waitingChild c,
                              kin := s.kin ++ [c] } := by
  have hshort : s.kin.length < 2 := by
    rw [hkin]
    exact Nat.zero_lt_two
  constructor
  · exact h.range
  · exact h.present_set (h.gone_of_free hfree) _
  · exact h.missing
  · exact h.tidy
  · intro p x hx
    rcases set_cases hx with ⟨rfl, -⟩ | ⟨-, hx⟩
    · exact .inr (.inr (List.mem_append_right _ (List.mem_singleton_self _)))
    · exact (h.members p x hx).imp_right fun hmem => hmem.imp_right (List.mem_append_left _)
  · change Chain pidfile old _ (s.kin ++ [c])
    rw [hkin]
    refine .elder (h.gone_of_free hfree) fun x hx => ?_
    rcases set_cases hx with ⟨-, ⟨⟩⟩ | ⟨hne, -⟩
    · trivial
    · exact absurd rfl hne
  · refine fun i hi => .inl ⟨content_elder hshort (h.file i hi), .inl ?_⟩
    change (s.kin ++ [c]).length < 2
    rw [hkin]
    exact Nat.one_lt_two
  · change (s.kin ++ [c]).head? = some c
    rw [hkin]
    rfl

theorem Restart.Sane.forkChild {child : Option Nat} (h : s.Sane pidfile old)
    (hstep : s.step pidfile self old (.fork child) = some t) : t.Sane pidfile old := by
  have hl := h.launcher
  simp only [Restart.step] at hstep
  split at hstep
  · rename_i hlauncher
    rw [hlauncher] at hl
    have hkin : s.kin = [] := hl
    cases child with
    | none =>
      cases hstep
      apply h.goto (l := .rechecking .opening)
      refine ⟨fun c hc => ?_, trivial⟩
      rw [hkin] at hc
      cases hc
    | some c =>
      simp only at hstep
      split at hstep
      · rename_i hfree
        cases hstep
        exact h.bear hkin hfree
      · cases hstep
  · cases hstep

/-- The child forks the new daemon, which the old one leaves alone. -/
theorem Restart.Sane.succeed (h : s.Sane pidfile old) (hkin : s.kin = [c])
    (hforking : s.sys.table c = some .forking) (hfree : s.sys.free n) :
    Sane pidfile old { s with sys := (s.sys.set c (some .leaving)).set n (some .detaching),
                              kin := s.kin ++ [n] } := by
  have hleaving : Sane pidfile old { s with sys := s.sys.set c (some .leaving) } :=
    h.set_elder hkin hforking trivial
  obtain ⟨hc, at_c⟩ := h.elder hkin
  have hpassed : s.old = .gone ∨ (s.old.Quiet pidfile ∧ s.sys.files.dir pidfile = none) :=
    at_c _ hforking
  have hquiet : s.old.Quiet pidfile := by
    rcases hpassed with hgone | ⟨hquiet, -⟩
    · rw [hgone]
      trivial
    · exact hquiet
  have hne : n ≠ c := by
    rintro rfl
    rw [hfree.2.2] at hforking
    cases hforking
  have hshort : s.kin.length < 2 := by
    rw [hkin]
    exact Nat.one_lt_two
  constructor
  · exact h.range
  · exact hleaving.present_set (h.gone_of_free hfree) _
  · exact h.missing
  · exact h.tidy
  · intro p x hx
    rcases set_cases hx with ⟨rfl, -⟩ | ⟨-, hx⟩
    · exact .inr (.inr (List.mem_append_right _ (List.mem_singleton_self _)))
    · exact (hleaving.members p x hx).imp_right fun hmem =>
        hmem.imp_right (List.mem_append_left _)
  · change Chain pidfile old _ (s.kin ++ [n])
    rw [hkin]
    refine .both hc (h.gone_of_free hfree) hne hfree.2.1 hquiet (fun x hx => ?_) fun x hx => ?_
    · rcases set_cases hx with ⟨heq, -⟩ | ⟨-, hx⟩
      · exact absurd heq hne.symm
      · rcases set_cases hx with ⟨-, ⟨⟩⟩ | ⟨hc', -⟩
        · rfl
        · exact absurd rfl hc'
    · rcases set_cases hx with ⟨-, ⟨⟩⟩ | ⟨hn', -⟩
      · trivial
      · exact absurd rfl hn'
  · intro i hi
    rcases hpassed with hgone | ⟨-, hnone⟩
    · exact .inl ⟨content_elder hshort (h.file i hi), .inr hgone⟩
    · have hsome : s.sys.files.dir pidfile = some i := hi
      rw [hnone] at hsome
      cases hsome
  · have hl := h.launcher
    change LauncherAt pidfile old
      { s with sys := (s.sys.set c (some .leaving)).set n (some .detaching),
               kin := s.kin ++ [n] } s.launcher
    generalize s.launcher = l at hl ⊢
    cases l with
    | rechecking check => exact absurd hl.1 (not_reaped hkin hforking)
    | returned r => trivial
    | waitingChild c' =>
      change (s.kin ++ [n]).head? = some c'
      have hhead : s.kin.head? = some c' := hl
      rw [hkin] at hhead ⊢
      exact hhead
    | _ =>
      have hnil : s.kin = [] := hl
      rw [hkin] at hnil
      cases hnil

theorem Restart.Sane.startFork {p : Nat} {child : Option Nat} (h : s.Sane pidfile old)
    (hstep : s.step pidfile self old (.start (.fork p child)) = some t) : t.Sane pidfile old := by
  simp only [Restart.step, Sys.step] at hstep
  split at hstep
  · rename_i hp
    have hkin := h.kin_of_elder hp (by simp) (by simp) (by simp) (fun _ => id)
    cases child with
    | none =>
      cases hstep
      have hset := h.set_elder hkin hp (x := .leaving) trivial
      simpa using hset
    | some n =>
      simp only at hstep
      split at hstep
      · rename_i hfree
        cases hstep
        exact h.succeed hkin hp hfree
      · cases hstep
  · cases hstep

theorem Restart.Sane.set_younger (h : s.Sane pidfile old) (hkin : s.kin = [c, n]) {x y : Proc}
    (hcurrent : s.sys.table n = some y) (hy : y ≠ .daemon) {files : Files Bytes Bytes}
    (hdir : ∀ i, files.dir pidfile = some i → s.sys.files.dir pidfile = some i ∨ files.data i = [])
    (hsome : files.dir pidfile = none → s.sys.files.dir pidfile = none)
    (hdata : ∀ i, files.data i = s.sys.files.data i ∨ files.data i = [] ∨
      (files.data i = decimal n ∧ x = .daemon ∧ files.dir pidfile = some i))
    (hx : ∀ t : Restart, t.sys.files = files → t.YoungerAt pidfile n x) :
    Sane pidfile old { s with sys := { s.sys.set n (some x) with files } } := by
  have hunnamed : ¬s.Entered pidfile n := fun hentered => hy (hentered.1 y hcurrent)
  have hset : (Function.update s.sys.table n (some x)) n = some x := Function.update_self ..
  have hcontent : ∀ {i}, s.Content pidfile old i →
      Content pidfile old { s with sys := { s.sys.set n (some x) with files } } i := by
    intro i hi
    rcases hdata i with hsame | hempty | ⟨hn, hdaemon, hdir⟩
    · rcases hi with ⟨hold, hstale⟩ | ⟨c', n', hpair, hempty | ⟨-, hnamed⟩⟩
      · exact .inl ⟨hsame.trans hold, hstale⟩
      · exact .inr ⟨c', n', hpair, .inl (hsame.trans hempty)⟩
      · rw [hkin] at hpair
        cases hpair
        exact absurd hnamed hunnamed
    · exact .inr ⟨c, n, hkin, .inl hempty⟩
    · refine .inr ⟨c, n, hkin, .inr ⟨hn, fun z hz => ?_, i, hdir, hn⟩⟩
      have hz' : some x = some z := hset.symm.trans hz
      exact (Option.some.inj hz').symm.trans hdaemon
  have hchain := h.chain
  rw [hkin] at hchain
  cases hchain with
  | both hc hn hne hmax quiet at_c at_n =>
  constructor
  · exact h.range
  · exact h.present_set hn (some x)
  · exact fun hnone => h.missing (hsome hnone)
  · exact h.tidy
  · intro p z hz
    rcases set_cases (s := s.sys) hz with ⟨rfl, -⟩ | ⟨-, hz⟩
    · refine .inr (.inr ?_)
      change p ∈ s.kin
      simp [hkin]
    · exact h.members p z hz
  · change Chain pidfile old _ s.kin
    rw [hkin]
    refine .both hc hn hne hmax quiet (fun z hz => ?_) fun z hz => ?_
    · rcases set_cases (s := s.sys) hz with ⟨heq, -⟩ | ⟨-, hz⟩
      · exact absurd heq hne.symm
      · exact at_c z hz
    · rcases set_cases (s := s.sys) hz with ⟨-, ⟨⟩⟩ | ⟨hn', -⟩
      · exact hx _ rfl
      · exact absurd rfl hn'
  · intro i hi
    rcases hdir i hi with hold | hempty
    · exact hcontent (h.file i hold)
    · exact .inr ⟨c, n, hkin, .inl hempty⟩
  · refine launcherAt_mono (s := s) rfl (fun check hreaped hcheck => ⟨fun c' hc' => ?_, ?_⟩)
      h.launcher
    · have hnone := hreaped c' hc'
      have hhead : s.kin.head? = some c' := hc'
      rw [hkin] at hhead
      cases hhead
      rw [← hnone]
      exact Function.update_of_ne hne.symm ..
    · cases check with
      | opening => trivial
      | reading i => exact hcontent hcheck
      | probing pid =>
        refine .inl (hcheck.resolve_right ?_)
        rintro ⟨c', n', hpair, -, hnamed⟩
        rw [hkin] at hpair
        cases hpair
        exact hunnamed hnamed

/-- A process of the restart that may write the pid file is the second one. -/
theorem Restart.Sane.kin_of_younger (h : s.Sane pidfile old) {p : Nat} {x : Proc}
    (hp : s.sys.table p = some x) (hother : x ≠ .other) (hdaemon : x ≠ .daemon)
    (hleaving : x ≠ .leaving) (helder : ¬s.ElderAt pidfile old x) :
    ∃ c, s.kin = [c, p] ∧ s.YoungerAt pidfile p x := by
  have hmem := h.mem_kin hp hother hdaemon
  have hchain := h.chain
  generalize s.kin = kin at hchain hmem
  cases hchain with
  | nobody => cases hmem
  | elder _ at_c =>
    obtain rfl := List.mem_singleton.mp hmem
    exact absurd (at_c x hp) helder
  | @both c n _ _ _ _ _ at_c at_n =>
    rcases List.mem_cons.mp hmem with rfl | hmem
    · exact absurd (at_c x hp) hleaving
    · obtain rfl := List.mem_singleton.mp hmem
      exact ⟨c, rfl, at_n x hp⟩

theorem Restart.Sane.create {p : Nat} {ok : Bool} (h : s.Sane pidfile old)
    (hstep : s.step pidfile self old (.start (.create p ok)) = some t) : t.Sane pidfile old := by
  simp only [Restart.step, Sys.step] at hstep
  split at hstep
  · rename_i hp
    obtain ⟨c, hkin, -⟩ := h.kin_of_younger hp (by simp) (by simp) (by simp) id
    cases ok with
    | false =>
      cases hstep
      apply h.set_younger hkin hp (by simp) (fun i hi => .inl hi) id (fun i => .inl rfl)
      exact fun _ _ => trivial
    | true =>
      have hopened := Files.opened_openOrCreate s.sys.files pidfile []
      cases hstep
      apply h.set_younger hkin hp (by simp)
      · intro i hi
        obtain rfl : (s.sys.files.openOrCreate pidfile []).2 = i :=
          Option.some.inj (hopened.found.symm.trans hi)
        exact .inr (Files.put_data_self _)
      · intro hnone
        have hfound := hopened.found
        rw [show (s.sys.files.openOrCreate pidfile []).1.dir pidfile = none from hnone] at hfound
        cases hfound
      · intro i
        by_cases hi : i = (s.sys.files.openOrCreate pidfile []).2
        · subst hi
          exact .inr (.inl (Files.put_data_self _))
        · rcases hopened.data i with hsame | hempty
          · exact .inl ((Files.put_data_of_ne _ hi).trans hsame)
          · exact .inr (.inl ((Files.put_data_of_ne _ hi).trans hempty))
      · intro t' hfiles
        change t'.sys.files.dir pidfile = _ ∧ t'.sys.files.data _ = _
        rw [hfiles]
        exact ⟨hopened.found, Files.put_data_self _⟩
  · cases hstep

theorem Restart.Sane.write {p : Nat} {ok : Bool} (h : s.Sane pidfile old)
    (hstep : s.step pidfile self old (.start (.write p ok)) = some t) : t.Sane pidfile old := by
  simp only [Restart.step, Sys.step] at hstep
  split at hstep
  · rename_i i hp
    obtain ⟨c, hkin, hdir, hempty⟩ := h.kin_of_younger hp (by simp) (by simp) (by simp) id
    cases hstep
    cases ok with
    | false =>
      apply h.set_younger hkin hp (by simp) (fun j hj => .inl hj) id (fun j => .inl rfl)
      intro t' hfiles
      refine ⟨i, ?_, .inr ?_⟩
      · rw [hfiles]
        exact hdir
      · rw [hfiles]
        exact hempty
    | true =>
      have hwritten : (writePid s.sys.files i p).data i = decimal p := by
        simp [writePid, hempty]
      apply h.set_younger hkin hp (by simp)
      · exact fun j hj => .inl hj
      · exact id
      · intro j
        by_cases hj : j = i
        · subst hj
          exact .inr (.inr ⟨hwritten, rfl, hdir⟩)
        · exact .inl (Files.put_data_of_ne _ hj)
      · intro t' hfiles
        refine ⟨i, ?_, .inl ?_⟩
        · rw [hfiles]
          exact hdir
        · rw [hfiles]
          exact hwritten
  · cases hstep

end Kin

/-! ## Whole runs -/

section Runs

variable {pidfile : Bytes} {old self : Nat} {s t : Restart}

theorem Restart.Sane.die {p : Nat} (h : s.Sane pidfile old)
    (hstep : s.step pidfile self old (.start (.die p)) = some t) : t.Sane pidfile old := by
  simp only [Restart.step, Sys.step] at hstep
  by_cases hlive : (s.sys.table p).isSome
  · rw [if_pos hlive] at hstep
    cases hstep
    by_cases hp : p = old
    · subst hp
      simpa using h.vanish
    · simp only [if_neg hp]
      have hfades : Fades pidfile s { s with sys := s.sys.set p none } := by
        refine ⟨rfl, rfl, rfl, fun q x hx => ?_, id, id⟩
        rcases set_cases hx with ⟨-, ⟨⟩⟩ | ⟨-, hx⟩
        exact hx
      refine h.fade hfades (fun hne => .inl ⟨hne, ?_⟩) h.tidy
      exact h.present_set (fun heq => absurd heq hp) none hne
  · rw [if_neg hlive] at hstep
    cases hstep

theorem Restart.Sane.signal (h : s.Sane pidfile old)
    (hstep : s.step pidfile self old .signal = some t) : t.Sane pidfile old := by
  have hl := h.launcher
  simp only [Restart.step] at hstep
  split at hstep
  · rename_i pid signalled hlauncher hold
    cases hstep
    rw [hlauncher] at hl
    apply (h.goto (l := .waiting pid) hl).turn
    · simp [hold]
    · simp
    · rw [show ({ s with launcher := .waiting pid } : Restart).old = _ from hold]
      exact id
    · trivial
  · rename_i pid hlauncher hold
    cases hstep
    rw [hlauncher] at hl
    exact h.goto (l := .waiting pid) hl
  · cases hstep

theorem Restart.Sane.parse {ok : Bool} (h : s.Sane pidfile old)
    (hstep : s.step pidfile self old (.parse ok) = some t) : t.Sane pidfile old := by
  have hl := h.launcher
  simp only [Restart.step] at hstep
  split at hstep
  · rename_i pid hlauncher
    cases hstep
    rw [hlauncher] at hl
    apply h.goto
    cases ok with
    | true => exact hl
    | false => trivial
  · cases hstep

theorem Restart.Sane.wait (h : s.Sane pidfile old)
    (hstep : s.step pidfile self old .wait = some t) : t.Sane pidfile old := by
  have hl := h.launcher
  simp only [Restart.step] at hstep
  split at hstep
  · rename_i pid hlauncher
    cases hstep
    rw [hlauncher] at hl
    exact h.goto (l := .forking) hl
  · cases hstep

theorem Restart.Sane.reap (h : s.Sane pidfile old)
    (hstep : s.step pidfile self old .reap = some t) : t.Sane pidfile old := by
  have hl := h.launcher
  simp only [Restart.step] at hstep
  split at hstep
  · rename_i c hlauncher
    rw [hlauncher] at hl
    have hhead : s.kin.head? = some c := hl
    split at hstep
    · rename_i hnone
      cases hstep
      apply h.goto (l := .rechecking .opening)
      refine ⟨fun c' hc' => ?_, trivial⟩
      rw [hhead] at hc'
      cases hc'
      exact hnone
    · cases hstep
  · cases hstep

theorem Restart.Sane.step {e : RestartEvent} (h : s.Sane pidfile old)
    (hstep : s.step pidfile self old e = some t) : t.Sane pidfile old := by
  cases e with
  | look group => exact h.look hstep
  | parse ok => exact h.parse hstep
  | signal => exact h.signal hstep
  | wait => exact h.wait hstep
  | fork child => exact h.forkChild hstep
  | exec ok => exact h.exec hstep
  | reap => exact h.reap hstep
  | handle g => exact h.handle hstep
  | deed => exact h.deed hstep
  | start e =>
    cases e with
    | invoke p => cases hstep
    | appear p => cases hstep
    | die p => exact h.die hstep
    | check p group => exact h.check hstep
    | fork p child => exact h.startFork hstep
    | create p ok => exact h.create hstep
    | write p ok => exact h.write hstep

theorem Restart.Sane.names {c n : Nat} (h : s.Sane pidfile old) (hkin : s.kin = [c, n])
    (hdaemon : s.sys.table n = some .daemon) (hentered : s.Entered pidfile n) :
    NamesNewDaemon pidfile old s := by
  obtain ⟨-, i, hi, hdata⟩ := hentered
  have hchain := h.chain
  rw [hkin] at hchain
  cases hchain with
  | both _ hn _ hmax _ _ at_n =>
    refine ⟨n, i, hi, ?_, hdaemon, hn⟩
    rw [hdata]
    exact scanInt_decimal hmax

/-- The file of a daemon that has not failed to write its pid holds that pid. -/
theorem Restart.Sane.entered {c n i : Nat} (h : s.Sane pidfile old) (hkin : s.kin = [c, n])
    (hdaemon : s.sys.table n = some .daemon) (hi : s.sys.files.dir pidfile = some i)
    (hwritten : s.sys.files.data i ≠ []) : s.Entered pidfile n := by
  have hchain := h.chain
  rw [hkin] at hchain
  cases hchain with
  | both _ _ _ _ _ _ at_n =>
    obtain ⟨j, hj, hdata⟩ := at_n _ hdaemon
    obtain rfl : i = j := Option.some.inj (hi.symm.trans hj)
    refine ⟨fun x hx => ?_, i, hi, hdata.resolve_right hwritten⟩
    exact (Option.some.inj (hdaemon.symm.trans hx)).symm

end Runs

/-! ## Two restarts -/

/-- The daemon is signalled, and the launcher is about to fork. -/
def signalled : List RestartEvent :=
  [.look false, .look false, .look false, .parse true, .signal, .wait]

end Svnsrv.Daemon
