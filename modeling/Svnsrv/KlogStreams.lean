import Svnsrv.KlogRotation

/-!
# Streams of the logger

Every operation of `Klogger` in any order, from its construction to its destructor.
Both handles start on stdout and fall back to it, and four operations close what
they hold under different tests, so stdout can be closed under one of them while
the other still uses it.
-/

namespace Svnsrv.Klog

open CText
set_option autoImplicit false

/-! ## Operations -/

namespace State

def fflush (s : State) (p : FilePtr) : Option State :=
  if p = .null ∨ p ∈ s.closed then none else some s

def fflushE (s : State) : Option State :=
  (s.fflush s.klogger.logAccess).bind fun s => s.fflush s.klogger.logError

/-- The first half of `destroy`, which leaves the message in the error log. -/
def destroyError (s : State) (buffer : Bytes) : Option State :=
  if s.klogger.logError = .null then some s
  else do
    let s ← s.fwrite s.klogger.logError (.before buffer)
    let s ← s.fclose s.klogger.logError
    return { s with klogger := s.klogger.withStream .null .error }

def destroyAccess (s : State) : Option State :=
  if s.klogger.logAccess = .null then some s
  else do
    let s ← s.fclose s.klogger.logAccess
    return { s with klogger := s.klogger.withStream .null .access }

/-- `buffer` is the message that is made of `msg`. -/
def destroy (s : State) (buffer : Bytes) : Option State :=
  (s.destroyError buffer).bind destroyAccess

def destructorAccess (s : State) : Option State :=
  if s.klogger.logAccess ≠ .null ∧ s.klogger.logAccess ≠ .stdout then s.fclose s.klogger.logAccess
  else some s

def destructorError (s : State) : Option State :=
  if s.klogger.logError ≠ .null ∧ s.klogger.logError ≠ .stderr then s.fclose s.klogger.logError
  else some s

def destructor (s : State) : Option State := s.destructorAccess.bind destructorError

end State

inductive Op where
  | init (infoFile errorFile : Option Bytes) (opensInfo opensError : Bool)
  | write (call : Call)
  | fflushE
  | destroy (buffer : Bytes)

def perform (s : State) : Op → Option State
  | .init infoFile errorFile opensInfo opensError =>
    some (s.init infoFile errorFile opensInfo opensError)
  | .write call => step s call
  | .fflushE => s.fflushE
  | .destroy buffer => s.destroy buffer

/-- The operations from the construction on, and the destructor. -/
def lifetime (files : Files Bytes (List Entry)) (ops : List Op) : Option State :=
  (Transition.exec perform (State.constructed files) ops).bind State.destructor

/-! ## What must hold before a step -/

namespace State

variable (s : State)

/-- The stream that a handle holds is one that may be used. -/
def Usable (p : FilePtr) : Prop := p ≠ .null ∧ (p = .stdout → .stdout ∉ s.closed)

/-- The stream of the log is not one that its rotation leaves alone. -/
def Rollable (log : LogKind) : Prop :=
  s.klogger.stream log ≠ log.std ∧ s.klogger.stream log ≠ .null

/-- The call closes the stream of its log and opens the file again. -/
def Rolls (c : Call) : Prop := s.Rotates c ∧ s.Rollable c.log

/-- A writer has a stream, and still one if the log falls back to stdout. -/
structure FitsWrite (c : Call) : Prop where
  usable : s.Usable (s.klogger.stream c.log)
  fallback : s.Rolls c → c.turn.opens = false →
    s.klogger.stream c.log ≠ .stdout ∧ .stdout ∉ s.closed

def Fits : Op → Prop
  | .init _ _ _ _ => True
  | .write call => s.FitsWrite call
  | .fflushE => s.Usable s.klogger.logAccess ∧ s.Usable s.klogger.logError
  | .destroy _ => ¬ (s.klogger.logAccess = .stdout ∧ s.klogger.logError = .stdout) ∧
      (s.klogger.logAccess = .stdout ∨ s.klogger.logError = .stdout → .stdout ∉ s.closed)

/-- The error log is the one that the destructor does not spare stdout. -/
def FitsDestructor : Prop := s.klogger.logError = .stdout → .stdout ∉ s.closed

end State

/-- Every operation, and the destructor at the end, finds the streams fit for it. -/
def AllFit (s : State) : List Op → Prop
  | [] => s.FitsDestructor
  | op :: ops => s.Fits op ∧ ∀ t, perform s op = some t → AllFit t ops

/-! ## The invariant -/

/-- A file that a handle holds is open, and held by one handle. -/
structure Handled (s : State) : Prop where
  not_stderr : ∀ log, s.klogger.stream log ≠ .stderr
  opened : ∀ log k, s.klogger.stream log = .file k → .file k ∉ s.closed ∧ k < s.streams.length
  distinct : ∀ k, s.klogger.stream .access = .file k → s.klogger.stream .error ≠ .file k
  closed_lt : ∀ k, .file k ∈ s.closed → k < s.streams.length

theorem handled_constructed (files : Files Bytes (List Entry)) :
    Handled (State.constructed files) := by
  constructor
  · intro log h
    cases log <;> cases h
  · intro log k h
    cases log <;> cases h
  · intro k h
    cases h
  · intro k h
    cases h

section Handles

variable {s t u : State} {log : LogKind}

theorem Handled.congr (h : Handled s)
    (hstream : ∀ log, t.klogger.stream log = s.klogger.stream log) (hclosed : t.closed = s.closed)
    (hstreams : t.streams.length = s.streams.length) : Handled t := by
  constructor
  · intro log
    rw [hstream]
    exact h.not_stderr log
  · intro log k
    rw [hstream, hclosed, hstreams]
    exact h.opened log k
  · intro k
    rw [hstream, hstream]
    exact h.distinct k
  · intro k
    rw [hclosed, hstreams]
    exact h.closed_lt k

theorem Handled.usable_iff (h : Handled s) (log : LogKind) :
    s.Usable (s.klogger.stream log) ↔
      ¬ (s.klogger.stream log = .null ∨ s.klogger.stream log ∈ s.closed) := by
  rw [State.Usable, not_or]
  apply and_congr_right
  intro hnull
  cases hstream : s.klogger.stream log with
  | null => exact absurd hstream hnull
  | stdout => exact ⟨fun h => h rfl, fun h _ => h⟩
  | stderr => exact absurd hstream (h.not_stderr log)
  | file k => exact ⟨fun _ => (h.opened log k hstream).1, fun _ h => by cases h⟩

/-! ## Writing -/

theorem fwrite_isSome_iff {p : FilePtr} (e : Entry) (hp : ∀ k, p = .file k → k < s.streams.length) :
    (s.fwrite p e).isSome ↔ ¬ (p = .null ∨ p ∈ s.closed) := by
  constructor
  · intro h hbad
    rw [State.fwrite.eq_def, if_pos hbad] at h
    cases h
  · intro hbad
    cases p with
    | file k =>
      rw [State.fwrite, if_neg hbad, List.getElem?_eq_getElem (hp k rfl)]
      rfl
    | _ =>
      rw [State.fwrite, if_neg hbad]
      · rfl
      · intro k h
        cases h

theorem fwrite_keeps {p : FilePtr} {e : Entry} (h : s.fwrite p e = some t) :
    ∃ files, t = { s with files } := by
  by_cases hbad : p = .null ∨ p ∈ s.closed
  · rw [State.fwrite.eq_def, if_pos hbad] at h
    cases h
  · cases p with
    | file k =>
      rw [State.fwrite, if_neg hbad] at h
      obtain ⟨i, -, hi⟩ := Option.bind_eq_some_iff.mp h
      exact ⟨_, (Option.some.inj hi).symm⟩
    | _ =>
      rw [State.fwrite, if_neg hbad] at h
      · exact ⟨s.files, (Option.some.inj h).symm⟩
      · intro k h
        cases h

theorem fclose_eq_some_iff {p : FilePtr} : s.fclose p = some t ↔
    ¬ (p = .null ∨ p ∈ s.closed) ∧ t = { s with closed := s.closed ++ [p] } := by
  rw [State.fclose]
  by_cases hbad : p = .null ∨ p ∈ s.closed
  · simp [hbad]
  · rw [if_neg hbad, Option.some.injEq, eq_comm]
    exact ⟨fun h => ⟨hbad, h⟩, And.right⟩

theorem append_isSome_iff (h : Handled s) (buffer : Bytes) :
    (s.append log buffer).isSome ↔ s.Usable (s.klogger.stream log) := by
  have hstream : (s.klogger.count log).stream log = s.klogger.stream log :=
    Klogger.stream_count _ _ _
  have hwrite := fwrite_isSome_iff (s := { s with klogger := s.klogger.count log })
    (p := s.klogger.stream log) (.record log (s.written log).length buffer)
    fun k hk => (h.opened log k hk).2
  rw [h.usable_iff, ← hwrite, State.append, hstream, Option.bind_eq_bind]
  cases State.fwrite _ (s.klogger.stream log) _ with
  | none => rfl
  | some u => rfl

/-- What a write leaves as it is, and what it counts. -/
structure Appended (s : State) (log : LogKind) (t : State) : Prop where
  klogger : t.klogger = s.klogger.count log
  closed : t.closed = s.closed
  streams : t.streams = s.streams
  written : ∃ buffer, t.written = Function.update s.written log (s.written log ++ [buffer])

theorem appended_of_append {buffer : Bytes} (happend : s.append log buffer = some t) :
    Appended s log t := by
  obtain ⟨u, hwrite, ht⟩ := Option.bind_eq_some_iff.mp happend
  obtain ⟨files, rfl⟩ := fwrite_keeps hwrite
  obtain rfl := Option.some.inj ht
  exact ⟨rfl, rfl, rfl, buffer, rfl⟩

/-! ## Rotating -/

/-- What a rotation makes of the handles. -/
structure Reopened (s : State) (log : LogKind) (opens : Bool) (u : State) : Prop where
  closed : u.closed = s.closed ++ [s.klogger.stream log]
  klogger : u.klogger =
    s.klogger.withStream (if opens then .file s.streams.length else .stdout) log
  streams : u.streams.length = s.streams.length + if opens then 1 else 0
  written : u.written = s.written

theorem rolling_spares {turn : Turn} (h : ¬ s.Rollable log) :
    s.rolling log log.std turn = some s := if_neg h

theorem rolling_of_closed {turn : Turn} (hroll : s.Rollable log)
    (hclosed : s.klogger.stream log ∈ s.closed) : s.rolling log log.std turn = none := by
  have hclose : s.fclose (s.klogger.stream log) = none := if_pos (.inr hclosed)
  rw [State.rolling, if_pos ⟨hroll.1, hroll.2⟩, hclose]
  rfl

theorem rename_keeps (s : State) (old new : Bytes) (renames : Bool) :
    (s.rename old new renames).closed = s.closed ∧ (s.rename old new renames).klogger = s.klogger ∧
      (s.rename old new renames).streams = s.streams ∧
      (s.rename old new renames).written = s.written := by
  rw [State.rename]
  split <;> exact ⟨rfl, rfl, rfl, rfl⟩

theorem rolling_reopens (turn : Turn) (hroll : s.Rollable log)
    (hopen : s.klogger.stream log ∉ s.closed) :
    ∃ u, s.rolling log log.std turn = some u ∧ Reopened s log turn.opens u := by
  have hclose : s.fclose (s.klogger.stream log) =
      some { s with closed := s.closed ++ [s.klogger.stream log] } :=
    fclose_eq_some_iff.mpr ⟨not_or.mpr ⟨hroll.2, hopen⟩, rfl⟩
  rw [State.rolling, if_pos ⟨hroll.1, hroll.2⟩, hclose]
  dsimp only [Option.bind_eq_bind, Option.bind_some]
  obtain ⟨hclosed, hklogger, hstreams, hwritten⟩ := rename_keeps
    { s with closed := s.closed ++ [s.klogger.stream log] } (s.klogger.file log)
    (newname (s.klogger.file log) turn.tm) turn.renames
  generalize State.rename _ _ _ _ = v at hclosed hklogger hstreams hwritten
  refine ⟨_, rfl, ?_⟩
  cases hopens : turn.opens with
  | false =>
    exact ⟨hclosed, congrArg (Klogger.withStream · _ _) hklogger, congrArg _ hstreams, hwritten⟩
  | true =>
    refine ⟨hclosed, ?_, ?_, hwritten⟩
    · change v.klogger.withStream (.file v.streams.length) log =
        s.klogger.withStream (.file s.streams.length) log
      rw [hklogger, hstreams]
    · change (v.streams ++ [_]).length = s.streams.length + 1
      rw [List.length_append, hstreams]
      rfl

theorem Reopened.stream_self {opens : Bool} (h : Reopened s log opens u) :
    u.klogger.stream log = if opens then .file s.streams.length else .stdout := by
  rw [h.klogger, Klogger.stream_withStream_self]

theorem Reopened.stream_of_ne {opens : Bool} (h : Reopened s log opens u) {log' : LogKind}
    (hne : log' ≠ log) : u.klogger.stream log' = s.klogger.stream log' := by
  rw [h.klogger, Klogger.stream_withStream_of_ne _ _ _ _ hne]

theorem Handled.ne_stream (h : Handled s) {log' : LogKind} (hne : log' ≠ log) {k : Nat}
    (hk : s.klogger.stream log' = .file k) : s.klogger.stream log ≠ .file k := by
  cases log <;> cases log'
  · exact absurd rfl hne
  · exact fun h' => h.distinct k h' hk
  · exact h.distinct k hk
  · exact absurd rfl hne

/-- A handle may be given a new stream, or one that is no file, and its old stream closed. -/
theorem Handled.replace (h : Handled s) (log : LogKind)
    (hself : ∀ k, u.klogger.stream log = .file k → k = s.streams.length ∧ k < u.streams.length)
    (hstderr : u.klogger.stream log ≠ .stderr)
    (hsame : ∀ log', log' ≠ log → u.klogger.stream log' = s.klogger.stream log')
    (hclosed : ∀ p ∈ u.closed, p ∈ s.closed ∨ p = s.klogger.stream log)
    (hlen : s.streams.length ≤ u.streams.length) : Handled u := by
  have hclosed_lt : ∀ k, .file k ∈ u.closed → k < s.streams.length := by
    intro k hk
    rcases hclosed _ hk with hold | hnew
    · exact h.closed_lt k hold
    · exact (h.opened log k hnew.symm).2
  have hother : ∀ log' k, log' ≠ log → u.klogger.stream log' = .file k →
      .file k ∉ u.closed ∧ k < s.streams.length := by
    intro log' k hne hk
    rw [hsame log' hne] at hk
    obtain ⟨hopen, hlt⟩ := h.opened log' k hk
    refine ⟨fun hmem => ?_, hlt⟩
    rcases hclosed _ hmem with hold | hnew
    · exact hopen hold
    · exact h.ne_stream hne hk hnew.symm
  constructor
  · intro log'
    by_cases hlog : log' = log
    · rw [hlog]
      exact hstderr
    · rw [hsame log' hlog]
      exact h.not_stderr log'
  · intro log' k hk
    by_cases hlog : log' = log
    · rw [hlog] at hk
      obtain ⟨rfl, hlt⟩ := hself k hk
      exact ⟨fun hmem => Nat.lt_irrefl _ (hclosed_lt _ hmem), hlt⟩
    · obtain ⟨hopen, hlt⟩ := hother log' k hlog hk
      exact ⟨hopen, Nat.lt_of_lt_of_le hlt hlen⟩
  · intro k haccess herror
    cases log with
    | access =>
      have hlt := (hother .error k (by decide) herror).2
      exact Nat.lt_irrefl _ ((hself k haccess).1 ▸ hlt)
    | error =>
      have hlt := (hother .access k (by decide) haccess).2
      exact Nat.lt_irrefl _ ((hself k herror).1 ▸ hlt)
  · intro k hk
    exact Nat.lt_of_lt_of_le (hclosed_lt k hk) hlen

theorem Handled.reopened (h : Handled s) {opens : Bool} (hu : Reopened s log opens u) :
    Handled u := by
  have hstreams := hu.streams
  apply h.replace log
  · intro k hk
    rw [hu.stream_self] at hk
    cases opens with
    | false => cases hk
    | true =>
      obtain rfl := FilePtr.file.inj hk
      exact ⟨rfl, by simp [hstreams]⟩
  · rw [hu.stream_self]
    cases opens <;> simp
  · intro log' hne
    exact hu.stream_of_ne hne
  · intro p hp
    rw [hu.closed] at hp
    exact (List.mem_append.mp hp).imp id List.mem_singleton.mp
  · rw [hstreams]
    exact Nat.le_add_right _ _

/-- What a call does: it writes, after a rotation of its log or without one. -/
theorem step_cases (s : State) (c : Call) :
    (¬ s.Rolls c ∧ step s c = s.append c.log c.buffer) ∨
      (s.Rolls c ∧ s.klogger.stream c.log ∈ s.closed ∧ step s c = none) ∨
      (s.Rolls c ∧ s.klogger.stream c.log ∉ s.closed ∧
        ∃ u, Reopened s c.log c.turn.opens u ∧ step s c = u.append c.log c.buffer) := by
  by_cases hrotates : s.Rotates c
  · by_cases hroll : s.Rollable c.log
    · by_cases hopen : s.klogger.stream c.log ∈ s.closed
      · refine .inr (.inl ⟨⟨hrotates, hroll⟩, hopen, ?_⟩)
        rw [step_eq, if_pos (show maxLineNumber ≤ _ from hrotates), rolling_of_closed hroll hopen]
        rfl
      · obtain ⟨u, hrolling, hu⟩ := rolling_reopens c.turn hroll hopen
        exact .inr (.inr ⟨⟨hrotates, hroll⟩, hopen, u, hu, step_rotates hrotates hrolling⟩)
    · refine .inl ⟨fun h => hroll h.2, ?_⟩
      rw [step_rotates hrotates (rolling_spares hroll)]
  · exact .inl ⟨fun h => hrotates h.1, step_appends hrotates⟩

theorem Handled.appended (h : Handled s) {buffer : Bytes} (happend : s.append log buffer = some t) :
    Handled t := by
  have ht := appended_of_append happend
  apply h.congr _ ht.closed (congrArg List.length ht.streams)
  intro log'
  rw [ht.klogger, Klogger.stream_count]

theorem Handled.step (h : Handled s) {c : Call} (hstep : step s c = some t) : Handled t := by
  rcases step_cases s c with ⟨-, hc⟩ | ⟨-, -, hc⟩ | ⟨-, -, u, hu, hc⟩
  · exact h.appended (hc.symm.trans hstep)
  · cases hc.symm.trans hstep
  · exact (h.reopened hu).appended (hc.symm.trans hstep)

theorem reopened_usable_iff {opens : Bool} (hu : Reopened s log opens u) :
    u.Usable (u.klogger.stream log) ↔
      (opens = false → s.klogger.stream log ≠ .stdout ∧ .stdout ∉ s.closed) := by
  rw [State.Usable, hu.stream_self, hu.closed, List.mem_append, List.mem_singleton, not_or]
  cases opens with
  | true => simp
  | false =>
    constructor
    · rintro ⟨-, hstdout⟩ -
      exact ⟨Ne.symm (hstdout rfl).2, (hstdout rfl).1⟩
    · intro hfallback
      exact ⟨by simp, fun _ => ⟨(hfallback rfl).2, Ne.symm (hfallback rfl).1⟩⟩

theorem step_isSome_iff (h : Handled s) (c : Call) : (step s c).isSome ↔ s.FitsWrite c := by
  rcases step_cases s c with ⟨hrolls, hc⟩ | ⟨-, hclosed, hc⟩ | ⟨hrolls, hopen, u, hu, hc⟩
  · rw [hc, append_isSome_iff h]
    exact ⟨fun husable => ⟨husable, fun h => absurd h hrolls⟩, State.FitsWrite.usable⟩
  · rw [hc]
    constructor
    · intro hnone
      cases hnone
    · intro hfits
      exact absurd (.inr hclosed) ((h.usable_iff c.log).mp hfits.usable)
  · rw [hc, append_isSome_iff (h.reopened hu), reopened_usable_iff hu]
    have husable := (h.usable_iff c.log).mpr (not_or.mpr ⟨hrolls.2.2, hopen⟩)
    exact ⟨fun hfallback => ⟨husable, fun _ => hfallback⟩, fun hfits => hfits.fallback hrolls⟩

/-! ## The other operations -/

theorem Handled.initLog (h : Handled s) (log : LogKind) (file : Option Bytes) (opens : Bool) :
    Handled (s.initLog log file opens) := by
  cases file with
  | none => exact h
  | some name =>
    cases opens with
    | false => exact h
    | true =>
      have hstream : ∀ log', (s.initLog log (some name) true).klogger.stream log' =
          (s.klogger.withStream (.file s.streams.length) log).stream log' := by
        intro log'
        cases log <;> cases log' <;> rfl
      apply h.replace log
      · intro k hk
        rw [hstream, Klogger.stream_withStream_self] at hk
        obtain rfl := FilePtr.file.inj hk
        refine ⟨rfl, ?_⟩
        change _ < (s.streams ++ [_]).length
        simp
      · rw [hstream, Klogger.stream_withStream_self]
        simp
      · intro log' hne
        rw [hstream, Klogger.stream_withStream_of_ne _ _ _ _ hne]
      · intro p hp
        exact .inl hp
      · change _ ≤ (s.streams ++ [_]).length
        simp

theorem fflush_isSome_iff (p : FilePtr) :
    (s.fflush p).isSome ↔ ¬ (p = .null ∨ p ∈ s.closed) := by
  rw [State.fflush]
  split
  · next hbad => simp [hbad]
  · next hbad => simp [hbad]

theorem fflushE_isSome_iff (h : Handled s) : s.fflushE.isSome ↔ s.Fits .fflushE := by
  have haccess := h.usable_iff .access
  have herror := h.usable_iff .error
  change s.Usable s.klogger.logAccess ↔ _ at haccess
  change s.Usable s.klogger.logError ↔ _ at herror
  change _ ↔ s.Usable s.klogger.logAccess ∧ s.Usable s.klogger.logError
  rw [haccess, herror, State.fflushE, State.fflush]
  by_cases hbad : s.klogger.logAccess = .null ∨ s.klogger.logAccess ∈ s.closed
  · rw [if_pos hbad]
    exact iff_of_false Bool.false_ne_true fun h => h.1 hbad
  · rw [if_neg hbad, Option.bind_some, fflush_isSome_iff]
    exact ⟨fun h => ⟨hbad, h⟩, And.right⟩

theorem destroyError_of_usable (h : Handled s) (buffer : Bytes)
    (husable : s.Usable s.klogger.logError) :
    ∃ files, s.destroyError buffer = some { s with
      files
      closed := s.closed ++ [s.klogger.logError]
      klogger := s.klogger.withStream .null .error } := by
  have hopen := (h.usable_iff .error).mp husable
  change ¬ (s.klogger.logError = .null ∨ s.klogger.logError ∈ s.closed) at hopen
  have hwrite := (fwrite_isSome_iff (.before buffer) fun k hk => (h.opened .error k hk).2).mpr hopen
  obtain ⟨u, hu⟩ := Option.isSome_iff_exists.mp hwrite
  obtain ⟨files, rfl⟩ := fwrite_keeps hu
  have hclose := fclose_eq_some_iff (s := { s with files }) (p := s.klogger.logError).mpr
    ⟨hopen, rfl⟩
  refine ⟨files, ?_⟩
  change s.fwrite s.klogger.logError (.before buffer) = _ at hu
  rw [State.destroyError, if_neg husable.1, Option.bind_eq_bind, hu, Option.bind_some]
  change (State.fclose { s with files } s.klogger.logError).bind _ = _
  rw [hclose]
  rfl

theorem destroyError_of_unusable (h : Handled s) (buffer : Bytes) (hnull : s.klogger.logError ≠ .null)
    (hbad : ¬ s.Usable s.klogger.logError) : s.destroyError buffer = none := by
  have hopen := (h.usable_iff .error).not.mp hbad
  rw [not_not] at hopen
  have hwrite : s.fwrite s.klogger.logError (.before buffer) = none := by
    rw [State.fwrite.eq_def]
    exact if_pos hopen
  rw [State.destroyError, if_neg hnull, Option.bind_eq_bind, hwrite]
  rfl

theorem destroyAccess_isSome_iff : s.destroyAccess.isSome ↔ s.klogger.logAccess ∉ s.closed ∨
    s.klogger.logAccess = .null := by
  rw [State.destroyAccess]
  by_cases hnull : s.klogger.logAccess = .null
  · rw [if_pos hnull]
    exact iff_of_true rfl (.inr hnull)
  · rw [if_neg hnull, Option.bind_eq_bind, State.fclose]
    by_cases hclosed : s.klogger.logAccess ∈ s.closed
    · rw [if_pos (.inr hclosed)]
      exact iff_of_false Bool.false_ne_true fun h => h.elim (fun h => h hclosed) hnull
    · rw [if_neg (not_or.mpr ⟨hnull, hclosed⟩)]
      exact iff_of_true rfl (.inl hclosed)

theorem destroy_isSome_iff (h : Handled s) (buffer : Bytes) :
    (s.destroy buffer).isSome ↔ s.Fits (.destroy buffer) := by
  change _ ↔ ¬ (s.klogger.logAccess = .stdout ∧ s.klogger.logError = .stdout) ∧
      (s.klogger.logAccess = .stdout ∨ s.klogger.logError = .stdout → .stdout ∉ s.closed)
  have hopened := h.opened .access
  have hdistinct := h.distinct
  change ∀ k, s.klogger.logAccess = .file k → _ at hopened
  change ∀ k, s.klogger.logAccess = .file k → s.klogger.logError ≠ .file k at hdistinct
  rw [State.destroy]
  by_cases hnull : s.klogger.logError = .null
  · have herror : s.destroyError buffer = some s := if_pos hnull
    rw [herror, Option.bind_some, destroyAccess_isSome_iff, hnull]
    cases haccess : s.klogger.logAccess with
    | null => simp
    | stdout => simp
    | stderr => exact absurd haccess (h.not_stderr .access)
    | file k => simp [(hopened k haccess).1]
  · by_cases husable : s.Usable s.klogger.logError
    · obtain ⟨files, herror⟩ := destroyError_of_usable h buffer husable
      rw [herror, Option.bind_some, destroyAccess_isSome_iff]
      change s.klogger.logAccess ∉ s.closed ++ [s.klogger.logError] ∨
        s.klogger.logAccess = .null ↔ _
      rw [List.mem_append, List.mem_singleton]
      have hstdout := husable.2
      cases haccess : s.klogger.logAccess with
      | null => simpa using hstdout
      | stdout => simp [eq_comm, and_comm]
      | stderr => exact absurd haccess (h.not_stderr .access)
      | file k => simpa [(hopened k haccess).1, Ne.symm (hdistinct k haccess)] using hstdout
    · rw [destroyError_of_unusable h buffer hnull husable]
      refine iff_of_false Bool.false_ne_true fun hfits => husable ⟨hnull, fun hstdout => ?_⟩
      exact hfits.2 (.inr hstdout)

theorem destructorAccess_eq (h : Handled s) : ∃ closed, s.destructorAccess =
      some { s with closed } ∧ (s.klogger.logError ∈ closed ↔ s.klogger.logError ∈ s.closed) := by
  rw [State.destructorAccess]
  split
  · next hclose =>
    obtain ⟨k, hk⟩ : ∃ k, s.klogger.logAccess = .file k := by
      cases haccess : s.klogger.logAccess with
      | null => exact absurd haccess hclose.1
      | stdout => exact absurd haccess hclose.2
      | stderr => exact absurd haccess (h.not_stderr .access)
      | file k => exact ⟨k, rfl⟩
    have hopen := (h.opened .access k hk).1
    refine ⟨_, fclose_eq_some_iff.mpr ⟨?_, rfl⟩, ?_⟩
    · rw [hk]
      exact not_or.mpr ⟨by simp, hopen⟩
    · rw [List.mem_append, List.mem_singleton, hk]
      exact ⟨fun hmem => hmem.resolve_right (h.distinct k hk), .inl⟩
  · exact ⟨s.closed, rfl, Iff.rfl⟩

theorem destructor_isSome_iff (h : Handled s) : s.destructor.isSome ↔ s.FitsDestructor := by
  obtain ⟨closed, haccess, hmem⟩ := destructorAccess_eq h
  rw [State.destructor, haccess, Option.bind_some, State.destructorError, State.FitsDestructor]
  change (if s.klogger.logError ≠ .null ∧ s.klogger.logError ≠ .stderr then
    State.fclose _ s.klogger.logError else _).isSome ↔ _
  cases herror : s.klogger.logError with
  | null => simp
  | stdout =>
    rw [herror] at hmem
    simp [State.fclose, hmem]
  | stderr => exact absurd herror (h.not_stderr .error)
  | file k =>
    rw [herror] at hmem
    simp [State.fclose, hmem, (h.opened .error k herror).1]

theorem perform_isSome_iff (h : Handled s) (op : Op) : (perform s op).isSome ↔ s.Fits op := by
  cases op with
  | init infoFile errorFile opensInfo opensError => exact iff_of_true rfl trivial
  | write call => exact step_isSome_iff h call
  | fflushE => exact fflushE_isSome_iff h
  | destroy buffer => exact destroy_isSome_iff h buffer

/-- A stream that a handle held may be closed, and the handle set to null. -/
theorem Handled.released (h : Handled s) (log : LogKind) (files : Files Bytes (List Entry)) :
    Handled { s with
      files
      closed := s.closed ++ [s.klogger.stream log]
      klogger := s.klogger.withStream .null log } := by
  apply h.replace log
  · intro k hk
    change (s.klogger.withStream .null log).stream log = _ at hk
    rw [Klogger.stream_withStream_self] at hk
    cases hk
  · change (s.klogger.withStream .null log).stream log ≠ _
    rw [Klogger.stream_withStream_self]
    simp
  · intro log' hne
    exact Klogger.stream_withStream_of_ne _ _ _ _ hne
  · intro p hp
    exact (List.mem_append.mp hp).imp id List.mem_singleton.mp
  · exact Nat.le_refl _

theorem Handled.destroyError (h : Handled s) {buffer : Bytes}
    (hdestroy : s.destroyError buffer = some t) : Handled t := by
  by_cases hnull : s.klogger.logError = .null
  · rw [State.destroyError, if_pos hnull] at hdestroy
    obtain rfl := Option.some.inj hdestroy
    exact h
  · by_cases husable : s.Usable s.klogger.logError
    · obtain ⟨files, heq⟩ := destroyError_of_usable h buffer husable
      obtain rfl := Option.some.inj (heq.symm.trans hdestroy)
      exact h.released .error files
    · rw [destroyError_of_unusable h buffer hnull husable] at hdestroy
      cases hdestroy

theorem Handled.destroyAccess (h : Handled s) (hdestroy : s.destroyAccess = some t) :
    Handled t := by
  rw [State.destroyAccess] at hdestroy
  split at hdestroy
  · obtain rfl := Option.some.inj hdestroy
    exact h
  · obtain ⟨u, hclose, ht⟩ := Option.bind_eq_some_iff.mp hdestroy
    obtain ⟨-, rfl⟩ := fclose_eq_some_iff.mp hclose
    obtain rfl := Option.some.inj ht
    exact h.released .access s.files

theorem fflush_keeps {p : FilePtr} (h : s.fflush p = some t) : t = s := by
  rw [State.fflush] at h
  split at h
  · cases h
  · exact (Option.some.inj h).symm

theorem fflushE_keeps (h : s.fflushE = some t) : t = s := by
  obtain ⟨u, haccess, herror⟩ := Option.bind_eq_some_iff.mp h
  obtain rfl := fflush_keeps haccess
  exact fflush_keeps herror

theorem Handled.perform (h : Handled s) {op : Op} (hop : perform s op = some t) : Handled t := by
  cases op with
  | init infoFile errorFile opensInfo opensError =>
    obtain rfl := Option.some.inj hop
    exact (h.initLog .access infoFile opensInfo).initLog .error errorFile opensError
  | write call => exact h.step hop
  | fflushE =>
    obtain rfl := fflushE_keeps hop
    exact h
  | destroy buffer =>
    obtain ⟨u, herror, haccess⟩ := Option.bind_eq_some_iff.mp hop
    exact (h.destroyError herror).destroyAccess haccess

/-- From a state of the invariant on: the induction is on the operations that are left. -/
theorem rest_isSome_iff (ops : List Op) : ∀ s, Handled s →
    (((Transition.exec Klog.perform s ops).bind State.destructor).isSome ↔ AllFit s ops) := by
  induction ops with
  | nil =>
    intro s h
    exact destructor_isSome_iff h
  | cons op ops ih =>
    intro s h
    rw [AllFit, ← perform_isSome_iff h, Transition.exec]
    cases hop : Klog.perform s op with
    | none => exact iff_of_false Bool.false_ne_true fun h => Bool.false_ne_true h.1
    | some t =>
      rw [Option.bind_some]
      refine (ih t (h.perform hop)).trans ?_
      exact ⟨fun hall => ⟨rfl, fun u hu => Option.some.inj hu ▸ hall⟩, fun hall => hall.2 t rfl⟩

end Handles

/-- A lifetime of the logger uses its streams while they are open and closes none twice exactly
where every operation, and the destructor, finds them fit for it. -/
theorem lifetime_isSome_iff (files : Files Bytes (List Entry)) (ops : List Op) :
    (lifetime files ops).isSome ↔ AllFit (State.constructed files) ops :=
  rest_isSome_iff ops _ (handled_constructed files)

/-- A logger whose files could not be opened gives stdout to `fclose` twice: for the one handle,
and then for the other. -/
theorem stdout_closed_twice :
    (∃ s, ((State.constructed noFiles).init (some (ascii "a")) (some (ascii "e")) false
        false).destroyError [newline] = some s ∧
      .stdout ∈ s.closed ∧ s.klogger.logAccess = .stdout) ∧
    lifetime noFiles [.init (some (ascii "a")) (some (ascii "e")) false false,
      .destroy [newline]] = none :=
  ⟨⟨_, rfl, by decide, rfl⟩, rfl⟩

end Svnsrv.Klog
