import Svnsrv.Lib.Family
import Svnsrv.SessionLog

/-!
# The server

`SubversionServer` of SubversionServer.cc. One accept is outstanding, every
connection gets a session of its own, and the threads of `run` step all sessions
in any order. What they share and change is the logger, which takes one record at a
time. An exception that leaves a handler ends the process.
-/

namespace Svnsrv.Server

open CText Proxy Router Transition
set_option autoImplicit false

/-- What all sessions of the process use. -/
structure Shared where
  router : RouterSeletor
  fromString : Bytes → Bool

/-- What `new SubversionSession` gives: the object, and where its `clt_buffer_` lies. -/
structure NewConnection where
  session : SubversionSession
  constructed : Constructed session
  cltAddr : Nat
  notNull : cltAddr ≠ 0
  cltAddr_fits : cltAddr + kDefaultBufferSize < 2 ^ 63

def Shared.env (g : Shared) (c : NewConnection) : Env :=
  ⟨g.router, g.fromString, c.cltAddr, c.cltAddr_fits⟩

/-- A session that has been started. -/
structure Connection where
  made : NewConnection
  state : Proxy.State

/-- `start()`, after `set_option`. -/
def NewConnection.start (c : NewConnection) : Connection := ⟨c, .started c.session⟩

inductive Ending where
  | handler (fault : Hds.Fault)
  | overrun                         -- a store outside the array of a log record
  | stream                          -- the logger has used no stream, or a closed one
  | setOption (e : ErrorCode)
  deriving DecidableEq, Repr

structure State where
  sessions : List Connection        -- in the order of their connections
  newConnection : NewConnection
  accepting : Bool                  -- async_accept is outstanding
  logger : Klog.State               -- `Klogger::instance()` and the files
  ended : Option Ending             -- what has ended the process

/-- What can happen next: the accept completes with `e`, `set_option` then gives `noDelay` and
`new` gives `next`; or something happens to a session. -/
inductive Event where
  | accepted (e noDelay : ErrorCode) (next : NewConnection)
  | session (i : Nat) (e : Proxy.Event)

/-! ## Handlers -/

/-- `new_connection_.reset(new SubversionSession(...))` and `async_accept`. -/
def State.startAccept (s : State) (next : NewConnection) : State :=
  { s with newConnection := next, accepting := true }

def State.handleAccept (s : State) (e noDelay : ErrorCode) (next : NewConnection) : State :=
  let s := { s with accepting := false }
  if e = 0 then
    if noDelay = 0 then
      { s with sessions := s.sessions ++ [s.newConnection.start] }.startAccept next
    else { s with ended := some (.setOption noDelay) }
  else s.startAccept next

/-- The server when its constructor returns; what the process has logged so far is in `logger`. -/
def State.listening (first : NewConnection) (logger : Klog.State) : State :=
  ⟨[], first, true, logger, none⟩

/-- How a session has ended the process. -/
def uncaught (trace : List Act) : Option Ending :=
  trace.findSome? fun
    | .threw fault => some (.handler fault)
    | .overran => some .overrun
    | _ => none

/-- The log calls of a step of a session. -/
def newCalls (s t : Proxy.State) : List Klog.Call :=
  (logged t.trace).drop (logged s.trace).length

/-- The session that has stepped, and what its log calls have made of the logger. -/
def State.stepped (s : State) (i : Nat) (c : Connection) (t : Proxy.State) (logger : Klog.State) :
    State :=
  { s with sessions := s.sessions.set i { c with state := t }, logger, ended := uncaught t.trace }

/-- A step of the process; there is none once it has ended. -/
def step (g : Shared) (s : State) (e : Event) : Option State :=
  if s.ended.isSome then none
  else match e with
    | .accepted e noDelay next => if s.accepting then some (s.handleAccept e noDelay next) else none
    | .session i e => do
      let c ← s.sessions[i]?
      let t ← Proxy.step (g.env c.made) c.state e
      match exec Klog.step s.logger (newCalls c.state t) with
      | none => return { s with ended := some .stream }
      | some logger => return s.stepped i c t logger

def Init (s : State) : Prop := ∃ first logger, s = State.listening first logger

def Reachable (g : Shared) (s : State) : Prop :=
  Transition.Reachable Init (fun s e t => step g s e = some t) s

/-- Nothing is outstanding: `io_service::run` returns. -/
def State.idle (s : State) : Bool := !s.accepting && s.sessions.all fun c => c.state.ops.isEmpty

/-! ## What a step does -/

/-- A step is an accept, or a step of a session whose log calls the logger takes, or it fails in
the logger. -/
inductive Stepped (g : Shared) (s : State) : Event → State → Prop
  | accepted (e noDelay : ErrorCode) (next : NewConnection) (haccepting : s.accepting = true) :
    Stepped g s (.accepted e noDelay next) (s.handleAccept e noDelay next)
  | session {i : Nat} {e : Proxy.Event} {c : Connection} {u : Proxy.State} {logger : Klog.State}
    (hc : s.sessions[i]? = some c) (hu : Proxy.step (g.env c.made) c.state e = some u)
    (hlogger : exec Klog.step s.logger (newCalls c.state u) = some logger) :
    Stepped g s (.session i e) (s.stepped i c u logger)
  | stream {i : Nat} {e : Proxy.Event} {c : Connection} {u : Proxy.State}
    (hc : s.sessions[i]? = some c) (hu : Proxy.step (g.env c.made) c.state e = some u)
    (hlogger : exec Klog.step s.logger (newCalls c.state u) = none) :
    Stepped g s (.session i e) { s with ended := some .stream }

theorem step_cases {g : Shared} {s t : State} {e : Event} (h : step g s e = some t) :
    s.ended = none ∧ Stepped g s e t := by
  unfold step at h
  cases hended : s.ended with
  | some ending => simp [hended] at h
  | none =>
    refine ⟨rfl, ?_⟩
    rw [hended, Option.isSome_none, if_neg Bool.false_ne_true] at h
    cases e with
    | accepted e' noDelay next =>
      cases haccepting : s.accepting with
      | false => simp [haccepting] at h
      | true =>
        simp only [haccepting, if_true, Option.some.injEq] at h
        rw [← h]
        exact .accepted e' noDelay next haccepting
    | session i e' =>
      obtain ⟨c, hc, h⟩ := Option.bind_eq_some_iff.mp h
      obtain ⟨u, hu, h⟩ := Option.bind_eq_some_iff.mp h
      cases hlogger : exec Klog.step s.logger (newCalls c.state u) with
      | none =>
        rw [hlogger] at h
        obtain rfl := Option.some.inj h
        exact .stream hc hu hlogger
      | some logger =>
        rw [hlogger] at h
        obtain rfl := Option.some.inj h
        exact .session hc hu hlogger

theorem step_session {g : Shared} {s : State} {i : Nat} {e : Proxy.Event} {c : Connection}
    {u : Proxy.State} {logger : Klog.State} (hended : s.ended = none)
    (hc : s.sessions[i]? = some c) (hu : Proxy.step (g.env c.made) c.state e = some u)
    (hlogger : exec Klog.step s.logger (newCalls c.state u) = some logger) :
    step g s (.session i e) = some (s.stepped i c u logger) := by
  simp only [step, hended, Option.isSome_none, Bool.false_eq_true, if_false, hc,
    Option.bind_eq_bind, Option.bind_some, hu, hlogger]
  rfl

theorem step_accepted {g : Shared} {s : State} (e noDelay : ErrorCode) (next : NewConnection)
    (hended : s.ended = none) (haccepting : s.accepting = true) :
    step g s (.accepted e noDelay next) = some (s.handleAccept e noDelay next) := by
  simp only [step, hended, haccepting, Option.isSome_none, Bool.false_eq_true, if_false, if_true]

/-! ## Faults -/

theorem uncaught_append (trace acts : List Act) :
    uncaught (trace ++ acts) = (uncaught trace).or (uncaught acts) :=
  List.findSome?_append

/-- A step of a session adds to its trace. -/
theorem trace_of_step {env : Env} {s t : Proxy.State} {e : Proxy.Event}
    (h : Proxy.step env s e = some t) : ∃ acts, t.trace = s.trace ++ acts := by
  cases e with
  | fill i data =>
    obtain ⟨op, -, h⟩ := Option.bind_eq_some_iff.mp h
    obtain ⟨buf, -, h⟩ := Option.bind_eq_some_iff.mp h
    obtain rfl := Option.some.inj h
    exact ⟨_, rfl⟩
  | transmit i n =>
    obtain ⟨op, -, h⟩ := Option.bind_eq_some_iff.mp h
    obtain ⟨⟨sock, buf⟩, -, h⟩ := Option.bind_eq_some_iff.mp h
    obtain rfl := Option.some.inj h
    exact ⟨_, rfl⟩
  | complete i e now =>
    obtain ⟨op, -, h⟩ := Option.bind_eq_some_iff.mp h
    split at h
    · obtain rfl := Option.some.inj h
      unfold Proxy.State.complete
      split
      · exact ⟨_, rfl⟩
      · exact ⟨_, rfl⟩
    · cases h
  | reuseStack data =>
    obtain rfl := Option.some.inj h
    exact ⟨_, rfl⟩

theorem newCalls_append {s t : Proxy.State} {acts : List Act} (h : t.trace = s.trace ++ acts) :
    newCalls s t = logged acts := by
  rw [newCalls, h, logged_append, List.drop_left]

theorem logged_of_step {env : Env} {s t : Proxy.State} {e : Proxy.Event}
    (h : Proxy.step env s e = some t) : logged t.trace = logged s.trace ++ newCalls s t := by
  obtain ⟨acts, hacts⟩ := trace_of_step h
  rw [newCalls_append hacts, hacts, logged_append]

theorem uncaught_back {env : Env} {s t : Proxy.State} {e : Proxy.Event}
    (h : Proxy.step env s e = some t) (ht : uncaught t.trace = none) : uncaught s.trace = none := by
  obtain ⟨acts, hacts⟩ := trace_of_step h
  rw [hacts, uncaught_append, Option.or_eq_none_iff] at ht
  exact ht.1

/-! ## A server as a family of sessions -/

/-- A step of a session that does not end the process. -/
def Connection.Moves (g : Shared) (c : Connection) (e : Proxy.Event) (d : Connection) : Prop :=
  d.made = c.made ∧ Proxy.step (g.env c.made) c.state e = some d.state ∧
    uncaught d.state.trace = none

/-- What a step of a session hands to the logger. -/
def Connection.hands (c d : Connection) : List Klog.Call := newCalls c.state d.state

/-- A run of the sessions that hands `calls` to the logger. -/
abbrev Handed (g : Shared) : List (Family.Label NewConnection Proxy.Event) →
    List (Nat × Klog.Call) → List Connection → Prop :=
  Family.Emits NewConnection.start (Connection.Moves g) Connection.hands

/-- The connection that the next accept is for. -/
def pending : NewConnection → List Event → NewConnection
  | c, [] => c
  | _, .accepted _ _ next :: es => pending next es
  | c, .session _ _ :: es => pending c es

/-- What happens to the sessions. -/
def labels : NewConnection → List Event → List (Family.Label NewConnection Proxy.Event)
  | _, [] => []
  | c, .accepted e _ next :: es => if e = 0 then .join c :: labels next es else labels next es
  | c, .session i e :: es => .move i e :: labels c es

def Event.isAccept : Event → Bool
  | .accepted _ _ _ => true
  | .session _ _ => false

/-- What happens to the `i`-th session. -/
def eventsOf (i : Nat) : List Event → List Proxy.Event :=
  List.filterMap fun
    | .accepted _ _ _ => none
    | .session j e => if j = i then some e else none

/-- No call of `set_option` fails. -/
def Undelayed (es : List Event) : Prop :=
  ∀ noDelay next, .accepted 0 noDelay next ∈ es → noDelay = 0

theorem pending_append (c : NewConnection) (es fs : List Event) :
    pending c (es ++ fs) = pending (pending c es) fs := by
  induction es generalizing c with
  | nil => rfl
  | cons e es ih =>
    cases e with
    | accepted e noDelay next => exact ih next
    | session i e => exact ih c

theorem pending_accepted (c : NewConnection) (es : List Event) (e noDelay : ErrorCode)
    (next : NewConnection) : pending c (es ++ [.accepted e noDelay next]) = next := by
  rw [pending_append]
  rfl

theorem labels_append (c : NewConnection) (es fs : List Event) :
    labels c (es ++ fs) = labels c es ++ labels (pending c es) fs := by
  induction es generalizing c with
  | nil => rfl
  | cons e es ih =>
    cases e with
    | accepted e noDelay next =>
      simp only [List.cons_append, labels, pending, ih]
      split_ifs
      · rfl
      · rfl
    | session i e => simp only [List.cons_append, labels, pending, ih]

theorem own_labels (c : NewConnection) (es : List Event) (i : Nat) :
    Family.own i (labels c es) = eventsOf i es := by
  unfold Family.own eventsOf
  induction es generalizing c with
  | nil => rfl
  | cons e es ih =>
    cases e with
    | accepted e noDelay next =>
      unfold labels
      split_ifs
      · exact ih next
      · exact ih next
    | session j e =>
      by_cases hj : j = i
      · simp [labels, hj, ih]
      · simp [labels, hj, ih]

theorem pending_filter (c : NewConnection) (es : List Event) :
    pending c (es.filter Event.isAccept) = pending c es := by
  induction es generalizing c with
  | nil => rfl
  | cons e es ih =>
    cases e with
    | accepted e noDelay next => exact ih next
    | session i e => exact ih c

theorem joined_filter (c : NewConnection) (es : List Event) :
    Family.joined (labels c (es.filter Event.isAccept)) = Family.joined (labels c es) := by
  unfold Family.joined
  induction es generalizing c with
  | nil => rfl
  | cons e es ih =>
    cases e with
    | accepted e noDelay next =>
      rw [List.filter_cons_of_pos rfl]
      unfold labels
      split_ifs
      · exact congrArg (c :: ·) (ih next)
      · exact ih next
    | session i e => exact ih c

/-- The server is as it should be between two handlers. -/
structure Serving (first : NewConnection) (es : List Event) (s : State) : Prop where
  accepting : s.accepting = true
  newConnection : s.newConnection = pending first es
  undelayed : Undelayed es

section

variable {g : Shared} {first : NewConnection} {es : List Event} {s t : State}

theorem undelayed_filter : Undelayed (es.filter Event.isAccept) ↔ Undelayed es := by
  unfold Undelayed
  simp [Event.isAccept]

theorem undelayed_concat {e : Event} : Undelayed (es ++ [e]) ↔
    Undelayed es ∧ ∀ noDelay next, e = .accepted 0 noDelay next → noDelay = 0 := by
  constructor
  · intro h
    constructor
    · intro noDelay next hmem
      exact h noDelay next (List.mem_append_left _ hmem)
    · intro noDelay next heq
      exact h noDelay next (by simp [heq])
  · intro h noDelay next hmem
    cases List.mem_append.mp hmem with
    | inl hmem => exact h.1 noDelay next hmem
    | inr hmem => exact h.2 noDelay next (List.mem_singleton.mp hmem).symm

theorem accepted_undelayed (h : Undelayed es) {e : ErrorCode} {noDelay : ErrorCode}
    {next : NewConnection} (hquick : e = 0 → noDelay = 0) :
    Undelayed (es ++ [.accepted e noDelay next]) := by
  refine undelayed_concat.mpr ⟨h, ?_⟩
  intro nd n heq
  injection heq with he hnd
  exact hnd ▸ hquick he

/-- A run that has not ended is a run of the family of its sessions, and the logger has taken what
they have handed out. -/
theorem serving_of_run {logger : Klog.State}
    (h : Run (fun a e b => step g a e = some b) (.listening first logger) es t)
    (ht : t.ended = none) :
    Serving first es t ∧ ∃ calls, Handed g (labels first es) calls t.sessions ∧
      exec Klog.step logger (calls.map Prod.snd) = some t.logger := by
  induction h with
  | refl => exact ⟨⟨rfl, rfl, by simp [Undelayed]⟩, [], .nil, rfl⟩
  | @snoc s t es e hrun hstep ih =>
    obtain ⟨hs, hcase⟩ := step_cases hstep
    obtain ⟨⟨haccepting, hnew, hundelayed⟩, calls, hhanded, hlog⟩ := ih hs
    rw [labels_append]
    cases hcase with
    | accepted e' noDelay next _ =>
      by_cases he : e' = 0
      · subst he
        by_cases hdelay : noDelay = 0
        · simp only [State.handleAccept, State.startAccept, if_true, if_pos hdelay, hnew]
          exact ⟨⟨rfl, (pending_accepted _ _ _ _ _).symm,
            accepted_undelayed hundelayed fun _ => hdelay⟩, calls, .join _ hhanded, hlog⟩
        · simp [State.handleAccept, hdelay] at ht
      · simp only [State.handleAccept, State.startAccept, if_neg he, labels, List.append_nil]
        exact ⟨⟨rfl, (pending_accepted _ _ _ _ _).symm,
          accepted_undelayed hundelayed fun h => absurd h he⟩, calls, hhanded, hlog⟩
    | @session i e' c u logger' hc hu hlogger =>
      refine ⟨⟨haccepting, ?_, ?_⟩, _, .move hhanded hc ⟨rfl, hu, ht⟩, ?_⟩
      · rw [pending_append]
        exact hnew
      · refine undelayed_concat.mpr ⟨hundelayed, ?_⟩
        intro nd n heq
        cases heq
      · have hcalls : (calls ++ (c.hands { c with state := u }).map fun w => (i, w)).map Prod.snd =
            calls.map Prod.snd ++ newCalls c.state u := by
          simp [Connection.hands, Function.comp_def]
        rw [hcalls, exec_append, hlog]
        exact hlogger
    | stream hc hu hlogger => cases ht

theorem run_of_serving {logger logger' : Klog.State} {calls : List (Nat × Klog.Call)}
    {ss : List Connection} (hundelayed : Undelayed es)
    (h : Handed g (labels first es) calls ss)
    (hlog : exec Klog.step logger (calls.map Prod.snd) = some logger') :
    Run (fun a e b => step g a e = some b) (.listening first logger) es
      ⟨ss, pending first es, true, logger', none⟩ := by
  induction es using List.reverseRecOn generalizing ss calls logger' with
  | nil =>
    obtain ⟨rfl, rfl⟩ := h.of_nil
    cases hlog
    exact .refl _
  | append_singleton es e ih =>
    obtain ⟨hbefore, hlast⟩ := undelayed_concat.mp hundelayed
    rw [labels_append] at h
    rw [pending_append]
    cases e with
    | accepted e noDelay next =>
      by_cases he : e = 0
      · subst he
        obtain rfl := hlast noDelay next rfl
        simp only [labels, if_true] at h
        obtain ⟨ss', hhanded, rfl⟩ := h.of_join
        refine .snoc (ih hbefore hhanded hlog) ?_
        rw [step_accepted 0 0 next rfl rfl]
        rfl
      · simp only [labels, if_neg he, List.append_nil] at h
        refine .snoc (ih hbefore h hlog) ?_
        rw [step_accepted e noDelay next rfl rfl]
        simp only [State.handleAccept, State.startAccept, if_neg he, pending]
    | session i e =>
      simp only [labels] at h
      obtain ⟨calls', ss', c, d, hhanded, hc, ⟨hmade, hstep, hquiet⟩, rfl, rfl⟩ := h.of_move
      have hcalls : (calls' ++ (c.hands d).map fun w => (i, w)).map Prod.snd =
          calls'.map Prod.snd ++ newCalls c.state d.state := by
        simp [Connection.hands, Function.comp_def]
      rw [hcalls, exec_append] at hlog
      obtain ⟨between, hbetween, hlogger⟩ := Option.bind_eq_some_iff.mp hlog
      refine .snoc (ih hbefore hhanded hbetween) ?_
      rw [step_session rfl hc hstep hlogger, State.stepped, hquiet, ← hmade]
      rfl

end

end Svnsrv.Server
