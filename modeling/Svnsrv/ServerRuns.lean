import Svnsrv.Server
import Svnsrv.SessionBuffers

/-!
# Runs of the server

As long as nothing ends the process, a run of the server is one run of each session,
whatever the order, and the logger gets the records of all of them in that order.
-/

namespace Svnsrv.Server

open CText Hds Proxy Router Transition
set_option autoImplicit false

/-! ## One session of many -/

theorem reachable_session {g : Shared} {s : State} (h : Reachable g s) :
    ∀ c ∈ s.sessions, Proxy.Reachable (g.env c.made) c.state := by
  apply Transition.Reachable.invariant (I := fun s : State =>
    ∀ c ∈ s.sessions, Proxy.Reachable (g.env c.made) c.state) _ _ h
  · intro s hinit c hc
    obtain ⟨first, logger, rfl⟩ := hinit
    cases hc
  · intro s t e hs hstep d hd
    obtain ⟨-, hcase⟩ := step_cases hstep
    cases hcase with
    | accepted e' noDelay next =>
      unfold State.handleAccept State.startAccept at hd
      split_ifs at hd
      · cases List.mem_append.mp hd with
        | inl hold => exact hs d hold
        | inr hnew =>
          obtain rfl := List.mem_singleton.mp hnew
          exact ⟨_, [], ⟨_, s.newConnection.constructed, rfl⟩, .refl _⟩
      · exact hs d hd
      · exact hs d hd
    | @session i e' c u logger hc hu hlogger =>
      cases List.mem_or_eq_of_mem_set hd with
      | inl hold => exact hs d hold
      | inr hnew =>
        subst hnew
        obtain ⟨a, es, ha, hrun⟩ := hs c (List.mem_of_getElem? hc)
        exact ⟨a, _, ha, .snoc hrun hu⟩
    | stream hc hu hlogger => exact hs d hd

section

variable {g : Shared} {first : NewConnection} {es : List Event} {s t : State}

theorem run_of_moves {c d : Connection} {es : List Proxy.Event}
    (h : Run (Connection.Moves g) c es d) :
    d.made = c.made ∧ Run (fun a e b => Proxy.step (g.env c.made) a e = some b) c.state es d.state ∧
      (uncaught c.state.trace = none → uncaught d.state.trace = none) := by
  induction h with
  | refl => exact ⟨rfl, .refl _, id⟩
  | snoc _ hmoves ih =>
    obtain ⟨hmade, hrun, -⟩ := ih
    obtain ⟨hmade', hstep, hquiet⟩ := hmoves
    rw [hmade] at hstep
    exact ⟨hmade'.trans hmade, .snoc hrun hstep, fun _ => hquiet⟩

theorem moves_of_run {c : NewConnection} {s t : Proxy.State} {es : List Proxy.Event}
    (h : Run (fun a e b => Proxy.step (g.env c) a e = some b) s es t)
    (hquiet : uncaught t.trace = none) : Run (Connection.Moves g) ⟨c, s⟩ es ⟨c, t⟩ := by
  induction h with
  | refl => exact .refl _
  | snoc _ hstep ih => exact .snoc (ih (uncaught_back hstep hquiet)) ⟨rfl, hstep, hquiet⟩

/-- A connection is where the accepted one comes to by what happens to it alone. -/
structure Alone (g : Shared) (first : NewConnection) (es : List Event) (i : Nat)
    (c : Connection) : Prop where
  made : (Family.joined (labels first es))[i]? = some c.made
  run : Run (fun a e b => Proxy.step (g.env c.made) a e = some b) (.started c.made.session)
    (eventsOf i es) c.state
  caught : uncaught c.state.trace = none

theorem alone_iff {ss : List Connection} :
    Family.Alone NewConnection.start (Connection.Moves g) (labels first es) ss ↔
      ss.length = (Family.joined (labels first es)).length ∧
        ∀ i c, ss[i]? = some c → Alone g first es i c := by
  constructor
  · intro h
    obtain ⟨hlen, hrun⟩ := h
    refine ⟨hlen, ?_⟩
    intro i c hc
    have hi : i < (Family.joined (labels first es)).length :=
      hlen ▸ (List.getElem?_eq_some_iff.mp hc).1
    have hjoined := List.getElem?_eq_getElem hi
    obtain ⟨hmade, hsession, hcaught⟩ := run_of_moves (hrun i _ c hjoined hc)
    have hsame : (Family.joined (labels first es))[i] = c.made := hmade.symm
    rw [hsame] at hjoined hsession
    rw [own_labels] at hsession
    exact ⟨hjoined, hsession, hcaught rfl⟩
  · intro h
    obtain ⟨hlen, halone⟩ := h
    refine ⟨hlen, ?_⟩
    intro i a c ha hc
    obtain ⟨hmade, hrun, hcaught⟩ := halone i c hc
    obtain rfl := Option.some.inj (ha.symm.trans hmade)
    rw [own_labels]
    exact moves_of_run hrun hcaught

/-! ## What the sessions log -/

/-- All log calls of a session to which `es` happens. -/
def Shared.callsOf (g : Shared) (c : NewConnection) (es : List Proxy.Event) : List Klog.Call :=
  ((exec (Proxy.step (g.env c)) (.started c.session) es).map fun s => logged s.trace).getD []

/-- What the logger is called with at an event after `before`. -/
def callsAt (g : Shared) (first : NewConnection) (before : List Event) :
    Event → List (Nat × Klog.Call)
  | .accepted _ _ _ => []
  | .session i e =>
    match (Family.joined (labels first before))[i]? with
    | none => []
    | some c =>
      ((g.callsOf c (eventsOf i before ++ [e])).drop
        (g.callsOf c (eventsOf i before)).length).map fun call => (i, call)

def callsFrom (g : Shared) (first : NewConnection) :
    List Event → List Event → List (Nat × Klog.Call)
  | _, [] => []
  | before, e :: es => callsAt g first before e ++ callsFrom g first (before ++ [e]) es

/-- The log calls of all sessions in the order of `es`, each with the session it comes from. It
takes the sessions one by one, not the server. -/
def calls (g : Shared) (first : NewConnection) (es : List Event) : List (Nat × Klog.Call) :=
  callsFrom g first [] es

theorem callsFrom_concat (before es : List Event) (e : Event) :
    callsFrom g first before (es ++ [e]) =
      callsFrom g first before es ++ callsAt g first (before ++ es) e := by
  induction es generalizing before with
  | nil => simp [callsFrom]
  | cons e' es ih =>
    simp only [List.cons_append, callsFrom, ih, List.append_assoc, List.nil_append]

theorem calls_concat (es : List Event) (e : Event) :
    calls g first (es ++ [e]) = calls g first es ++ callsAt g first es e := by
  unfold calls
  rw [callsFrom_concat, List.nil_append]

theorem callsOf_eq {c : NewConnection} {s : Proxy.State} {es : List Proxy.Event}
    (h : Run (fun a e b => Proxy.step (g.env c) a e = some b) (.started c.session) es s) :
    g.callsOf c es = logged s.trace := by
  rw [Shared.callsOf, exec_of_run h]
  rfl

theorem alone_of_handed {ws : List (Nat × Klog.Call)} {ss : List Connection}
    (h : Handed g (labels first es) ws ss) :
    Family.Timely (labels first es) ∧
      ss.length = (Family.joined (labels first es)).length ∧
        ∀ i c, ss[i]? = some c → Alone g first es i c := by
  rw [← alone_iff]
  exact Family.run_iff.mp h.run

/-- The order of the events says what the logger is called with. -/
theorem handed_eq {ws : List (Nat × Klog.Call)} {ss : List Connection}
    (h : Handed g (labels first es) ws ss) : ws = calls g first es := by
  induction es using List.reverseRecOn generalizing ws ss with
  | nil => exact h.of_nil.1
  | append_singleton es e ih =>
    rw [labels_append] at h
    rw [calls_concat]
    cases e with
    | accepted e noDelay next =>
      simp only [callsAt, List.append_nil]
      by_cases he : e = 0
      · simp only [labels, if_pos he] at h
        obtain ⟨ss', hhanded, -⟩ := h.of_join
        exact ih hhanded
      · simp only [labels, if_neg he, List.append_nil] at h
        exact ih h
    | session i e =>
      simp only [labels] at h
      obtain ⟨ws', ss', c, d, hhanded, hc, ⟨hmade, hstep, -⟩, rfl, -⟩ := h.of_move
      obtain ⟨hjoined, hrun, -⟩ := (alone_of_handed hhanded).2.2 i c hc
      have hafter := callsOf_eq (hrun.snoc hstep)
      simp only [callsAt, hjoined, callsOf_eq hrun, hafter]
      rw [ih hhanded]
      rfl

theorem share_calls {ws : List (Nat × Klog.Call)} {ss : List Connection}
    (h : Handed g (labels first es) ws ss) (i : Nat) :
    Family.share i (calls g first es) = ((ss[i]?).map fun c => logged c.state.trace).getD [] := by
  rw [← handed_eq h]
  refine h.share_eq ?_ ?_ i
  · intro c
    rfl
  · intro c e d hmoves
    exact logged_of_step hmoves.2.1

/-! ## Side by side -/

/-- A run that has not ended is a run of each session on its own, and any such runs make one, in
every order in which a session is accepted before it steps and in which the logger takes what they
log. -/
theorem runs_side_by_side (g : Shared) (first : NewConnection) (logger : Klog.State)
    (es : List Event) (t : State) :
    (Run (fun a e b => step g a e = some b) (.listening first logger) es t ∧ t.ended = none) ↔
      t.ended = none ∧ Serving first es t ∧ Family.Timely (labels first es) ∧
      t.sessions.length = (Family.joined (labels first es)).length ∧
      (∀ i c, t.sessions[i]? = some c → Alone g first es i c) ∧
      exec Klog.step logger ((calls g first es).map Prod.snd) = some t.logger := by
  constructor
  · intro h
    obtain ⟨hrun, hended⟩ := h
    obtain ⟨hserving, ws, hhanded, hlog⟩ := serving_of_run hrun hended
    obtain ⟨htimely, hlength, halone⟩ := alone_of_handed hhanded
    rw [handed_eq hhanded] at hlog
    exact ⟨hended, hserving, htimely, hlength, halone, hlog⟩
  · intro h
    obtain ⟨hended, ⟨haccepting, hnew, hundelayed⟩, htimely, hlength, halone, hlog⟩ := h
    have hfamily := Family.run_iff.mpr ⟨htimely, alone_iff.mpr ⟨hlength, halone⟩⟩
    obtain ⟨ws, hhanded⟩ := Family.exists_emits Connection.hands hfamily
    rw [← handed_eq hhanded] at hlog
    have hrun := run_of_serving hundelayed hhanded hlog
    obtain ⟨sessions, newConnection, accepting, taken, ended⟩ := t
    subst haccepting hnew hended
    exact ⟨hrun, rfl⟩

/-- The threads may take the handlers of different sessions in any order: another order of the same
connections and of the same events of each session leads to the same sessions, and gives the logger
the same calls of each of them, if it takes them in that order. -/
theorem order_irrelevant (g : Shared) (first : NewConnection) (logger logger' : Klog.State)
    (es fs : List Event) (t : State)
    (hrun : Run (fun a e b => step g a e = some b) (.listening first logger) es t)
    (ht : t.ended = none) (haccepts : fs.filter Event.isAccept = es.filter Event.isAccept)
    (hown : ∀ i, eventsOf i fs = eventsOf i es) (htimely : Family.Timely (labels first fs))
    (hlog : exec Klog.step logger ((calls g first fs).map Prod.snd) = some logger') :
    Run (fun a e b => step g a e = some b) (.listening first logger) fs
        { t with logger := logger' } ∧
      ∀ i, Family.share i (calls g first fs) = Family.share i (calls g first es) := by
  obtain ⟨⟨haccepting, hnew, hundelayed⟩, ws, hhanded, -⟩ := serving_of_run hrun ht
  have hjoined : Family.joined (labels first fs) = Family.joined (labels first es) := by
    rw [← joined_filter, haccepts, joined_filter]
  have hpending : t.newConnection = pending first fs := by
    rw [hnew, ← pending_filter, ← haccepts, pending_filter]
  have hquick : Undelayed fs := by
    rwa [← undelayed_filter, haccepts, undelayed_filter]
  have halone := (Family.run_iff.mp hhanded.run).2.reorder hjoined fun i => by
    rw [own_labels, own_labels, hown]
  obtain ⟨vs, hother⟩ := Family.exists_emits Connection.hands
    (Family.run_iff.mpr ⟨htimely, halone⟩)
  constructor
  · rw [← handed_eq hother] at hlog
    have hthere := run_of_serving hquick hother hlog
    obtain ⟨sessions, newConnection, accepting, taken, ended⟩ := t
    subst haccepting hpending ht
    exact hthere
  · intro i
    rw [share_calls hother, share_calls hhanded]

end

def sampleShared : Shared := ⟨sampleEnv.router, sampleEnv.fromString⟩

theorem sampleAddr_fits : 4096 + kDefaultBufferSize < 2 ^ 63 := by decide

def sampleConnection : NewConnection :=
  ⟨sampleSession, ⟨rfl, 0, rfl⟩, 4096, Nat.succ_ne_zero 4095, sampleAddr_fits⟩

/-- The read of a session fails, and its handler logs that. -/
def failed (i : Nat) : Event := .session i (.complete 0 2 sampleNow)

/-- Two clients connect and get their greetings, and neither sends a handshake. -/
def sampleEvents : List Event :=
  [.accepted 0 0 sampleConnection, .accepted 0 0 sampleConnection, .session 0 (done 0),
    .session 1 (.transmit 0 5), .session 1 (done 0), failed 0, failed 1]

/-- The first client has its greeting before the second one connects, and is the last to fail. -/
def otherEvents : List Event :=
  [.accepted 0 0 sampleConnection, .session 0 (done 0), .accepted 0 0 sampleConnection,
    .session 1 (.transmit 0 5), .session 1 (done 0), failed 1, failed 0]

set_option maxRecDepth 10000 in
theorem sampleEvents_run : (exec (step sampleShared) (.listening sampleConnection Klog.sampleLogs)
    sampleEvents).isSome := by decide +kernel

def sampleServer : State := Option.get _ sampleEvents_run

theorem sampleServer_run : Run (fun a e b => step sampleShared a e = some b)
    (.listening sampleConnection Klog.sampleLogs) sampleEvents sampleServer :=
  run_of_exec (Option.some_get sampleEvents_run).symm

set_option maxRecDepth 10000 in
theorem sampleServer_up : sampleServer.ended = none := by decide +kernel

set_option maxRecDepth 10000 in
theorem otherCalls_taken : (exec Klog.step Klog.sampleLogs
    ((calls sampleShared sampleConnection otherEvents).map Prod.snd)).isSome := by decide +kernel

/-- The logger gets the record of the second session first. -/
theorem order_irrelevant_sample : Run (fun a e b => step sampleShared a e = some b)
      (.listening sampleConnection Klog.sampleLogs) otherEvents
      { sampleServer with logger := Option.get _ otherCalls_taken } ∧
    ∀ i, Family.share i (calls sampleShared sampleConnection otherEvents) =
      Family.share i (calls sampleShared sampleConnection sampleEvents) := by
  refine order_irrelevant sampleShared sampleConnection Klog.sampleLogs _ sampleEvents _ sampleServer
    sampleServer_run sampleServer_up rfl ?_ (by decide) (Option.some_get otherCalls_taken).symm
  intro i
  match i with
  | 0 => rfl
  | 1 => rfl
  | i + 2 => rfl

end Svnsrv.Server
