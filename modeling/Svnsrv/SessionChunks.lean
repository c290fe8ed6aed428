import Svnsrv.Lib.RaSvn
import Svnsrv.SessionRelay

/-!
# The first chunk of each side

Before the relay starts a session reads once from the client and once from the
backend. The chunk from the client is the handshake, the chunk from the backend
is taken for its greeting and dropped.
-/

namespace Svnsrv.Proxy

open CText Hds Router
set_option autoImplicit false

/-- What the completed reads from a socket returned. -/
def chunksFrom (sock : Sock) (trace : List Act) : List Bytes :=
  trace.filterMap fun
    | .got k bytes => if k = sock then some bytes else none
    | _ => none

@[simp] theorem chunksFrom_nil (sock : Sock) : chunksFrom sock [] = [] := rfl

@[simp] theorem chunksFrom_append (sock : Sock) (t u : List Act) :
    chunksFrom sock (t ++ u) = chunksFrom sock t ++ chunksFrom sock u := List.filterMap_append

@[simp] theorem chunksFrom_cons (sock : Sock) (a : Act) (t : List Act) :
    chunksFrom sock (a :: t) = (match a with
      | .got k bytes => if k = sock then [bytes] else []
      | _ => []) ++ chunksFrom sock t := by
  cases a with
  | got k bytes => by_cases hk : k = sock <;> simp [chunksFrom, hk]
  | _ => rfl

@[simp] theorem chunksFrom_logged (sock : Sock) (calls : List Klog.Call) :
    chunksFrom sock (calls.map .logged) = [] := by
  simp [chunksFrom, List.filterMap_map]

@[simp] theorem chunksFrom_refusal (sock : Sock) (s : SubversionSession) (eid : Nat) (msg : Bytes) :
    chunksFrom sock (s.refusal eid msg) = [] := rfl

theorem gotFrom_eq_flatten (sock : Sock) (trace : List Act) :
    gotFrom sock trace = (chunksFrom sock trace).flatten := by
  induction trace with
  | nil => rfl
  | cons a trace ih =>
    rw [gotFrom_cons, chunksFrom_cons, ih]
    cases a with
    | got k bytes => by_cases hk : k = sock <;> simp [hk]
    | _ => rfl

def Chunked : Phase → SubversionSession → List Act → Prop
  | .greeting _ _, _, trace => ∀ sock, chunksFrom sock trace = []
  | .handshake _ _, _, trace => ∀ sock, chunksFrom sock trace = []
  | .connecting _ _ _, _, trace =>
    (∃ chunk, chunksFrom .socket trace = [chunk]) ∧ chunksFrom .backend trace = []
  | .backendGreeting _ _, _, trace =>
    (∃ chunk, chunksFrom .socket trace = [chunk]) ∧ chunksFrom .backend trace = []
  | .forwarding _ _ _, _, trace => ∀ sock, ∃ chunk, chunksFrom sock trace = [chunk]
  | .relay _, _, trace => .startRelay ∈ trace ∧
    ∀ sock, ∃ chunk, chunksFrom sock trace = chunk :: chunksFrom sock (sinceRelay trace)
  | .failing _ _ _, _, trace => ∀ sock, (chunksFrom sock trace).length ≤ 1
  | .ended, _, trace => ∀ sock, (chunksFrom sock trace).length ≤ 1

theorem sinceRelay_append {trace : List Act} (h : .startRelay ∈ trace) (acts : List Act) :
    sinceRelay (trace ++ acts) = sinceRelay trace ++ acts := by
  obtain ⟨pre, post, rfl, hpre⟩ := List.eq_append_cons_of_mem h
  rw [List.append_assoc, List.cons_append, sinceRelay_split hpre, sinceRelay_split hpre]

theorem Chunked.relay {held held' : Lane → Option LaneOp} {s t : SubversionSession}
    {trace : List Act} (h : Chunked (.relay held) s trace) (acts : List Act) :
    Chunked (.relay held') t (trace ++ acts) := by
  obtain ⟨hmem, hchunks⟩ := h
  refine ⟨List.mem_append_left _ hmem, fun sock => ?_⟩
  obtain ⟨chunk, hchunk⟩ := hchunks sock
  refine ⟨chunk, ?_⟩
  rw [chunksFrom_append, sinceRelay_append hmem, chunksFrom_append, hchunk, List.cons_append]

theorem Chunked.reuseStack {p : Phase} {s : SubversionSession} {trace : List Act}
    (h : Chunked p s trace) (data : Bytes) :
    Chunked p (s.stores .mbuffer data) (trace ++ [.stored .mbuffer]) := by
  cases p with
  | relay held => exact h.relay _
  | _ => simpa [Chunked] using h

theorem Chunked.move {env : Env} {p q : Phase} {s t : SubversionSession} {e : Event}
    {trace acts : List Act} (hrelay : p.isRelay = false → .startRelay ∉ trace)
    (h : Chunked p s trace) (hmove : Move env p s e q t acts) : Chunked q t (trace ++ acts) := by
  cases hmove with
  | reuseStack data => exact h.reuseStack data
  | fillLane lane hheld hdata | laneRead lane hheld | laneReadFailed lane hheld he
  | transmitLane lane hheld hn | laneWrote lane hheld hall | laneWriteFailed lane hheld he =>
    exact Chunked.relay h _
  | transmitGreeting hn | greeted | fillHandshake hdata =>
    intro sock
    simp [h sock]
  | greetingFailed he | handshakeFailed call he =>
    intro sock
    simp [h sock]
  | threw hparse | overran hparse hover | refused calls hparse hreply hnot =>
    intro sock
    cases sock <;> simp [h _]
  | @routed _ moved _ _ _ _ _ hauth hrecord =>
    exact ⟨⟨moved, by simp [h .socket]⟩, by simp [h .backend]⟩
  | connected | fillBackendGreeting hdata =>
    obtain ⟨⟨chunk, hchunk⟩, hnone⟩ := h
    exact ⟨⟨chunk, by simp [hchunk]⟩, by simp [hnone]⟩
  | connectFailed call he | connectOverran he | backendGreetingFailed call he
  | backendGreetingOverran he =>
    obtain ⟨⟨chunk, hchunk⟩, hnone⟩ := h
    intro sock
    cases sock <;> simp [hchunk, hnone]
  | @backendGreeted _ moved _ _ =>
    obtain ⟨⟨chunk, hchunk⟩, hnone⟩ := h
    intro sock
    cases sock
    · exact ⟨chunk, by simp [hchunk]⟩
    · exact ⟨moved, by simp [hnone]⟩
  | transmitHandshake hn =>
    intro sock
    obtain ⟨chunk, hchunk⟩ := h sock
    exact ⟨chunk, by simp [hchunk]⟩
  | forwarded =>
    refine ⟨by simp, fun sock => ?_⟩
    obtain ⟨chunk, hchunk⟩ := h sock
    refine ⟨chunk, ?_⟩
    rw [List.append_cons, sinceRelay_split (by simp [hrelay rfl])]
    simp [hchunk]
  | forwardFailed call he | forwardOverran he =>
    intro sock
    obtain ⟨chunk, hchunk⟩ := h sock
    simp [hchunk]
  | transmitFailure hn | failureSent | failureFailed he =>
    intro sock
    simpa using h sock

theorem Chunked.outside {p : Phase} {s : SubversionSession} {trace : List Act}
    (h : Chunked p s trace) (hp : p.isRelay = false) (sock : Sock) :
    (chunksFrom sock trace).length ≤ 1 := by
  cases p with
  | relay held => cases hp
  | greeting moved c | handshake moved c => rw [h sock]; exact Nat.zero_le 1
  | connecting address port c | backendGreeting moved c =>
    obtain ⟨⟨chunk, hchunk⟩, hnone⟩ := h
    cases sock
    · rw [hchunk]
      exact Nat.le_refl 1
    · rw [hnone]
      exact Nat.zero_le 1
  | forwarding size moved c =>
    obtain ⟨chunk, hchunk⟩ := h sock
    rw [hchunk]
    exact Nat.le_refl 1
  | failing size moved c | ended => exact h sock

/-- Before the relay at most one chunk has been read from each side; in it one more than
the relay has read. -/
theorem chunks_of_reachable {env : Env} {s : State} (h : Reachable env s) (sock : Sock) :
    (.startRelay ∉ s.trace ∧ (chunksFrom sock s.trace).length ≤ 1) ∨
    (.startRelay ∈ s.trace ∧
      ∃ chunk, chunksFrom sock s.trace = chunk :: chunksFrom sock (sinceRelay s.trace)) := by
  obtain ⟨p, session, trace, rfl, hframed, hchunked⟩ :=
    reachable_phase (I := fun p s trace => Framed p trace ∧ Chunked p s trace) h
      (fun c _ => ⟨⟨Nat.le_refl 0, fun _ => by simp [SubversionSession.start,
        SubversionSession.asyncWriteSome]⟩, fun sock => rfl⟩)
      fun h hmove => ⟨h.1.move hmove, h.2.move h.1.relay hmove⟩
  cases hp : p.isRelay with
  | false => exact .inl ⟨hframed.relay hp, hchunked.outside hp sock⟩
  | true =>
    cases p with
    | relay held => exact .inr ⟨hchunked.1, hchunked.2 sock⟩
    | _ => cases hp

/-! ## The greeting of the backend -/

/-- What a backend sends: one complete item as its greeting, and the rest. -/
structure BackendStream where
  greeting : Bytes
  rest : Bytes
  item : RaSvn.Item
  isText : RaSvn.Text item greeting

def BackendStream.bytes (stream : BackendStream) : Bytes := stream.greeting ++ stream.rest

/-- Everything that a lane has read in the relay has been written. -/
def Drained (lane : Lane) (s : State) : Prop :=
  (∀ op ∈ s.ops, op.writesTo ≠ some lane.dst) ∧
    ∀ e, .wrote lane.dst e ∈ sinceRelay s.trace → e = 0

theorem delivered_of_reachable {env : Env} {s : State} (h : Reachable env s) (lane : Lane) :
    sentOn lane.dst (sinceRelay s.trace) <+: gotFrom lane.src (sinceRelay s.trace) ∧
      (Drained lane s →
        sentOn lane.dst (sinceRelay s.trace) = gotFrom lane.src (sinceRelay s.trace)) := by
  obtain ⟨p, session, trace, rfl, hrelaying⟩ := relaying_of_reachable h
  obtain ⟨hpre, hall⟩ := hrelaying.transparent lane
  exact ⟨hpre, fun hdrained => hall hdrained.1 hdrained.2⟩

/-- The first read from the backend, if there was one, returned its greeting and no more. -/
def GreetingAlone (stream : BackendStream) (trace : List Act) : Prop :=
  ∀ chunk ∈ (chunksFrom .backend trace).head?, chunk = stream.greeting

/-- The client gets a prefix of what follows the greeting, and all of it that has been read
once the lane is drained. -/
def FollowsGreeting (stream : BackendStream) (s : State) : Prop :=
  sentOn .socket (sinceRelay s.trace) <+: stream.rest ∧
    (Drained .upstream s → sentOn .socket (sinceRelay s.trace) =
      (gotFrom .backend s.trace).drop stream.greeting.length)

/-- Whatever the network does, what follows the greeting reaches the client whole if the
first read returned the greeting alone, and not otherwise. -/
theorem greeting_consumed_iff (env : Env) (stream : BackendStream) (s : State)
    (h : Reachable env s) (hstream : gotFrom .backend s.trace <+: stream.bytes) :
    (GreetingAlone stream s.trace → FollowsGreeting stream s) ∧
    (.startRelay ∈ s.trace → Drained .upstream s →
      stream.greeting.length ≤ (gotFrom .backend s.trace).length →
      (FollowsGreeting stream s ↔ GreetingAlone stream s.trace)) := by
  obtain ⟨hpre, hall⟩ : sentOn .socket (sinceRelay s.trace) <+:
      gotFrom .backend (sinceRelay s.trace) ∧ (Drained .upstream s → sentOn .socket
        (sinceRelay s.trace) = gotFrom .backend (sinceRelay s.trace)) :=
    delivered_of_reachable h .upstream
  rcases chunks_of_reachable h .backend with ⟨hnot, hone⟩ | ⟨-, chunk, hchunk⟩
  · refine ⟨fun halone => ?_, fun hmem => absurd hmem hnot⟩
    rw [FollowsGreeting, gotFrom_eq_flatten, sinceRelay_of_notMem hnot]
    refine ⟨List.nil_prefix, fun _ => ?_⟩
    cases hchunks : chunksFrom .backend s.trace with
    | nil => simp
    | cons chunk chunks =>
      rw [hchunks] at hone
      obtain rfl := List.length_eq_zero_iff.mp (Nat.le_zero.mp (Nat.le_of_succ_le_succ hone))
      have hgreeting := halone chunk (by simp [hchunks])
      simp [hgreeting]
  · have hgot : gotFrom .backend s.trace = chunk ++ gotFrom .backend (sinceRelay s.trace) := by
      rw [gotFrom_eq_flatten, hchunk, List.flatten_cons, gotFrom_eq_flatten]
    have hhead : GreetingAlone stream s.trace ↔ chunk = stream.greeting := by
      simp [GreetingAlone, hchunk]
    have hfollows : chunk = stream.greeting → FollowsGreeting stream s := by
      rintro rfl
      rw [FollowsGreeting, hgot]
      rw [hgot] at hstream
      refine ⟨hpre.trans ((List.prefix_append_right_inj _).mp hstream), fun hdrained => ?_⟩
      rw [List.drop_left]
      exact hall hdrained
    rw [hhead]
    refine ⟨hfollows, fun _ hdrained hwhole => ⟨fun ⟨_, hafter⟩ => ?_, hfollows⟩⟩
    have hlengths := congrArg List.length ((hall hdrained).symm.trans (hafter hdrained))
    rw [hgot] at hstream hwhole hlengths
    rw [List.length_append] at hwhole
    rw [List.length_drop, List.length_append] at hlengths
    have hchunkPrefix : chunk <+: stream.bytes := (List.prefix_append _ _).trans hstream
    have hgreetingPrefix : stream.greeting <+: stream.bytes := List.prefix_append _ _
    exact (List.prefix_of_prefix_length_le hchunkPrefix hgreetingPrefix
      (by omega)).eq_of_length (by omega)

/-! The greeting "( ) " is followed by "( x ) ". -/

def sampleStream : BackendStream where
  greeting := ascii "( ) "
  rest := ascii "( x ) "
  item := .list []
  isText := RaSvn.text_list .nil

/-- The backend's bytes arrive in two reads, the second of them in the relay. -/
def segmentedEvents (first second : Bytes) : List Event :=
  [.transmit 0 greeting.length, done 0, .fill 0 sampleHandshake, done 0,
    done 0, .fill 0 first, done 0,
    .transmit 0 sampleHandshake.length, done 0,
    .fill 0 second, done 0, .transmit 0 second.length, done 0]

set_option maxRecDepth 10000 in
theorem segmentedEvents_run : (Transition.exec (step sampleEnv) (.started sampleSession)
    (segmentedEvents (ascii "( ) ") (ascii "( x ) "))).isSome := by decide +kernel

/-- The greeting has been read alone. -/
def segmentedRelay : State := Option.get _ segmentedEvents_run

set_option maxRecDepth 10000 in
theorem greeting_consumed_sample : FollowsGreeting sampleStream segmentedRelay :=
  (greeting_consumed_iff sampleEnv sampleStream segmentedRelay
    (Transition.reachable_exec sampleSession_init segmentedEvents_run) (by decide +kernel)).1
    (show ∀ chunk ∈ (chunksFrom .backend segmentedRelay.trace).head?, chunk = ascii "( ) "
      by decide +kernel)

/-- What the client has got when nothing is left to write. -/
def Delivers (bytes : Bytes) (s : State) : Prop :=
  gotFrom .backend s.trace = sampleStream.bytes ∧ s.ops.all (fun op => op.writesTo = none) = true ∧
    sentOn .socket (sinceRelay s.trace) = bytes

instance (bytes : Bytes) : DecidablePred (Delivers bytes) := fun _ =>
  inferInstanceAs (Decidable (_ ∧ _ ∧ _))

set_option maxRecDepth 10000 in
/-- Cut in its middle, the greeting reaches the client in part; glued to what follows it,
it takes that along. -/
theorem greeting_cut_or_glued :
    (∃ s, Reachable sampleEnv s ∧ Delivers (ascii ") ( x ) ") s) ∧
      (∃ s, Reachable sampleEnv s ∧ Delivers (ascii "x ) ") s) ∧
      sampleStream.rest ≠ ascii ") ( x ) " ∧ sampleStream.rest ≠ ascii "x ) " :=
  ⟨Transition.exists_reachable_of_exec sampleSession_init
      (show (Transition.exec (step sampleEnv) (.started sampleSession)
        (segmentedEvents (ascii "( ") (ascii ") ( x ) "))).any _ by decide +kernel),
    Transition.exists_reachable_of_exec sampleSession_init
      (show (Transition.exec (step sampleEnv) (.started sampleSession)
        (segmentedEvents (ascii "( ) ( ") (ascii "x ) "))).any _ by decide +kernel),
    by decide +kernel, by decide⟩

end Svnsrv.Proxy
