import Svnsrv.Lib.Trace
import Svnsrv.HdsSafety
import Svnsrv.SessionRelay
import Svnsrv.SessionFrames

/-!
# Messages that are sent at one go

The greeting, the handshake and the failure frame are each handed to one
`async_write_some`, and what that reports is not looked at. Where it is the whole
message, the peer has all of it when the session goes on.
-/

namespace Svnsrv.Proxy

open CText Hds Router
set_option autoImplicit false

/-! ## The condition and the property -/

/-- Everything that an `async_write_some` was given has been written. -/
def Op.whole (op : Op) : Bool :=
  match op.io with
  | .writeSome _ _ size => op.moved.length = size
  | _ => true

/-- The event cuts no message short: an `async_write_some` that succeeds has written
everything, and the greeting is handed over while its array still holds it. -/
def Unbroken (s : State) : Event → Prop
  | .complete i e _ => e = 0 → ∀ op ∈ s.ops[i]?, op.whole = true
  | .transmit i _ => ∀ op ∈ s.ops[i]?, op.refersTo = some .mbuffer →
      s.session.mem.get .mbuffer = greeting
  | _ => True

instance (s : State) : (e : Event) → Decidable (Unbroken s e)
  | .complete i e _ => inferInstanceAs (Decidable (e = 0 → ∀ op ∈ s.ops[i]?, op.whole = true))
  | .transmit i _ => inferInstanceAs (Decidable (∀ op ∈ s.ops[i]?,
      op.refersTo = some .mbuffer → s.session.mem.get .mbuffer = greeting))
  | .fill _ _ => inferInstanceAs (Decidable True)
  | .reuseStack _ => inferInstanceAs (Decidable True)

/-- What the peers have been sent by the time a session goes on: the greeting and all of the
client's bytes before it reads from the client, the handshake before the relay, the failure
frame before the shutdown. -/
def Timely (pre : List Act) : Act → Prop
  | .startRead .socket _ =>
    greeting <+: sentOn .socket pre ∧ sentOn .backend pre = gotFrom .socket pre
  | .startRelay => ∃ m hds, .parsed m 0 hds ∈ pre ∧ sentOn .backend pre = m
  | .shutdown => ∃ frame, .failureFrame frame ∈ pre ∧ sentOn .socket pre = greeting ++ frame
  | _ => True

/-! ## Failure frames fit -/

/-- Everything a session replies. -/
def replies : List Bytes := [] :: (messages ++ backendErrors)

theorem replies_short : ∀ msg ∈ replies, msg.length < 100 := by decide +kernel

theorem failureText_fits {eid : Nat} {msg : Bytes} (hmsg : msg ∈ replies)
    (heid : eid ∈ [210004, 200042]) :
    (SubversionSession.failureText eid msg.length msg).length ≤ msg.length + 63 ∧
    (SubversionSession.failureText eid msg.length msg).length < kDefaultBufferSize := by
  have hshort := replies_short msg hmsg
  have heid' : eid < 10 ^ 6 := by
    simp only [List.mem_cons, List.not_mem_nil, or_false] at heid
    omega
  have hlength := length_failureText_le (a := 6) (b := 2) msg (by decide) (by decide) heid' hshort
  unfold kDefaultBufferSize
  omega

theorem reply_mem {b : Hds.Buffer} {hds hds' : SubversionHds} {code eid : Nat} {msg : Bytes}
    (hfresh : hds.lastError = []) (hparse : parseSubversionHds b hds = .ret code hds')
    (h : Reply hds' eid msg) : msg ∈ replies ∧ eid ∈ [210004, 200042] := by
  have hcoded := parse_coded b hds
  rw [hparse, hfresh] at hcoded
  rcases h with ⟨rfl, rfl⟩ | ⟨rfl, hmsg⟩
  · refine ⟨?_, by simp⟩
    rcases hcoded.2 with hempty | hmem
    · rw [hempty]
      exact List.mem_cons_self
    · exact List.mem_cons_of_mem _ (List.mem_append_left _ hmem)
  · exact ⟨List.mem_cons_of_mem _ (List.mem_append_right _ hmsg), by simp⟩

theorem take_refuses (s : SubversionSession) {eid : Nat} {msg : Bytes} (hmsg : msg ∈ replies)
    (heid : eid ∈ [210004, 200042]) :
    ((s.refuses eid msg).mem.get .buffer).take
        (SubversionSession.failureText eid msg.length msg).length =
      SubversionSession.failureText eid msg.length msg := by
  obtain ⟨hsize, hfits⟩ := failureText_fits hmsg heid
  exact take_refuses_of_fits s hsize hfits

/-! ## How far the messages are -/

/-- The handshake that was read is what `clt_buffer_` holds, and `moved` of it is forwarded. -/
structure Holding (s : SubversionSession) (trace : List Act) (moved : Bytes) : Prop where
  greeted : sentOn .socket trace = greeting
  got : gotFrom .socket trace = (s.mem.get .cltBuffer).take s.handshakeSize
  size : s.handshakeSize ≤ (s.mem.get .cltBuffer).length
  parsed : ∃ hds, .parsed (gotFrom .socket trace) 0 hds ∈ trace
  sent : sentOn .backend trace = moved
  begun : moved <+: gotFrom .socket trace

/-- Both lanes were started behind the greeting and the whole handshake. -/
structure Started (trace pre post : List Act) : Prop where
  split : trace = pre ++ .startRelay :: post
  first : .startRelay ∉ pre
  greeted : greeting <+: sentOn .socket pre
  forwarded : sentOn .backend pre = gotFrom .socket pre

/-- A failure frame lies in `buffer_`, and `moved` of it is sent. -/
structure Failing (s : SubversionSession) (trace : List Act) (size : Nat)
    (moved frame : Bytes) : Prop where
  noted : .failureFrame frame ∈ trace
  holds : (s.mem.get .buffer).take size = frame
  length : frame.length = size
  sent : sentOn .socket trace = greeting ++ moved
  begun : moved <+: frame
  stream : sentOn .backend trace <+: gotFrom .socket trace

/-- Nothing has come from the client, and nothing has gone to the backend. -/
structure Silent (s : SubversionSession) (trace : List Act) : Prop where
  sent : sentOn .backend trace = []
  got : gotFrom .socket trace = []
  lastError : s.hds.lastError = []

/-- How far the messages of a session are in each phase. -/
def Delivered : Phase → SubversionSession → List Act → Prop
  | .greeting moved _, s, trace =>
    Silent s trace ∧ sentOn .socket trace = moved ∧ moved <+: greeting
  | .handshake moved _, s, trace =>
    Silent s trace ∧ sentOn .socket trace = greeting ∧
      (s.mem.get .cltBuffer).take moved.length = moved
  | .connecting _ _ _, s, trace => Holding s trace []
  | .backendGreeting _ _, s, trace => Holding s trace []
  | .forwarding size moved _, s, trace => size = s.handshakeSize ∧ Holding s trace moved
  | .relay _, _, trace => ∃ pre post, Started trace pre post
  | .failing size moved _, s, trace => ∃ frame, Failing s trace size moved frame
  | .ended, _, trace => sentOn .backend trace <+: gotFrom .socket trace

variable {s t : SubversionSession} {trace acts : List Act} {moved : Bytes}

theorem Silent.append (h : Silent s trace) (herror : t.hds.lastError = s.hds.lastError)
    (hsent : sentOn .backend acts = []) (hgot : gotFrom .socket acts = []) :
    Silent t (trace ++ acts) where
  sent := by rw [sentOn_append, h.sent, hsent, List.append_nil]
  got := by rw [gotFrom_append, h.got, hgot, List.append_nil]
  lastError := herror.trans h.lastError

theorem Silent.stream (h : Silent s trace) (hsent : sentOn .backend acts = []) :
    sentOn .backend (trace ++ acts) <+: gotFrom .socket (trace ++ acts) := by
  rw [sentOn_append, h.sent, hsent]
  exact List.nil_prefix

theorem Holding.append (h : Holding s trace moved)
    (hmem : t.mem.get .cltBuffer = s.mem.get .cltBuffer)
    (hsize : t.handshakeSize = s.handshakeSize) (hsent : ∀ sock, sentOn sock acts = [])
    (hgot : gotFrom .socket acts = []) : Holding t (trace ++ acts) moved := by
  have hkeep : gotFrom .socket (trace ++ acts) = gotFrom .socket trace := by
    rw [gotFrom_append, hgot, List.append_nil]
  constructor
  · rw [sentOn_append, hsent, List.append_nil, h.greeted]
  · rw [hkeep, hmem, hsize, h.got]
  · rw [hmem, hsize]
    exact h.size
  · obtain ⟨hds, hparsed⟩ := h.parsed
    rw [hkeep]
    exact ⟨hds, List.mem_append_left _ hparsed⟩
  · rw [sentOn_append, hsent, List.append_nil, h.sent]
  · rw [hkeep]
    exact h.begun

theorem Holding.transmit (h : Holding s trace []) {n : Nat} (hn : n ≤ s.handshakeSize) :
    Holding s (trace ++ [.sent .backend (s.next .cltBuffer [] n)]) (s.next .cltBuffer [] n) := by
  obtain ⟨hds, hparsed⟩ := h.parsed
  have hnext : s.next .cltBuffer [] n <+: gotFrom .socket trace := by
    rw [h.got]
    exact List.take_prefix_take_left hn
  constructor
  · simp [h.greeted]
  · simp [h.got]
  · exact h.size
  · exact ⟨hds, by simp [hparsed]⟩
  · simp [h.sent]
  · simpa using hnext

theorem Holding.all (h : Holding s trace moved) (hmoved : moved.length = s.handshakeSize) :
    moved = gotFrom .socket trace := by
  apply h.begun.eq_of_length
  rw [hmoved, h.got, List.length_take_of_le h.size]

theorem Started.append {pre post : List Act} (h : Started trace pre post) (acts : List Act) :
    Started (trace ++ acts) pre (post ++ acts) where
  split := by rw [h.split, List.append_assoc, List.cons_append]
  first := h.first
  greeted := h.greeted
  forwarded := h.forwarded

theorem Failing.append {size : Nat} {frame : Bytes} (h : Failing s trace size moved frame)
    (hmem : t.mem.get .buffer = s.mem.get .buffer) (hsent : ∀ sock, sentOn sock acts = [])
    (hgot : gotFrom .socket acts = []) : Failing t (trace ++ acts) size moved frame where
  noted := List.mem_append_left _ h.noted
  holds := by rw [hmem, h.holds]
  length := h.length
  sent := by rw [sentOn_append, hsent, List.append_nil, h.sent]
  begun := h.begun
  stream := by
    rw [sentOn_append, hsent, gotFrom_append, hgot, List.append_nil, List.append_nil]
    exact h.stream

theorem Failing.transmit {size n : Nat} {frame : Bytes} (h : Failing s trace size [] frame)
    (hn : n ≤ size) :
    Failing s (trace ++ [.sent .socket (s.next .buffer [] n)]) size (s.next .buffer [] n)
      frame where
  noted := List.mem_append_left _ h.noted
  holds := h.holds
  length := h.length
  sent := by simp [h.sent]
  begun := by
    rw [← h.holds]
    exact List.take_prefix_take_left hn
  stream := by simpa using h.stream

theorem failing_refused {eid : Nat} {msg : Bytes} (hmsg : msg ∈ replies)
    (heid : eid ∈ [210004, 200042]) (hgreeted : sentOn .socket trace = greeting)
    (hstream : sentOn .backend trace <+: gotFrom .socket trace) :
    Delivered (.refused eid msg) (s.refuses eid msg) (trace ++ s.refusal eid msg) := by
  refine ⟨SubversionSession.failureText eid msg.length msg, ?_⟩
  constructor
  · apply List.mem_append_right
    simp [SubversionSession.refusal]
  · exact take_refuses s hmsg heid
  · rfl
  · simp [hgreeted]
  · exact List.nil_prefix
  · simpa using hstream

/-! ## Moves -/

theorem Delivered.reuseStack {p : Phase} (h : Delivered p s trace) (data : Bytes) :
    Delivered p (s.stores .mbuffer data) (trace ++ [.stored .mbuffer]) := by
  cases p with
  | greeting moved c =>
    obtain ⟨hsilent, hsent, hbegun⟩ := h
    exact ⟨hsilent.append rfl rfl rfl, by simpa using hsent, hbegun⟩
  | handshake moved c =>
    obtain ⟨hsilent, hsent, hheld⟩ := h
    exact ⟨hsilent.append rfl rfl rfl, by simpa using hsent, hheld⟩
  | connecting address port c | backendGreeting moved c =>
    exact Holding.append h rfl rfl (fun _ => rfl) rfl
  | forwarding size moved c => exact ⟨h.1, h.2.append rfl rfl (fun _ => rfl) rfl⟩
  | relay held =>
    obtain ⟨pre, post, hstarted⟩ := h
    exact ⟨pre, _, hstarted.append _⟩
  | failing size moved c =>
    obtain ⟨frame, hfailing⟩ := h
    exact ⟨frame, hfailing.append rfl (fun _ => rfl) rfl⟩
  | ended => simpa [Delivered] using h

theorem holding_read {code : Nat} {hds : SubversionHds} {node : StorageElement} {c : Bool}
    {env : Env} {rest : List Act} (h : Delivered (.handshake moved c) s trace)
    (hcode : code = 0) (hsent : ∀ sock, sentOn sock rest = []) (hgot : gotFrom .socket rest = []) :
    Holding { s.reads moved.length hds with node }
      (trace ++ .got .socket moved :: .parsed (s.handshake env moved.length).bytes code hds :: rest)
      [] := by
  obtain ⟨hsilent, hgreeted, hheld⟩ := h
  have hbytes : (s.handshake env moved.length).bytes = moved := hheld
  have hmoved : gotFrom .socket (trace ++ .got .socket moved ::
      .parsed (s.handshake env moved.length).bytes code hds :: rest) = moved := by
    simp [hsilent.got, hgot]
  constructor
  · simp [hgreeted, hsent]
  · rw [hmoved]
    exact hheld.symm
  · have hlength := congrArg List.length hheld
    rw [List.length_take] at hlength
    change moved.length ≤ (s.mem.get .cltBuffer).length
    omega
  · refine ⟨hds, ?_⟩
    rw [hmoved, hbytes, hcode]
    simp
  · simp [hsilent.sent, hsent]
  · exact List.nil_prefix

theorem Holding.stream (h : Holding s trace moved) :
    sentOn .backend trace <+: gotFrom .socket trace := by
  rw [h.sent]
  exact h.begun

theorem Holding.refused {eid : Nat} {msg : Bytes} (h : Holding s trace moved)
    (hmsg : msg ∈ replies) (heid : eid ∈ [210004, 200042]) :
    Delivered (.refused eid msg) (s.refuses eid msg) (trace ++ s.refusal eid msg) := by
  exact failing_refused hmsg heid h.greeted h.stream

theorem notAvailable_mem : SubversionSession.notAvailable ∈ replies := by
  simp [replies, backendErrors]

theorem echoFailure_mem : SubversionSession.echoFailure ∈ replies := by
  simp [replies, backendErrors]

theorem delivered_refused {env : Env} {code : Nat} {hds : SubversionHds} {node : StorageElement}
    {eid : Nat} {msg : Bytes} {c : Bool} (calls : List Klog.Call) (h : Delivered (.handshake moved c) s trace)
    (hparse : parseSubversionHds (s.handshake env moved.length) s.hds = .ret code hds)
    (hreply : Reply hds eid msg) :
    Delivered (.refused eid msg) ({ s.reads moved.length hds with node }.refuses eid msg)
      (trace ++ .got .socket moved :: .parsed (s.handshake env moved.length).bytes code hds ::
        (calls.map .logged ++ { s.reads moved.length hds with node }.refusal eid msg)) := by
  obtain ⟨hsilent, hgreeted, -⟩ := h
  obtain ⟨hmsg, heid⟩ := reply_mem hsilent.lastError hparse hreply
  have hbefore : sentOn .socket (trace ++ .got .socket moved ::
      .parsed (s.handshake env moved.length).bytes code hds :: calls.map .logged) = greeting := by
    simp [hgreeted]
  have hstream : sentOn .backend (trace ++ .got .socket moved ::
      .parsed (s.handshake env moved.length).bytes code hds :: calls.map .logged) <+:
      gotFrom .socket (trace ++ .got .socket moved ::
        .parsed (s.handshake env moved.length).bytes code hds :: calls.map .logged) :=
    hsilent.stream (by simp)
  have hfailing := failing_refused (s := { s.reads moved.length hds with node }) hmsg heid
    hbefore hstream
  simpa using hfailing

theorem Delivered.move {env : Env} {p q : Phase} {e : Event} (h : Delivered p s trace)
    (hrelaying : Relaying p s trace) (hC : Unbroken (p.state s trace) e) (hmove : Move env p s e q t acts) :
    Delivered q t (trace ++ acts) := by
  cases hmove with
  | reuseStack data => exact h.reuseStack data
  | transmitGreeting hn =>
    obtain ⟨hsilent, hsent, -⟩ := h
    have hkept : s.mem.get .mbuffer = greeting := hC _ rfl rfl
    refine ⟨hsilent.append rfl rfl rfl, by simp [hsent], ?_⟩
    rw [SubversionSession.next, hkept]
    exact List.take_prefix _ _
  | greeted =>
    obtain ⟨hsilent, hsent, hbegun⟩ := h
    have hall := hbegun.eq_of_length (of_decide_eq_true (hC rfl _ rfl))
    exact ⟨hsilent.append rfl rfl rfl, by simp [hsent, hall], rfl⟩
  | greetingFailed he => exact h.1.stream rfl
  | fillHandshake hdata =>
    obtain ⟨hsilent, hsent, -⟩ := h
    have hheld := take_get_store (b := .cltBuffer) hdata s.mem
    exact ⟨hsilent.append rfl rfl rfl, by simp [hsent], hheld⟩
  | handshakeFailed call he | threw hparse | overran hparse hover => exact h.1.stream rfl
  | refused calls hparse hreply hnot => exact delivered_refused calls h hparse hreply
  | routed hauth hrecord => exact holding_read h rfl (fun _ => rfl) rfl
  | connected => exact Holding.append h rfl rfl (fun _ => rfl) rfl
  | connectFailed call he | backendGreetingFailed call he =>
    have hlogged : Holding s (trace ++ [.logged call]) [] :=
      Holding.append h rfl rfl (fun _ => rfl) rfl
    have hrefused := hlogged.refused notAvailable_mem (List.mem_cons_of_mem _ List.mem_cons_self)
    simpa using hrefused
  | connectOverran he | backendGreetingOverran he =>
    have hoverran : Holding s (trace ++ [.overran]) [] :=
      Holding.append h rfl rfl (fun _ => rfl) rfl
    exact hoverran.stream
  | fillBackendGreeting hdata => exact Holding.append h rfl rfl (fun _ => rfl) rfl
  | backendGreeted => exact ⟨rfl, Holding.append h rfl rfl (fun _ => rfl) rfl⟩
  | transmitHandshake hn =>
    obtain ⟨hsize, hholding⟩ := h
    exact ⟨hsize, hholding.transmit (hsize ▸ hn)⟩
  | forwarded =>
    obtain ⟨hsize, hholding⟩ := h
    have hall := hholding.all ((of_decide_eq_true (hC rfl _ rfl)).trans hsize)
    refine ⟨trace ++ [.wrote .backend 0],
      [.startRead .backend .buffer, .startRead .socket .cltBuffer], ?_, ?_, ?_, ?_⟩
    · simp
    · have hnot : .startRelay ∉ trace := hrelaying
      simp [hnot]
    · simp [hholding.greeted]
    · simp [hholding.sent, hall]
  | @forwardFailed _ _ _ _ e _ call he =>
    have hcancelled : Holding s (trace ++ [.wrote .backend e, .logged call, .cancel .backend]) _ :=
      h.2.append rfl rfl (fun _ => rfl) rfl
    have heid : 200042 ∈ [210004, 200042] := by simp
    have hrefused := hcancelled.refused echoFailure_mem heid
    simpa using hrefused
  | @forwardOverran _ _ _ _ e _ he =>
    have hoverran : Holding s (trace ++ [.wrote .backend e, .overran]) _ :=
      h.2.append rfl rfl (fun _ => rfl) rfl
    exact hoverran.stream
  | fillLane lane hheld hdata | laneRead lane hheld | laneReadFailed lane hheld he
  | transmitLane lane hheld hn | laneWrote lane hheld hall | laneWriteFailed lane hheld he =>
    obtain ⟨pre, post, hstarted⟩ := h
    exact ⟨pre, _, hstarted.append _⟩
  | transmitFailure hn =>
    obtain ⟨frame, hfailing⟩ := h
    exact ⟨frame, hfailing.transmit hn⟩
  | failureSent | failureFailed he =>
    obtain ⟨frame, hfailing⟩ := h
    simpa [Delivered] using hfailing.stream

/-! ## Runs -/

theorem Relaying.drained {held : Lane → Option LaneOp} {lane : Lane} {size : Nat} {c : Bool}
    (h : Relaying (.relay held) s trace) (hheld : held lane = some (.writing size moved c))
    (hall : moved.length = size) :
    sentOn lane.dst (sinceRelay trace) = gotFrom lane.src (sinceRelay trace) := by
  obtain ⟨pre, post, rfl, hpre, hpumps⟩ := h
  obtain ⟨pump, hp⟩ := hpumps lane
  rw [hheld] at hp
  rw [sinceRelay_split hpre, ← hp.taken, ← hp.given]
  exact Pump.given_eq_taken (hp.wrote hall).pending.1

theorem Started.sentOn_eq {pre post : List Act} (h : Started trace pre post) :
    sentOn .backend trace = gotFrom .socket pre ++ sentOn .backend (sinceRelay trace) ∧
    gotFrom .socket trace = gotFrom .socket pre ++ gotFrom .socket (sinceRelay trace) := by
  have hsince : sinceRelay trace = post := by rw [h.split, sinceRelay_split h.first]
  rw [hsince, h.split]
  simp [h.forwarded]

/-- A lane from the client reads on when the backend has everything. -/
theorem timely_laneWrote {held : Lane → Option LaneOp} {size : Nat} {c : Bool} {lane : Lane}
    {pre post : List Act} (hstarted : Started trace pre post)
    (hrelaying : Relaying (.relay held) s trace)
    (hheld : held lane = some (.writing size moved c)) (hall : moved.length = size) :
    Trace.EachAfter (fun before => Timely (trace ++ before))
      [.wrote lane.dst 0, .startRead lane.src lane.buf] := by
  refine Trace.EachAfter.cons trivial ?_
  refine Trace.EachAfter.cons ?_ Trace.EachAfter.nil
  cases lane with
  | upstream => trivial
  | downstream =>
    obtain ⟨hsent, hgot⟩ := hstarted.sentOn_eq
    have hdrained : sentOn .backend (sinceRelay trace) = gotFrom .socket (sinceRelay trace) :=
      hrelaying.drained hheld hall
    constructor
    · rw [hstarted.split]
      simpa using hstarted.greeted.trans (List.prefix_append _ _)
    · simp [hsent, hgot, hdrained]

theorem Move.timely {env : Env} {p q : Phase} {e : Event} (h : Delivered p s trace)
    (hrelaying : Relaying p s trace) (hC : Unbroken (p.state s trace) e)
    (hmove : Move env p s e q t acts) :
    Trace.EachAfter (fun before => Timely (trace ++ before)) acts := by
  cases hmove with
  | greeted =>
    obtain ⟨hsilent, hsent, hbegun⟩ := h
    have hall := hbegun.eq_of_length (of_decide_eq_true (hC rfl _ rfl))
    refine Trace.EachAfter.cons trivial ?_
    refine Trace.EachAfter.cons ?_ Trace.EachAfter.nil
    constructor
    · simp [hsent, hall]
    · simp [hsilent.sent, hsilent.got]
  | forwarded =>
    obtain ⟨hsize, hholding⟩ := h
    have hall := hholding.all ((of_decide_eq_true (hC rfl _ rfl)).trans hsize)
    obtain ⟨hds, hparsed⟩ := hholding.parsed
    refine Trace.EachAfter.cons trivial ?_
    refine Trace.EachAfter.cons ?_ ?_
    · exact ⟨_, hds, List.mem_append_left _ hparsed, by simp [hholding.sent, hall]⟩
    refine Trace.EachAfter.cons trivial ?_
    refine Trace.EachAfter.cons ?_ Trace.EachAfter.nil
    constructor
    · simp [hholding.greeted]
    · simp [hholding.sent, hall]
  | laneWrote lane hheld hall =>
    obtain ⟨pre, post, hstarted⟩ := h
    exact timely_laneWrote hstarted hrelaying hheld hall
  | failureSent =>
    obtain ⟨frame, hfailing⟩ := h
    have hall := hfailing.begun.eq_of_length ((of_decide_eq_true (hC rfl _ rfl)).trans hfailing.length.symm)
    refine Trace.EachAfter.cons trivial ?_
    refine Trace.EachAfter.cons ?_ Trace.EachAfter.nil
    exact ⟨frame, List.mem_append_left _ hfailing.noted, by simp [hfailing.sent, hall]⟩
  | laneRead lane hheld | laneReadFailed lane hheld he | laneWriteFailed lane hheld he
  | transmitLane lane hheld hn | fillLane lane hheld hdata =>
    apply Trace.EachAfter.of_forall
    simp [Timely]
  | refused calls hparse hreply hnot =>
    apply Trace.EachAfter.of_forall
    simp [Timely, SubversionSession.refusal, or_imp, forall_and]
  | _ =>
    apply Trace.EachAfter.of_forall
    simp [Timely, SubversionSession.refusal]

theorem Delivered.stream {p : Phase} (h : Delivered p s trace) (hrelaying : Relaying p s trace) :
    sentOn .backend trace <+: gotFrom .socket trace := by
  have hnone : ∀ {l : Bytes}, sentOn .backend trace = [] → sentOn .backend trace <+: l := by
    intro l hsent
    rw [hsent]
    exact List.nil_prefix
  cases p with
  | greeting moved c => exact hnone h.1.sent
  | handshake moved c => exact hnone h.1.sent
  | connecting address port c => exact hnone (Holding.sent h)
  | backendGreeting moved c => exact hnone (Holding.sent h)
  | forwarding size moved c =>
    rw [h.2.sent]
    exact h.2.begun
  | relay held =>
    obtain ⟨pre, post, hstarted⟩ := h
    obtain ⟨hsent, hgot⟩ := hstarted.sentOn_eq
    rw [hsent, hgot, List.prefix_append_right_inj]
    exact (hrelaying.transparent .downstream).1
  | failing size moved c =>
    obtain ⟨frame, hfailing⟩ := h
    exact hfailing.stream
  | ended => exact h

/-- With no write on its way, and none that failed, the backend has all of the client's bytes. -/
theorem Delivered.all {p : Phase} (h : Delivered p s trace) (hrelaying : Relaying p s trace)
    (hrelay : .startRelay ∈ trace) (hops : ∀ op ∈ p.ops, op.writesTo ≠ some .backend)
    (hwrote : ∀ e, .wrote .backend e ∈ trace → e = 0) :
    sentOn .backend trace = gotFrom .socket trace := by
  cases p with
  | relay held =>
    obtain ⟨pre, post, hstarted⟩ := h
    obtain ⟨hsent, hgot⟩ := hstarted.sentOn_eq
    have hsince : sinceRelay trace = post := by
      rw [hstarted.split, sinceRelay_split hstarted.first]
    have hdrained := (hrelaying.transparent .downstream).2 hops
    have hall : sentOn .backend (sinceRelay trace) = gotFrom .socket (sinceRelay trace) := by
      apply hdrained
      intro e he
      apply hwrote
      rw [hsince] at he
      rw [hstarted.split]
      exact List.mem_append_right _ (List.mem_cons_of_mem _ he)
    rw [hsent, hgot, hall]
  | _ => exact absurd hrelay hrelaying

/-- What is kept by every step that cuts no message short. -/
structure Whole (p : Phase) (s : SubversionSession) (trace : List Act) : Prop where
  delivered : Delivered p s trace
  relaying : Relaying p s trace
  timely : Trace.EachAfter Timely trace

theorem Whole.move {env : Env} {p q : Phase} {e : Event} (h : Whole p s trace)
    (hC : Unbroken (p.state s trace) e) (hmove : Move env p s e q t acts) :
    Whole q t (trace ++ acts) := by
  constructor
  · exact h.delivered.move h.relaying hC hmove
  · exact h.relaying.move hmove
  · exact h.timely.append (hmove.timely h.delivered h.relaying hC)

theorem whole_start {c : SubversionSession} (hc : Constructed c) :
    Whole (.greeting [] false) c.start.session c.start.acts := by
  obtain ⟨protocol, hhds⟩ := hc.hds
  constructor
  · refine ⟨⟨rfl, rfl, ?_⟩, rfl, List.nil_prefix⟩
    change c.hds.lastError = []
    rw [hhds]
    rfl
  · simp [Relaying, SubversionSession.start, SubversionSession.asyncWriteSome]
  · apply Trace.EachAfter.of_forall
    simp [Timely, SubversionSession.start, SubversionSession.asyncWriteSome]

/-- In a run whose events cut no message short, every message is delivered whole before the
session goes on, and the backend receives the stream of the client without a gap. -/
theorem messages_delivered_whole (env : Env) (s s' : State) (es : List Event) (hinit : Init s)
    (hrun : Transition.Run (fun a e b => step env a e = some b ∧ Unbroken a e) s es s') :
    (∀ pre act post, s'.trace = pre ++ act :: post → Timely pre act) ∧
    sentOn .backend s'.trace <+: gotFrom .socket s'.trace ∧
    (.startRelay ∈ s'.trace → (∀ op ∈ s'.ops, op.writesTo ≠ some .backend) →
      (∀ e, .wrote .backend e ∈ s'.trace → e = 0) →
      sentOn .backend s'.trace = gotFrom .socket s'.trace) := by
  obtain ⟨c, hc, rfl⟩ := hinit
  obtain ⟨p, session, trace, rfl, hwhole⟩ := run_phase (I := Whole) hrun
    ⟨.greeting [] false, _, _, rfl, whole_start hc⟩ fun h hC hmove => h.move hC hmove
  refine ⟨hwhole.timely, hwhole.delivered.stream hwhole.relaying, ?_⟩
  intro hrelay hops hwrote
  exact hwhole.delivered.all hwhole.relaying hrelay hops hwrote

set_option maxRecDepth 10000 in
theorem sampleEvents_unbroken : (Transition.exec (Transition.guarded (step sampleEnv) Unbroken)
    (.started sampleSession) sampleEvents).isSome := by decide +kernel

/-- The end of the sample run. -/
def sampleWhole : State := Option.get _ sampleEvents_unbroken

theorem messages_delivered_whole_sample :
    (∀ pre act post, sampleWhole.trace = pre ++ act :: post → Timely pre act) ∧
    sentOn .backend sampleWhole.trace <+: gotFrom .socket sampleWhole.trace ∧
    (.startRelay ∈ sampleWhole.trace →
      (∀ op ∈ sampleWhole.ops, op.writesTo ≠ some .backend) →
      (∀ e, .wrote .backend e ∈ sampleWhole.trace → e = 0) →
      sentOn .backend sampleWhole.trace = gotFrom .socket sampleWhole.trace) :=
  messages_delivered_whole sampleEnv (.started sampleSession) sampleWhole sampleEvents
    sampleSession_init (Transition.run_of_guarded (Option.some_get sampleEvents_unbroken).symm)

/-! ## Cut messages -/

/-- A byte of the greeting and two of the handshake are written before the relay starts. -/
def cutEvents : List Event :=
  [.transmit 0 1, done 0, .fill 0 sampleHandshake, done 0,
    done 0, .fill 0 (ascii "( )"), done 0, .transmit 0 2, done 0,
    .fill 1 (ascii "x"), done 1, .transmit 1 1]

/-- A byte of the failure frame is written before the socket is shut down. -/
def cutFailure : List Event :=
  [.transmit 0 greeting.length, done 0, .fill 0 (ascii "( 2 ) "), done 0,
    .transmit 0 1, done 0]

def cutFrame : Bytes :=
  SubversionSession.failureText 210004 54
    (ascii "Parse Subversion Handsake failed, cannot resolve url !")

set_option maxRecDepth 10000 in
/-- The greeting, the handshake and the failure frame can all be cut short. -/
theorem messages_cut :
    (∃ s, Reachable sampleEnv s ∧ .startRelay ∈ s.trace ∧ ¬greeting <+: sentOn .socket s.trace ∧
      ¬sentOn .backend s.trace <+: gotFrom .socket s.trace) ∧
    ∃ s, Reachable sampleEnv s ∧ .shutdown ∈ s.trace ∧ .failureFrame cutFrame ∈ s.trace ∧
      ¬greeting ++ cutFrame <+: sentOn .socket s.trace := by
  have hcut := fun es P [DecidablePred P] =>
    @Transition.exists_reachable_of_exec _ _ Init (step sampleEnv) _ es P _ sampleSession_init
  constructor
  · exact hcut cutEvents _ (by decide +kernel)
  · exact hcut cutFailure _ (by decide +kernel)

end Svnsrv.Proxy
