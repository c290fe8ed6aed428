import Svnsrv.Session

/-!
# The phases of a session

The outstanding operations say where a session is: one operation at a time
through the handshake and the failure reply, then two relay lanes with at most
one operation each. `Move` lists everything that can happen in a phase; every
step of a session is a move.
-/

namespace Svnsrv.Proxy

open CText Hds Router Uri
set_option autoImplicit false

/-! ## Phases -/

/-- The two directions of the relay. -/
inductive Lane where
  | upstream
  | downstream
  deriving DecidableEq

/-- The outstanding operation of a lane. -/
inductive LaneOp where
  | reading (moved : Bytes) (cancelled : Bool)
  | writing (size : Nat) (moved : Bytes) (cancelled : Bool)

namespace Lane

def src : Lane → Sock
  | upstream => .backend
  | downstream => .socket

def dst : Lane → Sock
  | upstream => .socket
  | downstream => .backend

def buf : Lane → Buf
  | upstream => .buffer
  | downstream => .cltBuffer

def readHandler : Lane → Handler
  | upstream => .upstreamRead
  | downstream => .downstreamRead

def writeHandler : Lane → Handler
  | upstream => .downstreamWrite
  | downstream => .upstreamWrite

def op (lane : Lane) : LaneOp → Op
  | .reading moved cancelled => ⟨.readSome lane.src lane.buf, lane.readHandler, moved, cancelled⟩
  | .writing size moved cancelled =>
    ⟨.write lane.dst lane.buf size, lane.writeHandler, moved, cancelled⟩

def all : List Lane := [upstream, downstream]

theorem all_nodup : all.Nodup := by decide

theorem call_readHandler (lane : Lane) (env : Env) (now : Now) (s : SubversionSession)
    (e : ErrorCode) (n : Nat) : lane.readHandler.call env now s e n =
      .ok (s.relayRead lane.dst lane.buf lane.writeHandler e n) := by
  cases lane <;> rfl

theorem call_writeHandler (lane : Lane) (env : Env) (now : Now) (s : SubversionSession)
    (e : ErrorCode) (n : Nat) : lane.writeHandler.call env now s e n =
      .ok (s.relayWrite lane.src lane.buf lane.readHandler e) := by
  cases lane <;> rfl

theorem eq_of_op_eq {lane lane' : Lane} {x y : LaneOp} (h : lane.op x = lane'.op y) :
    lane = lane' := by
  cases lane <;> cases lane' <;> cases x <;> cases y <;> first | rfl | cases h

/-- `cancel()` seen by the operation of a lane. -/
def cancelOn (lane : Lane) (socks : List Sock) : LaneOp → LaneOp
  | .reading moved cancelled => .reading moved (cancelled || decide (lane.src ∈ socks))
  | .writing size moved cancelled => .writing size moved (cancelled || decide (lane.dst ∈ socks))

theorem op_cancelOn (lane : Lane) (socks : List Sock) (x : LaneOp) :
    (lane.op x).cancelOn socks = lane.op (lane.cancelOn socks x) := by
  cases x with
  | reading moved cancelled =>
    by_cases h : lane.src ∈ socks <;> simp [op, Op.cancelOn, Op.sock, cancelOn, h]
  | writing size moved cancelled =>
    by_cases h : lane.dst ∈ socks <;> simp [op, Op.cancelOn, Op.sock, cancelOn, h]

end Lane

inductive Phase where
  | greeting (moved : Bytes) (cancelled : Bool)
  | handshake (moved : Bytes) (cancelled : Bool)
  | connecting (address : Bytes) (port : UInt16) (cancelled : Bool)
  | backendGreeting (moved : Bytes) (cancelled : Bool)
  | forwarding (size : Nat) (moved : Bytes) (cancelled : Bool)
  | relay (held : Lane → Option LaneOp)
  | failing (size : Nat) (moved : Bytes) (cancelled : Bool)
  | ended

def Lane.ops (held : Lane → Option LaneOp) : List Op :=
  Slots.pool Lane.all fun lane => (held lane).map lane.op

/-- What is outstanding in a phase. -/
def Phase.ops : Phase → List Op
  | .greeting moved cancelled =>
    [⟨.writeSome .socket .mbuffer Proxy.greeting.length, .echoDownstreamHandshake, moved, cancelled⟩]
  | .handshake moved cancelled =>
    [⟨.readSome .socket .cltBuffer, .readDownstreamHandshake, moved, cancelled⟩]
  | .connecting address port cancelled =>
    [⟨.connect address port, .asyncConnectUpstream, [], cancelled⟩]
  | .backendGreeting moved cancelled =>
    [⟨.readSome .backend .buffer, .readUpstreamHandshake, moved, cancelled⟩]
  | .forwarding size moved cancelled =>
    [⟨.writeSome .backend .cltBuffer size, .echoUpstreamHandshake, moved, cancelled⟩]
  | .relay held => Lane.ops held
  | .failing size moved cancelled =>
    [⟨.writeSome .socket .buffer size, .sendErrorDone, moved, cancelled⟩]
  | .ended => []

/-! ## Moves -/

namespace SubversionSession

def stores (s : SubversionSession) (buf : Buf) (data : Bytes) : SubversionSession :=
  { s with mem := s.mem.store buf data }

/-- The session once it has parsed a handshake of `size` bytes. -/
def reads (s : SubversionSession) (size : Nat) (hds : SubversionHds) : SubversionSession :=
  { s with handshakeSize := size, hds }

/-- The bytes that a write hands over after those it has moved. -/
def next (s : SubversionSession) (buf : Buf) (moved : Bytes) (n : Nat) : Bytes :=
  ((s.mem.get buf).drop moved.length).take n

/-- The session after `sendError`. -/
def refuses (s : SubversionSession) (eid : Nat) (msg : Bytes) : SubversionSession :=
  s.stores .buffer ((failureText eid msg.length msg).take (msg.length + 63) ++ [0])

def refusal (s : SubversionSession) (eid : Nat) (msg : Bytes) : List Act :=
  let text := failureText eid msg.length msg
  [.stored .buffer, .failureFrame text,
    .startWrite .socket (((s.refuses eid msg).mem.get .buffer).take text.length)]

end SubversionSession

def Phase.refused (eid : Nat) (msg : Bytes) : Phase :=
  .failing (SubversionSession.failureText eid msg.length msg).length [] false

/-- The replies that are not about the handshake itself. -/
def backendErrors : List Bytes :=
  [SubversionSession.cannotFound, SubversionSession.upstreamAddress,
    SubversionSession.notAvailable, SubversionSession.echoFailure]

/-- What a session replies after it has parsed a handshake to `hds`. -/
def Reply (hds : SubversionHds) (eid : Nat) (msg : Bytes) : Prop :=
  (eid = 210004 ∧ msg = hds.lastError) ∨ (eid = 200042 ∧ msg ∈ backendErrors)

/-- The parser accepts the handshake, and the router finds `node` for its URL. -/
structure Routed (router : RouterSeletor) (b : Hds.Buffer) (hds hds' : SubversionHds)
    (old node : StorageElement) : Prop where
  parsed : parseSubversionHds b hds = .ret 0 hds'
  canonical : ∃ svnurl, subversionUriCanonicalize hds'.subversionURL (.fresh 0) = (0, svnurl) ∧
    router.getAddress svnurl.owner old = (true, node)
  address : node.address ≠ []

/-- The session may connect to the node that the router has found. -/
structure Authorised (env : Env) (b : Hds.Buffer) (hds hds' : SubversionHds)
    (old node : StorageElement) : Prop extends Routed env.router b hds hds' old node where
  parsable : env.fromString node.address = true

/-- Everything that can happen in a phase: the next phase, the session and what it did. -/
inductive Move (env : Env) :
    Phase → SubversionSession → Event → Phase → SubversionSession → List Act → Prop
  | reuseStack {p s} (data : Bytes) :
    Move env p s (.reuseStack data) p (s.stores .mbuffer data) [.stored .mbuffer]
  | transmitGreeting {s n} (hn : n ≤ greeting.length) :
    Move env (.greeting [] false) s (.transmit 0 n) (.greeting (s.next .mbuffer [] n) false) s
      [.sent .socket (s.next .mbuffer [] n)]
  | greeted {s moved c now} :
    Move env (.greeting moved c) s (.complete 0 0 now) (.handshake [] false) s
      [.wrote .socket 0, .startRead .socket .cltBuffer]
  | greetingFailed {s moved c e now} (he : e ≠ 0) :
    Move env (.greeting moved c) s (.complete 0 e now) .ended s [.wrote .socket e, .cancel .socket]
  | fillHandshake {s data} (hdata : data.length ≤ kDefaultBufferSize) :
    Move env (.handshake [] false) s (.fill 0 data) (.handshake data false)
      (s.stores .cltBuffer data) [.stored .cltBuffer]
  | handshakeFailed {s moved c e now} (call : Klog.Call) (he : e ≠ 0) :
    Move env (.handshake moved c) s (.complete 0 e now) .ended s [.logged call, .cancel .socket]
  | threw {s moved c now fault}
    (hparse : parseSubversionHds (s.handshake env moved.length) s.hds = .abort fault) :
    Move env (.handshake moved c) s (.complete 0 0 now) .ended s [.got .socket moved, .threw fault]
  | overran {s moved c now hds}
    (hparse : parseSubversionHds (s.handshake env moved.length) s.hds = .ret 0 hds)
    (hover : ∀ node, Routed env.router (s.handshake env moved.length) s.hds hds s.node node →
      Klog.access now.tm (Klog.formatted (Klog.storageText node.address hds.subversionURL)) =
        none) :
    Move env (.handshake moved c) s (.complete 0 0 now) .ended s [.got .socket moved, .overran]
  | refused {s moved c now code hds node eid msg} (calls : List Klog.Call)
    (hparse : parseSubversionHds (s.handshake env moved.length) s.hds = .ret code hds)
    (hreply : Reply hds eid msg)
    (hnot : ∀ node', ¬Authorised env (s.handshake env moved.length) s.hds hds s.node node') :
    Move env (.handshake moved c) s (.complete 0 0 now) (.refused eid msg)
      ({ s.reads moved.length hds with node }.refuses eid msg)
      (.got .socket moved :: .parsed (s.handshake env moved.length).bytes code hds ::
        (calls.map .logged ++ { s.reads moved.length hds with node }.refusal eid msg))
  | routed {s moved c now hds node record}
    (hauth : Authorised env (s.handshake env moved.length) s.hds hds s.node node)
    (hrecord : Klog.access now.tm (Klog.formatted (Klog.storageText node.address
      hds.subversionURL)) = some record) :
    Move env (.handshake moved c) s (.complete 0 0 now) (.connecting node.address node.port false)
      { s.reads moved.length hds with node }
      [.got .socket moved, .parsed (s.handshake env moved.length).bytes 0 hds,
        .logged ⟨.access, record.bytes, now.turn⟩, .startConnect node.address node.port]
  | connected {s address port c now} :
    Move env (.connecting address port c) s (.complete 0 0 now) (.backendGreeting [] false) s
      [.startRead .backend .buffer]
  | connectFailed {s address port c e now} (call : Klog.Call) (he : e ≠ 0) :
    Move env (.connecting address port c) s (.complete 0 e now)
      (.refused 200042 SubversionSession.notAvailable)
      (s.refuses 200042 SubversionSession.notAvailable)
      (.logged call :: s.refusal 200042 SubversionSession.notAvailable)
  | connectOverran {s address port c e now} (he : e ≠ 0) :
    Move env (.connecting address port c) s (.complete 0 e now) .ended s [.overran]
  | fillBackendGreeting {s data} (hdata : data.length ≤ kDefaultBufferSize) :
    Move env (.backendGreeting [] false) s (.fill 0 data) (.backendGreeting data false)
      (s.stores .buffer data) [.stored .buffer]
  | backendGreeted {s moved c now} :
    Move env (.backendGreeting moved c) s (.complete 0 0 now)
      (.forwarding s.handshakeSize [] false) s
      [.got .backend moved, .startWrite .backend ((s.mem.get .cltBuffer).take s.handshakeSize)]
  | backendGreetingFailed {s moved c e now} (call : Klog.Call) (he : e ≠ 0) :
    Move env (.backendGreeting moved c) s (.complete 0 e now)
      (.refused 200042 SubversionSession.notAvailable)
      (s.refuses 200042 SubversionSession.notAvailable)
      (.logged call :: s.refusal 200042 SubversionSession.notAvailable)
  | backendGreetingOverran {s moved c e now} (he : e ≠ 0) :
    Move env (.backendGreeting moved c) s (.complete 0 e now) .ended s [.overran]
  | transmitHandshake {s size n} (hn : n ≤ size) :
    Move env (.forwarding size [] false) s (.transmit 0 n)
      (.forwarding size (s.next .cltBuffer [] n) false) s
      [.sent .backend (s.next .cltBuffer [] n)]
  | forwarded {s size moved c now} :
    Move env (.forwarding size moved c) s (.complete 0 0 now)
      (.relay fun _ => some (.reading [] false)) s
      [.wrote .backend 0, .startRelay, .startRead .backend .buffer, .startRead .socket .cltBuffer]
  | forwardFailed {s size moved c e now} (call : Klog.Call) (he : e ≠ 0) :
    Move env (.forwarding size moved c) s (.complete 0 e now)
      (.refused 200042 SubversionSession.echoFailure)
      (s.refuses 200042 SubversionSession.echoFailure)
      (.wrote .backend e :: .logged call :: .cancel .backend ::
        s.refusal 200042 SubversionSession.echoFailure)
  | forwardOverran {s size moved c e now} (he : e ≠ 0) :
    Move env (.forwarding size moved c) s (.complete 0 e now) .ended s
      [.wrote .backend e, .overran]
  | fillLane {s held i data} (lane : Lane) (hheld : held lane = some (.reading [] false))
    (hdata : data.length ≤ lane.buf.size) :
    Move env (.relay held) s (.fill i data)
      (.relay (Function.update held lane (some (.reading data false)))) (s.stores lane.buf data)
      [.stored lane.buf]
  | transmitLane {s held i n size moved c} (lane : Lane)
    (hheld : held lane = some (.writing size moved c)) (hn : moved.length + n ≤ size) :
    Move env (.relay held) s (.transmit i n)
      (.relay (Function.update held lane
        (some (.writing size (moved ++ s.next lane.buf moved n) c)))) s
      [.sent lane.dst (s.next lane.buf moved n)]
  | laneRead {s held i moved c now} (lane : Lane) (hheld : held lane = some (.reading moved c)) :
    Move env (.relay held) s (.complete i 0 now)
      (.relay (Function.update held lane (some (.writing moved.length [] false)))) s
      [.got lane.src moved, .startWrite lane.dst ((s.mem.get lane.buf).take moved.length)]
  | laneReadFailed {s held i moved c e now} (lane : Lane)
    (hheld : held lane = some (.reading moved c)) (he : e ≠ 0) :
    Move env (.relay held) s (.complete i e now)
      (.relay (Function.update (fun l => (held l).map (l.cancelOn [lane.dst])) lane none)) s
      [.cancel lane.dst]
  | laneWrote {s held i size moved c now} (lane : Lane)
    (hheld : held lane = some (.writing size moved c)) (hall : moved.length = size) :
    Move env (.relay held) s (.complete i 0 now)
      (.relay (Function.update held lane (some (.reading [] false)))) s
      [.wrote lane.dst 0, .startRead lane.src lane.buf]
  | laneWriteFailed {s held i size moved c e now} (lane : Lane)
    (hheld : held lane = some (.writing size moved c)) (he : e ≠ 0) :
    Move env (.relay held) s (.complete i e now) (.relay (Function.update held lane none)) s
      [.wrote lane.dst e]
  | transmitFailure {s size n} (hn : n ≤ size) :
    Move env (.failing size [] false) s (.transmit 0 n)
      (.failing size (s.next .buffer [] n) false) s [.sent .socket (s.next .buffer [] n)]
  | failureSent {s size moved c now} :
    Move env (.failing size moved c) s (.complete 0 0 now) .ended s [.wrote .socket 0, .shutdown]
  | failureFailed {s size moved c e now} (he : e ≠ 0) :
    Move env (.failing size moved c) s (.complete 0 e now) .ended s [.wrote .socket e]

/-! ## Every step is a move -/

/-- The state of a session in a phase. -/
def Phase.state (p : Phase) (s : SubversionSession) (trace : List Act) : State :=
  ⟨s, p.ops, trace⟩

/-- A step from a phase is a move to some phase. -/
def Moves (env : Env) (p : Phase) (s : SubversionSession) (trace : List Act) (e : Event)
    (s' : State) : Prop :=
  ∃ q t acts, Move env p s e q t acts ∧ s' = q.state t (trace ++ acts)

theorem Lane.ops_update (held : Lane → Option LaneOp) (lane : Lane) (x : Option LaneOp) :
    Slots.pool Lane.all (Function.update (fun l => (held l).map l.op) lane (x.map lane.op)) =
      Lane.ops (Function.update held lane x) := by
  congr 1
  funext l
  by_cases h : l = lane
  · subst h
    simp
  · simp [Function.update_of_ne h]

theorem Lane.exists_of_getElem? {held : Lane → Option LaneOp} {i : Nat} {op : Op}
    (h : (Lane.ops held)[i]? = some op) :
    ∃ lane x, held lane = some x ∧ op = lane.op x ∧ ∀ y : Option LaneOp,
      Slots.replace (Lane.ops held) i (y.map lane.op).toList =
        Lane.ops (Function.update held lane y) := by
  obtain ⟨lane, -, hop, hreplace⟩ := Slots.exists_slot Lane.all_nodup h
  obtain ⟨x, hx, rfl⟩ := Option.map_eq_some_iff.mp hop
  exact ⟨lane, x, hx, rfl, fun y => (hreplace _).trans (Lane.ops_update held lane y)⟩

theorem Lane.ops_cancelOn (held : Lane → Option LaneOp) (socks : List Sock) :
    (Lane.ops held).map (Op.cancelOn socks) =
      Lane.ops fun l => (held l).map (l.cancelOn socks) := by
  rw [Lane.ops, Slots.pool_map, Lane.ops]
  congr 1
  funext l
  cases held l with
  | none => rfl
  | some x => exact congrArg some (Lane.op_cancelOn l socks x)

theorem fill_moves {env : Env} {p : Phase} {s : SubversionSession} {trace : List Act} {i : Nat}
    {data : Bytes} {s' : State} (h : step env (p.state s trace) (.fill i data) = some s') :
    Moves env p s trace (.fill i data) s' := by
  obtain ⟨op, hop, h⟩ := Option.bind_eq_some_iff.mp h
  obtain ⟨buf, hfill, h⟩ := Option.bind_eq_some_iff.mp h
  obtain rfl := Option.some.inj h
  have hread : ∃ sock, op.io = .readSome sock buf ∧ op.moved = [] ∧ op.cancelled = false ∧
      data.length ≤ buf.size := by
    unfold Op.fill at hfill
    split at hfill
    · rename_i sock buf' hio
      split at hfill
      · obtain rfl := Option.some.inj hfill
        exact ⟨sock, hio, ‹_›⟩
      · cases hfill
    · cases hfill
  obtain ⟨sock, hio, hmoved, hcancelled, hdata⟩ := hread
  cases p with
  | greeting moved c | connecting address port c | forwarding size moved c
  | failing size moved c =>
    obtain ⟨-, rfl⟩ := Slots.getElem?_singleton hop
    cases hio
  | ended => cases hop
  | handshake moved c =>
    obtain ⟨rfl, rfl⟩ := Slots.getElem?_singleton hop
    cases hio
    cases hmoved
    cases hcancelled
    exact ⟨_, _, _, .fillHandshake hdata, rfl⟩
  | backendGreeting moved c =>
    obtain ⟨rfl, rfl⟩ := Slots.getElem?_singleton hop
    cases hio
    cases hmoved
    cases hcancelled
    exact ⟨_, _, _, .fillBackendGreeting hdata, rfl⟩
  | relay held =>
    obtain ⟨lane, x, hx, rfl, hreplace⟩ := Lane.exists_of_getElem? hop
    cases x with
    | writing size moved c => cases hio
    | reading moved c =>
      cases hio
      cases hmoved
      cases hcancelled
      refine ⟨_, _, _, .fillLane lane hx hdata, ?_⟩
      exact congrArg (fun ops => State.mk _ ops _) (hreplace (some (.reading data false)))

theorem transmit_moves {env : Env} {p : Phase} {s : SubversionSession} {trace : List Act}
    {i n : Nat} {s' : State} (h : step env (p.state s trace) (.transmit i n) = some s') :
    Moves env p s trace (.transmit i n) s' := by
  obtain ⟨op, hop, h⟩ := Option.bind_eq_some_iff.mp h
  obtain ⟨⟨sock, buf⟩, hsend, h⟩ := Option.bind_eq_some_iff.mp h
  obtain rfl := Option.some.inj h
  have hwrite : (∃ size, op.io = .writeSome sock buf size ∧ op.moved = [] ∧
      op.cancelled = false ∧ n ≤ size) ∨
      ∃ size, op.io = .write sock buf size ∧ op.moved.length + n ≤ size := by
    unfold Op.transmit at hsend
    split at hsend
    · split at hsend
      · cases hsend
        exact .inl ⟨_, ‹_›, ‹_›⟩
      · cases hsend
    · split at hsend
      · cases hsend
        exact .inr ⟨_, ‹_›, ‹_›⟩
      · cases hsend
    · cases hsend
  cases p with
  | handshake moved c | connecting address port c | backendGreeting moved c =>
    obtain ⟨-, rfl⟩ := Slots.getElem?_singleton hop
    rcases hwrite with ⟨_, hio, -⟩ | ⟨_, hio, -⟩ <;> cases hio
  | ended => cases hop
  | greeting moved c =>
    obtain ⟨rfl, rfl⟩ := Slots.getElem?_singleton hop
    rcases hwrite with ⟨_, hio, hmoved, hcancelled, hn⟩ | ⟨_, hio, -⟩
    · cases hio
      cases hmoved
      cases hcancelled
      exact ⟨_, _, _, .transmitGreeting hn, rfl⟩
    · cases hio
  | forwarding size moved c =>
    obtain ⟨rfl, rfl⟩ := Slots.getElem?_singleton hop
    rcases hwrite with ⟨_, hio, hmoved, hcancelled, hn⟩ | ⟨_, hio, -⟩
    · cases hio
      cases hmoved
      cases hcancelled
      exact ⟨_, _, _, .transmitHandshake hn, rfl⟩
    · cases hio
  | failing size moved c =>
    obtain ⟨rfl, rfl⟩ := Slots.getElem?_singleton hop
    rcases hwrite with ⟨_, hio, hmoved, hcancelled, hn⟩ | ⟨_, hio, -⟩
    · cases hio
      cases hmoved
      cases hcancelled
      exact ⟨_, _, _, .transmitFailure hn, rfl⟩
    · cases hio
  | relay held =>
    obtain ⟨lane, x, hx, rfl, hreplace⟩ := Lane.exists_of_getElem? hop
    cases x with
    | reading moved c => rcases hwrite with ⟨_, hio, -⟩ | ⟨_, hio, -⟩ <;> cases hio
    | writing size moved c =>
      rcases hwrite with ⟨_, hio, -⟩ | ⟨_, hio, hn⟩
      · cases hio
      · cases hio
        refine ⟨_, _, _, .transmitLane lane hx hn, ?_⟩
        exact congrArg (fun ops => State.mk _ ops _)
          (hreplace (some (.writing size (moved ++ s.next lane.buf moved n) c)))

theorem logs_cases (s : SubversionSession) (now : Now) (entry : LogEntry) (next : Reaction) :
    (entry.record = none ∧ s.logs now entry next = .error .overrun) ∨
    ∃ record, entry.record = some record ∧ s.logs now entry next =
      .ok ((s.note (.logged ⟨entry.log, record.bytes, now.turn⟩)).andThen fun _ => next) := by
  unfold SubversionSession.logs
  cases hrecord : entry.record with
  | none => exact .inl ⟨rfl, rfl⟩
  | some record => exact .inr ⟨record, rfl, rfl⟩

/-- The record of a message that is not formatted always fits. -/
theorem readText_logged (now : Now) :
    (LogEntry.error now (Klog.formatted SubversionSession.readText)).record.isSome := by
  apply Klog.log_isSome
  decide

/-- What is behind the parser in the handler of the handshake: the record is too long, or the
client is refused, or the backend is connected to. -/
inductive Connects (env : Env) (now : Now) (s : SubversionSession) (svnurl : SubversionURL) :
    Except Fault Reaction → Prop
  | overran (hover : ∀ node, env.router.getAddress svnurl.owner s.node = (true, node) →
      node.address ≠ [] → Klog.access now.tm (Klog.formatted (Klog.storageText node.address
        s.hds.subversionURL)) = none) :
    Connects env now s svnurl (.error .overrun)
  | refused (node : StorageElement) (msg : Bytes) (call : Klog.Call) (hmsg : msg ∈ backendErrors)
    (hnot : ∀ node', env.router.getAddress svnurl.owner s.node = (true, node') →
      node'.address ≠ [] → env.fromString node'.address = false) :
    Connects env now s svnurl (.ok (({ s with node }.note (.logged call)).andThen fun s =>
      s.sendError 200042 msg msg.length))
  | connects (node : StorageElement) (record : Klog.Record)
    (hroute : env.router.getAddress svnurl.owner s.node = (true, node))
    (haddress : node.address ≠ []) (hfrom : env.fromString node.address = true)
    (hrecord : Klog.access now.tm (Klog.formatted (Klog.storageText node.address
      s.hds.subversionURL)) = some record) :
    Connects env now s svnurl (.ok (({ s with node }.note
      (.logged ⟨.access, record.bytes, now.turn⟩)).andThen fun s =>
        s.asyncConnect node.address node.port .asyncConnectUpstream))

theorem connectUpstream_cases (s : SubversionSession) (env : Env) (now : Now)
    (svnurl : SubversionURL) : Connects env now s svnurl (s.connectUpstream env now svnurl) := by
  obtain ⟨found, node, hroute⟩ : ∃ found node,
      env.router.getAddress svnurl.owner s.node = (found, node) := ⟨_, _, rfl⟩
  have honly : ∀ {node'}, env.router.getAddress svnurl.owner s.node = (true, node') →
      found = true ∧ node = node' := by
    intro node' h
    exact Prod.mk.inj (hroute.symm.trans h)
  by_cases hfound : found = false ∨ node.address = []
  · have hnone : ∀ node', env.router.getAddress svnurl.owner s.node = (true, node') →
        node'.address ≠ [] → False := by
      intro node' h haddress
      obtain ⟨rfl, rfl⟩ := honly h
      exact hfound.elim Bool.noConfusion haddress
    have hconnect : s.connectUpstream env now svnurl = { s with node }.logs now
        (.error now (Klog.formatted (SubversionSession.unknownText s.hds.subversionURL)))
        ({ s with node }.sendError 200042 SubversionSession.cannotFound
          SubversionSession.cannotFound.length) := by
      simp [SubversionSession.connectUpstream, hroute, hfound]
    rw [hconnect]
    rcases logs_cases _ now _ _ with ⟨-, hlogs⟩ | ⟨record, -, hlogs⟩
    · rw [hlogs]
      exact .overran fun node' h haddress => (hnone node' h haddress).elim
    · rw [hlogs]
      exact .refused node SubversionSession.cannotFound _ (by simp [backendErrors])
        fun node' h haddress => (hnone node' h haddress).elim
  · have hconnect : s.connectUpstream env now svnurl = { s with node }.logs now
        (.access now (Klog.formatted (Klog.storageText node.address s.hds.subversionURL)))
        (if env.fromString node.address = false then
          { s with node }.sendError 200042 SubversionSession.upstreamAddress
            SubversionSession.upstreamAddress.length
        else { s with node }.asyncConnect node.address node.port .asyncConnectUpstream) := by
      simp [SubversionSession.connectUpstream, hroute, hfound]
    simp only [not_or, Bool.not_eq_false] at hfound
    obtain ⟨rfl, haddress⟩ := hfound
    rw [hconnect]
    rcases logs_cases _ now _ _ with ⟨hrecord, hlogs⟩ | ⟨record, hrecord, hlogs⟩
    · rw [hlogs]
      refine .overran fun node' h _ => ?_
      obtain ⟨-, rfl⟩ := honly h
      exact hrecord
    · rw [hlogs]
      cases hfrom : env.fromString node.address with
      | false =>
        refine .refused node SubversionSession.upstreamAddress _ (by simp [backendErrors]) ?_
        intro node' h _
        obtain ⟨-, rfl⟩ := honly h
        exact hfrom
      | true => exact .connects node record hroute haddress hfrom hrecord

/-- What the handler of the handshake does when the read has succeeded. -/
inductive Reads (env : Env) (now : Now) (s : SubversionSession) (n : Nat) :
    Except Fault Reaction → Prop
  | threw {fault} (hparse : parseSubversionHds (s.handshake env n) s.hds = .abort fault) :
    Reads env now s n (.error (.exception fault))
  | overran {hds} (hparse : parseSubversionHds (s.handshake env n) s.hds = .ret 0 hds)
    (hover : ∀ node, Routed env.router (s.handshake env n) s.hds hds s.node node →
      Klog.access now.tm (Klog.formatted (Klog.storageText node.address hds.subversionURL)) =
        none) :
    Reads env now s n (.error .overrun)
  | refused {code hds node eid msg} (calls : List Klog.Call)
    (hparse : parseSubversionHds (s.handshake env n) s.hds = .ret code hds)
    (hreply : Reply hds eid msg)
    (hnot : ∀ node', ¬Authorised env (s.handshake env n) s.hds hds s.node node') :
    Reads env now s n (.ok ⟨{ s.reads n hds with node }.refuses eid msg,
      .parsed (s.handshake env n).bytes code hds ::
        (calls.map .logged ++ { s.reads n hds with node }.refusal eid msg),
      (Phase.refused eid msg).ops, []⟩)
  | routed {hds node record} (hauth : Authorised env (s.handshake env n) s.hds hds s.node node)
    (hrecord : Klog.access now.tm (Klog.formatted (Klog.storageText node.address
      hds.subversionURL)) = some record) :
    Reads env now s n (.ok ⟨{ s.reads n hds with node },
      [.parsed (s.handshake env n).bytes 0 hds, .logged ⟨.access, record.bytes, now.turn⟩,
        .startConnect node.address node.port],
      (Phase.connecting node.address node.port false).ops, []⟩)

theorem readDownstreamHandshake_cases (s : SubversionSession) (env : Env) (now : Now) (n : Nat) :
    Reads env now s n (s.readDownstreamHandshake env now 0 n) := by
  cases hparse : parseSubversionHds (s.handshake env n) s.hds with
  | abort fault =>
    have hread : s.readDownstreamHandshake env now 0 n = .error (.exception fault) := by
      simp [SubversionSession.readDownstreamHandshake, hparse]
    rw [hread]
    exact .threw hparse
  | ret code hds =>
    have hrefused : ∀ (hnot : ∀ node', ¬Authorised env (s.handshake env n) s.hds hds s.node node'),
        Reads env now s n (.ok ((s.note (.parsed (s.handshake env n).bytes code hds)).andThen
          fun _ => (s.reads n hds).sendError 210004 hds.lastError hds.lastError.length)) :=
      fun hnot => .refused [] hparse (.inl ⟨rfl, rfl⟩) hnot
    by_cases hcode : code = 0
    · subst hcode
      obtain ⟨code', svnurl, huri⟩ : ∃ code' svnurl,
          subversionUriCanonicalize hds.subversionURL (.fresh 0) = (code', svnurl) :=
        ⟨_, _, rfl⟩
      by_cases hcode' : code' = 0
      · subst hcode'
        have hread : s.readDownstreamHandshake env now 0 n =
            ((s.reads n hds).connectUpstream env now svnurl).map fun r =>
              ((s.reads n hds).note (.parsed (s.handshake env n).bytes 0 hds)).andThen fun _ =>
                r := by
          simp [SubversionSession.readDownstreamHandshake, hparse, huri]
          rfl
        -- there is one canonical form of the URL
        have hsame : ∀ {node}, Routed env.router (s.handshake env n) s.hds hds s.node node →
            env.router.getAddress svnurl.owner s.node = (true, node) := by
          intro node h
          obtain ⟨svnurl', huri', hroute⟩ := h.canonical
          rw [huri] at huri'
          obtain rfl := (Prod.mk.inj huri').2
          exact hroute
        rw [hread]
        have hconnects := connectUpstream_cases (s.reads n hds) env now svnurl
        generalize (s.reads n hds).connectUpstream env now svnurl = result at hconnects
        cases hconnects with
        | overran hover =>
          exact .overran hparse fun node h => hover node (hsame h) h.address
        | refused node msg call hmsg hnot =>
          refine .refused [call] hparse (.inr ⟨rfl, hmsg⟩) fun node' h => ?_
          have hfalse := hnot node' (hsame h.toRouted) h.address
          rw [h.parsable] at hfalse
          cases hfalse
        | connects node record hroute haddress hfrom hrecord =>
          exact .routed ⟨⟨hparse, ⟨svnurl, huri, hroute⟩, haddress⟩, hfrom⟩ hrecord
      · have hread : s.readDownstreamHandshake env now 0 n =
            .ok ((s.note (.parsed (s.handshake env n).bytes 0 hds)).andThen fun _ =>
              (s.reads n hds).sendError 210004 hds.lastError hds.lastError.length) := by
          simp [SubversionSession.readDownstreamHandshake, hparse, huri, hcode']
          rfl
        rw [hread]
        refine hrefused fun node' h => ?_
        obtain ⟨svnurl', huri', -⟩ := h.canonical
        rw [huri] at huri'
        exact hcode' (Prod.mk.inj huri').1
    · have hread : s.readDownstreamHandshake env now 0 n =
          .ok ((s.note (.parsed (s.handshake env n).bytes code hds)).andThen fun _ =>
            (s.reads n hds).sendError 210004 hds.lastError hds.lastError.length) := by
        simp [SubversionSession.readDownstreamHandshake, hparse, hcode]
        rfl
      rw [hread]
      refine hrefused fun node' h => ?_
      have hret := h.parsed
      rw [hparse] at hret
      cases hret
      exact hcode rfl

theorem moves_of_call {env : Env} {p q : Phase} {s : SubversionSession} {trace : List Act}
    {i : Nat} {op : Op} {e : ErrorCode} {now : Now} {r : Reaction} {acts : List Act}
    (hcall : op.handler.call env now s e op.moved.length = .ok r)
    (hmove : Move env p s (.complete i e now) q r.session acts)
    (hops : Slots.replace (p.ops.map (Op.cancelOn r.cancels)) i r.started = q.ops)
    (hacts : op.finished e ++ r.acts = acts) :
    Moves env p s trace (.complete i e now) ((p.state s trace).complete env i op e now) := by
  refine ⟨q, _, _, hmove, ?_⟩
  simp only [State.complete, Phase.state, hcall, hops, hacts]

theorem moves_of_fault {env : Env} {p : Phase} {s : SubversionSession} {trace : List Act}
    {i : Nat} {op : Op} {e : ErrorCode} {now : Now} {fault : Fault} {acts : List Act}
    (hcall : op.handler.call env now s e op.moved.length = .error fault)
    (hmove : Move env p s (.complete i e now) .ended s acts)
    (hacts : op.finished e ++ [fault.act] = acts) :
    Moves env p s trace (.complete i e now) ((p.state s trace).complete env i op e now) := by
  refine ⟨.ended, _, _, hmove, ?_⟩
  simp only [State.complete, Phase.state, hcall, hacts]
  rfl

theorem finished_readSome {sock : Sock} {buf : Buf} {handler : Handler} {moved : Bytes} {c : Bool}
    {e : ErrorCode} (he : e ≠ 0) :
    Op.finished ⟨.readSome sock buf, handler, moved, c⟩ e = [] := if_neg he

theorem complete_handshake {env : Env} {s : SubversionSession} {trace : List Act} {moved : Bytes}
    {c : Bool} {e : ErrorCode} {now : Now} :
    Moves env (.handshake moved c) s trace (.complete 0 e now)
      (((Phase.handshake moved c).state s trace).complete env 0
        ⟨.readSome .socket .cltBuffer, .readDownstreamHandshake, moved, c⟩ e now) := by
  by_cases he : e = 0
  · subst he
    generalize hread : s.readDownstreamHandshake env now 0 moved.length = result
    have hreads := readDownstreamHandshake_cases s env now moved.length
    rw [hread] at hreads
    cases hreads with
    | threw hparse => exact moves_of_fault hread (.threw hparse) rfl
    | overran hparse hover => exact moves_of_fault hread (.overran hparse hover) rfl
    | refused calls hparse hreply hnot =>
      exact moves_of_call hread (.refused calls hparse hreply hnot) rfl rfl
    | routed hauth hrecord => exact moves_of_call hread (.routed hauth hrecord) rfl rfl
  · have hcall : s.readDownstreamHandshake env now e moved.length =
        s.logs now (.error now (Klog.formatted SubversionSession.readText)) (s.cancel .socket) := by
      simp only [SubversionSession.readDownstreamHandshake, he, if_false]
    rcases logs_cases s now _ _ with ⟨hnone, -⟩ | ⟨record, -, hlogs⟩
    · have hsome := readText_logged now
      rw [hnone] at hsome
      cases hsome
    · exact moves_of_call (hcall.trans hlogs) (.handshakeFailed _ he) rfl
        (by rw [finished_readSome he]; rfl)

/-- What `cancel()` on some sockets and the new operation of a lane make of the relay. -/
theorem Lane.replace_cancelOn {held : Lane → Option LaneOp} {i : Nat} {lane : Lane} {x : LaneOp}
    (hop : (Lane.ops held)[i]? = some (lane.op x)) (socks : List Sock) (y : Option LaneOp) :
    Slots.replace ((Lane.ops held).map (Op.cancelOn socks)) i (y.map lane.op).toList =
      Lane.ops (Function.update (fun l => (held l).map (l.cancelOn socks)) lane y) := by
  have hop' : (Lane.ops fun l => (held l).map (l.cancelOn socks))[i]? =
      some (lane.op (lane.cancelOn socks x)) := by
    rw [← Lane.ops_cancelOn, List.getElem?_map, hop, Option.map_some, Lane.op_cancelOn]
  obtain ⟨lane', x', -, heq, hreplace⟩ := Lane.exists_of_getElem? hop'
  obtain rfl := Lane.eq_of_op_eq heq
  rw [Lane.ops_cancelOn]
  exact hreplace y

theorem Lane.cancelOn_nil (held : Lane → Option LaneOp) :
    (fun l => (held l).map (l.cancelOn [])) = held := by
  funext l
  cases h : held l with
  | none => rfl
  | some x => cases x <;> simp [Lane.cancelOn]

theorem complete_lane {env : Env} {held : Lane → Option LaneOp} {s : SubversionSession}
    {trace : List Act} {i : Nat} {e : ErrorCode} {now : Now} {lane : Lane} {x : LaneOp}
    (hop : (Lane.ops held)[i]? = some (lane.op x)) (hx : held lane = some x)
    (hmay : (lane.op x).mayComplete e) :
    Moves env (.relay held) s trace (.complete i e now)
      (((Phase.relay held).state s trace).complete env i (lane.op x) e now) := by
  have hops := Lane.replace_cancelOn hop
  have hkeep := hops []
  rw [Lane.cancelOn_nil] at hkeep
  cases x with
  | reading moved c =>
    have hcall := lane.call_readHandler env now s e moved.length
    by_cases he : e = 0
    · subst he
      exact moves_of_call hcall (.laneRead lane hx)
        (hkeep (some (.writing moved.length [] false))) rfl
    · have hcancel : s.relayRead lane.dst lane.buf lane.writeHandler e moved.length =
          s.cancel lane.dst := if_neg he
      rw [hcancel] at hcall
      exact moves_of_call hcall (.laneReadFailed lane hx he) (hops [lane.dst] none)
        (by rw [Lane.op, finished_readSome he]; rfl)
  | writing size moved c =>
    have hcall := lane.call_writeHandler env now s e moved.length
    by_cases he : e = 0
    · subst he
      have hall : moved.length = size := of_decide_eq_true hmay
      exact moves_of_call hcall (.laneWrote lane hx hall)
        (hkeep (some (.reading [] false))) rfl
    · have hquit : s.relayWrite lane.src lane.buf lane.readHandler e = s.quit := if_neg he
      rw [hquit] at hcall
      exact moves_of_call hcall (.laneWriteFailed lane hx he) (hkeep none) rfl

theorem complete_connecting {env : Env} {s : SubversionSession} {trace : List Act}
    {address : Bytes} {port : UInt16} {c : Bool} {e : ErrorCode} {now : Now} :
    Moves env (.connecting address port c) s trace (.complete 0 e now)
      (((Phase.connecting address port c).state s trace).complete env 0
        ⟨.connect address port, .asyncConnectUpstream, [], c⟩ e now) := by
  by_cases he : e = 0
  · subst he
    exact ⟨_, _, _, .connected, rfl⟩
  · have hcall : s.asyncConnectUpstream now e = s.logs now _ (s.sendError 200042 _ _) := if_neg he
    rcases logs_cases s now _ _ with ⟨-, hlogs⟩ | ⟨record, -, hlogs⟩
    · exact moves_of_fault (hcall.trans hlogs) (.connectOverran he) rfl
    · exact moves_of_call (hcall.trans hlogs) (.connectFailed _ he) rfl rfl

theorem complete_backendGreeting {env : Env} {s : SubversionSession} {trace : List Act}
    {moved : Bytes} {c : Bool} {e : ErrorCode} {now : Now} :
    Moves env (.backendGreeting moved c) s trace (.complete 0 e now)
      (((Phase.backendGreeting moved c).state s trace).complete env 0
        ⟨.readSome .backend .buffer, .readUpstreamHandshake, moved, c⟩ e now) := by
  by_cases he : e = 0
  · subst he
    exact ⟨_, _, _, .backendGreeted, rfl⟩
  · have hcall : s.readUpstreamHandshake now e = s.logs now _ (s.sendError 200042 _ _) := if_neg he
    rcases logs_cases s now _ _ with ⟨-, hlogs⟩ | ⟨record, -, hlogs⟩
    · exact moves_of_fault (hcall.trans hlogs) (.backendGreetingOverran he)
        (by rw [finished_readSome he]; rfl)
    · exact moves_of_call (hcall.trans hlogs) (.backendGreetingFailed _ he) rfl
        (by rw [finished_readSome he]; rfl)

theorem complete_forwarding {env : Env} {s : SubversionSession} {trace : List Act} {size : Nat}
    {moved : Bytes} {c : Bool} {e : ErrorCode} {now : Now} :
    Moves env (.forwarding size moved c) s trace (.complete 0 e now)
      (((Phase.forwarding size moved c).state s trace).complete env 0
        ⟨.writeSome .backend .cltBuffer size, .echoUpstreamHandshake, moved, c⟩ e now) := by
  by_cases he : e = 0
  · subst he
    exact ⟨_, _, _, .forwarded, rfl⟩
  · have hcall : s.echoUpstreamHandshake now e = s.logs now _
        ((s.cancel .backend).andThen fun s => s.sendError 200042 _ _) := if_neg he
    rcases logs_cases s now _ _ with ⟨-, hlogs⟩ | ⟨record, -, hlogs⟩
    · exact moves_of_fault (hcall.trans hlogs) (.forwardOverran he) rfl
    · exact moves_of_call (hcall.trans hlogs) (.forwardFailed _ he) rfl rfl

theorem complete_moves {env : Env} {p : Phase} {s : SubversionSession} {trace : List Act}
    {i : Nat} {e : ErrorCode} {now : Now} {s' : State}
    (h : step env (p.state s trace) (.complete i e now) = some s') :
    Moves env p s trace (.complete i e now) s' := by
  obtain ⟨op, hop, h⟩ := Option.bind_eq_some_iff.mp h
  obtain ⟨hmay, rfl⟩ : op.mayComplete e ∧ (p.state s trace).complete env i op e now = s' := by
    split at h
    · exact ⟨‹_›, Option.some.inj h⟩
    · cases h
  cases p with
  | ended => cases hop
  | greeting moved c =>
    obtain ⟨rfl, rfl⟩ := Slots.getElem?_singleton hop
    by_cases he : e = 0
    · subst he
      exact ⟨_, _, _, .greeted, rfl⟩
    · have hcall : s.echoDownstreamHandshake e = s.cancel .socket := if_neg he
      exact moves_of_call (congrArg Except.ok hcall) (.greetingFailed he) rfl rfl
  | handshake moved c =>
    obtain ⟨rfl, rfl⟩ := Slots.getElem?_singleton hop
    apply complete_handshake
  | connecting address port c =>
    obtain ⟨rfl, rfl⟩ := Slots.getElem?_singleton hop
    apply complete_connecting
  | backendGreeting moved c =>
    obtain ⟨rfl, rfl⟩ := Slots.getElem?_singleton hop
    apply complete_backendGreeting
  | forwarding size moved c =>
    obtain ⟨rfl, rfl⟩ := Slots.getElem?_singleton hop
    apply complete_forwarding
  | failing size moved c =>
    obtain ⟨rfl, rfl⟩ := Slots.getElem?_singleton hop
    by_cases he : e = 0
    · subst he
      exact ⟨_, _, _, .failureSent, rfl⟩
    · have hcall : s.sendErrorDone e = s.quit := if_neg he
      exact moves_of_call (congrArg Except.ok hcall) (.failureFailed he) rfl rfl
  | relay held =>
    obtain ⟨lane, x, hx, rfl, -⟩ := Lane.exists_of_getElem? hop
    exact complete_lane hop hx hmay

theorem step_moves {env : Env} {p : Phase} {s : SubversionSession} {trace : List Act} {e : Event}
    {s' : State} (h : step env (p.state s trace) e = some s') : Moves env p s trace e s' := by
  cases e with
  | fill i data => exact fill_moves h
  | transmit i n => exact transmit_moves h
  | complete i e now => exact complete_moves h
  | reuseStack data =>
    obtain rfl := Option.some.inj h
    exact ⟨_, _, _, .reuseStack data, rfl⟩

/-- What holds of a phase and is kept by every move at an event that `C` allows holds at the
end of a run of such events. -/
theorem run_phase {env : Env} {C : State → Event → Prop}
    {I : Phase → SubversionSession → List Act → Prop} {a s' : State} {es : List Event}
    (hrun : Transition.Run (fun a e b => step env a e = some b ∧ C a e) a es s')
    (init : ∃ p s trace, a = Phase.state p s trace ∧ I p s trace)
    (keep : ∀ {p s e q t acts trace}, I p s trace → C (p.state s trace) e →
      Move env p s e q t acts → I q t (trace ++ acts)) :
    ∃ p s trace, s' = Phase.state p s trace ∧ I p s trace := by
  apply hrun.invariant ?_ init
  intro _ b e hI hstep
  obtain ⟨p, s, trace, rfl, hI⟩ := hI
  obtain ⟨hstep, hC⟩ := hstep
  obtain ⟨q, t, acts, hmove, rfl⟩ := step_moves hstep
  exact ⟨q, t, _, rfl, keep hI hC hmove⟩

/-- What holds when `start` returns and is kept by every move holds in every reachable state. -/
theorem reachable_phase {env : Env} {I : Phase → SubversionSession → List Act → Prop} {s' : State}
    (h : Reachable env s')
    (init : ∀ c, Constructed c → I (.greeting [] false) c.start.session c.start.acts)
    (keep : ∀ {p s e q t acts trace}, I p s trace → Move env p s e q t acts →
      I q t (trace ++ acts)) :
    ∃ p s trace, s' = Phase.state p s trace ∧ I p s trace := by
  obtain ⟨_, es, ⟨c, hc, rfl⟩, hrun⟩ := h
  have hfree : Transition.Run (fun a e b => step env a e = some b ∧ True) _ es s' :=
    hrun.mono fun hstep => ⟨hstep, trivial⟩
  exact run_phase hfree ⟨.greeting [] false, _, _, rfl, init c hc⟩ fun hI _ hmove => keep hI hmove

end Svnsrv.Proxy
