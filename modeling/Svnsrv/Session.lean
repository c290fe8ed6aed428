import Svnsrv.Lib.Slots
import Svnsrv.Lib.Transition
import Svnsrv.Hds
import Svnsrv.KlogFiles
import Svnsrv.Router
import Svnsrv.Uri

/-!
# A proxy session

`SubversionSession` of SubversionSession.cc over Boost.Asio. A handler runs as
one step, when its operation completes; what it starts is outstanding until then
and moves bytes between the peer and the session's arrays at any time. Everything
a session does is noted in its trace, oldest first. A log call builds its record
in the frame of the handler and hands it to the logger, which is not the session's.
-/

namespace Svnsrv.Proxy

open CText Hds Router Uri
set_option autoImplicit false

/-! ## Memory -/

def kDefaultBufferSize : Nat := 32 * 1024

/-- The text of `mbuffer` in `start`. -/
def greeting : Bytes :=
  ascii "( success ( 2 2 ( ) ( edit-pipeline svndiff1 absent-entries " ++
    ascii "depth inherited-props log-revprops ) ) ) "

/-- `mbuffer` is an array of the stack frame of `start`, the others are members. -/
inductive Buf where
  | mbuffer
  | buffer
  | cltBuffer
  deriving DecidableEq, Repr

def Buf.size : Buf → Nat
  | .mbuffer => greeting.length
  | .buffer => kDefaultBufferSize
  | .cltBuffer => kDefaultBufferSize

abbrev CharArray (n : Nat) := {cells : Bytes // cells.length = n}

/-- The array with `data` written to its start. -/
def CharArray.store {n : Nat} (a : CharArray n) (data : Bytes) : CharArray n :=
  ⟨(data ++ a.val.drop data.length).take n, by
    have := a.property
    simp only [List.length_take, List.length_append, List.length_drop]
    omega⟩

structure Memory where
  mbuffer : CharArray Buf.mbuffer.size
  buffer : CharArray Buf.buffer.size
  cltBuffer : CharArray Buf.cltBuffer.size

namespace Memory

def get (m : Memory) : Buf → Bytes
  | .mbuffer => m.mbuffer.val
  | .buffer => m.buffer.val
  | .cltBuffer => m.cltBuffer.val

def store (m : Memory) : Buf → Bytes → Memory
  | .mbuffer, data => { m with mbuffer := m.mbuffer.store data }
  | .buffer, data => { m with buffer := m.buffer.store data }
  | .cltBuffer, data => { m with cltBuffer := m.cltBuffer.store data }

end Memory

/-! ## Operations -/

inductive Sock where
  | socket
  | backend
  deriving DecidableEq, Repr

/-- Zero is success. -/
abbrev ErrorCode := Int

inductive Handler where
  | echoDownstreamHandshake
  | readDownstreamHandshake
  | asyncConnectUpstream
  | readUpstreamHandshake
  | echoUpstreamHandshake
  | upstreamRead
  | downstreamWrite
  | downstreamRead
  | upstreamWrite
  | sendErrorDone     -- the lambda in sendError
  deriving DecidableEq, Repr

/-- A read asks for a whole array, a write for its first `size` bytes. -/
inductive Io where
  | connect (address : Bytes) (port : UInt16)
  | readSome (sock : Sock) (buf : Buf)
  | writeSome (sock : Sock) (buf : Buf) (size : Nat)
  | write (sock : Sock) (buf : Buf) (size : Nat)
  deriving DecidableEq, Repr

/-- An outstanding operation and the bytes it has moved. -/
structure Op where
  io : Io
  handler : Handler
  moved : Bytes
  cancelled : Bool
  deriving DecidableEq, Repr

namespace Op

/-- The array an operation refers to. -/
def refersTo (op : Op) : Option Buf :=
  match op.io with
  | .connect _ _ => none
  | .readSome _ buf => some buf
  | .writeSome _ buf _ => some buf
  | .write _ buf _ => some buf

def readsFrom (op : Op) : Option Sock :=
  match op.io with
  | .readSome sock _ => some sock
  | _ => none

def writesTo (op : Op) : Option Sock :=
  match op.io with
  | .writeSome sock _ _ => some sock
  | .write sock _ _ => some sock
  | _ => none

def sock (op : Op) : Sock :=
  match op.io with
  | .connect _ _ => .backend
  | .readSome sock _ => sock
  | .writeSome sock _ _ => sock
  | .write sock _ _ => sock

/-- What `cancel()` on some sockets does to an outstanding operation. -/
def cancelOn (socks : List Sock) (op : Op) : Op :=
  if op.sock ∈ socks then { op with cancelled := true } else op

end Op

/-! ## What a session does -/

inductive Act where
  | stored (buf : Buf)                                      -- an array was written to
  | startConnect (address : Bytes) (port : UInt16)
  | startRead (sock : Sock) (buf : Buf)
  | startWrite (sock : Sock) (bytes : Bytes)
  | sent (sock : Sock) (bytes : Bytes)                      -- delivered to the peer
  | got (sock : Sock) (bytes : Bytes)                       -- a read completed
  | wrote (sock : Sock) (e : ErrorCode)                     -- a write completed
  | parsed (bytes : Bytes) (code : Nat) (hds : SubversionHds)
  | failureFrame (frame : Bytes)
  | startRelay
  | cancel (sock : Sock)
  | shutdown
  | logged (call : Klog.Call)                               -- handed to the logger
  | threw (fault : Hds.Fault)
  | overran                                                 -- a record left its array
  deriving DecidableEq, Repr

/-- The members of a session besides its sockets. -/
structure SubversionSession where
  mem : Memory
  node : StorageElement
  hds : SubversionHds
  handshakeSize : Nat

/-- What a handler leaves behind: the session, what it did, the operations it started
and the sockets it cancelled. -/
structure Reaction where
  session : SubversionSession
  acts : List Act
  started : List Op
  cancels : List Sock

def Reaction.andThen (r : Reaction) (next : SubversionSession → Reaction) : Reaction :=
  let q := next r.session
  ⟨q.session, r.acts ++ q.acts, r.started ++ q.started, r.cancels ++ q.cancels⟩

/-- How a handler ends the process: an exception that nothing catches, or a store outside the
array of a log record. -/
inductive Fault where
  | exception (fault : Hds.Fault)
  | overrun
  deriving DecidableEq, Repr

def Fault.act : Fault → Act
  | .exception fault => .threw fault
  | .overrun => .overran

/-- What a log call of a handler finds: the time, the process and the thread, what `vsnprintf`
makes of bytes behind a `%S`, and what the logger gets from the system. -/
structure Now where
  tm : Klog.Tm
  id : Int32
  tid : UInt64
  wide : Klog.Formatted
  turn : Klog.Turn
  deriving DecidableEq, Repr

/-- A log call: the log it goes to, and its record if it stays in the array. -/
structure LogEntry where
  log : Klog.LogKind
  record : Option Klog.Record

namespace LogEntry

/-- `klogger::Access` -/
def access (now : Now) (text : Klog.Formatted) : LogEntry := ⟨.access, Klog.access now.tm text⟩

/-- `klogger::Log` with `kError` -/
def error (now : Now) (text : Klog.Formatted) : LogEntry :=
  ⟨.error, Klog.log .kError now.id now.tid now.tm text⟩

end LogEntry

/-- What the handlers depend on: the loaded router, the address parser of asio, and where
`clt_buffer_` lies. -/
structure Env where
  router : RouterSeletor
  fromString : Bytes → Bool
  cltAddr : Nat
  cltAddr_fits : cltAddr + kDefaultBufferSize < 2 ^ 63

namespace SubversionSession

def quit (s : SubversionSession) : Reaction := ⟨s, [], [], []⟩

def note (s : SubversionSession) (act : Act) : Reaction := ⟨s, [act], [], []⟩

def cancel (s : SubversionSession) (sock : Sock) : Reaction := ⟨s, [.cancel sock], [], [sock]⟩

def asyncConnect (s : SubversionSession) (address : Bytes) (port : UInt16) (handler : Handler) : Reaction :=
  ⟨s, [.startConnect address port], [⟨.connect address port, handler, [], false⟩], []⟩

def asyncReadSome (s : SubversionSession) (sock : Sock) (buf : Buf) (handler : Handler) : Reaction :=
  ⟨s, [.startRead sock buf], [⟨.readSome sock buf, handler, [], false⟩], []⟩

def asyncWriteSome (s : SubversionSession) (sock : Sock) (buf : Buf) (size : Nat) (handler : Handler) :
    Reaction :=
  ⟨s, [.startWrite sock ((s.mem.get buf).take size)],
    [⟨.writeSome sock buf size, handler, [], false⟩], []⟩

/-- The free function `boost::asio::async_write`. -/
def asyncWrite (s : SubversionSession) (sock : Sock) (buf : Buf) (size : Nat) (handler : Handler) :
    Reaction :=
  ⟨s, [.startWrite sock ((s.mem.get buf).take size)],
    [⟨.write sock buf size, handler, [], false⟩], []⟩

/-- A log call, and what the handler does behind it. -/
def logs (s : SubversionSession) (now : Now) (entry : LogEntry) (next : Reaction) :
    Except Fault Reaction :=
  match entry.record with
  | none => .error .overrun
  | some record =>
    .ok ((s.note (.logged ⟨entry.log, record.bytes, now.turn⟩)).andThen fun _ => next)

/-! ## Handlers -/

def start (s : SubversionSession) : Reaction :=
  { s with mem := s.mem.store .mbuffer greeting }.asyncWriteSome .socket .mbuffer
    greeting.length .echoDownstreamHandshake

/-- `"( failure ( ( %d %" PRIu32 ":%s 0: 0 ) ) ) "` -/
def failureText (eid length : Nat) (msg : Bytes) : Bytes :=
  ascii "( failure ( ( " ++ decimal eid ++ [space] ++ decimal length ++ [colon] ++
    msg.takeWhile (· ≠ 0) ++ ascii " 0: 0 ) ) ) "

/-- `snprintf` into `buffer_` stores at most `length + 63` characters and a NUL, and
returns the length of the whole text. -/
def sendError (s : SubversionSession) (eid : Nat) (msg : Bytes) (length : Nat) : Reaction :=
  let text := failureText eid length msg
  let s := { s with mem := s.mem.store .buffer (text.take (length + 63) ++ [0]) }
  (s.note (.stored .buffer)).andThen fun s => (s.note (.failureFrame text)).andThen fun s =>
    s.asyncWriteSome .socket .buffer text.length .sendErrorDone

def sendErrorDone (s : SubversionSession) (e : ErrorCode) : Reaction :=
  if e = 0 then s.note .shutdown else s.quit

def echoDownstreamHandshake (s : SubversionSession) (e : ErrorCode) : Reaction :=
  if e = 0 then s.asyncReadSome .socket .cltBuffer .readDownstreamHandshake
  else s.cancel .socket

/-- The arguments `(clt_buffer_, bytes_transferred)` of the parser. -/
def handshake (s : SubversionSession) (env : Env) (bytesTransferred : Nat) : Hds.Buffer where
  addr := env.cltAddr
  bytes := s.mem.cltBuffer.val.take bytesTransferred
  fits := by
    have := env.cltAddr_fits
    have := s.mem.cltBuffer.property
    simp only [List.length_take, Buf.size] at this ⊢
    omega

/-- `"Cannot found Storage machine address, URL:%s"` -/
def unknownText (url : Bytes) : Bytes :=
  ascii "Cannot found Storage machine address, URL:" ++ Klog.cString url

def readText : Bytes := ascii "Read downstrean handshake message failure !"

/-- `"Storage server is not available ,Address: %s"` -/
def connectText (address : Bytes) : Bytes :=
  ascii "Storage server is not available ,Address: " ++ Klog.cString address

/-- `"Echo handshake to storage failure ,URL: %s, Storage: %s"` -/
def echoText (url address : Bytes) : Bytes :=
  ascii "Echo handshake to storage failure ,URL: " ++ Klog.cString url ++ ascii ", Storage: " ++
    Klog.cString address

def cannotFound : Bytes := ascii "Cannot found Storage machine address "
def upstreamAddress : Bytes := ascii "Error upstream Address !"
def notAvailable : Bytes := ascii "Storage server is not available"
def echoFailure : Bytes := ascii "Echo handshake to storage failure"

/-- The rest of `read_downstream_handshake` once the URL is canonical. -/
def connectUpstream (s : SubversionSession) (env : Env) (now : Now) (svnurl : SubversionURL) :
    Except Fault Reaction :=
  let (found, node) := env.router.getAddress svnurl.owner s.node
  let s := { s with node }
  if found = false ∨ node.address = [] then
    s.logs now (.error now (Klog.formatted (unknownText s.hds.subversionURL)))
      (s.sendError 200042 cannotFound cannotFound.length)
  else
    s.logs now
      (.access now (Klog.formatted (Klog.storageText node.address s.hds.subversionURL)))
      (if env.fromString node.address = false then
        s.sendError 200042 upstreamAddress upstreamAddress.length
      else s.asyncConnect node.address node.port .asyncConnectUpstream)

def readDownstreamHandshake (s : SubversionSession) (env : Env) (now : Now) (e : ErrorCode)
    (bytesTransferred : Nat) : Except Fault Reaction :=
  if e = 0 then
    let b := s.handshake env bytesTransferred
    match parseSubversionHds b s.hds with
    | .abort fault => .error (.exception fault)
    | .ret code hds =>
      let s := { s with handshakeSize := bytesTransferred, hds }
      let next :=
        if code ≠ 0 then .ok (s.sendError 210004 hds.lastError hds.lastError.length)
        else match subversionUriCanonicalize hds.subversionURL (.fresh 0) with
          | (0, svnurl) => s.connectUpstream env now svnurl
          | _ => .ok (s.sendError 210004 hds.lastError hds.lastError.length)
      next.map fun r => (s.note (.parsed b.bytes code hds)).andThen fun _ => r
  else s.logs now (.error now (Klog.formatted readText)) (s.cancel .socket)

def asyncConnectUpstream (s : SubversionSession) (now : Now) (e : ErrorCode) :
    Except Fault Reaction :=
  if e = 0 then .ok (s.asyncReadSome .backend .buffer .readUpstreamHandshake)
  else
    s.logs now (.error now (Klog.formatted (connectText s.node.address)))
      (s.sendError 200042 notAvailable notAvailable.length)

/-- The text of the log call has a `%S` for the URL. -/
def readUpstreamHandshake (s : SubversionSession) (now : Now) (e : ErrorCode) :
    Except Fault Reaction :=
  if e = 0 then
    .ok (s.asyncWriteSome .backend .cltBuffer s.handshakeSize .echoUpstreamHandshake)
  else
    s.logs now (.error now now.wide) (s.sendError 200042 notAvailable notAvailable.length)

def echoUpstreamHandshake (s : SubversionSession) (now : Now) (e : ErrorCode) :
    Except Fault Reaction :=
  if e = 0 then
    .ok ((s.note .startRelay).andThen fun s =>
      (s.asyncReadSome .backend .buffer .upstreamRead).andThen fun s =>
        s.asyncReadSome .socket .cltBuffer .downstreamRead)
  else
    s.logs now (.error now (Klog.formatted (echoText s.hds.subversionURL s.node.address)))
      ((s.cancel .backend).andThen fun s => s.sendError 200042 echoFailure echoFailure.length)

/-- A relay chain has read a chunk from one side and passes it on to the other. -/
def relayRead (s : SubversionSession) (dst : Sock) (buf : Buf) (handler : Handler) (e : ErrorCode)
    (bytesTransferred : Nat) : Reaction :=
  if e = 0 then s.asyncWrite dst buf bytesTransferred handler else s.cancel dst

/-- A relay chain has passed a chunk on and reads the next one. -/
def relayWrite (s : SubversionSession) (src : Sock) (buf : Buf) (handler : Handler) (e : ErrorCode) :
    Reaction :=
  if e = 0 then s.asyncReadSome src buf handler else s.quit

def upstreamRead (s : SubversionSession) := s.relayRead .socket .buffer .downstreamWrite
def downstreamWrite (s : SubversionSession) := s.relayWrite .backend .buffer .upstreamRead
def downstreamRead (s : SubversionSession) := s.relayRead .backend .cltBuffer .upstreamWrite
def upstreamWrite (s : SubversionSession) := s.relayWrite .socket .cltBuffer .downstreamRead

end SubversionSession

/-- Call the handler of an operation. -/
def Handler.call (env : Env) (now : Now) (s : SubversionSession) (e : ErrorCode)
    (bytesTransferred : Nat) : Handler → Except Fault Reaction
  | .echoDownstreamHandshake => .ok (s.echoDownstreamHandshake e)
  | .readDownstreamHandshake => s.readDownstreamHandshake env now e bytesTransferred
  | .asyncConnectUpstream => s.asyncConnectUpstream now e
  | .readUpstreamHandshake => s.readUpstreamHandshake now e
  | .echoUpstreamHandshake => s.echoUpstreamHandshake now e
  | .upstreamRead => .ok (s.upstreamRead e bytesTransferred)
  | .downstreamWrite => .ok (s.downstreamWrite e)
  | .downstreamRead => .ok (s.downstreamRead e bytesTransferred)
  | .upstreamWrite => .ok (s.upstreamWrite e)
  | .sendErrorDone => .ok (s.sendErrorDone e)

/-! ## Runs -/

structure State where
  session : SubversionSession
  ops : List Op
  trace : List Act

/-- What asio, the network and the stack can do next. -/
inductive Event where
  | fill (i : Nat) (data : Bytes)           -- a read stores what has arrived
  | transmit (i n : Nat)                    -- a write hands over its next `n` bytes
  | complete (i : Nat) (e : ErrorCode) (now : Now)
  | reuseStack (data : Bytes)               -- the frame of `start` is gone
  deriving DecidableEq, Repr

namespace Op

/-- The array a read stores `data` in, if it can. -/
def fill (op : Op) (data : Bytes) : Option Buf :=
  match op.io with
  | .readSome _ buf =>
    if op.moved = [] ∧ op.cancelled = false ∧ data.length ≤ buf.size then some buf else none
  | _ => none

/-- The socket and the array of a write that can hand over `n` more bytes: in one go for
`async_write_some`, piece by piece for `async_write`. -/
def transmit (op : Op) (n : Nat) : Option (Sock × Buf) :=
  match op.io with
  | .writeSome sock buf size =>
    if op.moved = [] ∧ op.cancelled = false ∧ n ≤ size then some (sock, buf) else none
  | .write sock buf size => if op.moved.length + n ≤ size then some (sock, buf) else none
  | _ => none

/-- `async_write` succeeds with all its bytes only, a cancelled read with some bytes only. -/
def mayComplete (op : Op) (e : ErrorCode) : Bool :=
  match op.io with
  | .write _ _ size => e ≠ 0 || op.moved.length = size
  | .readSome _ _ => e ≠ 0 || !op.cancelled || op.moved ≠ []
  | _ => true

/-- What a completion tells about the peer. -/
def finished (op : Op) (e : ErrorCode) : List Act :=
  match op.io with
  | .connect _ _ => []
  | .readSome sock _ => if e = 0 then [.got sock op.moved] else []
  | .writeSome sock _ _ => [.wrote sock e]
  | .write sock _ _ => [.wrote sock e]

end Op

/-- A fault of the handler ends the process. -/
def State.complete (env : Env) (s : State) (i : Nat) (op : Op) (e : ErrorCode) (now : Now) :
    State :=
  match op.handler.call env now s.session e op.moved.length with
  | .error fault => ⟨s.session, [], s.trace ++ (op.finished e ++ [fault.act])⟩
  | .ok r => ⟨r.session, Slots.replace (s.ops.map (Op.cancelOn r.cancels)) i r.started,
      s.trace ++ (op.finished e ++ r.acts)⟩

def step (env : Env) (s : State) : Event → Option State
  | .fill i data => do
    let op ← s.ops[i]?
    let buf ← op.fill data
    return ⟨{ s.session with mem := s.session.mem.store buf data },
      Slots.replace s.ops i [{ op with moved := data }], s.trace ++ [.stored buf]⟩
  | .transmit i n => do
    let op ← s.ops[i]?
    let (sock, buf) ← op.transmit n
    let bytes := ((s.session.mem.get buf).drop op.moved.length).take n
    return ⟨s.session, Slots.replace s.ops i [{ op with moved := op.moved ++ bytes }],
      s.trace ++ [.sent sock bytes]⟩
  | .complete i e now => do
    let op ← s.ops[i]?
    if op.mayComplete e then return s.complete env i op e now else none
  | .reuseStack data =>
    return ⟨{ s.session with mem := s.session.mem.store .mbuffer data }, s.ops,
      s.trace ++ [.stored .mbuffer]⟩

/-- A session as the acceptor makes it; what is not initialised holds whatever was in memory. -/
structure Constructed (s : SubversionSession) : Prop where
  node : s.node.address = []
  hds : ∃ protocol, s.hds = .fresh protocol

/-- The state when `start` returns. -/
def State.started (s : SubversionSession) : State := ⟨s.start.session, s.start.started, s.start.acts⟩

def Init (s : State) : Prop := ∃ c, Constructed c ∧ s = State.started c

/-- The states of all runs. -/
def Reachable (env : Env) (s : State) : Prop :=
  Transition.Reachable Init (fun s e t => step env s e = some t) s

end Svnsrv.Proxy
