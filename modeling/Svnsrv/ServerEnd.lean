import Svnsrv.HdsDecode
import Svnsrv.HdsSafety
import Svnsrv.ServerRuns

/-!
# What ends the server

A failed `set_option`, a handshake with a negative length, a log record that leaves its
array and the use of a stream that is not open; nothing else does. Eleven bytes of one
client are enough.
-/

namespace Svnsrv.Server

open CText Hds Proxy Router Transition
set_option autoImplicit false

/-! ## The completion of an operation -/

section

variable {env : Env} {now : Now} {e : ErrorCode}

end

/-! ## Fatal steps -/

section

variable {g : Shared} {s t : State} {e : Event}

end

/-- A length mark of -1. -/
def poison : Bytes := ascii "( 2 ( ) -1:"

set_option maxRecDepth 10000 in
def poisonPreamble : Preamble where
  lead := ascii "( "
  version := 50
  mid := ascii " ( ) "
  mark := ascii "-1"
  lead_quiet := quiet_of_delimiters 0 (by decide)
  lead_depth := by decide
  version_plain := ⟨by decide, by decide⟩
  mid_quiet := quiet_of_delimiters 1 (by decide)
  mid_depth := by decide
  mark_quiet := quiet_of_keeps (by decide) fun c hc =>
    (show ∀ c ∈ ascii "-1", c ≠ 0 ∧ c ≠ colon by decide) c hc
  mark_head := by decide

set_option maxRecDepth 10000 in
theorem poison_negative {b : Hds.Buffer} (haddr : b.addr ≠ 0) (hb : b.bytes = poison) :
    NegativeLength b := by
  have hlength : strtol (scratch poisonPreamble.mark) = -1 := by decide
  have htext : b.bytes = poisonPreamble.text ++ colon :: [] := hb.trans (by decide)
  refine .url haddr htext ?_
  rw [hlength]
  constructor
  · omega
  · omega

theorem step_greeted (env : Env) (c : SubversionSession) (now : Now) :
    Proxy.step env (.started c) (.complete 0 0 now) =
      some ((Phase.handshake [] false).state c.start.session
        (c.start.acts ++ [.wrote .socket 0, .startRead .socket .cltBuffer])) := rfl

theorem step_filled (env : Env) (s : SubversionSession) (trace : List Proxy.Act) {data : Bytes}
    (hdata : data.length ≤ Buf.cltBuffer.size) :
    Proxy.step env ((Phase.handshake [] false).state s trace) (.fill 0 data) =
      some ((Phase.handshake data false).state (s.stores .cltBuffer data)
        (trace ++ [.stored .cltBuffer])) := by
  have hfill : Op.fill ⟨.readSome .socket .cltBuffer, .readDownstreamHandshake, [], false⟩ data =
      some .cltBuffer := if_pos ⟨rfl, rfl, hdata⟩
  simp only [Proxy.step, Phase.state, Phase.ops, List.getElem?_cons_zero, Option.bind_eq_bind,
    Option.bind_some, hfill]
  rfl

theorem step_threw {env : Env} {s : SubversionSession} {moved : Bytes} (trace : List Proxy.Act)
    (now : Now) {fault : Hds.Fault}
    (h : parseSubversionHds (s.handshake env moved.length) s.hds = .abort fault) :
    Proxy.step env ((Phase.handshake moved false).state s trace) (.complete 0 0 now) =
      some (Phase.ended.state s (trace ++ [.got .socket moved, .threw fault])) := by
  have hcall : Handler.call env now s 0 moved.length .readDownstreamHandshake =
      .error (.exception fault) := call_exception_iff.mpr ⟨rfl, rfl, h⟩
  have hmay : Op.mayComplete ⟨.readSome .socket .cltBuffer, .readDownstreamHandshake, moved, false⟩
      0 = true := by simp [Op.mayComplete]
  simp only [Proxy.step, Phase.state, Phase.ops, List.getElem?_cons_zero, Option.bind_eq_bind,
    Option.bind_some, hmay, if_true, State.complete, hcall]
  rfl

/-- What happens to a client that sends it. -/
def poisonEvents (i : Nat) (next : NewConnection) (now : Now) : List Event :=
  [.accepted 0 0 next, .session i (.complete 0 0 now), .session i (.fill 0 poison),
    .session i (.complete 0 0 now)]

theorem parse_poison (g : Shared) (c : NewConnection) :
    parseSubversionHds
      ((c.session.start.session.stores .cltBuffer poison).handshake (g.env c) poison.length)
      c.session.hds = .abort .length_error := by
  refine (parse_abort_iff _ _ _).mpr ⟨rfl, poison_negative c.notNull ?_⟩
  exact take_get_store (b := .cltBuffer) (by decide) c.session.start.session.mem

/-- A step of the session accepted last that logs nothing. -/
theorem step_last {g : Shared} {s : State} {ss : List Connection} {c : Connection}
    {e : Proxy.Event} {u : Proxy.State} {acts : List Proxy.Act} (hup : s.ended = none)
    (hs : s.sessions = ss ++ [c]) (hu : Proxy.step (g.env c.made) c.state e = some u)
    (hacts : u.trace = c.state.trace ++ acts) (hsilent : logged acts = []) :
    step g s (.session ss.length e) = some { s with
      sessions := ss ++ [{ c with state := u }]
      ended := uncaught u.trace } := by
  have hget : s.sessions[ss.length]? = some c := by rw [hs, List.getElem?_concat_length]
  have hlogger : exec Klog.step s.logger (newCalls c.state u) = some s.logger := by
    rw [newCalls_append hacts, hsilent]
    rfl
  rw [step_session hup hget hu hlogger, State.stepped, hs]
  simp

/-- From every state in which the process is up, one client can end it with eleven bytes, and
with it all sessions. -/
theorem one_client_ends_all (g : Shared) (s : State) (hs : Reachable g s) (hup : s.ended = none)
    (next : NewConnection) (now : Now) :
    ∃ t, Run (fun a e b => step g a e = some b) s (poisonEvents s.sessions.length next now) t ∧
      t.ended = some (.handler .length_error) ∧ ∀ e, step g t e = none := by
  obtain ⟨_, es, ⟨first, logger, rfl⟩, hrun⟩ := hs
  have haccepting := (serving_of_run hrun hup).1.accepting
  have haccept := step_accepted (g := g) 0 0 next hup haccepting
  have hgreeted := step_greeted (g.env s.newConnection) s.newConnection.session now
  have hfilled := step_filled (g.env s.newConnection) s.newConnection.session.start.session
    (s.newConnection.session.start.acts ++ [.wrote .socket 0, .startRead .socket .cltBuffer])
    (show poison.length ≤ Buf.cltBuffer.size by decide)
  have hthrew := step_threw (s.newConnection.session.start.acts ++
    [.wrote .socket 0, .startRead .socket .cltBuffer] ++ [.stored .cltBuffer]) now
    (parse_poison g s.newConnection)
  refine ⟨_, .cons haccept (.cons (step_last (c := s.newConnection.start) hup rfl hgreeted rfl rfl)
    (.cons (step_last rfl rfl hfilled rfl rfl) (.single (step_last rfl rfl hthrew rfl rfl)))),
    ?_, ?_⟩
  · rfl
  · intro e
    rfl

theorem one_client_ends_sample :
    ∃ t, Run (fun a e b => step sampleShared a e = some b) sampleServer
        (poisonEvents sampleServer.sessions.length sampleConnection sampleNow) t ∧
      t.ended = some (.handler .length_error) ∧ ∀ e, step sampleShared t e = none :=
  one_client_ends_all sampleShared sampleServer ⟨_, _, ⟨_, _, rfl⟩, sampleServer_run⟩
    sampleServer_up sampleConnection sampleNow

end Svnsrv.Server
