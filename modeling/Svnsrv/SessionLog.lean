import Svnsrv.SessionMoves

/-!
# The log calls of a session

Whether a handler calls the logger, and with what, is known before it runs. The
record is built in an array of the handler's frame; if it leaves the array the
handler ends the process and the logger is not reached.
-/

namespace Svnsrv.Proxy

open CText Hds Router Uri
set_option autoImplicit false

/-! ## What a handler is about to log -/

namespace SubversionSession

/-- The log call behind a handshake of `n` bytes that has been read. -/
def handshakeEntry (s : SubversionSession) (env : Env) (now : Now) (n : Nat) : Option LogEntry :=
  match parseSubversionHds (s.handshake env n) s.hds with
  | .ret 0 hds =>
    match subversionUriCanonicalize hds.subversionURL (.fresh 0) with
    | (0, svnurl) =>
      let (found, node) := env.router.getAddress svnurl.owner s.node
      if found = false ∨ node.address = [] then
        some (.error now (Klog.formatted (unknownText hds.subversionURL)))
      else some (.access now (Klog.formatted (Klog.storageText node.address hds.subversionURL)))
    | _ => none
  | _ => none

/-- The log call of the handler behind an operation that completes with `e`. -/
def entry (s : SubversionSession) (env : Env) (now : Now) (op : Op) (e : ErrorCode) :
    Option LogEntry :=
  match op.handler with
  | .readDownstreamHandshake =>
    if e = 0 then s.handshakeEntry env now op.moved.length
    else some (.error now (Klog.formatted readText))
  | .asyncConnectUpstream =>
    if e = 0 then none else some (.error now (Klog.formatted (connectText s.node.address)))
  | .readUpstreamHandshake => if e = 0 then none else some (.error now now.wide)
  | .echoUpstreamHandshake =>
    if e = 0 then none
    else some (.error now (Klog.formatted (echoText s.hds.subversionURL s.node.address)))
  | _ => none

end SubversionSession

/-! ## What a handler has logged -/

/-- The calls that the logger has got. -/
def logged (trace : List Act) : List Klog.Call :=
  trace.filterMap fun
    | .logged call => some call
    | _ => none

@[simp] theorem logged_append (trace acts : List Act) :
    logged (trace ++ acts) = logged trace ++ logged acts := List.filterMap_append

def Act.isFault : Act → Bool
  | .threw _ => true
  | .overran => true
  | _ => false

/-- What a handler does, seen from the log call it was about to make. -/
inductive Entered (now : Now) : Option LogEntry → Except Fault Reaction → Prop
  | threw (fault : Hds.Fault) : Entered now none (.error (.exception fault))
  | overran {entry : LogEntry} (hover : entry.record = none) :
    Entered now (some entry) (.error .overrun)
  | silent {r : Reaction} (hnone : logged r.acts = [])
    (hquiet : ∀ a ∈ r.acts, a.isFault = false) : Entered now none (.ok r)
  | entered {entry : LogEntry} {record : Klog.Record} {r : Reaction}
    (hrecord : entry.record = some record)
    (hlogged : logged r.acts = [⟨entry.log, record.bytes, now.turn⟩])
    (hquiet : ∀ a ∈ r.acts, a.isFault = false) : Entered now (some entry) (.ok r)

section

variable {now : Now} {s : SubversionSession} {entry : LogEntry} {next r : Reaction}

/-- The note of the parser's result changes nothing here. -/
theorem Entered.parsed {x : Option LogEntry} {result : Except Fault Reaction}
    (h : Entered now x result) (b : Bytes) (code : Nat) (hds : SubversionHds) :
    Entered now x (result.map fun r => (s.note (.parsed b code hds)).andThen fun _ => r) := by
  have hquiet' : ∀ {r : Reaction}, (∀ a ∈ r.acts, a.isFault = false) →
      ∀ a ∈ Act.parsed b code hds :: r.acts, a.isFault = false :=
    fun hquiet => List.forall_mem_cons.mpr ⟨rfl, hquiet⟩
  cases h with
  | threw fault => exact .threw fault
  | overran hover => exact .overran hover
  | silent hnone hquiet => exact .silent hnone (hquiet' hquiet)
  | entered hrecord hlogged hquiet => exact .entered hrecord hlogged (hquiet' hquiet)

end

section

variable {env : Env} {now : Now} {s : SubversionSession}

theorem logs_ne_exception {entry : LogEntry} {next : Reaction}
    {fault : Hds.Fault} : s.logs now entry next ≠ .error (.exception fault) := by
  rcases logs_cases s now entry next with ⟨-, hlogs⟩ | ⟨record, -, hlogs⟩
  · rw [hlogs]
    intro heq
    cases heq
  · rw [hlogs]
    intro heq
    cases heq

/-- The handler of the handshake lets an exception of the parser out, and no handler another one. -/
theorem call_exception_iff {e : ErrorCode} {n : Nat} {handler : Handler} {fault : Hds.Fault} :
    handler.call env now s e n = .error (.exception fault) ↔
      e = 0 ∧ handler = .readDownstreamHandshake ∧
        parseSubversionHds (s.handshake env n) s.hds = .abort fault := by
  constructor
  · intro h
    cases handler with
    | readDownstreamHandshake =>
      simp only [Handler.call] at h
      by_cases he : e = 0
      · subst he
        have hreads := readDownstreamHandshake_cases s env now n
        rw [h] at hreads
        cases hreads with
        | threw hparse => exact ⟨rfl, rfl, hparse⟩
      · simp only [SubversionSession.readDownstreamHandshake, if_neg he] at h
        exact absurd h logs_ne_exception
    | asyncConnectUpstream | readUpstreamHandshake | echoUpstreamHandshake =>
      simp only [Handler.call, SubversionSession.asyncConnectUpstream,
        SubversionSession.readUpstreamHandshake, SubversionSession.echoUpstreamHandshake] at h
      split at h
      · cases h
      · exact absurd h logs_ne_exception
    | _ => cases h
  · rintro ⟨rfl, rfl, hparse⟩
    simp [Handler.call, SubversionSession.readDownstreamHandshake, hparse]

end

end Svnsrv.Proxy
