import Svnsrv.SessionMoves

/-!
# Ownership of the session's arrays

One chain of operations uses both arrays until the relay starts; then each lane
has its own. No two outstanding operations ever meet in an array, or in one
direction of a socket.
-/

namespace Svnsrv.Proxy

open CText Hds Router
set_option autoImplicit false

namespace Lane

theorem eq_of_buf {lane lane' : Lane} (h : lane.buf = lane'.buf) : lane = lane' := by
  cases lane <;> cases lane' <;> first | rfl | cases h

theorem eq_of_src {lane lane' : Lane} (h : lane.src = lane'.src) : lane = lane' := by
  cases lane <;> cases lane' <;> first | rfl | cases h

theorem eq_of_dst {lane lane' : Lane} (h : lane.dst = lane'.dst) : lane = lane' := by
  cases lane <;> cases lane' <;> first | rfl | cases h

theorem op_refersTo (lane : Lane) (x : LaneOp) : (lane.op x).refersTo = some lane.buf := by
  cases x <;> rfl

theorem op_readsFrom {lane : Lane} {x : LaneOp} {sock : Sock}
    (h : (lane.op x).readsFrom = some sock) : sock = lane.src := by
  cases x with
  | reading moved c => exact (Option.some.inj h).symm
  | writing size moved c => cases h

theorem op_writesTo {lane : Lane} {x : LaneOp} {sock : Sock}
    (h : (lane.op x).writesTo = some sock) : sock = lane.dst := by
  cases x with
  | reading moved c => cases h
  | writing size moved c => exact (Option.some.inj h).symm

theorem countP_ops_le_one {p : Op → Bool} (held : Lane → Option LaneOp)
    (h : ∀ lane lane' : Lane, ∀ x y, p (lane.op x) → p (lane'.op y) → lane = lane') :
    (ops held).countP p ≤ 1 := by
  apply Slots.countP_pool_le_one all_nodup
  intro lane lane' a b ha hb hpa hpb
  obtain ⟨x, -, rfl⟩ := Option.map_eq_some_iff.mp ha
  obtain ⟨y, -, rfl⟩ := Option.map_eq_some_iff.mp hb
  exact h lane lane' x y hpa hpb

end Lane

/-- A phase has at most one operation with `p` if no two lanes share it. -/
theorem Phase.countP_le_one {p : Op → Bool} (phase : Phase)
    (h : ∀ lane lane' : Lane, ∀ x y, p (lane.op x) → p (lane'.op y) → lane = lane') :
    phase.ops.countP p ≤ 1 := by
  cases phase with
  | relay held => exact Lane.countP_ops_le_one held h
  | ended => exact Nat.zero_le 1
  | _ => exact List.countP_le_length

theorem exists_phase {env : Env} {s : State} (h : Reachable env s) :
    ∃ p session trace, s = Phase.state p session trace := by
  obtain ⟨p, session, trace, rfl, -⟩ :=
    reachable_phase (I := fun _ _ _ => True) h (fun _ _ => trivial) fun _ _ => trivial
  exact ⟨p, session, trace, rfl⟩

/-! ## Memory -/

theorem get_store_of_ne {b c : Buf} (h : b ≠ c) (m : Memory) (data : Bytes) :
    (m.store b data).get c = m.get c := by
  cases b <;> cases c <;> first | rfl | exact absurd rfl h

theorem take_get_store {b : Buf} {data : Bytes} (h : data.length ≤ b.size) (m : Memory) :
    ((m.store b data).get b).take data.length = data := by
  have harray : ∀ {n} (a : CharArray n), data.length ≤ n →
      (a.store data).val.take data.length = data := by
    intro n a hn
    rw [CharArray.store, List.take_take, Nat.min_eq_left hn]
    simp
  cases b <;> exact harray _ h

/-- A reaction notes every array whose contents it changes. -/
def Reaction.NotesStores (r : Reaction) (s : SubversionSession) : Prop :=
  ∀ buf, .stored buf ∉ r.acts → r.session.mem.get buf = s.mem.get buf

theorem notesStores_of_mem {r : Reaction} {s : SubversionSession} (h : r.session.mem = s.mem) :
    r.NotesStores s := by
  intro buf _
  rw [h]

theorem sendError_notesStores (s : SubversionSession) (eid : Nat) (msg : Bytes) (length : Nat) :
    (s.sendError eid msg length).NotesStores s := by
  intro buf hbuf
  apply get_store_of_ne
  rintro rfl
  exact hbuf List.mem_cons_self

theorem refuses_notesStores {s t : SubversionSession} (h : t.mem = s.mem) (eid : Nat) (msg : Bytes)
    {acts : List Act} (hstored : .stored .buffer ∈ acts) (started : List Op)
    (cancels : List Sock) : Reaction.NotesStores ⟨t.refuses eid msg, acts, started, cancels⟩ s := by
  intro buf hbuf
  rw [← h]
  apply get_store_of_ne
  rintro rfl
  exact hbuf hstored

theorem logs_notesStores {s : SubversionSession} {now : Now} {entry : LogEntry} {next r : Reaction}
    (hnext : next.NotesStores s) (hlogs : s.logs now entry next = .ok r) : r.NotesStores s := by
  rcases logs_cases s now entry next with ⟨-, hnone⟩ | ⟨record, -, hsome⟩
  · cases hnone.symm.trans hlogs
  · cases hsome.symm.trans hlogs
    intro buf hbuf
    exact hnext buf fun hmem => hbuf (List.mem_cons_of_mem _ hmem)

theorem andThen_notesStores {s : SubversionSession} (act : Act) {next : SubversionSession → Reaction}
    {cancels : List Sock} (hnext : (next s).NotesStores s) :
    (Reaction.andThen ⟨s, [act], [], cancels⟩ next).NotesStores s := by
  intro buf hbuf
  exact hnext buf fun hmem => hbuf (List.mem_cons_of_mem _ hmem)

theorem call_notesStores {env : Env} {now : Now} {s : SubversionSession} {e : ErrorCode} {n : Nat}
    {handler : Handler} {r : Reaction} (hcall : handler.call env now s e n = .ok r) :
    r.NotesStores s := by
  cases handler with
  | readDownstreamHandshake =>
    change s.readDownstreamHandshake env now e n = .ok r at hcall
    by_cases he : e = 0
    · subst he
      have hreads := readDownstreamHandshake_cases s env now n
      rw [hcall] at hreads
      cases hreads with
      | refused calls hparse hreply hnot =>
        exact refuses_notesStores rfl _ _ (by simp [SubversionSession.refusal]) _ _
      | routed hauth hrecord => exact notesStores_of_mem rfl
    · unfold SubversionSession.readDownstreamHandshake at hcall
      rw [if_neg he] at hcall
      exact logs_notesStores (notesStores_of_mem rfl) hcall
  | echoUpstreamHandshake =>
    change s.echoUpstreamHandshake now e = .ok r at hcall
    unfold SubversionSession.echoUpstreamHandshake at hcall
    split at hcall
    · cases hcall
      exact notesStores_of_mem rfl
    · exact logs_notesStores (andThen_notesStores _ (sendError_notesStores _ _ _ _)) hcall
  | asyncConnectUpstream =>
    change s.asyncConnectUpstream now e = .ok r at hcall
    unfold SubversionSession.asyncConnectUpstream at hcall
    split at hcall
    · cases hcall
      exact notesStores_of_mem rfl
    · exact logs_notesStores (sendError_notesStores _ _ _ _) hcall
  | readUpstreamHandshake =>
    change s.readUpstreamHandshake now e = .ok r at hcall
    unfold SubversionSession.readUpstreamHandshake at hcall
    split at hcall
    · cases hcall
      exact notesStores_of_mem rfl
    · exact logs_notesStores (sendError_notesStores _ _ _ _) hcall
  | echoDownstreamHandshake =>
    cases hcall
    unfold SubversionSession.echoDownstreamHandshake
    split <;> exact notesStores_of_mem rfl
  | upstreamRead | downstreamRead =>
    cases hcall
    apply notesStores_of_mem
    simp only [SubversionSession.upstreamRead, SubversionSession.downstreamRead,
      SubversionSession.relayRead]
    split <;> rfl
  | upstreamWrite | downstreamWrite =>
    cases hcall
    apply notesStores_of_mem
    simp only [SubversionSession.upstreamWrite, SubversionSession.downstreamWrite,
      SubversionSession.relayWrite]
    split <;> rfl
  | sendErrorDone =>
    cases hcall
    unfold SubversionSession.sendErrorDone
    split <;> exact notesStores_of_mem rfl

/-! ## Ownership -/

theorem lane_stores_nothing {env : Env} {now : Now} {s : SubversionSession} {e : ErrorCode}
    {lane : Lane} {x : LaneOp} {r : Reaction} {n : Nat} {buf : Buf}
    (hcall : (lane.op x).handler.call env now s e n = .ok r) : .stored buf ∉ r.acts := by
  cases x with
  | reading moved c =>
    obtain rfl := Except.ok.inj ((lane.call_readHandler env now s e n).symm.trans hcall)
    unfold SubversionSession.relayRead
    split <;> simp [SubversionSession.asyncWrite, SubversionSession.cancel]
  | writing size moved c =>
    obtain rfl := Except.ok.inj ((lane.call_writeHandler env now s e n).symm.trans hcall)
    unfold SubversionSession.relayWrite
    split <;> simp [SubversionSession.asyncReadSome, SubversionSession.quit]

/-- Whoever writes to an array is alone with it: apart from its own completed operation
nothing outstanding refers to an array that a handler writes to. -/
theorem handler_alone {env : Env} {p : Phase} {s : SubversionSession} {i : Nat} {op : Op}
    {e : ErrorCode} {now : Now} {r : Reaction} {buf : Buf} (hop : p.ops[i]? = some op)
    (hcall : op.handler.call env now s e op.moved.length = .ok r) (hstored : .stored buf ∈ r.acts) :
    ∀ other ∈ p.ops.eraseIdx i, other.refersTo ≠ some buf := by
  intro other hother
  cases p with
  | ended => cases hop
  | relay held =>
    obtain ⟨lane, x, -, rfl, -⟩ := Lane.exists_of_getElem? hop
    exact absurd hstored (lane_stores_nothing hcall)
  | _ =>
    obtain ⟨rfl, -⟩ := Slots.getElem?_singleton hop
    cases hother

/-- In every reachable state each array and each direction of a socket belongs to at most
one outstanding operation, and handlers write to arrays nobody else refers to. -/
theorem exclusive_ownership (env : Env) (s : State) (h : Reachable env s) :
    (∀ buf, (s.ops.countP fun op => op.refersTo = some buf) ≤ 1) ∧
    (∀ sock, (s.ops.countP fun op => op.readsFrom = some sock) ≤ 1 ∧
      (s.ops.countP fun op => op.writesTo = some sock) ≤ 1) ∧
    ∀ i op e now r buf, s.ops[i]? = some op →
      op.handler.call env now s.session e op.moved.length = .ok r →
      .stored buf ∈ r.acts ∨ r.session.mem.get buf ≠ s.session.mem.get buf →
      ∀ other ∈ s.ops.eraseIdx i, other.refersTo ≠ some buf := by
  obtain ⟨p, session, trace, rfl⟩ := exists_phase h
  refine ⟨fun buf => ?_, fun sock => ⟨?_, ?_⟩, ?_⟩
  · apply p.countP_le_one
    intro lane lane' x y hx hy
    simp only [Lane.op_refersTo, decide_eq_true_eq, Option.some.injEq] at hx hy
    exact Lane.eq_of_buf (hx.trans hy.symm)
  · apply p.countP_le_one
    intro lane lane' x y hx hy
    exact Lane.eq_of_src ((Lane.op_readsFrom (of_decide_eq_true hx)).symm.trans
      (Lane.op_readsFrom (of_decide_eq_true hy)))
  · apply p.countP_le_one
    intro lane lane' x y hx hy
    exact Lane.eq_of_dst ((Lane.op_writesTo (of_decide_eq_true hx)).symm.trans
      (Lane.op_writesTo (of_decide_eq_true hy)))
  · intro i op e now r buf hop hcall hwrites
    apply handler_alone hop hcall
    by_contra hnot
    exact hwrites.elim hnot fun hmem => hmem (call_notesStores hcall buf hnot)

/-! ## A session -/

def CharArray.zeros (n : Nat) : CharArray n := ⟨List.replicate n 0, List.length_replicate⟩

/-- Every owner has the default node. -/
def sampleEnv : Env := ⟨⟨[], ascii "10.0.0.1", 3690⟩, fun _ => true, 4096, by decide⟩

def sampleNow : Now := ⟨Klog.sampleTm, 7, 70, Klog.formatted [], Klog.sampleTurn⟩

def sampleSession : SubversionSession := ⟨⟨.zeros _, .zeros _, .zeros _⟩, ⟨0, []⟩, .fresh 0, 0⟩

theorem sampleSession_init : Init (.started sampleSession) := ⟨_, ⟨rfl, 0, rfl⟩, rfl⟩

def sampleHandshake : Bytes := ascii "( 2 ( a ) 10:svn://h/ab ( ) ) "

/-- An operation succeeds. -/
def done (i : Nat) : Event := .complete i 0 sampleNow

/-- The handshakes of both sides, and a command of the client that is half forwarded. -/
def sampleEvents : List Event :=
  [.transmit 0 greeting.length, done 0, .fill 0 sampleHandshake, done 0,
    done 0, .fill 0 (ascii "( )"), done 0,
    .transmit 0 sampleHandshake.length, done 0,
    .fill 1 (ascii "( get-latest-rev ( ) ) "), done 1, .transmit 1 9]

set_option maxRecDepth 10000 in
theorem sampleEvents_run :
    (Transition.exec (step sampleEnv) (.started sampleSession) sampleEvents).isSome := by decide +kernel

/-- The relay of the sample run. -/
def sampleRelay : State := Option.get _ sampleEvents_run

theorem sampleRelay_reachable : Reachable sampleEnv sampleRelay :=
  Transition.reachable_exec sampleSession_init sampleEvents_run

theorem exclusive_ownership_sample :
    (∀ buf, (sampleRelay.ops.countP fun op => op.refersTo = some buf) ≤ 1) ∧
    (∀ sock, (sampleRelay.ops.countP fun op => op.readsFrom = some sock) ≤ 1 ∧
      (sampleRelay.ops.countP fun op => op.writesTo = some sock) ≤ 1) ∧
    ∀ i op e now r buf, sampleRelay.ops[i]? = some op →
      op.handler.call sampleEnv now sampleRelay.session e op.moved.length = .ok r →
      .stored buf ∈ r.acts ∨ r.session.mem.get buf ≠ sampleRelay.session.mem.get buf →
      ∀ other ∈ sampleRelay.ops.eraseIdx i, other.refersTo ≠ some buf :=
  exclusive_ownership sampleEnv sampleRelay sampleRelay_reachable

end Svnsrv.Proxy
