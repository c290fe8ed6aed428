import Svnsrv.SessionBuffers

/-!
# What is routed is what is forwarded

The trace of a session that has sent anything to a backend splits at the parse
of the handshake and at the first write to the backend. The bytes of both are the
same, and the connection in between is the one the router chose for them.
-/

namespace Svnsrv.Proxy

open CText Hds Router Uri
set_option autoImplicit false

namespace Act

def isFailure : Act → Bool
  | failureFrame _ => true
  | _ => false

def isConnect : Act → Bool
  | startConnect _ _ => true
  | _ => false

/-- Something is written to the backend. -/
def toBackend : Act → Bool
  | startWrite .backend _ => true
  | sent .backend _ => true
  | wrote .backend _ => true
  | _ => false

def isWritten : Act → Bool
  | wrote .backend _ => true
  | _ => false

end Act

/-! ## Failure frames -/

/-- How many failure frames can have been sent in a phase. -/
def Phase.frames : Phase → Nat
  | .failing _ _ _ => 1
  | .ended => 1
  | _ => 0

def Phase.isRelay : Phase → Bool
  | .relay _ => true
  | _ => false

theorem refusal_frames (s : SubversionSession) (eid : Nat) (msg : Bytes) :
    (s.refusal eid msg).countP Act.isFailure = 1 := rfl

@[simp] theorem logged_frames (calls : List Klog.Call) :
    (calls.map Act.logged).countP Act.isFailure = 0 := by
  simp [Act.isFailure, Function.comp_def]

theorem startRelay_notMem_refusal (s : SubversionSession) (eid : Nat) (msg : Bytes) :
    .startRelay ∉ s.refusal eid msg := by
  simp [SubversionSession.refusal]

theorem Move.frames {env : Env} {p q : Phase} {s t : SubversionSession} {e : Event}
    {acts : List Act} (h : Move env p s e q t acts) :
    p.frames + acts.countP Act.isFailure ≤ q.frames := by
  cases h <;>
    simp [Phase.frames, Phase.refused, Act.isFailure, refusal_frames]

theorem Move.isRelay {env : Env} {p q : Phase} {s t : SubversionSession} {e : Event}
    {acts : List Act} (h : Move env p s e q t acts) (hq : q.isRelay = false) :
    p.isRelay = false ∧ .startRelay ∉ acts := by
  cases h <;> simp_all [Phase.isRelay, Phase.refused, startRelay_notMem_refusal]

/-- The frames of a trace are those its phase allows, and none has been sent in the relay. -/
structure Framed (p : Phase) (trace : List Act) : Prop where
  frames : trace.countP Act.isFailure ≤ p.frames
  relay : p.isRelay = false → .startRelay ∉ trace

theorem Framed.move {env : Env} {p q : Phase} {s t : SubversionSession} {e : Event}
    {trace acts : List Act} (h : Framed p trace) (hmove : Move env p s e q t acts) :
    Framed q (trace ++ acts) := by
  constructor
  · rw [List.countP_append]
    have := h.frames
    have := hmove.frames
    omega
  · intro hq
    obtain ⟨hp, hacts⟩ := hmove.isRelay hq
    rw [List.mem_append]
    exact fun hmem => hmem.elim (h.relay hp) hacts

theorem Framed.exclusive {p : Phase} {trace : List Act} (h : Framed p trace) {frame : Bytes}
    (hframe : .failureFrame frame ∈ trace) : .startRelay ∉ trace := by
  apply h.relay
  have hpos : 0 < trace.countP Act.isFailure := List.countP_pos_iff.mpr ⟨_, hframe, rfl⟩
  have hone := Nat.lt_of_lt_of_le hpos h.frames
  cases p <;> first | rfl | exact absurd hone (Nat.lt_irrefl 0)

theorem framed_of_reachable {env : Env} {s : State} (h : Reachable env s) :
    ∃ p, Framed p s.trace := by
  obtain ⟨p, session, trace, rfl, hframed⟩ :=
    reachable_phase (I := fun p _ trace => Framed p trace) h
      (fun c _ => ⟨Nat.le_refl 0, fun _ => by simp [SubversionSession.start,
        SubversionSession.asyncWriteSome]⟩) fun h hmove => h.move hmove
  exact ⟨p, hframed⟩

/-! ## The route -/

/-- What is done before the first completion of a write to the backend. -/
def untilWritten (acts : List Act) : List Act := acts.takeWhile fun a => !a.isWritten

theorem mem_untilWritten_append {a : Act} {post acts : List Act}
    (h : a ∈ untilWritten (post ++ acts)) :
    a ∈ untilWritten post ∨ ((∀ b ∈ post, b.isWritten = false) ∧ a ∈ acts) := by
  induction post with
  | nil =>
    refine .inr ⟨List.forall_mem_nil _, ?_⟩
    exact (List.takeWhile_sublist _).subset h
  | cons b post ih =>
    simp only [untilWritten, List.cons_append, List.takeWhile_cons] at h ih ⊢
    by_cases hb : b.isWritten = true
    · simp [hb] at h
    · simp only [hb, Bool.not_false, if_true, List.mem_cons] at h ⊢
      rcases h with rfl | h
      · exact .inl (.inl rfl)
      · rcases ih h with hpost | ⟨hno, hacts⟩
        · exact .inl (.inr hpost)
        · exact .inr ⟨fun c hc => hc.elim (fun hcb => by simpa [hcb] using hb) (hno c), hacts⟩

/-- The handshake `m` is accepted and routed to `node` behind `pre`, and nothing but the
connection to `node` is started in `mid`. -/
structure Route (env : Env) (size : Nat) (pre mid : List Act) (m : Bytes) (hds : SubversionHds)
    (node : StorageElement) : Prop where
  before : ∀ a ∈ pre, a.toBackend = false ∧ a.isConnect = false
  between : ∀ a ∈ mid, a.toBackend = false ∧ a ≠ .stored .cltBuffer ∧
    (a.isConnect = true → a = .startConnect node.address node.port)
  connected : .startConnect node.address node.port ∈ mid
  length : m.length = size
  authorised : ∃ (b : Hds.Buffer) (protocol : UInt32) (port : UInt16), b.addr = env.cltAddr ∧
    b.bytes = m ∧ Authorised env b (.fresh protocol) hds ⟨port, []⟩ node

/-- The first write to the backend starts with the handshake, which does not change until
that write completes. -/
structure Forward (env : Env) (size : Nat) (trace pre mid post : List Act) (m : Bytes)
    (hds : SubversionHds) (node : StorageElement) : Prop where
  route : Route env size pre mid m hds node
  split : trace = pre ++ .parsed m 0 hds :: (mid ++ .startWrite .backend m :: post)
  connects : ∀ a ∈ post, a.isConnect = false
  unchanged : .stored .cltBuffer ∉ untilWritten post

theorem Forward.append {env : Env} {size : Nat} {trace pre mid post acts : List Act} {m : Bytes}
    {hds : SubversionHds} {node : StorageElement}
    (h : Forward env size trace pre mid post m hds node)
    (hconnect : ∀ a ∈ acts, a.isConnect = false)
    (hstored : (∃ a ∈ post, a.isWritten = true) ∨ .stored .cltBuffer ∉ acts) :
    Forward env size (trace ++ acts) pre mid (post ++ acts) m hds node where
  route := h.route
  split := by simp [h.split]
  connects := by
    intro a ha
    exact (List.mem_append.mp ha).elim (h.connects a) (hconnect a)
  unchanged := by
    intro hmem
    rcases mem_untilWritten_append hmem with hpost | ⟨hno, hacts⟩
    · exact h.unchanged hpost
    · rcases hstored with ⟨a, ha, hw⟩ | hnot
      · exact absurd hw (by simp [hno a ha])
      · exact hnot hacts

def Forwarded (env : Env) (size : Nat) (trace : List Act) : Prop :=
  ∃ pre mid post m hds node, Forward env size trace pre mid post m hds node

/-- The first write to the backend has completed. -/
def Settled (env : Env) (size : Nat) (trace : List Act) : Prop :=
  ∃ pre mid post m hds node, Forward env size trace pre mid post m hds node ∧
    ∃ a ∈ post, a.isWritten = true

theorem Settled.append {env : Env} {size : Nat} {trace acts : List Act}
    (h : Settled env size trace) (hconnect : ∀ a ∈ acts, a.isConnect = false) :
    Settled env size (trace ++ acts) := by
  obtain ⟨pre, mid, post, m, hds, node, hf, a, ha, hw⟩ := h
  exact ⟨pre, mid, _, m, hds, node, hf.append hconnect (.inl ⟨a, ha, hw⟩), a,
    List.mem_append_left _ ha, hw⟩

/-- Nothing has been written to the backend. -/
def Unwritten (trace : List Act) : Prop := ∀ a ∈ trace, a.toBackend = false

theorem Unwritten.append {trace acts : List Act} (h : Unwritten trace) (hacts : Unwritten acts) :
    Unwritten (trace ++ acts) := by
  intro a ha
  exact (List.mem_append.mp ha).elim (h a) (hacts a)

structure Waiting (s : SubversionSession) (trace : List Act) : Prop where
  hds : ∃ protocol, s.hds = .fresh protocol
  node : s.node.address = []
  quiet : ∀ a ∈ trace, a.toBackend = false ∧ a.isConnect = false

theorem Waiting.append {s t : SubversionSession} {trace acts : List Act} (h : Waiting s trace)
    (hhds : t.hds = s.hds) (hnode : t.node = s.node)
    (hacts : ∀ a ∈ acts, a.toBackend = false ∧ a.isConnect = false) :
    Waiting t (trace ++ acts) where
  hds := hhds ▸ h.hds
  node := hnode ▸ h.node
  quiet := by
    intro a ha
    exact (List.mem_append.mp ha).elim (h.quiet a) (hacts a)

/-- The session has chosen its node and holds the handshake it has parsed. -/
def Chosen (env : Env) (s : SubversionSession) (trace : List Act) : Prop :=
  ∃ pre mid m hds node, trace = pre ++ .parsed m 0 hds :: mid ∧
    Route env s.handshakeSize pre mid m hds node ∧
    (s.mem.get .cltBuffer).take s.handshakeSize = m

theorem Chosen.append {env : Env} {s t : SubversionSession} {trace acts : List Act}
    (h : Chosen env s trace) (hmem : t.mem.get .cltBuffer = s.mem.get .cltBuffer)
    (hsize : t.handshakeSize = s.handshakeSize)
    (hacts : ∀ a ∈ acts, a.toBackend = false ∧ a ≠ .stored .cltBuffer ∧ a.isConnect = false) :
    Chosen env t (trace ++ acts) := by
  obtain ⟨pre, mid, m, hds, node, hsplit, hroute, hm⟩ := h
  refine ⟨pre, mid ++ acts, m, hds, node, by simp [hsplit], ?_, by rw [hmem, hsize, hm]⟩
  refine ⟨hroute.before, ?_, List.mem_append_left _ hroute.connected, hsize ▸ hroute.length,
    hroute.authorised⟩
  intro a ha
  rcases List.mem_append.mp ha with ha | ha
  · exact hroute.between a ha
  · obtain ⟨hw, hs, hc⟩ := hacts a ha
    exact ⟨hw, hs, fun h => by simp [hc] at h⟩

theorem Chosen.unwritten {env : Env} {s : SubversionSession} {trace : List Act}
    (h : Chosen env s trace) : Unwritten trace := by
  obtain ⟨pre, mid, m, hds, node, rfl, hroute, -⟩ := h
  apply Unwritten.append
  · exact fun a ha => (hroute.before a ha).1
  · intro a ha
    rcases List.mem_cons.mp ha with rfl | ha
    · rfl
    · exact (hroute.between a ha).1

/-- How far the handshake has come in each phase. -/
def Routing (env : Env) : Phase → SubversionSession → List Act → Prop
  | .greeting _ _, s, trace => Waiting s trace
  | .handshake moved _, s, trace => Waiting s trace ∧ moved.length ≤ kDefaultBufferSize
  | .connecting _ _ _, s, trace => Chosen env s trace
  | .backendGreeting _ _, s, trace => Chosen env s trace
  | .forwarding _ _ _, s, trace => Forwarded env s.handshakeSize trace
  | .relay _, s, trace => Settled env s.handshakeSize trace
  | .failing _ _ _, s, trace => Unwritten trace ∨ Settled env s.handshakeSize trace
  | .ended, s, trace => Unwritten trace ∨ Settled env s.handshakeSize trace

theorem unwritten_refusal (s : SubversionSession) (eid : Nat) (msg : Bytes) :
    Unwritten (s.refusal eid msg) := by
  simp [Unwritten, SubversionSession.refusal, Act.toBackend]

theorem Routing.reuseStack {env : Env} {p : Phase} {s : SubversionSession} {trace : List Act}
    (h : Routing env p s trace) (data : Bytes) :
    Routing env p (s.stores .mbuffer data) (trace ++ [.stored .mbuffer]) := by
  have hunwritten : Unwritten [.stored .mbuffer] := by simp [Unwritten, Act.toBackend]
  have hconnect : ∀ a ∈ [Act.stored .mbuffer], a.isConnect = false := by simp [Act.isConnect]
  have hquiet : ∀ a ∈ [Act.stored .mbuffer], a.toBackend = false ∧ a.isConnect = false := by
    simp [Act.toBackend, Act.isConnect]
  cases p with
  | greeting moved c => exact Waiting.append h rfl rfl hquiet
  | handshake moved c => exact ⟨h.1.append rfl rfl hquiet, h.2⟩
  | connecting address port c =>
    exact Chosen.append h rfl rfl (by simp [Act.toBackend, Act.isConnect])
  | backendGreeting moved c =>
    exact Chosen.append h rfl rfl (by simp [Act.toBackend, Act.isConnect])
  | forwarding size moved c =>
    obtain ⟨pre, mid, post, m, hds, node, hf⟩ := h
    exact ⟨pre, mid, _, m, hds, node, hf.append hconnect (.inr (by simp))⟩
  | relay held => exact Settled.append h hconnect
  | failing size moved c => exact h.imp (·.append hunwritten) (·.append hconnect)
  | ended => exact h.imp (·.append hunwritten) (·.append hconnect)

theorem chosen_routed {env : Env} {s : SubversionSession} {trace : List Act} {moved : Bytes}
    {hds : SubversionHds} {node : StorageElement} (call : Klog.Call) (h : Waiting s trace)
    (hmoved : moved.length ≤ kDefaultBufferSize)
    (hauth : Authorised env (s.handshake env moved.length) s.hds hds s.node node) :
    Chosen env { s.reads moved.length hds with node }
      (trace ++ [.got .socket moved, .parsed (s.handshake env moved.length).bytes 0 hds,
        .logged call, .startConnect node.address node.port]) := by
  obtain ⟨protocol, hfresh⟩ := h.hds
  refine ⟨trace ++ [.got .socket moved], [.logged call, .startConnect node.address node.port],
    (s.handshake env moved.length).bytes, hds, node, by simp,
    ⟨?_, ?_, List.mem_cons_of_mem _ List.mem_cons_self, ?_, ?_⟩, rfl⟩
  · intro a ha
    rcases List.mem_append.mp ha with ha | ha
    · exact h.quiet a ha
    · simp [List.mem_singleton.mp ha, Act.toBackend, Act.isConnect]
  · simp [Act.toBackend, Act.isConnect]
  · have := s.mem.cltBuffer.property
    simp only [Buf.size] at this
    exact List.length_take_of_le (this.symm ▸ hmoved)
  · refine ⟨s.handshake env moved.length, protocol, s.node.port, rfl, rfl, ?_⟩
    have hnode : s.node = ⟨s.node.port, []⟩ := by rw [← h.node]
    rw [← hfresh, ← hnode]
    exact hauth

theorem Chosen.forwarded {env : Env} {s : SubversionSession} {trace : List Act} {moved : Bytes}
    (h : Chosen env s trace) :
    Forwarded env s.handshakeSize (trace ++ [.got .backend moved,
      .startWrite .backend ((s.mem.get .cltBuffer).take s.handshakeSize)]) := by
  have hgot : Chosen env s (trace ++ [.got .backend moved]) :=
    h.append rfl rfl (by simp [Act.toBackend, Act.isConnect])
  obtain ⟨pre, mid, m, hds, node, hsplit, hroute, hm⟩ := hgot
  refine ⟨pre, mid, [], m, hds, node, hroute, ?_, List.forall_mem_nil _, List.not_mem_nil⟩
  rw [hm, List.append_cons, hsplit]
  simp

theorem Forwarded.append {env : Env} {size : Nat} {trace acts : List Act}
    (h : Forwarded env size trace)
    (hacts : ∀ a ∈ acts, a.isConnect = false ∧ a ≠ .stored .cltBuffer) :
    Forwarded env size (trace ++ acts) := by
  obtain ⟨pre, mid, post, m, hds, node, hf⟩ := h
  exact ⟨pre, mid, _, m, hds, node,
    hf.append (fun a ha => (hacts a ha).1) (.inr fun hs => (hacts _ hs).2 rfl)⟩

theorem Forwarded.settled {env : Env} {size : Nat} {trace acts : List Act} {e : ErrorCode}
    (h : Forwarded env size trace) (hacts : ∀ a ∈ acts, a.isConnect = false) :
    Settled env size (trace ++ .wrote .backend e :: acts) := by
  obtain ⟨pre, mid, post, m, hds, node, hf⟩ := h
  have hwrote : Forward env size (trace ++ [.wrote .backend e]) pre mid _ m hds node :=
    hf.append (by simp [Act.isConnect]) (.inr (by simp))
  have hsettled : Settled env size (trace ++ [.wrote .backend e]) :=
    ⟨pre, mid, _, m, hds, node, hwrote, .wrote .backend e, by simp, rfl⟩
  rw [List.append_cons]
  exact hsettled.append hacts

theorem isConnect_refusal (s : SubversionSession) (eid : Nat) (msg : Bytes) :
    ∀ a ∈ s.refusal eid msg, a.isConnect = false := by
  simp [SubversionSession.refusal, Act.isConnect]

theorem Routing.move {env : Env} {p q : Phase} {s t : SubversionSession} {e : Event}
    {trace acts : List Act} (h : Routing env p s trace) (hmove : Move env p s e q t acts) :
    Routing env q t (trace ++ acts) := by
  cases hmove with
  | reuseStack data => exact h.reuseStack data
  | transmitGreeting hn =>
    exact Waiting.append h rfl rfl (by simp [Act.toBackend, Act.isConnect])
  | greeted =>
    exact ⟨Waiting.append h rfl rfl (by simp [Act.toBackend, Act.isConnect]), Nat.zero_le _⟩
  | fillHandshake hdata =>
    exact ⟨h.1.append rfl rfl (by simp [Act.toBackend, Act.isConnect]), hdata⟩
  | greetingFailed he =>
    exact .inl (Unwritten.append (fun a ha => (h.quiet a ha).1) (by simp [Unwritten, Act.toBackend]))
  | handshakeFailed call he | threw hparse | overran hparse hover =>
    exact .inl (Unwritten.append (fun a ha => (h.1.quiet a ha).1)
      (by simp [Unwritten, Act.toBackend]))
  | refused calls hparse hreply hnot =>
    refine .inl (Unwritten.append (fun a ha => (h.1.quiet a ha).1) ?_)
    refine List.forall_mem_cons.mpr ⟨rfl, List.forall_mem_cons.mpr ⟨rfl, ?_⟩⟩
    refine List.forall_mem_append.mpr ⟨?_, unwritten_refusal _ _ _⟩
    exact List.forall_mem_map.mpr fun _ _ => rfl
  | routed hauth hrecord => exact chosen_routed _ h.1 h.2 hauth
  | connected => exact Chosen.append h rfl rfl (by simp [Act.toBackend, Act.isConnect])
  | connectFailed call he | backendGreetingFailed call he =>
    exact .inl (h.unwritten.append (List.forall_mem_cons.mpr ⟨rfl, unwritten_refusal _ _ _⟩))
  | connectOverran he | backendGreetingOverran he =>
    exact .inl (h.unwritten.append (by simp [Unwritten, Act.toBackend]))
  | fillBackendGreeting hdata =>
    exact Chosen.append h rfl rfl (by simp [Act.toBackend, Act.isConnect])
  | backendGreeted => exact Chosen.forwarded h
  | transmitHandshake hn => exact Forwarded.append h (by simp [Act.isConnect])
  | forwarded => exact Forwarded.settled h (by simp [Act.isConnect])
  | forwardFailed call he =>
    refine .inr (Forwarded.settled h ?_)
    exact List.forall_mem_cons.mpr ⟨rfl, List.forall_mem_cons.mpr ⟨rfl, isConnect_refusal _ _ _⟩⟩
  | forwardOverran he => exact .inr (Forwarded.settled h (by simp [Act.isConnect]))
  | fillLane lane hheld hdata | laneRead lane hheld | laneReadFailed lane hheld he
  | transmitLane lane hheld hn | laneWrote lane hheld hall | laneWriteFailed lane hheld he =>
    exact Settled.append h (by simp [Act.isConnect])
  | transmitFailure hn | failureSent | failureFailed he =>
    exact h.imp (·.append (by simp [Unwritten, Act.toBackend]))
      (·.append (by simp [Act.isConnect]))

theorem routing_start {env : Env} {c : SubversionSession} (hc : Constructed c) :
    Routing env (.greeting [] false) c.start.session c.start.acts where
  hds := hc.hds
  node := hc.node
  quiet := by
    intro a ha
    rw [List.mem_singleton.mp ha]
    exact ⟨rfl, rfl⟩

theorem Routing.forwarded {env : Env} {p : Phase} {s : SubversionSession} {trace : List Act}
    {a : Act} (h : Routing env p s trace) (ha : a ∈ trace) (hwrite : a.toBackend = true) :
    Forwarded env s.handshakeSize trace := by
  have hnot : ¬Unwritten trace := fun hw => absurd hwrite (by simp [hw a ha])
  have hsettled : ∀ {n}, Settled env n trace → Forwarded env n trace := by
    rintro n ⟨pre, mid, post, m, hds, node, hf, -⟩
    exact ⟨pre, mid, post, m, hds, node, hf⟩
  cases p with
  | greeting moved c => exact absurd (fun a ha => (h.quiet a ha).1) hnot
  | handshake moved c => exact absurd (fun a ha => (h.1.quiet a ha).1) hnot
  | connecting address port c => exact absurd (Chosen.unwritten h) hnot
  | backendGreeting moved c => exact absurd (Chosen.unwritten h) hnot
  | forwarding size moved c => exact h
  | relay held => exact hsettled h
  | failing size moved c => exact hsettled (h.resolve_left hnot)
  | ended => exact hsettled (h.resolve_left hnot)

theorem forwarded_of_reachable {env : Env} {s : State} {a : Act} (h : Reachable env s)
    (ha : a ∈ s.trace) (hwrite : a.toBackend = true) :
    Forwarded env s.session.handshakeSize s.trace := by
  obtain ⟨p, session, trace, rfl, hrouting⟩ :=
    reachable_phase (I := Routing env) h (fun c hc => routing_start hc) fun h hmove => h.move hmove
  exact hrouting.forwarded ha hwrite

/-- Every run forwards to the routed backend the very bytes it was routed by, and a session
sends one failure frame or starts one relay. -/
theorem routed_is_forwarded (env : Env) (s : State) (h : Reachable env s) :
    (∀ a ∈ s.trace, a.toBackend = true → Forwarded env s.session.handshakeSize s.trace) ∧
    s.trace.countP Act.isFailure ≤ 1 ∧
    ∀ frame, .failureFrame frame ∈ s.trace → .startRelay ∉ s.trace := by
  refine ⟨fun a => forwarded_of_reachable h, ?_, ?_⟩
  · obtain ⟨p, hframed⟩ := framed_of_reachable h
    have hone : p.frames ≤ 1 := by cases p <;> simp [Phase.frames]
    exact Nat.le_trans hframed.frames hone
  · obtain ⟨p, hframed⟩ := framed_of_reachable h
    exact fun frame => hframed.exclusive

theorem routed_is_forwarded_sample :
    (∀ a ∈ sampleRelay.trace, a.toBackend = true →
      Forwarded sampleEnv sampleRelay.session.handshakeSize sampleRelay.trace) ∧
    sampleRelay.trace.countP Act.isFailure ≤ 1 ∧
    ∀ frame, .failureFrame frame ∈ sampleRelay.trace → .startRelay ∉ sampleRelay.trace :=
  routed_is_forwarded sampleEnv sampleRelay sampleRelay_reachable

end Svnsrv.Proxy
