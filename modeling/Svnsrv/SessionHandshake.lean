import Svnsrv.HdsPrefix
import Svnsrv.SessionChunks
import Svnsrv.SessionWhole

/-!
# The handshake in several chunks

A session parses whatever its first read returns. If the parser takes that for a
complete message the session logs it and goes on, and the relay forwards the rest;
else the client is refused in the middle of its handshake.
-/

namespace Svnsrv.Proxy

open CText Hds Router Uri
set_option autoImplicit false

/-- The router sends an owner of `url` to `node`, which the session can connect to. -/
structure Routable (env : Env) (url : Bytes) (node : StorageElement) : Prop where
  route : ∃ svnurl old, subversionUriCanonicalize url (.fresh 0) = (0, svnurl) ∧
    env.router.getAddress svnurl.owner old = (true, node)
  address : node.address ≠ []
  parsable : env.fromString node.address = true

theorem getAddress_of_true {router : RouterSeletor} {owner : Bytes} {old node : StorageElement}
    (h : router.getAddress owner old = (true, node)) (old' : StorageElement) :
    router.getAddress owner old' = (true, node) := by
  rcases owner with _ | ⟨a, _ | ⟨b, rest⟩⟩
  · cases h
  · cases h
  · exact h

/-- Before the relay every operation succeeds, and a write to the backend takes all that it
is given. -/
def Smooth (s : State) : Event → Prop
  | .complete i e _ => .startRelay ∉ s.trace →
      e = 0 ∧ ∀ op ∈ s.ops[i]?, op.writesTo = some .backend → op.whole = true
  | _ => True

instance (s : State) : (e : Event) → Decidable (Smooth s e)
  | .complete i e _ => inferInstanceAs (Decidable (.startRelay ∉ s.trace →
      e = 0 ∧ ∀ op ∈ s.ops[i]?, op.writesTo = some .backend → op.whole = true))
  | .transmit _ _ => inferInstanceAs (Decidable True)
  | .fill _ _ => inferInstanceAs (Decidable True)
  | .reuseStack _ => inferInstanceAs (Decidable True)

/-- The clock shows `tm` when the handler of the handshake runs. -/
def ReadAt (tm : Klog.Tm) (s : State) : Event → Prop
  | .complete i _ now => ∀ op ∈ s.ops[i]?, op.handler = .readDownstreamHandshake → now.tm = tm
  | _ => True

instance (tm : Klog.Tm) (s : State) : (e : Event) → Decidable (ReadAt tm s e)
  | .complete i _ now => inferInstanceAs (Decidable
      (∀ op ∈ s.ops[i]?, op.handler = .readDownstreamHandshake → now.tm = tm))
  | .transmit _ _ => inferInstanceAs (Decidable True)
  | .fill _ _ => inferInstanceAs (Decidable True)
  | .reuseStack _ => inferInstanceAs (Decidable True)

/-- What the session does for a message that comes in one chunk. -/
structure Served (m : Message) (node : StorageElement) (s : State) : Prop where
  accepted : ∀ frame, .failureFrame frame ∉ s.trace
  connects : chunksFrom .socket s.trace ≠ [] → .startConnect node.address node.port ∈ s.trace
  only : ∀ address port, .startConnect address port ∈ s.trace →
    address = node.address ∧ port = node.port
  forwards : sentOn .backend s.trace <+: m.text
  whole : .startRelay ∈ s.trace → Drained .downstream s →
    sentOn .backend s.trace = gotFrom .socket s.trace

/-! ## The phases of a handshake in chunks -/

/-- The parser takes the first `n` bytes for a complete message, and its record fits. -/
def Passes (m : Message) (node : StorageElement) (tm : Klog.Tm) (n : Nat) : Prop :=
  m.SafeCut n ∧ Klog.StorageFits tm node.address m.response.url

structure Unread (s : SubversionSession) (trace : List Act) : Prop where
  hds : ∃ protocol, s.hds = .fresh protocol
  chunks : chunksFrom .socket trace = []
  sent : sentOn .backend trace = []
  quiet : ∀ a ∈ trace, a.isFailure = false ∧ a.isConnect = false

/-- The session has been led to `node`, and to no other. -/
structure Led (node : StorageElement) (trace : List Act) : Prop where
  accepted : ∀ a ∈ trace, a.isFailure = false
  connects : .startConnect node.address node.port ∈ trace
  only : ∀ a ∈ trace, a.isConnect = true → a = .startConnect node.address node.port

/-- The first chunk has been accepted, lies in `clt_buffer_`, and `moved` of it is forwarded. -/
structure Kept (m : Message) (node : StorageElement) (tm : Klog.Tm) (s : SubversionSession)
    (trace : List Act) (moved : Bytes) : Prop where
  led : Led node trace
  safe : ∃ chunk, chunksFrom .socket trace = [chunk] ∧ Passes m node tm chunk.length ∧
    chunk = (s.mem.get .cltBuffer).take s.handshakeSize
  sent : sentOn .backend trace = moved
  begun : moved <+: gotFrom .socket trace

structure Linked (m : Message) (node : StorageElement) (tm : Klog.Tm)
    (trace pre post : List Act) : Prop where
  led : Led node trace
  split : trace = pre ++ .startRelay :: post
  first : .startRelay ∉ pre
  safe : ∃ chunk, chunksFrom .socket pre = [chunk] ∧ Passes m node tm chunk.length
  forwarded : sentOn .backend pre = gotFrom .socket pre

/-- The first chunk has not passed: the client is refused, or the process has ended. -/
structure Stopped (m : Message) (node : StorageElement) (tm : Klog.Tm) (trace : List Act) :
    Prop where
  chunk : ∃ chunk, (chunksFrom .socket trace).head? = some chunk ∧ ¬Passes m node tm chunk.length
  unserved : (∃ frame, .failureFrame frame ∈ trace) ∨ ∀ a ∈ trace, a.isConnect = false

def Handled (m : Message) (node : StorageElement) (tm : Klog.Tm) :
    Phase → SubversionSession → List Act → Prop
  | .greeting _ _, s, trace => Unread s trace
  | .handshake moved _, s, trace =>
    Unread s trace ∧ (s.mem.get .cltBuffer).take moved.length = moved
  | .connecting _ _ _, s, trace => Kept m node tm s trace []
  | .backendGreeting _ _, s, trace => Kept m node tm s trace []
  | .forwarding size moved _, s, trace => size = s.handshakeSize ∧ Kept m node tm s trace moved
  | .relay _, _, trace => ∃ pre post, Linked m node tm trace pre post
  | .failing _ _ _, _, trace => Stopped m node tm trace
  | .ended, _, trace => Stopped m node tm trace

section Append

variable {m : Message} {node : StorageElement} {tm : Klog.Tm} {s t : SubversionSession}
  {trace acts : List Act} {moved : Bytes}

theorem Unread.append (h : Unread s trace) (hhds : t.hds = s.hds)
    (hchunks : chunksFrom .socket acts = []) (hsent : sentOn .backend acts = [])
    (hquiet : ∀ a ∈ acts, a.isFailure = false ∧ a.isConnect = false) :
    Unread t (trace ++ acts) where
  hds := hhds ▸ h.hds
  chunks := by rw [chunksFrom_append, h.chunks, hchunks, List.append_nil]
  sent := by rw [sentOn_append, h.sent, hsent, List.append_nil]
  quiet := fun a ha => (List.mem_append.mp ha).elim (h.quiet a) (hquiet a)

theorem Led.append (h : Led node trace)
    (hquiet : ∀ a ∈ acts, a.isFailure = false ∧ a.isConnect = false) : Led node (trace ++ acts) where
  accepted := fun a ha => (List.mem_append.mp ha).elim (h.accepted a) fun ha => (hquiet a ha).1
  connects := List.mem_append_left _ h.connects
  only := by
    intro a ha hconnect
    rcases List.mem_append.mp ha with ha | ha
    · exact h.only a ha hconnect
    · simp [(hquiet a ha).2] at hconnect

theorem Kept.append (h : Kept m node tm s trace moved)
    (hmem : t.mem.get .cltBuffer = s.mem.get .cltBuffer) (hsize : t.handshakeSize = s.handshakeSize)
    (hquiet : ∀ a ∈ acts, a.isFailure = false ∧ a.isConnect = false)
    (hchunks : chunksFrom .socket acts = []) (hsent : sentOn .backend acts = []) :
    Kept m node tm t (trace ++ acts) moved where
  led := h.led.append hquiet
  safe := by
    rw [chunksFrom_append, hchunks, List.append_nil, hmem, hsize]
    exact h.safe
  sent := by rw [sentOn_append, hsent, List.append_nil, h.sent]
  begun := by
    rw [gotFrom_append]
    exact h.begun.trans (List.prefix_append _ _)

theorem Linked.append {pre post : List Act} (h : Linked m node tm trace pre post)
    (hquiet : ∀ a ∈ acts, a.isFailure = false ∧ a.isConnect = false) :
    Linked m node tm (trace ++ acts) pre (post ++ acts) where
  led := h.led.append hquiet
  split := by rw [h.split, List.append_assoc, List.cons_append]
  first := h.first
  safe := h.safe
  forwarded := h.forwarded

theorem Stopped.append (h : Stopped m node tm trace) (hquiet : ∀ a ∈ acts, a.isConnect = false) :
    Stopped m node tm (trace ++ acts) where
  chunk := by
    obtain ⟨chunk, hchunk, hunsafe⟩ := h.chunk
    refine ⟨chunk, ?_, hunsafe⟩
    rw [chunksFrom_append, List.head?_append, hchunk]
    rfl
  unserved := by
    cases h.unserved with
    | inl hframe =>
      obtain ⟨frame, hframe⟩ := hframe
      exact .inl ⟨frame, List.mem_append_left _ hframe⟩
    | inr hnone =>
      right
      intro a ha
      exact (List.mem_append.mp ha).elim (hnone a) (hquiet a)

end Append

/-! ## The first chunk -/

/-- The reads from the client have returned something each, and bytes of the message only. -/
def Sends (m : Message) (trace : List Act) : Prop :=
  gotFrom .socket trace <+: m.text ∧ [] ∉ chunksFrom .socket trace

instance (m : Message) (trace : List Act) : Decidable (Sends m trace) :=
  inferInstanceAs (Decidable (_ ∧ _))

theorem Sends.shorten {m : Message} {trace trace' : List Act} (h : Sends m trace')
    (hpre : trace <+: trace') : Sends m trace := by
  obtain ⟨acts, rfl⟩ := hpre
  rw [Sends, gotFrom_append, chunksFrom_append, List.mem_append, not_or] at h
  exact ⟨(List.prefix_append _ _).trans h.1, h.2.1⟩

section First

variable {env : Env} {m : Message} {node : StorageElement} {tm : Klog.Tm}
  {s : SubversionSession} {trace : List Act} {moved : Bytes}

theorem parse_first (haddr : env.cltAddr ≠ 0) (hsize : m.text.length ≤ kDefaultBufferSize)
    (h : Unread s trace) (hheld : (s.mem.get .cltBuffer).take moved.length = moved)
    (hsends : Sends m (trace ++ [.got .socket moved])) :
    CutOutcome m moved.length (parseSubversionHds (s.handshake env moved.length) s.hds) := by
  obtain ⟨protocol, hfresh⟩ := h.hds
  obtain ⟨hpre, hne⟩ := hsends
  have hgot : gotFrom .socket (trace ++ [.got .socket moved]) = moved := by
    rw [gotFrom_eq_flatten, chunksFrom_append, h.chunks]
    simp
  rw [hgot] at hpre
  have hmoved : moved ≠ [] := by
    rintro rfl
    simp at hne
  have hbytes : (s.handshake env moved.length).bytes = moved := hheld
  have hcut := parse_prefix m (s.handshake env moved.length) protocol haddr (by rwa [hbytes])
    (by rwa [hbytes]) (by unfold kDefaultBufferSize at hsize; omega)
  rwa [hbytes, ← hfresh] at hcut

/-- A routable URL is routed, whatever the session had for its node. -/
theorem Routable.authorised {b : Hds.Buffer} {hds hds' : SubversionHds}
    (hroute : Routable env hds'.subversionURL node) (hparse : parseSubversionHds b hds = .ret 0 hds')
    (old : StorageElement) : Authorised env b hds hds' old node := by
  obtain ⟨svnurl, old', hcanonical, hnode⟩ := hroute.route
  exact ⟨⟨hparse, ⟨svnurl, hcanonical, getAddress_of_true hnode old⟩, hroute.address⟩,
    hroute.parsable⟩

theorem routed_unique {b : Hds.Buffer} {hds hds' : SubversionHds} {old node' : StorageElement}
    (hauth : Authorised env b hds hds' old node') (hroute : Routable env hds'.subversionURL node) :
    node' = node := by
  obtain ⟨svnurl, hcanonical, hnode'⟩ := hauth.canonical
  obtain ⟨svnurl', old', hcanonical', hnode⟩ := hroute.route
  rw [hcanonical] at hcanonical'
  obtain rfl := (Prod.mk.inj hcanonical').2
  have hsame := (getAddress_of_true hnode' old').symm.trans hnode
  exact (Prod.mk.inj hsame).2

theorem kept_routed {b : Bytes} {hds : SubversionHds} {call : Klog.Call} (h : Unread s trace)
    (hheld : (s.mem.get .cltBuffer).take moved.length = moved)
    (hpasses : Passes m node tm moved.length) :
    Kept m node tm { s.reads moved.length hds with node } (trace ++ [.got .socket moved,
      .parsed b 0 hds, .logged call, .startConnect node.address node.port]) [] where
  led := by
    constructor
    · intro a ha
      rcases List.mem_append.mp ha with ha | ha
      · exact (h.quiet a ha).1
      · simp only [List.mem_cons, List.not_mem_nil, or_false] at ha
        rcases ha with rfl | rfl | rfl | rfl <;> rfl
    · simp
    · intro a ha hconnect
      rcases List.mem_append.mp ha with ha | ha
      · simp [(h.quiet a ha).2] at hconnect
      · simp only [List.mem_cons, List.not_mem_nil, or_false] at ha
        rcases ha with rfl | rfl | rfl | rfl
        · cases hconnect
        · cases hconnect
        · cases hconnect
        · rfl
  safe := ⟨moved, by simp [h.chunks], hpasses, hheld.symm⟩
  sent := by simp [h.sent]
  begun := List.nil_prefix

theorem stopped_overran (h : Unread s trace) (hnot : ¬Passes m node tm moved.length) :
    Stopped m node tm (trace ++ [.got .socket moved, .overran]) where
  chunk := ⟨moved, by simp [h.chunks], hnot⟩
  unserved := by
    right
    intro a ha
    cases List.mem_append.mp ha with
    | inl hold => exact (h.quiet a hold).2
    | inr hnew =>
      simp only [List.mem_cons, List.not_mem_nil, or_false] at hnew
      rcases hnew with rfl | rfl <;> rfl

theorem handled_read {c : Bool} {now : Now} {q : Phase} {t : SubversionSession} {acts : List Act}
    (haddr : env.cltAddr ≠ 0) (hsize : m.text.length ≤ kDefaultBufferSize)
    (hroute : Routable env m.response.url node) (h : Unread s trace)
    (hheld : (s.mem.get .cltBuffer).take moved.length = moved) (htm : now.tm = tm)
    (hmove : Move env (.handshake moved c) s (.complete 0 0 now) q t acts)
    (hsends : Sends m (trace ++ acts)) : Handled m node tm q t (trace ++ acts) := by
  have hcut : Sends m (trace ++ [.got .socket moved]) →
      CutOutcome m moved.length (parseSubversionHds (s.handshake env moved.length) s.hds) :=
    parse_first haddr hsize h hheld
  -- a message that the parser accepts is authorised, and has the URL of `m`
  have haccepted : ∀ {hds}, Sends m (trace ++ [.got .socket moved]) →
      parseSubversionHds (s.handshake env moved.length) s.hds = .ret 0 hds →
      m.SafeCut moved.length ∧ hds.subversionURL = m.response.url ∧
        Authorised env (s.handshake env moved.length) s.hds hds s.node node := by
    intro hds hsends' hparse
    have hcut' := hcut hsends'
    rw [hparse] at hcut'
    have hsafe : m.SafeCut moved.length := by
      by_contra hunsafe
      obtain ⟨hds', hret⟩ := hcut'.refused hunsafe
      cases hret
    obtain ⟨hds', hret, hurl⟩ := hcut'.accepted hsafe
    cases hret
    exact ⟨hsafe, hurl, (hurl ▸ hroute).authorised hparse s.node⟩
  subst htm
  cases hmove with
  | handshakeFailed call he => exact absurd rfl he
  | threw hparse =>
    have hcut' := hcut (hsends.shorten (by simp))
    rw [hparse] at hcut'
    by_cases hsafe : m.SafeCut moved.length
    · obtain ⟨hds, hret, -⟩ := hcut'.accepted hsafe
      cases hret
    · obtain ⟨hds, hret⟩ := hcut'.refused hsafe
      cases hret
  | overran hparse hover =>
    obtain ⟨-, hurl, hauth⟩ := haccepted (hsends.shorten (by simp)) hparse
    refine stopped_overran h fun hpasses => ?_
    have hrecord := (Klog.storage_isSome_iff now.tm node.address m.response.url).mpr hpasses.2
    rw [← hurl, hover node hauth.toRouted] at hrecord
    cases hrecord
  | @refused _ _ _ _ code hds node' eid msg calls hparse hreply hnot =>
    have hcut' := hcut (hsends.shorten (by simp))
    refine ⟨⟨moved, by simp [h.chunks], fun hpasses => ?_⟩, .inl ?_⟩
    · obtain ⟨hds', hret, hurl⟩ := hcut'.accepted hpasses.1
      rw [hparse] at hret
      cases hret
      exact hnot node ((hurl ▸ hroute).authorised hparse s.node)
    · refine ⟨SubversionSession.failureText eid msg.length msg, ?_⟩
      simp [SubversionSession.refusal]
  | @routed _ _ _ _ hds node' record hauth hrecord =>
    obtain ⟨hsafe, hurl, -⟩ := haccepted (hsends.shorten (by simp)) hauth.parsed
    obtain rfl : node' = node := routed_unique hauth (hurl ▸ hroute)
    rw [hurl] at hrecord
    have hfits := (Klog.storage_isSome_iff now.tm node'.address m.response.url).mp
      (Option.isSome_of_eq_some hrecord)
    exact kept_routed h hheld ⟨hsafe, hfits⟩

end First

/-! ## Every step -/

section Moves

variable {env : Env} {m : Message} {node : StorageElement} {tm : Klog.Tm} {p q : Phase}
  {s t : SubversionSession} {trace acts : List Act} {moved : Bytes}

theorem Handled.reuseStack (h : Handled m node tm p s trace) (data : Bytes) :
    Handled m node tm p (s.stores .mbuffer data) (trace ++ [.stored .mbuffer]) := by
  have hquiet : ∀ a ∈ [Act.stored .mbuffer], a.isFailure = false ∧ a.isConnect = false := by
    simp [Act.isFailure, Act.isConnect]
  cases p with
  | greeting moved c => exact Unread.append h rfl rfl rfl hquiet
  | handshake moved c => exact ⟨h.1.append rfl rfl rfl hquiet, h.2⟩
  | connecting address port c | backendGreeting moved c =>
    exact Kept.append h rfl rfl hquiet rfl rfl
  | forwarding size moved c => exact ⟨h.1, h.2.append rfl rfl hquiet rfl rfl⟩
  | relay held =>
    obtain ⟨pre, post, hlinked⟩ := h
    exact ⟨pre, _, hlinked.append hquiet⟩
  | failing size moved c | ended => exact Stopped.append h fun a ha => (hquiet a ha).2

theorem Kept.transmit (h : Kept m node tm s trace []) {n : Nat} (hn : n ≤ s.handshakeSize) :
    Kept m node tm s (trace ++ [.sent .backend (s.next .cltBuffer [] n)])
      (s.next .cltBuffer [] n) := by
  obtain ⟨chunk, hchunks, hsafe, hchunk⟩ := h.safe
  constructor
  · apply h.led.append
    simp [Act.isFailure, Act.isConnect]
  · exact ⟨chunk, by simp [hchunks], hsafe, hchunk⟩
  · simp [h.sent]
  · rw [gotFrom_append, gotFrom_eq_flatten, hchunks, hchunk]
    simpa [SubversionSession.next] using List.take_prefix_take_left hn

theorem Kept.linked (h : Kept m node tm s trace moved) (hmoved : moved.length = s.handshakeSize)
    (hnot : .startRelay ∉ trace) :
    Linked m node tm (trace ++ [.wrote .backend 0, .startRelay, .startRead .backend .buffer,
        .startRead .socket .cltBuffer]) (trace ++ [.wrote .backend 0])
      [.startRead .backend .buffer, .startRead .socket .cltBuffer] := by
  obtain ⟨chunk, hchunks, hsafe, hchunk⟩ := h.safe
  have hgot : gotFrom .socket trace = chunk := by
    rw [gotFrom_eq_flatten, hchunks]
    simp
  have hall : moved = chunk := by
    rw [← hgot]
    apply h.begun.eq_of_length_le
    rw [hgot, hmoved, hchunk]
    exact List.length_take_le _ _
  constructor
  · apply h.led.append
    simp [Act.isFailure, Act.isConnect]
  · simp
  · simp [hnot]
  · exact ⟨chunk, by simp [hchunks], hsafe⟩
  · simp [h.sent, hgot, hall]

theorem Handled.lane {held held' : Lane → Option LaneOp}
    (h : Handled m node tm (.relay held) s trace)
    (hquiet : ∀ a ∈ acts, a.isFailure = false ∧ a.isConnect = false) :
    Handled m node tm (.relay held') t (trace ++ acts) := by
  obtain ⟨pre, post, hlinked⟩ := h
  exact ⟨pre, _, hlinked.append hquiet⟩

theorem Handled.move {e : Event} (haddr : env.cltAddr ≠ 0)
    (hsize : m.text.length ≤ kDefaultBufferSize) (hroute : Routable env m.response.url node)
    (h : Handled m node tm p s trace) (hnot : p.isRelay = false → .startRelay ∉ trace)
    (hC : Smooth (p.state s trace) e) (hat : ReadAt tm (p.state s trace) e)
    (hmove : Move env p s e q t acts) (hsends : Sends m (trace ++ acts)) :
    Handled m node tm q t (trace ++ acts) := by
  cases hmove with
  | reuseStack data => exact h.reuseStack data
  | transmitGreeting hn =>
    apply Unread.append h rfl rfl rfl
    simp [Act.isFailure, Act.isConnect]
  | greeted =>
    refine ⟨Unread.append h rfl rfl rfl ?_, rfl⟩
    simp [Act.isFailure, Act.isConnect]
  | fillHandshake hdata =>
    refine ⟨h.1.append rfl rfl rfl ?_, take_get_store (b := .cltBuffer) hdata s.mem⟩
    simp [Act.isFailure, Act.isConnect]
  | @threw _ _ c _ _ hparse =>
    exact handled_read haddr hsize hroute h.1 h.2 (hat _ rfl rfl) (.threw (c := c) hparse) hsends
  | @overran _ _ c _ _ hparse hover =>
    exact handled_read haddr hsize hroute h.1 h.2 (hat _ rfl rfl) (.overran (c := c) hparse hover)
      hsends
  | @refused _ _ c _ _ _ _ _ _ calls hparse hreply hnot' =>
    exact handled_read haddr hsize hroute h.1 h.2 (hat _ rfl rfl)
      (.refused (c := c) calls hparse hreply hnot') hsends
  | @routed _ _ c _ _ _ _ hauth hrecord =>
    exact handled_read haddr hsize hroute h.1 h.2 (hat _ rfl rfl) (.routed (c := c) hauth hrecord)
      hsends
  | connected =>
    refine Kept.append h rfl rfl ?_ rfl rfl
    simp [Act.isFailure, Act.isConnect]
  | fillBackendGreeting hdata =>
    refine Kept.append h rfl rfl ?_ rfl rfl
    simp [Act.isFailure, Act.isConnect]
  | backendGreeted =>
    refine ⟨rfl, Kept.append h rfl rfl ?_ rfl rfl⟩
    simp [Act.isFailure, Act.isConnect]
  | transmitHandshake hn =>
    obtain ⟨hheld, hkept⟩ := h
    exact ⟨hheld, hkept.transmit (hheld ▸ hn)⟩
  | forwarded =>
    obtain ⟨hheld, hkept⟩ := h
    have hwhole := of_decide_eq_true ((hC (hnot rfl)).2 _ rfl rfl)
    exact ⟨_, _, hkept.linked (hwhole.trans hheld) (hnot rfl)⟩
  | greetingFailed he | handshakeFailed call he | connectFailed call he | connectOverran he
  | backendGreetingFailed call he | backendGreetingOverran he | forwardFailed call he
  | forwardOverran he => exact absurd (hC (hnot rfl)).1 he
  | fillLane lane hheld hdata | transmitLane lane hheld hn | laneRead lane hheld
  | laneReadFailed lane hheld he | laneWrote lane hheld hall | laneWriteFailed lane hheld he =>
    apply Handled.lane h
    simp [Act.isFailure, Act.isConnect]
  | transmitFailure hn | failureSent | failureFailed he =>
    apply Stopped.append h
    simp [Act.isConnect]

end Moves

/-! ## The outcome of a run -/

section Outcome

variable {m : Message} {node : StorageElement} {tm : Klog.Tm} {p : Phase}
  {s : SubversionSession} {trace : List Act} {moved : Bytes}

theorem Led.notMem_failureFrame (h : Led node trace) (frame : Bytes) :
    .failureFrame frame ∉ trace := by
  intro hmem
  have hnot := h.accepted _ hmem
  cases hnot

theorem Led.eq_of_startConnect (h : Led node trace) {address : Bytes} {port : UInt16}
    (hmem : .startConnect address port ∈ trace) : address = node.address ∧ port = node.port := by
  have heq := h.only _ hmem rfl
  cases heq
  exact ⟨rfl, rfl⟩

theorem Unread.served (h : Unread s trace) (hnot : .startRelay ∉ trace) :
    Served m node (p.state s trace) where
  accepted := fun frame hmem => Bool.noConfusion (h.quiet _ hmem).1
  connects := fun hne => absurd h.chunks hne
  only := fun address port hmem => Bool.noConfusion (h.quiet _ hmem).2
  forwards := by
    change sentOn .backend trace <+: m.text
    rw [h.sent]
    exact List.nil_prefix
  whole := fun hmem => absurd hmem hnot

theorem Kept.served (h : Kept m node tm s trace moved) (hsends : Sends m trace)
    (hnot : .startRelay ∉ trace) : Served m node (p.state s trace) where
  accepted := h.led.notMem_failureFrame
  connects := fun _ => h.led.connects
  only := fun _ _ => h.led.eq_of_startConnect
  forwards := by
    change sentOn .backend trace <+: m.text
    rw [h.sent]
    exact h.begun.trans hsends.1
  whole := fun hmem => absurd hmem hnot

theorem Linked.served {pre post : List Act} (h : Linked m node tm trace pre post)
    (hsends : Sends m trace)
    (hpre : sentOn .backend (sinceRelay trace) <+: gotFrom .socket (sinceRelay trace))
    (hall : Drained .downstream (p.state s trace) →
      sentOn .backend (sinceRelay trace) = gotFrom .socket (sinceRelay trace)) :
    Served m node (p.state s trace) := by
  have hsince : sinceRelay trace = post := by rw [h.split, sinceRelay_split h.first]
  have hsent : sentOn .backend trace = gotFrom .socket pre ++ sentOn .backend post := by
    rw [h.split]
    simp [h.forwarded]
  have hgot : gotFrom .socket trace = gotFrom .socket pre ++ gotFrom .socket post := by
    rw [h.split]
    simp
  rw [hsince] at hpre hall
  constructor
  · exact h.led.notMem_failureFrame
  · exact fun _ => h.led.connects
  · exact fun _ _ => h.led.eq_of_startConnect
  · change sentOn .backend trace <+: m.text
    refine List.IsPrefix.trans ?_ hsends.1
    rw [hsent, hgot]
    exact (List.prefix_append_right_inj _).mpr hpre
  · intro _ hdrained
    change sentOn .backend trace = gotFrom .socket trace
    rw [hsent, hgot, hall hdrained]

theorem Linked.head {pre post : List Act} (h : Linked m node tm trace pre post) :
    ∃ chunk, (chunksFrom .socket trace).head? = some chunk ∧ Passes m node tm chunk.length := by
  obtain ⟨chunk, hchunks, hpasses⟩ := h.safe
  refine ⟨chunk, ?_, hpasses⟩
  rw [h.split, chunksFrom_append, hchunks]
  rfl

/-- The session serves the client until the first chunk is read, and from then on if that chunk
passes. -/
structure ServedIff (m : Message) (node : StorageElement) (tm : Klog.Tm) (s : State) : Prop where
  unread : chunksFrom .socket s.trace = [] → Served m node s
  read : ∀ chunk, (chunksFrom .socket s.trace).head? = some chunk →
    (Served m node s ↔ Passes m node tm chunk.length)

theorem ServedIff.of_unread {s : State} (hserved : Served m node s)
    (hnone : chunksFrom .socket s.trace = []) : ServedIff m node tm s where
  unread := fun _ => hserved
  read := by
    rw [hnone]
    exact fun chunk h => nomatch h

theorem ServedIff.of_served {s : State} (hserved : Served m node s)
    (hhead : ∃ chunk, (chunksFrom .socket s.trace).head? = some chunk ∧
      Passes m node tm chunk.length) : ServedIff m node tm s where
  unread := fun _ => hserved
  read := by
    obtain ⟨chunk, hchunk, hpasses⟩ := hhead
    rw [hchunk]
    rintro _ ⟨⟩
    exact ⟨fun _ => hpasses, fun _ => hserved⟩

theorem ServedIff.of_stopped (h : Stopped m node tm trace) :
    ServedIff m node tm (p.state s trace) := by
  obtain ⟨⟨chunk, hchunk, hnot⟩, hunserved⟩ := h
  have hread : chunksFrom .socket (p.state s trace).trace ≠ [] := by
    intro hnone
    change chunksFrom .socket trace = [] at hnone
    rw [hnone] at hchunk
    cases hchunk
  constructor
  · intro hnone
    exact absurd hnone hread
  · change ∀ chunk, (chunksFrom .socket trace).head? = some chunk → _
    rw [hchunk]
    rintro _ ⟨⟩
    refine ⟨fun hserved => ?_, fun hpasses => absurd hpasses hnot⟩
    cases hunserved with
    | inl hframe =>
      obtain ⟨frame, hframe⟩ := hframe
      exact absurd hframe (hserved.accepted frame)
    | inr hnone => exact absurd (hnone _ (hserved.connects hread)) Bool.noConfusion

theorem Handled.servedIff (h : Handled m node tm p s trace)
    (hnot : p.isRelay = false → .startRelay ∉ trace) (hsends : Sends m trace)
    (hpre : sentOn .backend (sinceRelay trace) <+: gotFrom .socket (sinceRelay trace))
    (hall : Drained .downstream (p.state s trace) →
      sentOn .backend (sinceRelay trace) = gotFrom .socket (sinceRelay trace)) :
    ServedIff m node tm (p.state s trace) := by
  have hkept : ∀ {moved}, Kept m node tm s trace moved → p.isRelay = false →
      ServedIff m node tm (p.state s trace) := by
    intro moved hkept hp
    obtain ⟨chunk, hchunks, hsafe, -⟩ := hkept.safe
    exact .of_served (hkept.served hsends (hnot hp))
      ⟨chunk, (congrArg List.head? hchunks).trans rfl, hsafe⟩
  cases p with
  | greeting moved c => exact .of_unread (Unread.served h (hnot rfl)) h.chunks
  | handshake moved c => exact .of_unread (h.1.served (hnot rfl)) h.1.chunks
  | connecting address port c | backendGreeting moved c => exact hkept h rfl
  | forwarding size moved c => exact hkept h.2 rfl
  | relay held =>
    obtain ⟨pre, post, hlinked⟩ := h
    exact .of_served (hlinked.served hsends hpre hall) hlinked.head
  | failing size moved c | ended => exact .of_stopped h

end Outcome

theorem handled_of_run {env : Env} {m : Message} {node : StorageElement} {tm : Klog.Tm}
    (haddr : env.cltAddr ≠ 0) (hsize : m.text.length ≤ kDefaultBufferSize)
    (hroute : Routable env m.response.url node) {c : SubversionSession} {es : List Event}
    {s : State} (hc : Constructed c)
    (hrun : Transition.Run (fun a e b => step env a e = some b ∧ Smooth a e ∧ ReadAt tm a e)
      (.started c) es s) :
    ∃ p session trace, s = Phase.state p session trace ∧ Framed p trace ∧
      (Sends m trace → Handled m node tm p session trace) := by
  apply run_phase (C := fun a e => Smooth a e ∧ ReadAt tm a e)
    (I := fun p s trace => Framed p trace ∧ (Sends m trace → Handled m node tm p s trace)) hrun
  · refine ⟨.greeting [] false, _, _, rfl, ⟨Nat.le_refl 0, fun _ => ?_⟩, fun _ => ?_⟩
    · simp [SubversionSession.start, SubversionSession.asyncWriteSome]
    · refine ⟨hc.hds, rfl, rfl, ?_⟩
      simp [SubversionSession.start, SubversionSession.asyncWriteSome, Act.isFailure,
        Act.isConnect]
  · intro p s e q t acts trace hI hC hmove
    obtain ⟨hframed, hhandled⟩ := hI
    refine ⟨hframed.move hmove, fun hsends => ?_⟩
    have hbefore := hhandled (hsends.shorten (List.prefix_append trace acts))
    exact hbefore.move haddr hsize hroute hframed.relay hC.1 hC.2 hmove hsends

/-- Whatever the segmentation, a message is served if the first read returns a part of it
that the parser takes for complete and the access record of its URL fits, and not otherwise. A read
of the whole message is such a part. -/
theorem segmentation_iff (env : Env) (m : Message) (node : StorageElement)
    (haddr : env.cltAddr ≠ 0) (hsize : m.text.length ≤ kDefaultBufferSize)
    (hroute : Routable env m.response.url node) :
    m.SafeCut m.text.length ∧ ∀ tm c es s, Constructed c →
      Transition.Run (fun a e b => step env a e = some b ∧ Smooth a e ∧ ReadAt tm a e)
        (.started c) es s →
      Sends m s.trace → (chunksFrom .socket s.trace = [] → Served m node s) ∧
      ∀ chunk, (chunksFrom .socket s.trace).head? = some chunk →
        (Served m node s ↔
          m.SafeCut chunk.length ∧ Klog.StorageFits tm node.address m.response.url) := by
  refine ⟨m.safeCut_whole, fun tm c es s hc hrun hsends => ?_⟩
  have hreach : Reachable env s := ⟨_, es, ⟨c, hc, rfl⟩, hrun.mono fun hstep => hstep.1⟩
  obtain ⟨hpre, hall⟩ := delivered_of_reachable hreach .downstream
  obtain ⟨p, session, trace, rfl, hframed, hhandled⟩ := handled_of_run haddr hsize hroute hc hrun
  have hiff := (hhandled hsends).servedIff hframed.relay hsends hpre hall
  exact ⟨hiff.unread, hiff.read⟩

/-! ## Two ways of cutting "( 2 ( a ) 10:svn://h/ab 1:r ( ) ) " -/

theorem two_lt_ten : 2 < 10 := by decide

theorem sampleUrl_ne : ascii "svn://h/ab" ≠ [] := by decide

theorem no_client_nul (ra client : Bytes) (h : some (ascii "r", none) = some (ra, some client)) :
    0 ∉ client := by
  cases h

def sampleResponse : Response where
  version := ⟨2, two_lt_ten⟩
  capabilities := [ascii "a"]
  url := ascii "svn://h/ab"
  agent := some (ascii "r", none)
  url_ne := sampleUrl_ne
  client_nul := no_client_nul

theorem one_numeral : IsNumeral (ascii "1") (ascii "r").length := by decide

theorem ten_numeral : IsNumeral (ascii "10") sampleResponse.url.length := by decide

theorem empty_list_text : RaSvn.Text (.list []) (ascii "( ) ") := RaSvn.text_list .nil

theorem sampleCaps_text : RaSvn.Text (.list (sampleResponse.capabilities.map .word)) (ascii "( a ) ") :=
  RaSvn.text_list (.cons (RaSvn.text_word (ascii "a") (by decide)) .nil)

def sampleMessage : Message where
  response := sampleResponse
  lead := [space]
  afterVersion := [space]
  caps := ascii "( a ) "
  digits := ascii "10"
  sep := [space]
  agent := .some (ascii "1") [space] (ascii "( ) ") one_numeral RaSvn.isSeparator_space
    empty_list_text
  trail := [space]
  lead_sep := RaSvn.isSeparator_space
  afterVersion_sep := RaSvn.isSeparator_space
  caps_text := sampleCaps_text
  digits_numeral := ten_numeral
  sep_sep := RaSvn.isSeparator_space
  trail_sep := RaSvn.isSeparator_space

def sampleNode : StorageElement := ⟨3690, ascii "10.0.0.1"⟩

theorem routable_sample : Routable sampleEnv sampleMessage.response.url sampleNode where
  route := ⟨(subversionUriCanonicalize (ascii "svn://h/ab") (.fresh 0)).2, ⟨0, []⟩,
    by decide, by decide⟩
  address := by decide
  parsable := rfl

/-- The first read returns `k` bytes of the message, a read in the relay the others. -/
def handshakeEvents (k : Nat) : List Event :=
  [.transmit 0 greeting.length, done 0, .fill 0 (sampleMessage.text.take k),
    done 0, done 0, .fill 0 (ascii "( ) "), done 0,
    .transmit 0 k, done 0,
    .fill 1 (sampleMessage.text.drop k), done 1]

set_option maxRecDepth 10000 in
theorem handshakeEvents_smooth :
    (Transition.exec (Transition.guarded (step sampleEnv)
      fun s e => Smooth s e ∧ ReadAt Klog.sampleTm s e) (.started sampleSession)
      (handshakeEvents 24)).isSome := by decide +kernel

/-- The message has been read, cut behind its URL. -/
def cutBehindUrl : State := Option.get _ handshakeEvents_smooth

set_option maxRecDepth 10000 in
theorem segmentation_iff_sample : Served sampleMessage sampleNode cutBehindUrl :=
  (((segmentation_iff sampleEnv sampleMessage sampleNode (by decide +kernel) (by decide +kernel)
    routable_sample).2 Klog.sampleTm sampleSession (handshakeEvents 24) cutBehindUrl ⟨rfl, 0, rfl⟩
    (Transition.run_of_guarded (Option.some_get handshakeEvents_smooth).symm) (by decide +kernel)).2
    (sampleMessage.text.take 24) (by decide +kernel)).mpr (by decide +kernel)

set_option maxRecDepth 10000 in
theorem cutInUrl_smooth :
    (Transition.exec (Transition.guarded (step sampleEnv)
      fun s e => Smooth s e ∧ ReadAt Klog.sampleTm s e) (.started sampleSession)
      ((handshakeEvents 20).take 4)).isSome := by decide +kernel

/-- A client whose URL is cut is refused, though nothing fails. -/
theorem handshake_cut_refused : Routable sampleEnv sampleMessage.response.url sampleNode ∧
    ∃ es s, Constructed sampleSession ∧
      Transition.Run (fun a e b => step sampleEnv a e = some b ∧ Smooth a e ∧
        ReadAt Klog.sampleTm a e) (.started sampleSession) es s ∧ Sends sampleMessage s.trace ∧
      s.trace.any Act.isFailure = true ∧ s.trace.any Act.isConnect = false := by
  refine ⟨routable_sample, _, Option.get _ cutInUrl_smooth, ⟨rfl, 0, rfl⟩,
    Transition.run_of_guarded (Option.some_get cutInUrl_smooth).symm, ?_⟩
  decide

end Svnsrv.Proxy
