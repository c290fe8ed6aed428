import Svnsrv.Lib.Pump
import Svnsrv.SessionRoute

/-!
# The relay

Each lane of the relay is a pump between its sockets: the array of the lane holds
what the pump has taken and not given yet. The lanes share the session, its trace
and `cancel()`, but none of their bytes.
-/

namespace Svnsrv.Proxy

open CText Hds Router
set_option autoImplicit false

/-- The bytes delivered to the peer of a socket. -/
def sentOn (sock : Sock) (trace : List Act) : Bytes :=
  trace.flatMap fun
    | .sent k bytes => if k = sock then bytes else []
    | _ => []

/-- The chunks read from the peer of a socket, in order. -/
def gotFrom (sock : Sock) (trace : List Act) : Bytes :=
  trace.flatMap fun
    | .got k bytes => if k = sock then bytes else []
    | _ => []

@[simp] theorem sentOn_append (sock : Sock) (t u : List Act) :
    sentOn sock (t ++ u) = sentOn sock t ++ sentOn sock u := List.flatMap_append

@[simp] theorem gotFrom_append (sock : Sock) (t u : List Act) :
    gotFrom sock (t ++ u) = gotFrom sock t ++ gotFrom sock u := List.flatMap_append

@[simp] theorem sentOn_nil (sock : Sock) : sentOn sock [] = [] := rfl

@[simp] theorem gotFrom_nil (sock : Sock) : gotFrom sock [] = [] := rfl

@[simp] theorem sentOn_cons (sock : Sock) (a : Act) (t : List Act) :
    sentOn sock (a :: t) = (match a with
      | .sent k bytes => if k = sock then bytes else []
      | _ => []) ++ sentOn sock t := List.flatMap_cons

@[simp] theorem gotFrom_cons (sock : Sock) (a : Act) (t : List Act) :
    gotFrom sock (a :: t) = (match a with
      | .got k bytes => if k = sock then bytes else []
      | _ => []) ++ gotFrom sock t := List.flatMap_cons

@[simp] theorem sentOn_refusal (sock : Sock) (s : SubversionSession) (eid : Nat) (msg : Bytes) :
    sentOn sock (s.refusal eid msg) = [] := rfl

@[simp] theorem gotFrom_refusal (sock : Sock) (s : SubversionSession) (eid : Nat) (msg : Bytes) :
    gotFrom sock (s.refusal eid msg) = [] := rfl

@[simp] theorem sentOn_logged (sock : Sock) (calls : List Klog.Call) :
    sentOn sock (calls.map .logged) = [] := by
  simp [sentOn, List.flatMap_map]

@[simp] theorem gotFrom_logged (sock : Sock) (calls : List Klog.Call) :
    gotFrom sock (calls.map .logged) = [] := by
  simp [gotFrom, List.flatMap_map]

/-- What a session has done since both lanes were started. -/
def sinceRelay (trace : List Act) : List Act :=
  (trace.dropWhile fun a => decide (a ≠ .startRelay)).drop 1

theorem sinceRelay_of_notMem {trace : List Act} (h : .startRelay ∉ trace) :
    sinceRelay trace = [] := by
  have hdrop : (trace.dropWhile fun a => decide (a ≠ .startRelay)) = [] := by
    rw [List.dropWhile_eq_nil_iff]
    intro a ha
    exact decide_eq_true fun h' => h (h' ▸ ha)
  rw [sinceRelay, hdrop, List.drop_nil]

theorem sinceRelay_split {pre : List Act} (h : .startRelay ∉ pre) (post : List Act) :
    sinceRelay (pre ++ .startRelay :: post) = post := by
  induction pre with
  | nil => simp [sinceRelay]
  | cons a pre ih =>
    obtain ⟨ha, hpre⟩ := List.ne_and_not_mem_of_not_mem_cons h
    have := ih hpre
    simpa [sinceRelay, List.dropWhile_cons, Ne.symm ha] using this

/-! ## Lanes are pumps -/

/-- An act that moves bytes of a lane. -/
def Lane.Concerns (lane : Lane) : Act → Prop
  | .sent sock _ => sock = lane.dst
  | .wrote sock _ => sock = lane.dst
  | .got sock _ => sock = lane.src
  | _ => False

/-- A write of the lane has failed. -/
def Lane.Failed (lane : Lane) (acts : List Act) : Prop := ∃ e, e ≠ 0 ∧ .wrote lane.dst e ∈ acts

/-- The pump that a lane with outstanding operation `x` has been since `acts` began. -/
structure Lane.Pumps (lane : Lane) (s : SubversionSession) (x : Option LaneOp) (acts : List Act)
    (p : Pump UInt8) : Prop where
  taken : p.taken = gotFrom lane.src acts
  given : p.given = sentOn lane.dst acts
  pending : match x with
    | some (.reading moved _) => p.pending = [] ∧ (s.mem.get lane.buf).take moved.length = moved
    | some (.writing size moved _) =>
      p.pending = ((s.mem.get lane.buf).take size).drop moved.length ∧
        size ≤ (s.mem.get lane.buf).length
    | none => p.pending = [] ∨ lane.Failed acts

theorem sentOn_of_not_concerns {lane : Lane} {acts : List Act}
    (h : ∀ a ∈ acts, ¬lane.Concerns a) : sentOn lane.dst acts = [] := by
  rw [sentOn, List.flatMap_eq_nil_iff]
  intro a ha
  cases a with
  | sent sock bytes => exact if_neg (h _ ha)
  | _ => rfl

theorem gotFrom_of_not_concerns {lane : Lane} {acts : List Act}
    (h : ∀ a ∈ acts, ¬lane.Concerns a) : gotFrom lane.src acts = [] := by
  rw [gotFrom, List.flatMap_eq_nil_iff]
  intro a ha
  cases a with
  | got sock bytes => exact if_neg (h _ ha)
  | _ => rfl

theorem Lane.Failed.append {lane : Lane} {acts : List Act} (h : lane.Failed acts)
    (more : List Act) : lane.Failed (acts ++ more) := by
  obtain ⟨e, he, hmem⟩ := h
  exact ⟨e, he, List.mem_append_left _ hmem⟩

namespace Lane.Pumps

variable {lane : Lane} {s t : SubversionSession} {x : Option LaneOp} {acts more : List Act}
  {p : Pump UInt8}

theorem frame (h : lane.Pumps s x acts p) (hmem : t.mem.get lane.buf = s.mem.get lane.buf)
    (hmore : ∀ a ∈ more, ¬lane.Concerns a) : lane.Pumps t x (acts ++ more) p where
  taken := by rw [gotFrom_append, gotFrom_of_not_concerns hmore, List.append_nil, h.taken]
  given := by rw [sentOn_append, sentOn_of_not_concerns hmore, List.append_nil, h.given]
  pending := by
    have hp := h.pending
    cases x with
    | none => exact hp.imp_right fun hf => hf.append more
    | some x =>
      cases x with
      | reading moved c => exact hmem ▸ hp
      | writing size moved c => exact hmem ▸ hp

theorem cancelOn (h : lane.Pumps s x acts p) (socks : List Sock) :
    lane.Pumps s (x.map (lane.cancelOn socks)) acts p where
  taken := h.taken
  given := h.given
  pending := by
    have hp := h.pending
    cases x with
    | none => exact hp
    | some x => cases x <;> exact hp

theorem fill {data : Bytes} (h : lane.Pumps s (some (.reading [] false)) acts p)
    (hdata : data.length ≤ lane.buf.size) :
    lane.Pumps (s.stores lane.buf data) (some (.reading data false))
      (acts ++ [.stored lane.buf]) p where
  taken := by simp [gotFrom, h.taken]
  given := by simp [sentOn, h.given]
  pending := ⟨h.pending.1, take_get_store hdata s.mem⟩

theorem read {moved : Bytes} {c : Bool} (h : lane.Pumps s (some (.reading moved c)) acts p)
    (bytes : Bytes) :
    lane.Pumps s (some (.writing moved.length [] false))
      (acts ++ [.got lane.src moved, .startWrite lane.dst bytes]) (p.take moved h.pending.1) where
  taken := by simp [gotFrom, Pump.take, h.taken]
  given := by simp [sentOn, Pump.take, h.given]
  pending := by
    have hchunk := h.pending.2
    refine ⟨hchunk.symm, ?_⟩
    have := congrArg List.length hchunk
    rw [List.length_take] at this
    omega

theorem transmit {size n : Nat} {moved : Bytes} {c : Bool}
    (h : lane.Pumps s (some (.writing size moved c)) acts p) (hn : moved.length + n ≤ size) :
    lane.Pumps s (some (.writing size (moved ++ s.next lane.buf moved n) c))
      (acts ++ [.sent lane.dst (s.next lane.buf moved n)]) (p.give n) := by
  obtain ⟨hpending, hsize⟩ := h.pending
  have hnext : p.pending.take n = s.next lane.buf moved n := by
    rw [hpending, List.drop_take, List.take_take, Nat.min_eq_left (by omega)]
    rfl
  have hlength : (s.next lane.buf moved n).length = n := by
    rw [SubversionSession.next, List.length_take, List.length_drop]
    omega
  refine ⟨?_, ?_, ?_, hsize⟩
  · simp [gotFrom, Pump.give, h.taken]
  · simp [sentOn, Pump.give, h.given, hnext]
  · change p.pending.drop n = _
    rw [hpending, List.drop_drop, List.length_append, hlength]

theorem wrote {size : Nat} {moved : Bytes} {c : Bool}
    (h : lane.Pumps s (some (.writing size moved c)) acts p) (hall : moved.length = size) :
    lane.Pumps s (some (.reading [] false))
      (acts ++ [.wrote lane.dst 0, .startRead lane.src lane.buf]) p where
  taken := by simp [gotFrom, h.taken]
  given := by simp [sentOn, h.given]
  pending := by
    refine ⟨h.pending.1.trans ?_, rfl⟩
    rw [List.drop_eq_nil_iff, List.length_take, hall]
    exact Nat.min_le_left _ _

theorem readFailed {moved : Bytes} {c : Bool}
    (h : lane.Pumps s (some (.reading moved c)) acts p) (sock : Sock) :
    lane.Pumps s none (acts ++ [.cancel sock]) p where
  taken := by simp [gotFrom, h.taken]
  given := by simp [sentOn, h.given]
  pending := .inl h.pending.1

theorem writeFailed {size : Nat} {moved : Bytes} {c : Bool} {e : ErrorCode}
    (h : lane.Pumps s (some (.writing size moved c)) acts p) (he : e ≠ 0) :
    lane.Pumps s none (acts ++ [.wrote lane.dst e]) p where
  taken := by simp [gotFrom, h.taken]
  given := by simp [sentOn, h.given]
  pending := .inr ⟨e, he, by simp⟩

/-- Everything taken has been given once no write is outstanding and none has failed. -/
theorem drained (h : lane.Pumps s x acts p) (hx : ∀ size moved c, x ≠ some (.writing size moved c))
    (hfailed : ¬lane.Failed acts) : p.pending = [] := by
  have hp := h.pending
  cases x with
  | none => exact hp.resolve_right hfailed
  | some x =>
    cases x with
    | reading moved c => exact hp.1
    | writing size moved c => exact absurd rfl (hx size moved c)

end Lane.Pumps

/-! ## Both lanes -/

/-- Since both lanes were started each of them has been a pump. -/
def Relaying : Phase → SubversionSession → List Act → Prop
  | .relay held, s, trace => ∃ pre post, trace = pre ++ .startRelay :: post ∧
      .startRelay ∉ pre ∧ ∀ lane : Lane, ∃ p, lane.Pumps s (held lane) post p
  | _, _, trace => .startRelay ∉ trace

theorem pumps_update {held : Lane → Option LaneOp} {s t : SubversionSession}
    {acts more : List Act} {lane : Lane} {y : Option LaneOp}
    (h : ∀ l : Lane, ∃ p, l.Pumps s (held l) acts p) (hlane : ∃ p, lane.Pumps t y (acts ++ more) p)
    (hmem : ∀ l : Lane, l ≠ lane → t.mem.get l.buf = s.mem.get l.buf)
    (hmore : ∀ l : Lane, l ≠ lane → ∀ a ∈ more, ¬l.Concerns a) :
    ∀ l : Lane, ∃ p, l.Pumps t (Function.update held lane y l) (acts ++ more) p := by
  intro l
  by_cases hl : l = lane
  · subst hl
    rwa [Function.update_self]
  · obtain ⟨p, hp⟩ := h l
    rw [Function.update_of_ne hl]
    exact ⟨p, hp.frame (hmem l hl) (hmore l hl)⟩

theorem ne_of_lane_ne {lane l : Lane} (h : l ≠ lane) :
    lane.dst ≠ l.dst ∧ lane.src ≠ l.src ∧ lane.buf ≠ l.buf :=
  ⟨fun he => h (Lane.eq_of_dst he.symm), fun he => h (Lane.eq_of_src he.symm),
    fun he => h (Lane.eq_of_buf he.symm)⟩

theorem Relaying.reuseStack {p : Phase} {s : SubversionSession} {trace : List Act}
    (h : Relaying p s trace) (data : Bytes) :
    Relaying p (s.stores .mbuffer data) (trace ++ [.stored .mbuffer]) := by
  cases p with
  | relay held =>
    obtain ⟨pre, post, rfl, hpre, hpumps⟩ := h
    refine ⟨pre, post ++ [.stored .mbuffer], by simp, hpre, fun lane => ?_⟩
    obtain ⟨p, hp⟩ := hpumps lane
    exact ⟨p, hp.frame (by cases lane <;> rfl) (by simp [Lane.Concerns])⟩
  | _ => simpa [Relaying] using h

theorem Relaying.outside {env : Env} {p q : Phase} {s t : SubversionSession} {e : Event}
    {trace acts : List Act} (h : .startRelay ∉ trace) (hmove : Move env p s e q t acts)
    (hq : q.isRelay = false) : Relaying q t (trace ++ acts) := by
  have hnot : .startRelay ∉ trace ++ acts := by
    rw [List.mem_append]
    exact fun hmem => hmem.elim h (hmove.isRelay hq).2
  cases q with
  | relay held => cases hq
  | _ => exact hnot

theorem relaying_forwarded {s : SubversionSession} {trace : List Act}
    (h : .startRelay ∉ trace) :
    Relaying (.relay fun _ => some (.reading [] false)) s (trace ++ [.wrote .backend 0, .startRelay,
      .startRead .backend .buffer, .startRead .socket .cltBuffer]) := by
  refine ⟨trace ++ [.wrote .backend 0],
    [.startRead .backend .buffer, .startRead .socket .cltBuffer], by simp, by simp [h], ?_⟩
  intro lane
  exact ⟨.start, rfl, rfl, rfl, rfl⟩

theorem Relaying.lane {held : Lane → Option LaneOp} {s t : SubversionSession}
    {trace acts : List Act} {lane : Lane} {x : LaneOp} {y : Option LaneOp}
    (h : Relaying (.relay held) s trace) (hheld : held lane = some x)
    (hlane : ∀ post p, lane.Pumps s (some x) post p → ∃ p, lane.Pumps t y (post ++ acts) p)
    (hmem : ∀ l : Lane, l ≠ lane → t.mem.get l.buf = s.mem.get l.buf)
    (hacts : ∀ l : Lane, l ≠ lane → ∀ a ∈ acts, ¬l.Concerns a) :
    Relaying (.relay (Function.update held lane y)) t (trace ++ acts) := by
  obtain ⟨pre, post, rfl, hpre, hpumps⟩ := h
  refine ⟨pre, post ++ acts, by simp, hpre, pumps_update hpumps ?_ hmem hacts⟩
  obtain ⟨p, hp⟩ := hpumps lane
  exact hlane post p (hheld ▸ hp)

theorem Relaying.cancelOn {held : Lane → Option LaneOp} {s : SubversionSession}
    {trace : List Act} (h : Relaying (.relay held) s trace) (socks : List Sock) :
    Relaying (.relay fun l => (held l).map (l.cancelOn socks)) s trace := by
  obtain ⟨pre, post, rfl, hpre, hpumps⟩ := h
  refine ⟨pre, post, rfl, hpre, fun lane => ?_⟩
  obtain ⟨p, hp⟩ := hpumps lane
  exact ⟨p, hp.cancelOn socks⟩

theorem Relaying.move {env : Env} {p q : Phase} {s t : SubversionSession} {e : Event}
    {trace acts : List Act} (h : Relaying p s trace) (hmove : Move env p s e q t acts) :
    Relaying q t (trace ++ acts) := by
  have houtside (hnot : .startRelay ∉ trace) := Relaying.outside hnot hmove
  cases hmove with
  | reuseStack data => exact h.reuseStack data
  | forwarded => exact relaying_forwarded h
  | fillLane lane hheld hdata =>
    apply h.lane hheld (fun post p hp => ⟨p, hp.fill hdata⟩)
    · intro l hl
      exact get_store_of_ne (ne_of_lane_ne hl).2.2 s.mem _
    · simp [Lane.Concerns]
  | transmitLane lane hheld hn =>
    apply h.lane hheld (fun post p hp => ⟨_, hp.transmit hn⟩) (fun _ _ => rfl)
    intro l hl
    simpa [Lane.Concerns] using (ne_of_lane_ne hl).1
  | laneRead lane hheld =>
    apply h.lane hheld (fun post p hp => ⟨_, hp.read _⟩) (fun _ _ => rfl)
    intro l hl
    simpa [Lane.Concerns] using (ne_of_lane_ne hl).2.1
  | laneReadFailed lane hheld he =>
    have hcancelled := h.cancelOn [lane.dst]
    apply hcancelled.lane (by rw [hheld]; rfl) (fun post p hp => ⟨p, hp.readFailed lane.dst⟩)
      (fun _ _ => rfl)
    simp [Lane.Concerns]
  | laneWrote lane hheld hall =>
    apply h.lane hheld (fun post p hp => ⟨p, hp.wrote hall⟩) (fun _ _ => rfl)
    intro l hl
    simpa [Lane.Concerns] using (ne_of_lane_ne hl).1
  | laneWriteFailed lane hheld he =>
    apply h.lane hheld (fun post p hp => ⟨p, hp.writeFailed he⟩) (fun _ _ => rfl)
    intro l hl
    simpa [Lane.Concerns] using (ne_of_lane_ne hl).1
  | _ => exact houtside h rfl

theorem Lane.op_mem_ops {held : Lane → Option LaneOp} {lane : Lane} {x : LaneOp}
    (h : held lane = some x) : lane.op x ∈ Lane.ops held := by
  apply List.mem_filterMap.mpr
  refine ⟨lane, ?_, by rw [h]; rfl⟩
  cases lane <;> simp [Lane.all]

theorem Relaying.transparent {p : Phase} {s : SubversionSession} {trace : List Act}
    (h : Relaying p s trace) (lane : Lane) :
    sentOn lane.dst (sinceRelay trace) <+: gotFrom lane.src (sinceRelay trace) ∧
    ((∀ op ∈ p.ops, op.writesTo ≠ some lane.dst) →
      (∀ e, .wrote lane.dst e ∈ sinceRelay trace → e = 0) →
      sentOn lane.dst (sinceRelay trace) = gotFrom lane.src (sinceRelay trace)) := by
  cases p with
  | relay held =>
    obtain ⟨pre, post, rfl, hpre, hpumps⟩ := h
    obtain ⟨pump, hp⟩ := hpumps lane
    rw [sinceRelay_split hpre, ← hp.taken, ← hp.given]
    refine ⟨pump.given_prefix, fun hops hwrote => Pump.given_eq_taken ?_⟩
    apply hp.drained
    · intro size moved c hx
      exact hops _ (Lane.op_mem_ops hx) rfl
    · rintro ⟨e, he, hmem⟩
      exact he (hwrote e hmem)
  | _ =>
    have hnone := sinceRelay_of_notMem h
    rw [hnone]
    exact ⟨List.prefix_rfl, fun _ _ => rfl⟩

theorem relaying_of_reachable {env : Env} {s : State} (h : Reachable env s) :
    ∃ p session trace, s = Phase.state p session trace ∧ Relaying p session trace := by
  apply reachable_phase (I := Relaying) h
  · exact fun c _ => by
      simp [Relaying, SubversionSession.start, SubversionSession.asyncWriteSome]
  · exact fun h hmove => h.move hmove

/-- In every run and in both directions the relay has delivered a prefix of what it has
read, and all of it when no write is outstanding and none has failed. -/
theorem relay_transparent (env : Env) (s : State) (h : Reachable env s) (lane : Lane) :
    sentOn lane.dst (sinceRelay s.trace) <+: gotFrom lane.src (sinceRelay s.trace) ∧
    ((∀ op ∈ s.ops, op.writesTo ≠ some lane.dst) →
      (∀ e, .wrote lane.dst e ∈ sinceRelay s.trace → e = 0) →
      sentOn lane.dst (sinceRelay s.trace) = gotFrom lane.src (sinceRelay s.trace)) := by
  obtain ⟨p, session, trace, rfl, hrelaying⟩ := relaying_of_reachable h
  exact hrelaying.transparent lane

theorem relay_transparent_sample :
    sentOn .backend (sinceRelay sampleRelay.trace) <+:
      gotFrom .socket (sinceRelay sampleRelay.trace) ∧
    ((∀ op ∈ sampleRelay.ops, op.writesTo ≠ some .backend) →
      (∀ e, .wrote .backend e ∈ sinceRelay sampleRelay.trace → e = 0) →
      sentOn .backend (sinceRelay sampleRelay.trace) =
        gotFrom .socket (sinceRelay sampleRelay.trace)) :=
  relay_transparent sampleEnv sampleRelay sampleRelay_reachable .downstream

end Svnsrv.Proxy
