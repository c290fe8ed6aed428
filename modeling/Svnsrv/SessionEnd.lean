import Svnsrv.SessionRelay

/-!
# The end of a session

A read handler that fails cancels what is outstanding on the opposite socket and
starts nothing. The other lane stops with it if the cancel meets its read while
no data has arrived; a write, or a read that already has data, goes on.
-/

namespace Svnsrv.Proxy

open CText Hds Router
set_option autoImplicit false

def Event.isComplete : Event → Bool
  | .complete _ _ _ => true
  | _ => false

def completions (es : List Event) : Nat := es.countP Event.isComplete

/-- From `s` on no read of `sock` is started, and nothing is outstanding any more once
what is outstanding in `s` has completed. -/
def WindsDown (env : Env) (sock : Sock) (s : State) : Prop :=
  ∀ es t, Transition.Run (fun a e b => step env a e = some b) s es t →
    (∃ acts, t.trace = s.trace ++ acts ∧ ∀ buf, .startRead sock buf ∉ acts) ∧
    (s.ops.length ≤ completions es → t.ops = [])

/-! ## A failed read -/

theorem complete_readFailed {env : Env} {held : Lane → Option LaneOp} {s : SubversionSession}
    {trace : List Act} {i : Nat} {e : ErrorCode} {now : Now} {lane : Lane} {moved : Bytes}
    {c : Bool} (hop : (Lane.ops held)[i]? = some (lane.op (.reading moved c))) (he : e ≠ 0) :
    step env ((Phase.relay held).state s trace) (.complete i e now) =
      some ((Phase.relay (Function.update (fun l => (held l).map (l.cancelOn [lane.dst])) lane
        none)).state s (trace ++ [.cancel lane.dst])) := by
  have hcall := lane.call_readHandler env now s e moved.length
  have hcancel : s.relayRead lane.dst lane.buf lane.writeHandler e moved.length =
      s.cancel lane.dst := if_neg he
  have hmay : (lane.op (.reading moved c)).mayComplete e = true := by
    simp [Lane.op, Op.mayComplete, he]
  have hops := Lane.replace_cancelOn hop [lane.dst] none
  rw [hcancel] at hcall
  have hstep : step env ((Phase.relay held).state s trace) (.complete i e now) =
      some (((Phase.relay held).state s trace).complete env i (lane.op (.reading moved c)) e
        now) := by
    change ((Lane.ops held)[i]?.bind _) = _
    rw [hop, Option.bind_some, if_pos hmay]
    rfl
  have hcall' : (lane.op (.reading moved c)).handler.call env now ((Phase.relay held).state s
      trace).session e (lane.op (.reading moved c)).moved.length = .ok (s.cancel lane.dst) := hcall
  rw [hstep, State.complete, hcall']
  simp only [Phase.state, SubversionSession.cancel, Phase.ops]
  rw [Lane.op, finished_readSome he]
  exact congrArg (fun ops => some (State.mk s ops _)) hops

theorem length_ops_update {held : Lane → Option LaneOp} {i : Nat} {lane : Lane} {x : LaneOp}
    (hop : (Lane.ops held)[i]? = some (lane.op x)) (socks : List Sock) :
    (Lane.ops (Function.update (fun l => (held l).map (l.cancelOn socks)) lane none)).length + 1 =
      (Lane.ops held).length := by
  rw [← Lane.replace_cancelOn hop socks none]
  have hi : i < (Lane.ops held).length := (List.getElem?_eq_some_iff.mp hop).1
  simp only [Slots.replace, Option.map_none, Option.toList_none, List.append_nil, List.length_append,
    List.length_take, List.length_drop, List.length_map]
  omega

/-! ## Cancelled reads only -/

/-- Nothing is outstanding but cancelled reads without data. -/
def Quiet (held : Lane → Option LaneOp) : Prop := ∀ lane x, held lane = some x → x = .reading [] true

theorem Quiet.readFailed {held : Lane → Option LaneOp} (h : Quiet held) (lane : Lane)
    (socks : List Sock) :
    Quiet (Function.update (fun l => (held l).map (l.cancelOn socks)) lane none) := by
  intro l x hx
  by_cases hl : l = lane
  · subst hl
    rw [Function.update_self] at hx
    cases hx
  · rw [Function.update_of_ne hl] at hx
    obtain ⟨y, hy, rfl⟩ := Option.map_eq_some_iff.mp hx
    rw [h l y hy]
    rfl

theorem Quiet.step {env : Env} {held : Lane → Option LaneOp} {s : SubversionSession}
    {trace : List Act} {e : Event} {t : State} (h : Quiet held)
    (hstep : step env ((Phase.relay held).state s trace) e = some t) :
    ∃ held' s' acts, t = (Phase.relay held').state s' (trace ++ acts) ∧ Quiet held' ∧
      (∀ sock buf, .startRead sock buf ∉ acts) ∧
      (Lane.ops held').length + completions [e] = (Lane.ops held).length := by
  have hget : ∀ {i : Nat} {op : Op}, (Lane.ops held)[i]? = some op →
      ∃ lane : Lane, op = lane.op (.reading [] true) := by
    intro i op hop
    obtain ⟨lane, x, hx, rfl, -⟩ := Lane.exists_of_getElem? hop
    exact ⟨lane, by rw [h lane x hx]⟩
  cases e with
  | reuseStack data =>
    obtain rfl := Option.some.inj hstep
    exact ⟨held, _, [.stored .mbuffer], rfl, h, by simp, rfl⟩
  | fill i data =>
    obtain ⟨op, hop, hstep⟩ := Option.bind_eq_some_iff.mp hstep
    obtain ⟨lane, rfl⟩ := hget hop
    obtain ⟨buf, hfill, -⟩ := Option.bind_eq_some_iff.mp hstep
    simp [Op.fill, Lane.op] at hfill
  | transmit i n =>
    obtain ⟨op, hop, hstep⟩ := Option.bind_eq_some_iff.mp hstep
    obtain ⟨lane, rfl⟩ := hget hop
    cases hstep
  | complete i e now =>
    obtain ⟨op, hop, hcomplete⟩ := Option.bind_eq_some_iff.mp hstep
    obtain ⟨lane, rfl⟩ := hget hop
    have he : e ≠ 0 := by
      rintro rfl
      cases hcomplete
    rw [complete_readFailed hop he] at hstep
    obtain rfl := Option.some.inj hstep
    exact ⟨_, s, _, rfl, h.readFailed lane _, by simp, length_ops_update hop _⟩

theorem Quiet.windsDown {env : Env} {held : Lane → Option LaneOp} {s : SubversionSession}
    {trace : List Act} (h : Quiet held) (sock : Sock) :
    WindsDown env sock ((Phase.relay held).state s trace) := by
  intro es t hrun
  have hquiet : ∃ held' s' acts, t = (Phase.relay held').state s' (trace ++ acts) ∧ Quiet held' ∧
      (∀ sock buf, .startRead sock buf ∉ acts) ∧
      (Lane.ops held').length + completions es = (Lane.ops held).length := by
    induction hrun with
    | refl => exact ⟨held, s, [], by simp, h, by simp, rfl⟩
    | @snoc t u es e _ hstep ih =>
      obtain ⟨held₁, s₁, acts₁, rfl, hquiet₁, hread₁, hcount₁⟩ := ih
      obtain ⟨held₂, s₂, acts₂, rfl, hquiet₂, hread₂, hcount₂⟩ := hquiet₁.step hstep
      refine ⟨held₂, s₂, acts₁ ++ acts₂, by rw [List.append_assoc], hquiet₂, ?_, ?_⟩
      · intro sock buf hmem
        rcases List.mem_append.mp hmem with hmem | hmem
        · exact hread₁ sock buf hmem
        · exact hread₂ sock buf hmem
      · rw [completions, List.countP_append]
        simp only [completions] at hcount₁ hcount₂ ⊢
        omega
  obtain ⟨held', s', acts, rfl, -, hread, hcount⟩ := hquiet
  refine ⟨⟨acts, rfl, fun buf => hread sock buf⟩, fun hall => ?_⟩
  have hlength : (Lane.ops held').length = 0 := by
    change (Lane.ops held).length ≤ _ at hall
    omega
  exact List.length_eq_zero_iff.mp hlength

/-! ## A lane that goes on -/

theorem Memory.length_get (m : Memory) (buf : Buf) : (m.get buf).length = buf.size := by
  cases buf
  · exact m.mbuffer.property
  · exact m.buffer.property
  · exact m.cltBuffer.property

def Lane.other : Lane → Lane
  | upstream => downstream
  | downstream => upstream

theorem Lane.other_src (lane : Lane) : lane.other.src = lane.dst := by cases lane <;> rfl

theorem Lane.eq_other {lane l : Lane} (h : l ≠ lane) : l = lane.other := by
  cases l <;> cases lane <;> first | rfl | exact absurd rfl h

theorem Lane.ops_of_none {held : Lane → Option LaneOp} {lane : Lane} (h : held lane = none) :
    Lane.ops held = ((held lane.other).map lane.other.op).toList := by
  cases lane
  · cases hother : held .downstream <;> simp [Lane.ops, Slots.pool, Lane.all, Lane.other, h, hother]
  · cases hother : held .upstream <;> simp [Lane.ops, Slots.pool, Lane.all, Lane.other, h, hother]

section Alone

variable (env : Env) (lane : Lane) (s : SubversionSession) (trace : List Act)

theorem step_transmit {size n : Nat} {moved : Bytes} {c : Bool} (h : moved.length + n ≤ size) :
    step env ⟨s, [lane.op (.writing size moved c)], trace⟩ (.transmit 0 n) =
      some ⟨s, [lane.op (.writing size (moved ++ s.next lane.buf moved n) c)],
        trace ++ [.sent lane.dst (s.next lane.buf moved n)]⟩ := by
  simp [step, Lane.op, Op.transmit, h, SubversionSession.next]

theorem step_wrote (now : Now) {size : Nat} {moved : Bytes} {c : Bool} (h : moved.length = size) :
    step env ⟨s, [lane.op (.writing size moved c)], trace⟩ (.complete 0 0 now) =
      some ⟨s, [lane.op (.reading [] false)],
        trace ++ [.wrote lane.dst 0, .startRead lane.src lane.buf]⟩ := by
  cases lane <;> simp [step, Lane.op, Op.mayComplete, h, State.complete, Lane.call_writeHandler,
    SubversionSession.relayWrite, SubversionSession.asyncReadSome, Op.finished]

theorem step_read (now : Now) {moved : Bytes} {c : Bool} (h : moved ≠ []) :
    step env ⟨s, [lane.op (.reading moved c)], trace⟩ (.complete 0 0 now) =
      some ⟨s, [lane.op (.writing moved.length [] false)], trace ++ [.got lane.src moved,
        .startWrite lane.dst ((s.mem.get lane.buf).take moved.length)]⟩ := by
  cases lane <;> simp [step, Lane.op, Op.mayComplete, h, State.complete, Lane.call_readHandler,
    SubversionSession.relayRead, SubversionSession.asyncWrite, Op.finished]

theorem writing_restarts (now : Now) {size : Nat} {moved : Bytes} {c : Bool}
    (hmoved : moved.length ≤ size) (hsize : size ≤ lane.buf.size) :
    ∃ es t acts, Transition.Run (fun a e b => step env a e = some b)
      ⟨s, [lane.op (.writing size moved c)], trace⟩ es t ∧
      t.trace = trace ++ acts ∧ .startRead lane.src lane.buf ∈ acts := by
  have hlength : (moved ++ s.next lane.buf moved (size - moved.length)).length = size := by
    have hget := s.mem.length_get lane.buf
    rw [SubversionSession.next, List.length_append, List.length_take, List.length_drop, hget]
    omega
  have htransmit := step_transmit env lane s trace (c := c)
    (show moved.length + (size - moved.length) ≤ size by omega)
  have hwrote := step_wrote env lane s (trace ++ [.sent lane.dst
    (s.next lane.buf moved (size - moved.length))]) now (c := c) hlength
  exact ⟨_, _, _, .cons htransmit (.single hwrote), List.append_assoc _ _ _, by simp⟩

theorem reading_restarts (now : Now) {moved : Bytes} {c : Bool} (hne : moved ≠ [])
    (hmoved : moved.length ≤ lane.buf.size) :
    ∃ es t acts, Transition.Run (fun a e b => step env a e = some b)
      ⟨s, [lane.op (.reading moved c)], trace⟩ es t ∧
      t.trace = trace ++ acts ∧ .startRead lane.src lane.buf ∈ acts := by
  have hread := step_read env lane s trace now (c := c) hne
  obtain ⟨es, t, acts, hrun, htrace, hmem⟩ :=
    writing_restarts env lane s (trace ++ [.got lane.src moved, .startWrite lane.dst
      ((s.mem.get lane.buf).take moved.length)]) now (c := false)
      (show ([] : Bytes).length ≤ _ from Nat.zero_le _) hmoved
  rw [List.append_assoc] at htrace
  exact ⟨_, t, _, .cons hread hrun, htrace, List.mem_append_right _ hmem⟩

end Alone

theorem not_windsDown {env : Env} {sock : Sock} {buf : Buf} {s : State}
    (h : ∃ es t acts, Transition.Run (fun a e b => step env a e = some b) s es t ∧
      t.trace = s.trace ++ acts ∧ .startRead sock buf ∈ acts) : ¬WindsDown env sock s := by
  obtain ⟨es, t, acts, hrun, htrace, hmem⟩ := h
  intro hdown
  obtain ⟨⟨acts', htrace', hnone⟩, -⟩ := hdown es t hrun
  rw [htrace] at htrace'
  obtain rfl := List.append_cancel_left htrace'
  exact hnone buf hmem

def LaneOp.Fits (size : Nat) : LaneOp → Prop
  | .reading moved _ => moved.length ≤ size
  | .writing n moved _ => moved.length ≤ n ∧ n ≤ size

def Fitting : Phase → SubversionSession → List Act → Prop
  | .relay held, _, _ => ∀ lane x, held lane = some x → x.Fits lane.buf.size
  | _, _, _ => True

theorem Fitting.update {held : Lane → Option LaneOp} {s t : SubversionSession}
    {trace acts : List Act} {lane : Lane} {y : Option LaneOp} (h : Fitting (.relay held) s trace)
    (hy : ∀ x, y = some x → x.Fits lane.buf.size) :
    Fitting (.relay (Function.update held lane y)) t acts := by
  intro l x hx
  by_cases hl : l = lane
  · subst hl
    rw [Function.update_self] at hx
    exact hy x hx
  · rw [Function.update_of_ne hl] at hx
    exact h l x hx

theorem LaneOp.Fits.cancelOn {size : Nat} {x : LaneOp} (h : x.Fits size) (lane : Lane)
    (socks : List Sock) : (lane.cancelOn socks x).Fits size := by
  cases x <;> exact h

theorem Fitting.move {env : Env} {p q : Phase} {s t : SubversionSession} {e : Event}
    {trace acts : List Act} (h : Fitting p s trace) (hmove : Move env p s e q t acts) :
    Fitting q t (trace ++ acts) := by
  cases hmove with
  | reuseStack data => cases p <;> exact h
  | forwarded =>
    intro lane x hx
    obtain rfl := Option.some.inj hx
    exact Nat.zero_le _
  | fillLane lane hheld hdata =>
    apply h.update
    rintro x ⟨⟩
    exact hdata
  | transmitLane lane hheld hn =>
    apply h.update
    rintro x ⟨⟩
    refine ⟨?_, (h lane _ hheld).2⟩
    rw [List.length_append, SubversionSession.next, List.length_take]
    omega
  | laneRead lane hheld =>
    apply h.update
    rintro x ⟨⟩
    exact ⟨Nat.zero_le _, h lane _ hheld⟩
  | laneReadFailed lane hheld he =>
    have hcancelled : Fitting (.relay fun l => (‹Lane → Option LaneOp› l).map (l.cancelOn [lane.dst]))
        s trace := by
      intro l x hx
      obtain ⟨y, hy, rfl⟩ := Option.map_eq_some_iff.mp hx
      exact (h l y hy).cancelOn l _
    apply hcancelled.update
    rintro x ⟨⟩
  | laneWrote lane hheld hall =>
    apply h.update
    rintro x ⟨⟩
    exact Nat.zero_le _
  | laneWriteFailed lane hheld he =>
    apply h.update
    rintro x ⟨⟩
  | _ => trivial

/-! ## The failed read of a reachable state -/

theorem exists_reading {p : Phase} {i : Nat} {op : Op} {lane : Lane} (hop : p.ops[i]? = some op)
    (hhandler : op.handler = lane.readHandler) :
    ∃ held moved c, p = .relay held ∧ held lane = some (.reading moved c) ∧
      op = lane.op (.reading moved c) ∧
      p.ops.eraseIdx i = Lane.ops (Function.update held lane none) := by
  cases p with
  | ended => cases hop
  | relay held =>
    obtain ⟨l, x, hx, rfl, hreplace⟩ := Lane.exists_of_getElem? hop
    have hreading : l = lane ∧ ∃ moved c, x = .reading moved c := by
      cases x with
      | reading moved c =>
        refine ⟨?_, moved, c, rfl⟩
        cases l <;> cases lane <;> first | rfl | cases hhandler
      | writing size moved c => cases l <;> cases lane <;> cases hhandler
    obtain ⟨rfl, moved, c, rfl⟩ := hreading
    refine ⟨held, moved, c, rfl, hx, rfl, ?_⟩
    rw [List.eraseIdx_eq_take_drop_succ, ← hreplace none]
    simp [Slots.replace, Phase.ops]
  | _ =>
    obtain ⟨-, rfl⟩ := Slots.getElem?_singleton hop
    cases lane <;> cases hhandler

theorem Lane.other_ne (lane : Lane) : lane.other ≠ lane := by cases lane <;> decide

theorem quiet_readFailed {held : Lane → Option LaneOp} {lane : Lane}
    (hother : ∀ x, held lane.other = some x → ∃ c, x = .reading [] c) :
    Quiet (Function.update (fun l => (held l).map (l.cancelOn [lane.dst])) lane none) := by
  intro l x hx
  by_cases hl : l = lane
  · subst hl
    rw [Function.update_self] at hx
    cases hx
  · rw [Function.update_of_ne hl] at hx
    obtain ⟨y, hy, rfl⟩ := Option.map_eq_some_iff.mp hx
    obtain rfl := Lane.eq_other hl
    obtain ⟨c, rfl⟩ := hother y hy
    simp [Lane.cancelOn, Lane.other_src]

theorem state_readFailed {held : Lane → Option LaneOp} {lane : Lane} {x : LaneOp}
    (hother : held lane.other = some x) {s : SubversionSession} {trace : List Act} :
    (Phase.relay (Function.update (fun l => (held l).map (l.cancelOn [lane.dst])) lane
      none)).state s trace =
      ⟨s, [lane.other.op (lane.other.cancelOn [lane.dst] x)], trace⟩ := by
  rw [Phase.state, Phase.ops, Lane.ops_of_none (Function.update_self _ _ _),
    Function.update_of_ne lane.other_ne, hother]
  rfl

/-- When the read of a lane fails the session winds down if and only if no write is
outstanding and no other read has received data. -/
theorem winds_down_iff (env : Env) (s s' : State) (h : Reachable env s) (lane : Lane) (i : Nat)
    (op : Op) (e : ErrorCode) (now : Now) (hop : s.ops[i]? = some op)
    (hhandler : op.handler = lane.readHandler) (he : e ≠ 0)
    (hstep : step env s (.complete i e now) = some s') :
    WindsDown env lane.dst s' ↔
      ∀ other ∈ s.ops.eraseIdx i, other.writesTo = none ∧ other.moved = [] := by
  obtain ⟨p, session, trace, rfl, hfitting⟩ :=
    reachable_phase (I := Fitting) h (fun _ _ => trivial) fun h hmove => h.move hmove
  obtain ⟨held, moved, c, rfl, hheld, rfl, herase⟩ := exists_reading hop hhandler
  rw [complete_readFailed hop he] at hstep
  obtain rfl := Option.some.inj hstep
  change _ ↔ ∀ other ∈ (Phase.relay held).ops.eraseIdx i, _
  rw [herase, Lane.ops_of_none (Function.update_self lane none held),
    Function.update_of_ne lane.other_ne]
  cases hother : held lane.other with
  | none =>
    refine iff_of_true (Quiet.windsDown (quiet_readFailed fun x hx => ?_) _) fun other hmem => by cases hmem
    rw [hother] at hx
    cases hx
  | some x =>
    have hfits := hfitting lane.other x hother
    cases x with
    | writing size moved' c' =>
      rw [state_readFailed hother, ← Lane.other_src]
      refine iff_of_false (not_windsDown
        (writing_restarts env lane.other session _ now hfits.1 hfits.2)) ?_
      intro hall
      cases (hall _ List.mem_cons_self).1
    | reading moved' c' =>
      by_cases hmoved : moved' = []
      · subst hmoved
        refine iff_of_true (Quiet.windsDown (quiet_readFailed fun x hx => ?_) _) ?_
        · rw [hother] at hx
          obtain rfl := Option.some.inj hx
          exact ⟨c', rfl⟩
        · intro other hmem
          obtain rfl := List.mem_singleton.mp hmem
          exact ⟨rfl, rfl⟩
      · rw [state_readFailed hother, ← Lane.other_src]
        refine iff_of_false (not_windsDown
          (reading_restarts env lane.other session _ now hmoved hfits)) ?_
        intro hall
        exact hmoved (hall _ List.mem_cons_self).2

/-! The backend goes while a command of the client is half forwarded to it. -/

theorem sampleRelay_readFailed :
    sampleRelay.ops[0]? = some (Lane.upstream.op (.reading [] false)) ∧
      (step sampleEnv sampleRelay (.complete 0 2 sampleNow)).isSome := by decide

theorem winds_down_iff_sample :
    WindsDown sampleEnv .socket ((step sampleEnv sampleRelay (.complete 0 2 sampleNow)).get
        sampleRelay_readFailed.2) ↔
      ∀ other ∈ sampleRelay.ops.eraseIdx 0, other.writesTo = none ∧ other.moved = [] :=
  winds_down_iff sampleEnv sampleRelay _ sampleRelay_reachable .upstream 0 _ 2
    sampleNow sampleRelay_readFailed.1 rfl (by decide) (Option.some_get _).symm

/-- What is left of the command goes through, and the session reads from the client again. -/
theorem session_goes_on :
    ∃ s' es t acts, Reachable sampleEnv sampleRelay ∧
      step sampleEnv sampleRelay (.complete 0 2 sampleNow) = some s' ∧
      Transition.Run (fun a e b => step sampleEnv a e = some b) s' es t ∧
      t.trace = s'.trace ++ acts ∧ .startRead .socket .cltBuffer ∈ acts ∧
      ¬WindsDown sampleEnv .socket s' := by
  obtain ⟨s', hstep⟩ := Option.isSome_iff_exists.mp sampleRelay_readFailed.2
  have hops : ((step sampleEnv sampleRelay (.complete 0 2 sampleNow)).get
      sampleRelay_readFailed.2).ops = [Lane.downstream.op (.writing 23 (ascii "( get-lat") false)] := by decide
  have hs' : s'.ops = [Lane.downstream.op (.writing 23 (ascii "( get-lat") false)] := by
    rw [← hops]
    exact congrArg State.ops (Option.get_of_eq_some _ hstep).symm
  obtain ⟨session, ops, trace⟩ := s'
  obtain rfl : ops = _ := hs'
  have hsent : (ascii "( get-lat").length ≤ 23 := by decide
  obtain ⟨es, t, acts, hrun, htrace, hmem⟩ :=
    writing_restarts (c := false) sampleEnv .downstream session trace sampleNow hsent (by decide)
  exact ⟨_, es, t, acts, sampleRelay_reachable, hstep, hrun, htrace, hmem,
    not_windsDown ⟨es, t, acts, hrun, htrace, hmem⟩⟩

end Svnsrv.Proxy
