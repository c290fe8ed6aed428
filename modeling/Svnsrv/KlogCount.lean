import Svnsrv.KlogStreams

/-!
# Records between rotations

The counter of a log decides when its file is rotated, and no rotation sets it back.
A tally beside the run counts the records since the last rotation of the log.
-/

namespace Svnsrv.Klog

open CText
set_option autoImplicit false

/-! ## The tally of a log -/

instance (s : State) (c : Call) : Decidable (s.Rolls c) :=
  inferInstanceAs (Decidable ((maxLineNumber ≤ s.klogger.counts c.log) ∧
    s.klogger.stream c.log ≠ c.log.std ∧ s.klogger.stream c.log ≠ .null))

/-- `current` counts the records since the last rotation of the log; `turned` lists what that
count was at each rotation. -/
structure Tally where
  current : Nat
  turned : List Nat

namespace Tally

def zero : Tally := ⟨0, []⟩

def next (t : Tally) (log : LogKind) (s : State) (c : Call) : Tally :=
  if c.log ≠ log then t
  else if s.Rolls c then ⟨1, t.turned ++ [t.current]⟩
  else ⟨t.current + 1, t.turned⟩

end Tally

/-- A call, with the tally of one log kept beside it. -/
def tallied (log : LogKind) (a : State × Tally) (c : Call) : Option (State × Tally) :=
  (step a.1 c).map fun s => (s, a.2.next log a.1 c)

/-- The log has been rotated after every 50000 records, and at no other time. -/
structure OncePerMax (log : LogKind) (s : State) (t : Tally) : Prop where
  full : ∀ n ∈ t.turned, n = 50000
  current : s.Rollable log → t.current ≤ 50000
  few : t.turned.length ≤ (s.written log).length / 50000

/-- A call of the log that can still rotate it is at most the 50001st. -/
def InTime (log : LogKind) (s : State) (c : Call) : Prop :=
  c.log = log → s.Rollable log → (s.written log).length ≤ 50000

/-! ## One call -/

theorem Klogger.counts_count_of_ne (k : Klogger) {log log' : LogKind} (h : log' ≠ log) :
    (k.count log).counts log' = k.counts log' := by
  cases log <;> cases log'
  · exact absurd rfl h
  · rfl
  · rfl
  · exact absurd rfl h

/-- What a call that goes through does to the counters, the records and the handles. -/
structure Stepped (s : State) (c : Call) (t : State) : Prop where
  counts : t.klogger.counts c.log = s.klogger.counts c.log + 1
  length : (t.written c.log).length = (s.written c.log).length + 1
  other : ∀ log, log ≠ c.log → t.klogger.counts log = s.klogger.counts log ∧
    t.written log = s.written log ∧ t.klogger.stream log = s.klogger.stream log
  stays : ¬ s.Rolls c → t.klogger.stream c.log = s.klogger.stream c.log
  turns : s.Rolls c → t.klogger.stream c.log =
    if c.turn.opens then .file s.streams.length else .stdout

section Step

variable {s t u : State} {c : Call}

theorem stepped_of_appended (ht : Appended u c.log t)
    (hcounts : ∀ log, u.klogger.counts log = s.klogger.counts log)
    (hwritten : u.written = s.written)
    (hother : ∀ log, log ≠ c.log → u.klogger.stream log = s.klogger.stream log)
    (hstays : ¬ s.Rolls c → u.klogger.stream c.log = s.klogger.stream c.log)
    (hturns : s.Rolls c → u.klogger.stream c.log =
      if c.turn.opens then .file s.streams.length else .stdout) : Stepped s c t := by
  obtain ⟨buffer, hbuffer⟩ := ht.written
  have hstream : ∀ log, t.klogger.stream log = u.klogger.stream log := by
    intro log
    rw [ht.klogger, Klogger.stream_count]
  constructor
  · rw [ht.klogger, Klogger.counts_count_self, hcounts]
  · rw [hbuffer, Function.update_self, hwritten, List.length_append, List.length_singleton]
  · intro log hne
    rw [ht.klogger, Klogger.counts_count_of_ne _ hne, hbuffer, Function.update_of_ne hne, hwritten,
      Klogger.stream_count]
    exact ⟨hcounts log, rfl, hother log hne⟩
  · intro hrolls
    rw [hstream]
    exact hstays hrolls
  · intro hrolls
    rw [hstream]
    exact hturns hrolls

theorem stepped_of_step (hstep : step s c = some t) : Stepped s c t := by
  rcases step_cases s c with ⟨hrolls, hc⟩ | ⟨-, -, hc⟩ | ⟨hrolls, -, u, hu, hc⟩
  · have ht := appended_of_append (hc.symm.trans hstep)
    exact stepped_of_appended ht (fun _ => rfl) rfl (fun _ _ => rfl) (fun _ => rfl)
      fun h => absurd h hrolls
  · cases hc.symm.trans hstep
  · have ht := appended_of_append (hc.symm.trans hstep)
    apply stepped_of_appended ht _ hu.written (fun log hne => hu.stream_of_ne hne)
      (fun h => absurd hrolls h) (fun _ => hu.stream_self)
    intro log
    rw [hu.klogger, Klogger.counts_withStream]

theorem tallied_eq_some_iff {log : LogKind} {a b : State × Tally} :
    tallied log a c = some b ↔ step a.1 c = some b.1 ∧ b.2 = a.2.next log a.1 c := by
  obtain ⟨s', t'⟩ := b
  rw [tallied, Option.map_eq_some_iff]
  constructor
  · rintro ⟨u, hu, heq⟩
    obtain ⟨rfl, rfl⟩ := Prod.mk.inj heq
    exact ⟨hu, rfl⟩
  · rintro ⟨hstep, rfl⟩
    exact ⟨s', hstep, rfl⟩

end Step

/-! ## The schedule -/

/-- What a log that is called in time has come to: it has not been rotated yet, or once, and
then it has one record since, or a stream that a rotation leaves alone. -/
structure OnSchedule (log : LogKind) (s : State) (t : Tally) : Prop where
  counts : (s.klogger.counts log).toNat = (s.written log).length % 2 ^ 32
  total : (s.written log).length = t.turned.foldr (· + ·) t.current
  turned : t.turned = [] ∧ (s.Rollable log → (s.written log).length ≤ 50000) ∨
    t.turned = [50000] ∧ 1 ≤ t.current ∧ (s.Rollable log → t.current = 1)

section Schedule

variable {log : LogKind} {s s' : State} {t : Tally} {c : Call}

theorem onSchedule_init (log : LogKind) (files : Files Bytes (List Entry))
    (infoFile errorFile : Option Bytes) (opensInfo opensError : Bool) :
    OnSchedule log ((State.constructed files).init infoFile errorFile opensInfo opensError)
      .zero := by
  have hfields : ∀ (s : State) (log' : LogKind) (file : Option Bytes) (opens : Bool),
      (s.initLog log' file opens).klogger.counts log = s.klogger.counts log ∧
        (s.initLog log' file opens).written = s.written := by
    intro s log' file opens
    cases file <;> cases opens <;> cases log' <;> cases log <;> exact ⟨rfl, rfl⟩
  obtain ⟨hcounts, hwritten⟩ := hfields (State.constructed files) .access infoFile opensInfo
  obtain ⟨hcounts', hwritten'⟩ := hfields
    ((State.constructed files).initLog .access infoFile opensInfo) .error errorFile opensError
  have hnil : (((State.constructed files).init infoFile errorFile opensInfo opensError).written
      log).length = 0 := by
    rw [State.init, hwritten', hwritten]
    rfl
  constructor
  · rw [hnil, State.init, hcounts', hcounts]
    cases log <;> rfl
  · exact hnil
  · exact .inl ⟨rfl, fun _ => hnil ▸ Nat.zero_le _⟩

theorem OnSchedule.rotates_iff (h : OnSchedule log s t) (hlog : c.log = log) :
    s.Rotates c ↔ 50000 ≤ (s.written log).length % 2 ^ 32 := by
  rw [State.Rotates, hlog, UInt32.le_iff_toNat_le, h.counts]
  exact Iff.rfl

/-- A rotation in time is the first, after 50000 records. -/
theorem OnSchedule.rolls (h : OnSchedule log s t) (hlog : c.log = log) (htime : InTime log s c)
    (hrolls : s.Rolls c) : t = ⟨50000, []⟩ ∧ (s.written log).length = 50000 := by
  have hmax := htime hlog (hlog ▸ hrolls.2)
  have hmin := (h.rotates_iff hlog).mp hrolls.1
  have hlen : (s.written log).length = 50000 := by omega
  have htotal := h.total
  obtain ⟨current, turned⟩ := t
  rcases h.turned with ⟨rfl, -⟩ | ⟨rfl, hpos, -⟩
  · rw [hlen, List.foldr_nil] at htotal
    obtain rfl : 50000 = current := htotal
    exact ⟨rfl, hlen⟩
  · rw [List.foldr_cons, List.foldr_nil] at htotal
    change 1 ≤ current at hpos
    change _ = 50000 + current at htotal
    omega

/-- A call counts its record, in the counter modulo 2^32. -/
theorem OnSchedule.counted (h : OnSchedule log s t) (hs : Stepped s c s') (hlog : c.log = log) :
    (s'.klogger.counts log).toNat = (s'.written log).length % 2 ^ 32 ∧
      (s'.written log).length = (s.written log).length + 1 := by
  obtain rfl := hlog
  rw [hs.counts, UInt32.toNat_add, h.counts, hs.length]
  exact ⟨Nat.mod_add_mod _ _ _, rfl⟩

theorem OnSchedule.turns (h : OnSchedule log s t) (hs : Stepped s c s') (hlog : c.log = log)
    (htime : InTime log s c) (hrolls : s.Rolls c) :
    OnSchedule log s' ⟨1, t.turned ++ [t.current]⟩ := by
  obtain ⟨hcounts, hlength⟩ := h.counted hs hlog
  obtain ⟨rfl, hlen⟩ := h.rolls hlog htime hrolls
  rw [hlen] at hlength
  exact ⟨hcounts, hlength, .inr ⟨rfl, Nat.le_refl 1, fun _ => rfl⟩⟩

theorem OnSchedule.stays (h : OnSchedule log s t) (hs : Stepped s c s') (hlog : c.log = log)
    (htime : InTime log s c) (hrolls : ¬ s.Rolls c) :
    OnSchedule log s' ⟨t.current + 1, t.turned⟩ := by
  obtain ⟨hcounts, hlength⟩ := h.counted hs hlog
  have hstream := hs.stays hrolls
  rw [hlog] at hstream
  have hroll : s'.Rollable log ↔ s.Rollable log := by
    rw [State.Rollable, State.Rollable, hstream]
  have htotal := h.total
  rcases h.turned with ⟨hnil, hmax⟩ | ⟨hone, hpos, hcurrent⟩
  · rw [hnil, List.foldr_nil] at htotal
    refine ⟨hcounts, ?_, .inl ⟨hnil, fun hr => ?_⟩⟩
    · rw [hlength, htotal, hnil]
      rfl
    · have hle := hmax (hroll.mp hr)
      have hnot : ¬ s.Rotates c := fun hrot => hrolls ⟨hrot, hlog.symm ▸ hroll.mp hr⟩
      rw [h.rotates_iff hlog] at hnot
      omega
  · rw [hone, List.foldr_cons, List.foldr_nil] at htotal
    refine ⟨hcounts, ?_, .inr ⟨hone, Nat.le_add_left _ _, fun hr => ?_⟩⟩
    · rw [hlength, htotal, hone]
      rfl
    · have hle := htime hlog (hroll.mp hr)
      omega

theorem OnSchedule.other (h : OnSchedule log s t) (hs : Stepped s c s') (hlog : c.log ≠ log) :
    OnSchedule log s' t := by
  obtain ⟨hcounts, hwritten, hstream⟩ := hs.other log (Ne.symm hlog)
  constructor
  · rw [hcounts, hwritten]
    exact h.counts
  · rw [hwritten]
    exact h.total
  · rw [hwritten, State.Rollable, hstream]
    exact h.turned

theorem OnSchedule.step (h : OnSchedule log s t) (hstep : step s c = some s')
    (htime : InTime log s c) : OnSchedule log s' (t.next log s c) := by
  have hs := stepped_of_step hstep
  rw [Tally.next]
  by_cases hlog : c.log = log
  · rw [if_neg (not_not.mpr hlog)]
    by_cases hrolls : s.Rolls c
    · rw [if_pos hrolls]
      exact h.turns hs hlog htime hrolls
    · rw [if_neg hrolls]
      exact h.stays hs hlog htime hrolls
  · rw [if_pos hlog]
    exact h.other hs hlog

theorem OnSchedule.oncePerMax (h : OnSchedule log s t) : OncePerMax log s t := by
  have htotal := h.total
  rcases h.turned with ⟨hnil, hmax⟩ | ⟨hone, hpos, hcurrent⟩
  · rw [hnil, List.foldr_nil] at htotal
    refine ⟨?_, fun hroll => htotal ▸ hmax hroll, ?_⟩
    · rw [hnil]
      exact fun n hn => absurd hn List.not_mem_nil
    · rw [hnil]
      exact Nat.zero_le _
  · rw [hone, List.foldr_cons, List.foldr_nil] at htotal
    refine ⟨?_, fun hroll => ?_, ?_⟩
    · rw [hone]
      exact fun n hn => List.mem_singleton.mp hn
    · rw [hcurrent hroll]
      decide
    · rw [hone, List.length_singleton]
      omega

/-- A late call rotates a file of one record. -/
theorem OnSchedule.inTime (h : OnSchedule log s t)
    (hfull : ∀ n ∈ (t.next log s c).turned, n = 50000) : InTime log s c := by
  intro hlog hroll
  by_contra hlate
  rcases h.turned with ⟨-, hmax⟩ | ⟨hone, -, hcurrent⟩
  · exact hlate (hmax hroll)
  · have htotal := h.total
    rw [hone, List.foldr_cons, List.foldr_nil, hcurrent hroll] at htotal
    have hrotates : s.Rotates c := by
      rw [h.rotates_iff hlog, htotal]
      decide
    rw [Tally.next, if_neg (not_not.mpr hlog), if_pos ⟨hrotates, hlog.symm ▸ hroll⟩] at hfull
    have hbad := hfull t.current (List.mem_append_right _ (List.mem_singleton_self _))
    rw [hcurrent hroll] at hbad
    cases hbad

end Schedule

theorem Tally.turned_subset_next (t : Tally) (log : LogKind) (s : State) (c : Call) :
    t.turned ⊆ (t.next log s c).turned := by
  rw [next]
  split
  · exact List.Subset.refl _
  · split
    · exact List.subset_append_left _ _
    · exact List.Subset.refl _

/-- A log is rotated once per 50000 records as long as it is called in time: the counter is not
set back, so from the 50001st record on every record rotates its log. -/
theorem rotated_oncePerMax_iff {log : LogKind} {files : Files Bytes (List Entry)}
    {infoFile errorFile : Option Bytes} {opensInfo opensError : Bool} {calls : List Call}
    {s : State} {t : Tally}
    (hrun : Transition.Run (fun a c b => tallied log a c = some b)
      ((State.constructed files).init infoFile errorFile opensInfo opensError, .zero)
      calls (s, t)) :
    OncePerMax log s t ↔
      Transition.Run (fun a c b => tallied log a c = some b ∧ InTime log a.1 c)
        ((State.constructed files).init infoFile errorFile opensInfo opensError, .zero)
        calls (s, t) := by
  have hinit := onSchedule_init log files infoFile errorFile opensInfo opensError
  have hkeep : ∀ {a b : State × Tally} {c}, OnSchedule log a.1 a.2 → tallied log a c = some b →
      InTime log a.1 c → OnSchedule log b.1 b.2 := by
    intro a b c h hstep htime
    obtain ⟨hstep, hnext⟩ := tallied_eq_some_iff.mp hstep
    rw [hnext]
    exact h.step hstep htime
  constructor
  · intro honce
    refine hrun.meets (I := fun a => OnSchedule log a.1 a.2)
      (P := fun a => ∀ n ∈ a.2.turned, n = 50000) ?_ ?_ hkeep hinit honce.full
    · intro a c b hstep hfull n hn
      apply hfull n
      rw [(tallied_eq_some_iff.mp hstep).2]
      exact a.2.turned_subset_next log a.1 c hn
    · intro a c b h hstep hfull
      rw [(tallied_eq_some_iff.mp hstep).2] at hfull
      exact h.inTime hfull
  · intro htimely
    exact (htimely.invariant (I := fun a => OnSchedule log a.1 a.2)
      (fun h hstep => hkeep h hstep.1 hstep.2) hinit).oncePerMax

/-! ## A run whose rotations succeed -/

/-- The tally after `n` records of a log whose files can always be opened. -/
def tallyOf (n : Nat) : Tally :=
  if n ≤ 50000 then ⟨n, []⟩ else ⟨1, 50000 :: List.replicate (n - 50001) 1⟩

/-- `n` records have been written to a log that is still written to a file. -/
structure Counting (log : LogKind) (s : State) (n : Nat) : Prop where
  handled : Handled s
  stream : ∃ k, s.klogger.stream log = .file k
  counts : (s.klogger.counts log).toNat = n

section Counting

variable {s : State} {c : Call} {n : Nat}

theorem Counting.rollable {log : LogKind} (h : Counting log s n) : s.Rollable log := by
  obtain ⟨k, hk⟩ := h.stream
  rw [State.Rollable, hk]
  cases log <;> exact ⟨by simp [LogKind.std], by simp⟩

theorem Counting.rolls_iff (h : Counting c.log s n) : s.Rolls c ↔ 50000 ≤ n := by
  rw [State.Rolls, and_iff_left h.rollable, State.Rotates, UInt32.le_iff_toNat_le, h.counts]
  exact Iff.rfl

theorem Counting.next (h : Counting c.log s n) :
    (tallyOf n).next c.log s c = tallyOf (n + 1) := by
  rw [Tally.next, if_neg (not_not.mpr rfl)]
  by_cases hn : 50000 ≤ n
  · rw [if_pos (h.rolls_iff.mpr hn), tallyOf, tallyOf, if_neg (by omega : ¬ n + 1 ≤ 50000)]
    by_cases hfirst : n ≤ 50000
    · obtain rfl : n = 50000 := Nat.le_antisymm hfirst hn
      rfl
    · obtain ⟨m, rfl⟩ := Nat.exists_eq_add_of_le (Nat.succ_le_of_lt (Nat.lt_of_not_le hfirst))
      rw [if_neg hfirst, Nat.add_sub_cancel_left, Nat.add_assoc, Nat.add_sub_cancel_left,
        List.replicate_succ']
      rfl
  · rw [if_neg (h.rolls_iff.not.mpr hn), tallyOf, tallyOf, if_pos (by omega), if_pos (by omega)]

theorem Counting.step (h : Counting c.log s n) (hopens : c.turn.opens = true)
    (hn : n + 1 < 2 ^ 32) : ∃ t, step s c = some t ∧ Counting c.log t (n + 1) := by
  obtain ⟨k, hk⟩ := h.stream
  have hfits : s.FitsWrite c := by
    constructor
    · rw [State.Usable, hk]
      exact ⟨by simp, fun h => by cases h⟩
    · intro _ hfails
      rw [hopens] at hfails
      cases hfails
  obtain ⟨t, ht⟩ := Option.isSome_iff_exists.mp ((step_isSome_iff h.handled c).mpr hfits)
  have hstepped := stepped_of_step ht
  refine ⟨t, ht, h.handled.step ht, ?_, ?_⟩
  · by_cases hrolls : s.Rolls c
    · rw [hstepped.turns hrolls, hopens]
      exact ⟨_, rfl⟩
    · rw [hstepped.stays hrolls]
      exact ⟨k, hk⟩
  · rw [hstepped.counts, UInt32.toNat_add, h.counts]
    exact Nat.mod_eq_of_lt hn

/-- The file of the first 50000 records is followed by one file a record. -/
theorem Counting.run (h : Counting c.log s 0) (hopens : c.turn.opens = true) :
    ∀ n, n < 2 ^ 32 → ∃ t, Counting c.log t n ∧
      Transition.Run (fun a c' b => tallied c.log a c' = some b) (s, .zero)
        (List.replicate n c) (t, tallyOf n) := by
  intro n
  induction n with
  | zero =>
    intro _
    exact ⟨s, h, .refl _⟩
  | succ n ih =>
    intro hn
    obtain ⟨t, ht, hrun⟩ := ih (Nat.lt_of_succ_lt hn)
    obtain ⟨u, hstep, hu⟩ := ht.step hopens hn
    refine ⟨u, hu, ?_⟩
    rw [List.replicate_succ']
    exact hrun.snoc (tallied_eq_some_iff.mpr ⟨hstep, ht.next.symm⟩)

end Counting

theorem sampleLogs_counting : Counting sampleCall.log sampleLogs 0 where
  handled := ((handled_constructed noFiles).initLog .access (some (ascii "a")) true).initLog .error
    (some (ascii "e")) true
  stream := ⟨0, rfl⟩
  counts := rfl

/-- 50001 records with one rotation. -/
theorem rotated_oncePerMax_sample : ∃ s,
    Transition.Run (fun a c b => tallied .access a c = some b) (sampleLogs, .zero)
      (List.replicate 50001 sampleCall) (s, ⟨1, [50000]⟩) ∧
    (OncePerMax .access s ⟨1, [50000]⟩ ↔
      Transition.Run (fun a c b => tallied .access a c = some b ∧ InTime .access a.1 c)
        (sampleLogs, .zero) (List.replicate 50001 sampleCall) (s, ⟨1, [50000]⟩)) := by
  obtain ⟨s, -, hrun⟩ := sampleLogs_counting.run rfl 50001 (by decide)
  have htally : tallyOf 50001 = ⟨1, [50000]⟩ := rfl
  rw [htally] at hrun
  exact ⟨s, hrun, rotated_oncePerMax_iff hrun⟩

/-- The record after the first rotation has a file of its own. -/
theorem rotated_twice : ∃ s t,
    Transition.Run (fun a c b => tallied .access a c = some b) (sampleLogs, .zero)
      (List.replicate 50002 sampleCall) (s, t) ∧
    t.turned = [50000, 1] ∧
    ¬ t.turned.length ≤ (List.replicate 50002 sampleCall).length / 50000 := by
  obtain ⟨s, -, hrun⟩ := sampleLogs_counting.run rfl 50002 (by decide)
  refine ⟨s, _, hrun, rfl, ?_⟩
  rw [List.length_replicate]
  decide

end Svnsrv.Klog
