import Svnsrv.TitleEnv

/-!
# Setting the process title

`changeProcessTitle` stays in the area from `argv[0]` to `lastArgv` as long as the title is
shorter than the area. Otherwise `strncpy` writes no NUL, the string ends at `lastArgv`, and the
difference behind it is -1, which `memset` takes for an unsigned count.
-/

namespace Svnsrv.Title

open CText CMemory
set_option autoImplicit false

/-- The writes are inside the area, `argv[0]` is a prefix of the title, and the rest is NUL. -/
structure TitleSet (s s' : Process) (writes : List Store) (title : Bytes) : Prop where
  within : ∀ w ∈ writes, ∀ a, w.addr ≤ a → a < w.addr + w.count →
    s.argv.headD 0 ≤ a ∧ a ≤ s.lastArgv
  shown : ∃ k, k ≤ title.length ∧ s.argv.headD 0 + k ≤ s.lastArgv ∧
    (∀ i, i < k → s'.bytes (s.argv.headD 0 + i) = title.getD i 0) ∧
    ∀ a, s.argv.headD 0 + k ≤ a → a ≤ s.lastArgv → s'.bytes a = 0

/-- The area as a relocation leaves it. -/
structure Area (s : Process) : Prop where
  start : s.argv.headD 0 ≤ s.lastArgv
  nul : s.bytes s.lastArgv = 0
  address : s.lastArgv < addressSpace

theorem Preserved.argv0 {L L' : Layout} {block size : Nat} {s s' : Process}
    (h : Preserved L L' block size s s') : s'.argv.headD 0 = L.argv0 := by
  rw [h.holds.argv0]
  simp only [Layout.argv0, h.argv]

theorem Preserved.area_of {L L' : Layout} {block size : Nat} {s s' : Process}
    (h : Preserved L L' block size s s') : Area s' := by
  obtain ⟨c, hc, hlast⟩ := h.last
  have hstop := (L.addresses c hc).2
  rw [Str.stop_eq] at hstop
  exact ⟨h.argv0 ▸ h.start, h.nul, by omega⟩

/-! ## Differences of pointers -/

theorem distance_of_le {p q : Nat} (h : q ≤ p) (hp : p < addressSpace) :
    distance p q = p - q := by
  unfold distance addressSpace at *
  omega

theorem distance_of_lt {p q : Nat} (h : p < q) (hq : q ≤ addressSpace) :
    distance p q = p + addressSpace - q := by
  unfold distance addressSpace at *
  omega

/-! ## The writes -/

/-- The bytes after `strncpy`. -/
def copied (s : Process) (title : Bytes) : Mem :=
  strncpy s.bytes (s.argv.headD 0) title (distance s.lastArgv (s.argv.headD 0))

theorem changeProcessTitle_eq {s : Process} {title : Bytes} {len : Nat}
    (hlen : strlen (copied s title) (s.argv.headD 0) = len) :
    changeProcessTitle s title =
      let p := s.argv.headD 0 + len + 1
      let first : Store := ⟨s.argv.headD 0, distance s.lastArgv (s.argv.headD 0)⟩
      if distance s.lastArgv p ≠ 0 then
        ({ s with argv := s.argv.take 1, bytes := memset (copied s title) p 0 (distance s.lastArgv p) },
          [first, ⟨p, distance s.lastArgv p⟩])
      else ({ s with argv := s.argv.take 1, bytes := copied s title }, [first]) := by
  rw [← hlen]
  rfl

section
variable {s : Process} {title : Bytes}

theorem copied_inside (harea : Area s) {i : Nat} (hi : i < s.lastArgv - s.argv.headD 0) :
    copied s title (s.argv.headD 0 + i) = title.getD i 0 := by
  apply strncpy_inside
  rwa [distance_of_le harea.start harea.address]

theorem copied_outside (harea : Area s) {a : Nat} (ha : s.lastArgv ≤ a) :
    copied s title a = s.bytes a := by
  apply strncpy_outside
  rw [distance_of_le harea.start harea.address]
  have := harea.start
  omega

theorem getD_ne_nul (htitle : 0 ∉ title) {i : Nat} (hi : i < title.length) :
    title.getD i 0 ≠ 0 := by
  rw [List.getD_eq_getElem _ _ hi]
  intro h
  exact htitle (h ▸ List.getElem_mem hi)

/-- The string at `argv[0]` ends where the title does or where the area does. -/
theorem strlen_copied (harea : Area s) (htitle : 0 ∉ title) :
    strlen (copied s title) (s.argv.headD 0) =
      min title.length (s.lastArgv - s.argv.headD 0) := by
  have hstart := harea.start
  have haddress := harea.address
  refine strlen_eq (fun i hi => ?_) ?_ (by omega)
  · rw [copied_inside harea (by omega)]
    exact getD_ne_nul htitle (by omega)
  · by_cases hlt : title.length < s.lastArgv - s.argv.headD 0
    · rw [Nat.min_eq_left (Nat.le_of_lt hlt), copied_inside harea hlt,
        List.getD_eq_default _ _ (Nat.le_refl _)]
    · rw [Nat.min_eq_right (Nat.le_of_not_lt hlt), copied_outside harea (by omega),
        Nat.add_sub_cancel' hstart, harea.nul]

/-- A title that leaves room for its NUL. -/
theorem titleSet_of_lt (harea : Area s) (htitle : 0 ∉ title)
    (hlt : title.length < s.lastArgv - s.argv.headD 0) :
    TitleSet s (changeProcessTitle s title).1 (changeProcessTitle s title).2 title := by
  have hlen := strlen_copied harea htitle
  rw [Nat.min_eq_left (Nat.le_of_lt hlt)] at hlen
  have hstart := harea.start
  have hn := distance_of_le harea.start harea.address
  have hrest := distance_of_le (p := s.lastArgv) (q := s.argv.headD 0 + title.length + 1)
    (by omega) harea.address
  have hnul : ∀ a, s.argv.headD 0 + title.length ≤ a → a ≤ s.lastArgv →
      copied s title a = 0 := by
    intro a ha halast
    by_cases hin : a < s.lastArgv
    · obtain ⟨i, rfl⟩ := Nat.exists_eq_add_of_le (show s.argv.headD 0 ≤ a by omega)
      rw [copied_inside harea (by omega), List.getD_eq_default _ _ (by omega)]
    · obtain rfl : a = s.lastArgv := by omega
      rw [copied_outside harea (Nat.le_refl _), harea.nul]
  rw [changeProcessTitle_eq hlen]
  dsimp only
  rw [hn, hrest]
  by_cases hfull : s.lastArgv - (s.argv.headD 0 + title.length + 1) = 0
  · rw [if_neg (not_not_intro hfull)]
    refine ⟨?_, title.length, Nat.le_refl _, by omega, ?_, hnul⟩
    · intro w hw a ha hcount
      rw [List.mem_singleton.mp hw] at ha hcount
      dsimp only at ha hcount
      omega
    · exact fun i hi => copied_inside harea (by omega)
  · rw [if_pos hfull]
    refine ⟨?_, title.length, Nat.le_refl _, by omega, ?_, ?_⟩
    · intro w hw a ha hcount
      rcases List.mem_cons.mp hw with rfl | hw
      · dsimp only at ha hcount
        omega
      · rw [List.mem_singleton.mp hw] at ha hcount
        dsimp only at ha hcount
        omega
    · intro i hi
      exact (memset_outside (.inl (by omega))).trans (copied_inside harea (by omega))
    · intro a ha halast
      by_cases hin : s.argv.headD 0 + title.length + 1 ≤ a ∧ a < s.lastArgv
      · exact memset_inside ⟨hin.1, by omega⟩
      · exact (memset_outside (by omega)).trans (hnul a ha halast)

/-- A title that does not: the second write begins behind the area. -/
theorem not_titleSet_of_le (harea : Area s) (htitle : 0 ∉ title)
    (hle : s.lastArgv - s.argv.headD 0 ≤ title.length) :
    ¬TitleSet s (changeProcessTitle s title).1 (changeProcessTitle s title).2 title := by
  have hlen := strlen_copied harea htitle
  rw [Nat.min_eq_right hle] at hlen
  have hp : s.argv.headD 0 + (s.lastArgv - s.argv.headD 0) + 1 = s.lastArgv + 1 := by
    rw [Nat.add_sub_cancel' harea.start]
  have hrest : distance s.lastArgv (s.lastArgv + 1) = addressSpace - 1 := by
    rw [distance_of_lt (Nat.lt_succ_self _) harea.address]
    omega
  have hpos : addressSpace - 1 ≠ 0 := by
    unfold addressSpace
    omega
  rw [changeProcessTitle_eq hlen]
  dsimp only
  rw [hp, hrest, if_pos hpos]
  intro h
  have hbehind := h.within ⟨s.lastArgv + 1, addressSpace - 1⟩ (by simp) (s.lastArgv + 1)
    (Nat.le_refl _) (by dsimp only; omega)
  omega

/-- Without a relocation `lastArgv` is null, and `strncpy` gets a count that reaches the end of the
address space. -/
theorem not_titleSet_of_null (hnull : s.lastArgv = 0) (hpos : 0 < s.argv.headD 0)
    (haddress : s.argv.headD 0 < addressSpace) :
    ¬TitleSet s (changeProcessTitle s title).1 (changeProcessTitle s title).2 title := by
  have hn := distance_of_lt hpos (Nat.le_of_lt haddress)
  intro h
  have hfirst : (⟨s.argv.headD 0, distance s.lastArgv (s.argv.headD 0)⟩ : Store) ∈
      (changeProcessTitle s title).2 := by
    rw [changeProcessTitle_eq rfl]
    dsimp only
    split <;> exact List.mem_cons_self
  have hbegin := h.within _ hfirst (s.argv.headD 0) (Nat.le_refl _) (by
    dsimp only
    rw [hnull, hn]
    omega)
  omega

/-- Outside what is written the memory is as before. -/
theorem changeProcessTitle_frame {a : Nat}
    (ha : ∀ w ∈ (changeProcessTitle s title).2, a < w.addr ∨ w.addr + w.count ≤ a) :
    (changeProcessTitle s title).1.bytes a = s.bytes a := by
  rw [changeProcessTitle_eq rfl] at ha ⊢
  dsimp only at ha ⊢
  split at ha
  · rename_i hrest
    rw [if_pos hrest]
    obtain ⟨hfirst, hsecond⟩ := List.forall_mem_cons.mp ha
    rw [List.forall_mem_singleton] at hsecond
    exact (memset_outside hsecond).trans (strncpy_outside hfirst)
  · rename_i hrest
    rw [if_neg hrest]
    exact strncpy_outside ((List.forall_mem_cons.mp ha).1)

end

/-! ## After initializeProcessEnv -/

theorem initializeProcessEnv_false {malloc : Nat → Option Nat} {s s' : Process}
    (h : initializeProcessEnv malloc s = (false, s')) : s' = s := by
  unfold initializeProcessEnv at h
  split at h
  · exact (Prod.mk.inj h).2.symm
  · cases (Prod.mk.inj h).1

/-- A title that is set in its area leaves the relocated environment alone. -/
theorem environ_of_titleSet {L L' : Layout} {block size : Nat} {s s' : Process} {title : Bytes}
    (hpre : Preserved L L' block size s s')
    (hset : TitleSet s' (changeProcessTitle s' title).1 (changeProcessTitle s' title).2 title) :
    ∀ c ∈ L'.environ, c.In (changeProcessTitle s' title).1.bytes := by
  have hargv0 := hpre.argv0
  refine hpre.later _ fun a ha => changeProcessTitle_frame fun w hw => ?_
  by_contra hin
  have hwithin := hset.within w hw a (by omega) (by omega)
  omega

/-- The title is set inside the area exactly if the environment has been relocated and the title is
shorter than the area. -/
theorem titleSet_iff (L : Layout) (s : Process) (malloc : Nat → Option Nat) (title : Bytes)
    (hs : L.Holds s) (hnull : s.lastArgv = 0)
    (hmalloc : ∀ block, malloc (environSize s.bytes s.environ) = some block →
      L.Fresh block (environSize s.bytes s.environ))
    (htitle : 0 ∉ title) :
    TitleSet (initializeProcessEnv malloc s).2
        (changeProcessTitle (initializeProcessEnv malloc s).2 title).1
        (changeProcessTitle (initializeProcessEnv malloc s).2 title).2 title ↔
      (initializeProcessEnv malloc s).1 = true ∧
        title.length < (initializeProcessEnv malloc s).2.lastArgv -
          (initializeProcessEnv malloc s).2.argv.headD 0 := by
  rcases h : initializeProcessEnv malloc s with ⟨ok, s'⟩
  dsimp only
  cases ok with
  | false =>
    obtain rfl := initializeProcessEnv_false h
    have hmem := List.mem_append_left L.environ (List.head_mem L.argv_ne)
    obtain ⟨hpos, hstop⟩ := L.addresses _ hmem
    have haddress := Nat.lt_trans (L.argv.head L.argv_ne).addr_lt_stop hstop
    rw [← Layout.argv0, ← hs.argv0] at hpos haddress
    constructor
    · exact fun hset => absurd hset (not_titleSet_of_null hnull hpos haddress)
    · exact fun hok => Bool.noConfusion hok.1
  | true =>
    obtain ⟨block, hblock⟩ := block_of_initialized h
    obtain ⟨L', hpre⟩ := preserved_of_initialized hs (hmalloc block hblock) hblock h
    have harea := hpre.area_of
    constructor
    · intro hset
      refine ⟨rfl, ?_⟩
      by_contra hle
      exact not_titleSet_of_le harea htitle (Nat.le_of_not_lt hle) hset
    · exact fun hok => titleSet_of_lt harea htitle hok.2

theorem titleSet_iff_launched :
    let s' := (initializeProcessEnv (fun _ => some 100) launched).2
    TitleSet s' (changeProcessTitle s' (ascii "worker")).1 (changeProcessTitle s' (ascii "worker")).2
      (ascii "worker") :=
  (titleSet_iff launchLayout launched (fun _ => some 100) (ascii "worker") launchLayout_holds rfl
    launchLayout_fresh (by decide)).mpr ⟨rfl, by decide⟩

/-- The title of the worker does not fit behind `svnsrv` and `A=1`. -/
theorem worker_title_too_long :
    launchLayout.Holds launched ∧
      (initializeProcessEnv (fun _ => some 100) launched).1 = true ∧
      let s' := (initializeProcessEnv (fun _ => some 100) launched).2
      ¬TitleSet s' (changeProcessTitle s' (ascii "svnsrv: worker process")).1
        (changeProcessTitle s' (ascii "svnsrv: worker process")).2
        (ascii "svnsrv: worker process") := by
  obtain ⟨L', hpre⟩ :=
    @preserved_of_initialized launchLayout launched _ (fun _ => some 100) 100 launchLayout_holds
      (launchLayout_fresh 100 rfl) rfl rfl
  exact ⟨launchLayout_holds, rfl, not_titleSet_of_le hpre.area_of (by decide) (by decide)⟩

end Svnsrv.Title
