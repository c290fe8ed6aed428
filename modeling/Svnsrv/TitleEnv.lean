import Svnsrv.Title

/-!
# Relocating the environment

`initializeProcessEnv` follows adjacent strings from `argv[0]` on. The area it finds is made
of whole strings, and every string of `environ` in it has been copied into the block, so that
the environment is in memory as before and nothing of it is in the area.
-/

namespace Svnsrv.Title

open CText CMemory
set_option autoImplicit false

/-! ## The size of the block -/

theorem environSize_eq_total {m : Mem} {l : List Str} (hin : ∀ c ∈ l, c.In m)
    (hstop : ∀ c ∈ l, c.stop < addressSpace) (htotal : total l < addressSpace) :
    environSize m (l.map Str.addr) = total l := by
  have hloop : ∀ n, n + total l < addressSpace →
      (l.map Str.addr).foldl (fun size e => (size + (strlen m e + 1)) % addressSpace) n =
        n + total l := by
    induction l with
    | nil => exact fun _ _ => rfl
    | cons c l ih =>
      intro n hn
      obtain ⟨hc, hl⟩ := List.forall_mem_cons.mp hin
      obtain ⟨hcstop, hlstop⟩ := List.forall_mem_cons.mp hstop
      rw [total_cons] at htotal hn
      have hsize : strlen m c.addr + 1 = c.size := by rw [strlen_of_in hc hcstop]; rfl
      rw [List.map_cons, List.foldl_cons, hsize, Nat.mod_eq_of_lt (by omega),
        ih hl hlstop (by omega) _ (by omega), total_cons, Nat.add_assoc]
  rw [environSize, hloop 0 (by omega), Nat.zero_add]

theorem Layout.Holds.size_eq {L : Layout} {s : Process} (h : L.Holds s) :
    environSize s.bytes s.environ = total L.environ := by
  have hmem : ∀ c ∈ L.environ, c ∈ L.argv ++ L.environ := fun c hc => List.mem_append_right _ hc
  have hle := total_le (n := addressSpace - 1) (List.pairwise_append.mp L.apart).2.1
    fun c hc => Nat.le_sub_one_of_lt (L.addresses c (hmem c hc)).2
  rw [h.environ]
  refine environSize_eq_total (fun c hc => h.strings c (hmem c hc))
    (fun c hc => (L.addresses c (hmem c hc)).2) ?_
  unfold addressSpace at *
  omega

/-! ## The area behind argv[0] -/

theorem argvLoop_cons {m : Mem} {c : Str} {l : List Str} {last : Nat} (hc : c.In m)
    (hstop : c.stop < addressSpace) :
    argvLoop m last ((c :: l).map Str.addr) =
      argvLoop m (if last = c.addr then c.stop else last) (l.map Str.addr) := by
  simp only [argvLoop, List.map_cons, List.foldl_cons, strlen_of_in hc hstop]
  rfl

/-- The loop over `argv` ends where it began or behind one of the strings; what is separate from
them stays separate from the area. -/
theorem argvLoop_spec {m : Mem} {l : List Str} (hin : ∀ c ∈ l, c.In m)
    (hstop : ∀ c ∈ l, c.stop < addressSpace) (last : Nat) :
    last ≤ argvLoop m last (l.map Str.addr) ∧
    (argvLoop m last (l.map Str.addr) = last ∨
      ∃ c ∈ l, c.stop = argvLoop m last (l.map Str.addr)) ∧
    ∀ a b argv0, a < b → (∀ c ∈ l, Separate a b c.addr c.stop) → Separate a b argv0 last →
      Separate a b argv0 (argvLoop m last (l.map Str.addr)) := by
  induction l generalizing last with
  | nil => exact ⟨Nat.le_refl _, .inl rfl, fun _ _ _ _ _ h => h⟩
  | cons c l ih =>
    obtain ⟨hc, hl⟩ := List.forall_mem_cons.mp hin
    obtain ⟨hcstop, hlstop⟩ := List.forall_mem_cons.mp hstop
    rw [argvLoop_cons hc hcstop]
    by_cases hmatch : last = c.addr
    · rw [if_pos hmatch]
      obtain ⟨hle, hlast, harea⟩ := ih hl hlstop c.stop
      refine ⟨?_, .inr ?_, ?_⟩
      · have := c.addr_lt_stop
        omega
      · rcases hlast with hlast | ⟨d, hd, hdstop⟩
        · exact ⟨c, List.mem_cons_self, hlast.symm⟩
        · exact ⟨d, List.mem_cons_of_mem c hd, hdstop⟩
      · intro a b argv0 hab hsep hbegin
        obtain ⟨hsepc, hsepl⟩ := List.forall_mem_cons.mp hsep
        exact harea a b argv0 hab hsepl (hbegin.join (hmatch ▸ hsepc) hab)
    · rw [if_neg hmatch]
      obtain ⟨hle, hlast, harea⟩ := ih hl hlstop last
      refine ⟨hle, ?_, ?_⟩
      · rcases hlast with hlast | ⟨d, hd, hdstop⟩
        · exact .inl hlast
        · exact .inr ⟨d, List.mem_cons_of_mem c hd, hdstop⟩
      · intro a b argv0 hab hsep hbegin
        exact harea a b argv0 hab (fun d hd => hsep d (List.mem_cons_of_mem c hd)) hbegin

/-! ## The loop over environ -/

/-- What the loop needs for the entries that are left: they are in memory, and separate from one
another, from the block and from the area found so far. -/
structure Ready (argv0 block stop : Nat) (r : Relocation) (todo : List Str) : Prop where
  strings : ∀ c ∈ todo, c.In r.bytes
  addresses : ∀ c ∈ todo, c.stop < addressSpace
  apart : todo.Pairwise Str.Apart
  fresh : ∀ c ∈ todo, Separate c.addr c.stop block stop
  room : block ≤ r.p ∧ r.p + total todo ≤ stop
  area : ∀ c ∈ todo, Separate c.addr c.stop argv0 r.lastArgv
  block_area : block < stop → Separate block stop argv0 r.lastArgv

/-- An entry is left where it was, or copied into the part of the block from `p` to `q`. -/
def Moved (p q : Nat) (c' c : Str) : Prop :=
  c' = c ∨ ∃ a, c' = c.moved a ∧ p ≤ a ∧ a + c.size ≤ q

/-- What the loop has done to the entries `todo`. -/
structure Relocated (argv0 : Nat) (r r' : Relocation) (todo out : List Str) : Prop where
  entries : List.Forall₂ (Moved r.p r'.p) out todo
  strings : ∀ c ∈ out, c.In r'.bytes
  apart : out.Pairwise Str.Apart
  frame : ∀ a, a < r.p ∨ r'.p ≤ a → r'.bytes a = r.bytes a
  used : r.p ≤ r'.p ∧ r'.p ≤ r.p + total todo
  last : r.lastArgv ≤ r'.lastArgv ∧
    (r'.lastArgv = r.lastArgv ∨ ∃ c ∈ todo, c.stop = r'.lastArgv)
  keeps : ∀ a b, a < b → (∀ c ∈ todo, Separate a b c.addr c.stop) →
    Separate a b argv0 r.lastArgv → Separate a b argv0 r'.lastArgv
  area : ∀ c ∈ out, Separate c.addr c.stop argv0 r'.lastArgv

section
variable {argv0 block stop : Nat} {r : Relocation} {c : Str} {todo : List Str}

theorem copy_eq (hc : c.In r.bytes) (hstop : c.stop < addressSpace) :
    r.copy c.addr = ⟨memcpy r.bytes r.p c.addr c.size, c.stop, r.p + c.size⟩ := by
  simp only [Relocation.copy, strlen_of_in hc hstop]
  rfl

theorem Ready.skip (h : Ready argv0 block stop r (c :: todo)) : Ready argv0 block stop r todo := by
  have htail : ∀ d ∈ todo, d ∈ c :: todo := fun d hd => List.mem_cons_of_mem c hd
  have hroom := h.room
  rw [total_cons] at hroom
  exact ⟨fun d hd => h.strings d (htail d hd), fun d hd => h.addresses d (htail d hd),
    h.apart.of_cons, fun d hd => h.fresh d (htail d hd), ⟨hroom.1, by omega⟩,
    fun d hd => h.area d (htail d hd), h.block_area⟩

theorem Ready.copy (h : Ready argv0 block stop r (c :: todo)) (hmatch : r.lastArgv = c.addr) :
    Ready argv0 block stop (r.copy c.addr) todo := by
  have hskip := h.skip
  have hroom := h.room
  rw [total_cons] at hroom
  have hfresh : ∀ d : Str, Separate d.addr d.stop block stop →
      Separate d.addr d.stop r.p (r.p + c.size) := by
    intro d hd
    unfold Separate at *
    omega
  rw [copy_eq (h.strings c List.mem_cons_self) (h.addresses c List.mem_cons_self)]
  refine ⟨?_, hskip.addresses, hskip.apart, hskip.fresh, ⟨?_, ?_⟩, ?_, ?_⟩
  · intro d hd
    exact Str.in_memcpy_of_separate (hskip.strings d hd) (hfresh d (hskip.fresh d hd))
  · exact Nat.le_add_right_of_le hroom.1
  · dsimp only
    omega
  · intro d hd
    have hcd : Separate d.addr d.stop c.addr c.stop :=
      Separate.symm ((List.pairwise_cons.mp h.apart).1 d hd)
    exact (hskip.area d hd).join (hmatch ▸ hcd) d.addr_lt_stop
  · intro hlt
    have hcb := (h.fresh c List.mem_cons_self).symm
    exact (h.block_area hlt).join (hmatch ▸ hcb) hlt

theorem environLoop_match {e : Nat} {environ : List Nat} (h : r.lastArgv = e) :
    environLoop r (e :: environ) =
      ((environLoop (r.copy e) environ).1, r.p :: (environLoop (r.copy e) environ).2) := by
  rw [environLoop, if_pos h]

theorem environLoop_other {e : Nat} {environ : List Nat} (h : r.lastArgv ≠ e) :
    environLoop r (e :: environ) = ((environLoop r environ).1, e :: (environLoop r environ).2) := by
  rw [environLoop, if_neg h]

theorem Moved.mono {p p' q q' : Nat} {c' : Str} (h : Moved p' q' c' c) (hp : p ≤ p')
    (hq : q' ≤ q) : Moved p q c' c := by
  rcases h with rfl | ⟨x, rfl, hx, hsize⟩
  · exact .inl rfl
  · exact .inr ⟨x, rfl, Nat.le_trans hp hx, Nat.le_trans hsize hq⟩

theorem forall_of_moved {p q : Nat} {P : Str → Prop} {out : List Str}
    (h : List.Forall₂ (Moved p q) out todo) (hc : ∀ c ∈ todo, P c)
    (hm : ∀ c ∈ todo, ∀ a, p ≤ a → a + c.size ≤ q → P (c.moved a)) : ∀ c ∈ out, P c := by
  induction h with
  | nil => exact List.forall_mem_nil _
  | @cons c' c out todo hentry _ ih =>
    obtain ⟨hhead, htail⟩ := List.forall_mem_cons.mp hc
    obtain ⟨hmhead, hmtail⟩ := List.forall_mem_cons.mp hm
    refine List.forall_mem_cons.mpr ⟨?_, ih htail hmtail⟩
    rcases hentry with rfl | ⟨x, rfl, hp, hq⟩
    · exact hhead
    · exact hmhead x hp hq

theorem separate_of_moved {p q a b : Nat} {out : List Str}
    (h : List.Forall₂ (Moved p q) out todo) (hc : ∀ c ∈ todo, Separate a b c.addr c.stop)
    (hpq : Separate a b p q) : ∀ c ∈ out, Separate a b c.addr c.stop := by
  refine forall_of_moved h hc ?_
  intro c _ x hp hq
  rw [Str.moved_addr, Str.moved_stop]
  unfold Separate at *
  omega

/-- An entry that the area does not reach stays where it is. -/
theorem Relocated.skip {r' : Relocation} {out : List Str}
    (h : Ready argv0 block stop r (c :: todo)) (hr : Relocated argv0 r r' todo out) :
    Relocated argv0 r r' (c :: todo) (c :: out) := by
  have hroom := h.room
  have hused := hr.used
  have hapart := (List.pairwise_cons.mp h.apart).1
  rw [total_cons] at hroom
  have hfresh : Separate c.addr c.stop r.p r'.p := by
    have hc := h.fresh c List.mem_cons_self
    unfold Separate at *
    omega
  refine ⟨.cons (.inl rfl) hr.entries, ?_, ?_, hr.frame, ⟨hused.1, ?_⟩, ⟨hr.last.1, ?_⟩, ?_, ?_⟩
  · refine List.forall_mem_cons.mpr ⟨?_, hr.strings⟩
    refine Str.in_congr (fun a ha hb => hr.frame a ?_) (h.strings c List.mem_cons_self)
    unfold Separate at hfresh
    omega
  · exact List.pairwise_cons.mpr ⟨separate_of_moved hr.entries hapart hfresh, hr.apart⟩
  · rw [total_cons]
    omega
  · rcases hr.last.2 with hlast | ⟨d, hd, hdstop⟩
    · exact .inl hlast
    · exact .inr ⟨d, List.mem_cons_of_mem c hd, hdstop⟩
  · intro a b hab hsep hbegin
    exact hr.keeps a b hab (fun d hd => hsep d (List.mem_cons_of_mem c hd)) hbegin
  · refine List.forall_mem_cons.mpr ⟨?_, hr.area⟩
    exact hr.keeps c.addr c.stop c.addr_lt_stop hapart (h.area c List.mem_cons_self)

/-- An entry at the end of the area becomes part of it, and its copy is what stays. -/
theorem Relocated.copy {r' : Relocation} {out : List Str}
    (h : Ready argv0 block stop r (c :: todo)) (hmatch : r.lastArgv = c.addr)
    (hr : Relocated argv0 (r.copy c.addr) r' todo out) :
    Relocated argv0 r r' (c :: todo) (c.moved r.p :: out) := by
  have hready := h.copy hmatch
  rw [copy_eq (h.strings c List.mem_cons_self) (h.addresses c List.mem_cons_self)] at hr hready
  obtain ⟨hentries, hstrings, hpair, hframe, hused, hlast, hkeeps, harea⟩ := hr
  dsimp only at hentries hframe hused hlast hkeeps
  have hroom := h.room
  rw [total_cons] at hroom
  have hpos := c.size_pos
  have hcopy : Separate r.p (r.p + c.size) (r.p + c.size) r'.p := .inl (Nat.le_refl _)
  refine ⟨.cons ?_ ?_, ?_, ?_, ?_, ⟨?_, ?_⟩, ⟨?_, ?_⟩, ?_, ?_⟩
  · exact .inr ⟨r.p, rfl, Nat.le_refl _, hused.1⟩
  · exact hentries.imp fun _ _ hm => hm.mono (Nat.le_add_right _ _) (Nat.le_refl _)
  · refine List.forall_mem_cons.mpr ⟨?_, hstrings⟩
    refine Str.in_congr (fun a _ hb => hframe a (.inl hb)) ?_
    exact Str.in_memcpy r.p (h.strings c List.mem_cons_self)
  · refine List.pairwise_cons.mpr ⟨?_, hpair⟩
    refine separate_of_moved hentries (fun d hd => ?_) hcopy
    have hfresh := h.fresh d (List.mem_cons_of_mem c hd)
    rw [Str.moved_addr, Str.moved_stop]
    unfold Separate at *
    omega
  · intro a ha
    rw [hframe a (by omega)]
    exact fill_outside (by omega)
  · omega
  · rw [total_cons]
    omega
  · have := c.addr_lt_stop
    omega
  · rcases hlast.2 with hlast | ⟨d, hd, hdstop⟩
    · exact .inr ⟨c, List.mem_cons_self, hlast.symm⟩
    · exact .inr ⟨d, List.mem_cons_of_mem c hd, hdstop⟩
  · intro a b hab hsep hbegin
    obtain ⟨hsepc, hsept⟩ := List.forall_mem_cons.mp hsep
    exact hkeeps a b hab hsept (hbegin.join (hmatch ▸ hsepc) hab)
  · refine List.forall_mem_cons.mpr ⟨?_, harea⟩
    have hlt : block < stop := by omega
    have hblock := hkeeps block stop hlt
      (fun d hd => (h.fresh d (List.mem_cons_of_mem c hd)).symm) (hready.block_area hlt)
    exact hblock.mono hroom.1 (by rw [Str.moved_stop]; omega)

theorem environLoop_spec (h : Ready argv0 block stop r todo) :
    ∃ out, (environLoop r (todo.map Str.addr)).2 = out.map Str.addr ∧
      Relocated argv0 r (environLoop r (todo.map Str.addr)).1 todo out := by
  induction todo generalizing r with
  | nil =>
    exact ⟨[], rfl, .nil, List.forall_mem_nil _, .nil, fun _ _ => rfl,
      ⟨Nat.le_refl _, Nat.le_refl _⟩, ⟨Nat.le_refl _, .inl rfl⟩, fun _ _ _ _ h => h,
      List.forall_mem_nil _⟩
  | cons c todo ih =>
    rw [List.map_cons]
    by_cases hmatch : r.lastArgv = c.addr
    · rw [environLoop_match hmatch]
      obtain ⟨out, hout, hr⟩ := ih (h.copy hmatch)
      exact ⟨c.moved r.p :: out, congrArg _ hout, .copy h hmatch hr⟩
    · rw [environLoop_other hmatch]
      obtain ⟨out, hout, hr⟩ := ih h.skip
      exact ⟨c :: out, congrArg _ hout, .skip h hr⟩

end

/-! ## The whole call -/

/-- The loop over `argv` begins with its first string, so it ends behind one. -/
theorem argvLoop_argv0 {L : Layout} {s : Process} (hs : L.Holds s) :
    let last := argvLoop s.bytes (s.argv.headD 0) s.argv
    L.argv0 < last ∧ (∃ c ∈ L.argv, c.stop = last) ∧
    ∀ a b, a < b → (∀ c ∈ L.argv, Separate a b c.addr c.stop) →
      Separate a b L.argv0 last := by
  have hin : ∀ c ∈ L.argv, c.In s.bytes := fun c hc => hs.strings c (List.mem_append_left _ hc)
  have hstop : ∀ c ∈ L.argv, c.stop < addressSpace := fun c hc =>
    (L.addresses c (List.mem_append_left _ hc)).2
  obtain ⟨c, l, hargv⟩ := List.exists_cons_of_ne_nil L.argv_ne
  have hargv0 : L.argv0 = c.addr := by simp only [Layout.argv0, hargv, List.head_cons]
  dsimp only
  rw [hs.argv0, hs.argv, hargv0]
  rw [hargv] at hin hstop ⊢
  obtain ⟨hc, hl⟩ := List.forall_mem_cons.mp hin
  obtain ⟨hcstop, hlstop⟩ := List.forall_mem_cons.mp hstop
  rw [argvLoop_cons hc hcstop, if_pos rfl]
  obtain ⟨hle, hlast, harea⟩ := argvLoop_spec hl hlstop c.stop
  refine ⟨Nat.lt_of_lt_of_le c.addr_lt_stop hle, ?_, ?_⟩
  · rcases hlast with hlast | ⟨d, hd, hdstop⟩
    · exact ⟨c, List.mem_cons_self, hlast.symm⟩
    · exact ⟨d, List.mem_cons_of_mem c hd, hdstop⟩
  · intro a b hab hsep
    obtain ⟨hsepc, hsepl⟩ := List.forall_mem_cons.mp hsep
    exact harea a b c.addr hab hsepl hsepc

theorem Layout.Holds.ready {L : Layout} {s : Process} {block : Nat} (hs : L.Holds s)
    (hblock : L.Fresh block (environSize s.bytes s.environ)) :
    Ready L.argv0 block (block + environSize s.bytes s.environ)
      ⟨s.bytes, argvLoop s.bytes (s.argv.headD 0) s.argv, block⟩ L.environ := by
  have hmem : ∀ c ∈ L.environ, c ∈ L.argv ++ L.environ := fun c hc => List.mem_append_right _ hc
  obtain ⟨-, -, harea⟩ := argvLoop_argv0 hs
  refine ⟨fun c hc => hs.strings c (hmem c hc), fun c hc => (L.addresses c (hmem c hc)).2,
    (List.pairwise_append.mp L.apart).2.1, fun c hc => hblock.apart c (hmem c hc),
    ⟨Nat.le_refl _, ?_⟩, ?_, ?_⟩
  · exact Nat.le_of_eq (by rw [hs.size_eq])
  · exact fun c hc => harea c.addr c.stop c.addr_lt_stop fun d hd =>
      Separate.symm (L.apart_argv_environ hd hc)
  · exact fun hlt => harea _ _ hlt fun c hc =>
      (hblock.apart c (List.mem_append_left _ hc)).symm

/-- The process after the environment has been relocated: `argv` is as before, each string of the
environment is as before or a copy of it in the block, no two strings overlap, and nothing of
the environment is in the area from `argv[0]` to `lastArgv`. -/
structure Preserved (L L' : Layout) (block size : Nat) (s s' : Process) : Prop where
  holds : L'.Holds s'
  argv : L'.argv = L.argv
  entries : List.Forall₂ (Moved block (block + size)) L'.environ L.environ
  frame : ∀ a, a < block ∨ block + size ≤ a → s'.bytes a = s.bytes a
  start : L.argv0 ≤ s'.lastArgv
  last : ∃ c ∈ L.argv ++ L.environ, s'.lastArgv = c.addr + c.text.length
  nul : s'.bytes s'.lastArgv = 0
  area : ∀ c ∈ L'.environ, Separate c.addr c.stop L.argv0 (s'.lastArgv + 1)
  later : ∀ m : Mem, (∀ a, a < L.argv0 ∨ s'.lastArgv < a → m a = s'.bytes a) →
    ∀ c ∈ L'.environ, c.In m

/-- A write to the area does not reach a string that is separate from it. -/
theorem in_of_area {m m' : Mem} {c : Str} {argv0 last : Nat} (hin : c.In m)
    (hsep : Separate c.addr c.stop argv0 (last + 1))
    (h : ∀ a, a < argv0 ∨ last < a → m' a = m a) : c.In m' := by
  refine Str.in_congr (fun a ha hb => h a ?_) hin
  unfold Separate at hsep
  omega

theorem preserved_of_relocated {L : Layout} {s : Process} {block : Nat} {r : Relocation}
    {out : List Str} (hs : L.Holds s)
    (hfresh : L.Fresh block (environSize s.bytes s.environ))
    (hr : Relocated L.argv0 ⟨s.bytes, argvLoop s.bytes (s.argv.headD 0) s.argv, block⟩ r
      L.environ out) :
    ∃ L', Preserved L L' block (environSize s.bytes s.environ) s
      { s with bytes := r.bytes, environ := out.map Str.addr, lastArgv := r.lastArgv - 1 } := by
  obtain ⟨hargv0, ⟨e, he, hestop⟩, -⟩ := argvLoop_argv0 hs
  obtain ⟨hentries, hstrings, hpair, hframe, ⟨hused, hsize⟩, ⟨hgrows, hlast⟩, -, harea⟩ := hr
  dsimp only at hentries hframe hused hsize hgrows hlast
  rw [← hs.size_eq] at hsize
  have hpos : r.lastArgv - 1 + 1 = r.lastArgv := by omega
  have hkept : ∀ c ∈ L.argv ++ L.environ, c.In r.bytes := by
    intro c hc
    refine Str.in_congr (fun a ha hb => hframe a ?_) (hs.strings c hc)
    have hsep := hfresh.apart c hc
    unfold Separate at hsep
    omega
  have hends : ∃ c ∈ L.argv ++ L.environ, c.stop = r.lastArgv := by
    rcases hlast with hlast | ⟨d, hd, hdstop⟩
    · exact ⟨e, List.mem_append_left _ he, hestop.trans hlast.symm⟩
    · exact ⟨d, List.mem_append_right _ hd, hdstop⟩
  obtain ⟨d, hd, hdstop⟩ := hends
  have hdlast : r.lastArgv - 1 = d.addr + d.text.length := by
    rw [← hdstop, Str.stop_eq, Nat.add_sub_cancel]
  have happart : (L.argv ++ out).Pairwise Str.Apart := by
    refine List.pairwise_append.mpr ⟨(List.pairwise_append.mp L.apart).1, hpair, ?_⟩
    intro c hc
    refine separate_of_moved hentries (fun d hd => L.apart_argv_environ hc hd) ?_
    have hsep := hfresh.apart c (List.mem_append_left _ hc)
    unfold Separate at *
    omega
  have haddresses : ∀ c ∈ L.argv ++ out, 0 < c.addr ∧ c.stop < addressSpace := by
    refine List.forall_mem_append.mpr
      ⟨fun c hc => L.addresses c (List.mem_append_left _ hc), ?_⟩
    refine forall_of_moved hentries
      (fun c hc => L.addresses c (List.mem_append_right _ hc)) ?_
    intro c _ a ha hstop
    obtain ⟨hblock, hend⟩ := hfresh.addresses
    rw [Str.moved_addr, Str.moved_stop]
    omega
  have hareas : ∀ c ∈ out, Separate c.addr c.stop L.argv0 (r.lastArgv - 1 + 1) := by
    rwa [hpos]
  refine ⟨⟨L.argv, out, L.argv_ne, happart, haddresses⟩, ⟨hs.argv, rfl, ?_⟩, rfl, ?_, ?_, ?_,
    ⟨d, hd, hdlast⟩, ?_, hareas, ?_⟩
  · exact List.forall_mem_append.mpr
      ⟨fun c hc => hkept c (List.mem_append_left _ hc), hstrings⟩
  · exact hentries.imp fun _ _ hm => hm.mono (Nat.le_refl _) hsize
  · intro a ha
    exact hframe a (by omega)
  · dsimp only
    omega
  · dsimp only
    rw [hdlast]
    exact Str.nul_of_in (hkept d hd)
  · exact fun m hm c hc => in_of_area (hstrings c hc) (hareas c hc) hm

theorem block_of_initialized {s s' : Process} {malloc : Nat → Option Nat}
    (h : initializeProcessEnv malloc s = (true, s')) :
    ∃ block, malloc (environSize s.bytes s.environ) = some block := by
  unfold initializeProcessEnv at h
  cases hblock : malloc (environSize s.bytes s.environ) with
  | none =>
    rw [hblock] at h
    cases h
  | some block => exact ⟨block, rfl⟩

theorem preserved_of_initialized {L : Layout} {s s' : Process} {malloc : Nat → Option Nat}
    {block : Nat} (hs : L.Holds s)
    (hfresh : L.Fresh block (environSize s.bytes s.environ))
    (hblock : malloc (environSize s.bytes s.environ) = some block)
    (h : initializeProcessEnv malloc s = (true, s')) :
    ∃ L', Preserved L L' block (environSize s.bytes s.environ) s s' := by
  obtain ⟨out, hout, hr⟩ := environLoop_spec (hs.ready hfresh)
  rw [← hs.environ] at hout hr
  obtain ⟨L', hpreserved⟩ := preserved_of_relocated hs hfresh hr
  rw [← hout] at hpreserved
  rw [initializeProcessEnv, hblock] at h
  have hreturned := (Prod.mk.inj h).2
  exact ⟨L', hreturned ▸ hpreserved⟩

/-- The environment survives its relocation, whatever the layout. -/
theorem initializeProcessEnv_preserves (L : Layout) (s s' : Process) (malloc : Nat → Option Nat)
    (hs : L.Holds s)
    (hmalloc : ∀ block, malloc (environSize s.bytes s.environ) = some block →
      L.Fresh block (environSize s.bytes s.environ))
    (h : initializeProcessEnv malloc s = (true, s')) :
    ∃ L' block, malloc (environSize s.bytes s.environ) = some block ∧
      Preserved L L' block (environSize s.bytes s.environ) s s' := by
  obtain ⟨block, hblock⟩ := block_of_initialized h
  obtain ⟨L', hpreserved⟩ := preserved_of_initialized hs (hmalloc block hblock) hblock h
  exact ⟨L', block, hblock, hpreserved⟩

/-! ## A process -/

/-- `svnsrv` at 16 and one string of its environment right behind it at 23, the other at 40. -/
def launched : Process where
  bytes := fun a =>
    (List.replicate 16 1 ++ ascii "svnsrv" ++ 0 :: ascii "A=1" ++ 0 :: List.replicate 13 1 ++
      ascii "B=" ++ [0]).getD a 0
  argv := [16]
  environ := [40, 23]
  lastArgv := 0

theorem launched_apart : [Str.mk 16 (ascii "svnsrv") (by decide), Str.mk 40 (ascii "B=") (by decide),
    Str.mk 23 (ascii "A=1") (by decide)].Pairwise Str.Apart := by decide

theorem launched_addresses : ∀ c ∈ [Str.mk 16 (ascii "svnsrv") (by decide),
    Str.mk 40 (ascii "B=") (by decide), Str.mk 23 (ascii "A=1") (by decide)],
    0 < c.addr ∧ c.stop < addressSpace := by decide

def launchLayout : Layout where
  argv := [Str.mk 16 (ascii "svnsrv") (by decide)]
  environ := [Str.mk 40 (ascii "B=") (by decide), Str.mk 23 (ascii "A=1") (by decide)]
  argv_ne := List.cons_ne_nil _ _
  apart := launched_apart
  addresses := launched_addresses

theorem launchLayout_holds : launchLayout.Holds launched := ⟨rfl, rfl, by decide⟩

/-- What `malloc` returns for the seven bytes of the environment. -/
theorem launchLayout_fresh : ∀ block, some 100 = some block →
    launchLayout.Fresh block (environSize launched.bytes launched.environ) := by
  intro block h
  rw [launchLayout_holds.size_eq]
  cases h
  exact ⟨by decide, by decide⟩

theorem initializeProcessEnv_preserves_launched :
    ∃ L' block, some 100 = some block ∧
      Preserved launchLayout L' block (environSize launched.bytes launched.environ) launched
        (initializeProcessEnv (fun _ => some 100) launched).2 :=
  initializeProcessEnv_preserves launchLayout launched
    (initializeProcessEnv (fun _ => some 100) launched).2 (fun _ => some 100)
    launchLayout_holds launchLayout_fresh rfl

end Svnsrv.Title
