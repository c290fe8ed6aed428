import Mathlib.Data.List.Forall2
import Svnsrv.Lib.CText

/-!
# The command line of a daemon

`ParsePathAndArgv` of daemonize_linux.inl rebuilds the argument vector of a running
process from /proc. Its loop passes over the first byte of each argument it finds, so an
argument behind an empty one is lost, and it reads no more than one buffer.
-/

namespace Svnsrv.Daemon

open CText
set_option autoImplicit false

/-- The arguments of a process, at least one; a C string has no NUL in it. -/
structure ArgVector where
  args : List Bytes
  nonempty : args ≠ []
  nul_free : ∀ a ∈ args, 0 ∉ a

/-- The text of /proc/<pid>/cmdline. -/
def cmdline (args : List Bytes) : Bytes := args.flatMap fun a => a ++ [0]

/-- What /proc has of a process: the target of `exe`, none if `readlink` returns -1, and the text
of `cmdline`, none if it cannot be opened. -/
structure ProcEntry where
  exe : Option Bytes
  cmdline : Option Bytes

def ProcEntry.Of (proc : ProcEntry) (argv : ArgVector) : Prop :=
  ∀ text, proc.cmdline = some text → text = Daemon.cmdline argv.args

/-- The entry of a process that can be read. -/
def ProcEntry.running (exe : Bytes) (args : List Bytes) : ProcEntry :=
  ⟨some exe, some (Daemon.cmdline args)⟩

theorem running_of (exe : Bytes) (argv : ArgVector) :
    (ProcEntry.running exe argv.args).Of argv := fun _ h => (Option.some.inj h).symm

/-- `path`, `buf` and `Argv_` on return; an element of `Argv_` is an offset in `buf` or `nullptr`. -/
structure Parsed where
  path : Bytes
  buf : Bytes
  Argv_ : List (Option Nat)
  deriving DecidableEq, Repr

/-- `for (auto i = 0; i < ret; i++)`, at index `i` with the bytes from there to `ret`. The `++i` in
the body and the one of the loop pass over the byte behind a NUL. -/
def argvLoop (i : Nat) : Bytes → List Nat
  | [] => []
  | [_] => []
  | c :: d :: t => if c = 0 then (i + 1) :: argvLoop (i + 2) t else argvLoop (i + 1) (d :: t)

def parsePathAndArgv (proc : ProcEntry) (buf : Bytes) (bufsize : Nat) : Option Parsed :=
  let exePath := (proc.exe.getD []).take 4095
  -- `sz == 0` is an empty link; an error is -1 and goes on with an empty path
  if proc.exe = some [] then none
  else match proc.cmdline with
    | none => none
    | some text =>
      let data := text.take bufsize
      some {
        path := exePath.takeWhile (· ≠ 0)
        buf := data ++ buf.drop data.length
        Argv_ := some 0 :: ((argvLoop 0 data).map some ++ [none]) }

/-- The pointer `o` denotes the string `a`, and its NUL is inside the buffer. -/
def Denotes (buf : Bytes) (o : Nat) (a : Bytes) : Prop := ∃ rest, buf.drop o = a ++ 0 :: rest

/-- `Argv_` is the vector and `nullptr`. -/
def Parsed.Is (r : Parsed) (argv : ArgVector) : Prop :=
  ∃ os, r.Argv_ = os.map some ++ [none] ∧ List.Forall₂ (Denotes r.buf) os argv.args

/-- An argument other than the first and the last is empty. -/
def ArgVector.hollow (argv : ArgVector) : Prop := [] ∈ argv.args.tail.dropLast

instance (argv : ArgVector) : Decidable argv.hollow := inferInstanceAs (Decidable (_ ∈ _))

/-! ## The loop over one argument -/

@[simp] theorem cmdline_cons (a : Bytes) (as : List Bytes) :
    cmdline (a :: as) = a ++ 0 :: cmdline as := by
  simp [cmdline]

theorem nul_free_cons {c : UInt8} {a : Bytes} (h : 0 ∉ c :: a) : c ≠ 0 ∧ 0 ∉ a :=
  ⟨fun hc => h (hc ▸ List.mem_cons_self), fun ha => h (List.mem_cons_of_mem c ha)⟩

theorem cmdline_ne_nil {as : List Bytes} (h : as ≠ []) : cmdline as ≠ [] := by
  obtain ⟨a, as, rfl⟩ := List.exists_cons_of_ne_nil h
  simp

/-- The loop finds the end of an argument; behind it is the next one, whose first byte is passed
over. -/
theorem argvLoop_arg {a : Bytes} (ha : 0 ∉ a) (i : Nat) {rest : Bytes} (hne : rest ≠ []) :
    argvLoop i (a ++ 0 :: rest) = (i + a.length + 1) :: argvLoop (i + a.length + 2) rest.tail := by
  induction a generalizing i with
  | nil =>
    obtain ⟨d, t, rfl⟩ := List.exists_cons_of_ne_nil hne
    simp [argvLoop]
  | cons c a ih =>
    obtain ⟨hc, ha'⟩ := nul_free_cons ha
    obtain ⟨d, t, hdt⟩ := List.exists_cons_of_ne_nil (show a ++ 0 :: rest ≠ [] by simp)
    rw [List.cons_append, hdt, argvLoop, if_neg hc, ← hdt, ih ha' (i + 1), List.length_cons]
    congr 2 <;> omega

theorem argvLoop_last {a : Bytes} (ha : 0 ∉ a) (i : Nat) : argvLoop i (a ++ [0]) = [] := by
  induction a generalizing i with
  | nil => rfl
  | cons c a ih =>
    obtain ⟨hc, ha'⟩ := nul_free_cons ha
    obtain ⟨d, t, hdt⟩ := List.exists_cons_of_ne_nil (show a ++ [0] ≠ [] by simp)
    rw [List.cons_append, hdt, argvLoop, if_neg hc, ← hdt, ih ha' (i + 1)]

theorem argvLoop_cons {a : Bytes} {as : List Bytes} (ha : 0 ∉ a) (i : Nat) (hne : as ≠ []) :
    argvLoop i (cmdline (a :: as)) =
      (i + a.length + 1) :: argvLoop (i + a.length + 2) (cmdline as).tail := by
  rw [cmdline_cons]
  exact argvLoop_arg ha i (cmdline_ne_nil hne)

theorem argvLoop_singleton {a : Bytes} (ha : 0 ∉ a) (i : Nat) : argvLoop i (cmdline [a]) = [] := by
  rw [cmdline_cons]
  exact argvLoop_last ha i

/-! ## Vectors without an empty argument inside -/

/-- Where the arguments begin. -/
def starts (o : Nat) : List Bytes → List Nat
  | [] => []
  | a :: as => o :: starts (o + a.length + 1) as

theorem starts_denote {buf more : Bytes} {o : Nat} {as : List Bytes}
    (h : buf.drop o = cmdline as ++ more) : List.Forall₂ (Denotes buf) (starts o as) as := by
  induction as generalizing o with
  | nil => exact .nil
  | cons a as ih =>
    have hhead : buf.drop o = a ++ 0 :: (cmdline as ++ more) := by simp [h]
    refine .cons ⟨_, hhead⟩ (ih ?_)
    rw [Nat.add_assoc, ← List.drop_drop, hhead, List.append_cons, List.drop_left' (by simp)]

/-- Behind the first byte of an argument that begins at `o`. -/
theorem argvLoop_tail {as : List Bytes} {o : Nat} (hnul : ∀ a ∈ as, 0 ∉ a)
    (hfull : [] ∉ as.dropLast) : argvLoop (o + 1) (cmdline as).tail = (starts o as).tail := by
  induction as generalizing o with
  | nil => rfl
  | cons a as ih =>
    obtain ⟨ha, has⟩ := List.forall_mem_cons.mp hnul
    by_cases hlast : as = []
    · subst hlast
      cases a with
      | nil => rfl
      | cons c a =>
        obtain ⟨-, ha'⟩ := nul_free_cons ha
        exact argvLoop_singleton ha' (o + 1)
    · rw [List.dropLast_cons_of_ne_nil hlast, List.mem_cons, not_or] at hfull
      cases a with
      | nil => exact absurd rfl hfull.1
      | cons c a =>
        obtain ⟨-, ha'⟩ := nul_free_cons ha
        obtain ⟨e, es, rfl⟩ := List.exists_cons_of_ne_nil hlast
        have hrest := ih (o := o + (c :: a).length + 1) has hfull.2
        change argvLoop (o + 1) (cmdline (a :: e :: es)) = starts (o + (c :: a).length + 1) (e :: es)
        have hindex : o + 1 + a.length = o + (c :: a).length := by
          rw [List.length_cons]
          omega
        rw [argvLoop_cons ha' (o + 1) hlast, hindex]
        exact congrArg _ hrest

theorem argvLoop_starts {as : List Bytes} (hnul : ∀ a ∈ as, 0 ∉ a)
    (hfull : [] ∉ as.tail.dropLast) : argvLoop 0 (cmdline as) = (starts 0 as).tail := by
  cases as with
  | nil => rfl
  | cons a as =>
    obtain ⟨ha, has⟩ := List.forall_mem_cons.mp hnul
    by_cases hlast : as = []
    · subst hlast
      exact argvLoop_singleton ha 0
    · obtain ⟨e, es, rfl⟩ := List.exists_cons_of_ne_nil hlast
      rw [argvLoop_cons ha 0 hlast, argvLoop_tail has hfull]
      rfl

/-! ## What is lost -/

/-- How many arguments the loop finds, from the beginning of one and from behind its first byte.
Two are counted once where an argument that is not the last is empty. -/
theorem argvLoop_length {as : List Bytes} (hnul : ∀ a ∈ as, 0 ∉ a) (hne : as ≠ []) (i : Nat) :
    (argvLoop i (cmdline as)).length + 1 ≤ as.length ∧
    (argvLoop i (cmdline as).tail).length + 1 ≤ as.length ∧
    ([] ∈ as.dropLast → (argvLoop i (cmdline as).tail).length + 1 < as.length) := by
  induction as generalizing i with
  | nil => exact absurd rfl hne
  | cons a as ih =>
    obtain ⟨ha, has⟩ := List.forall_mem_cons.mp hnul
    have hbegin : ∀ i (a : Bytes), 0 ∉ a →
        (argvLoop i (cmdline (a :: as))).length + 1 ≤ (a :: as).length ∧
        ([] ∈ as.dropLast → (argvLoop i (cmdline (a :: as))).length + 1 < (a :: as).length) := by
      intro i a ha
      by_cases hlast : as = []
      · subst hlast
        rw [argvLoop_singleton ha]
        exact ⟨Nat.le_refl 1, fun h => by cases h⟩
      · obtain ⟨-, hle, hlt⟩ := ih has hlast (i + a.length + 2)
        rw [argvLoop_cons ha i hlast, List.length_cons, List.length_cons]
        exact ⟨by omega, fun h => by have := hlt h; omega⟩
    refine ⟨(hbegin i a ha).1, ?_⟩
    cases a with
    | nil =>
      change (argvLoop i (cmdline as)).length + 1 ≤ _ ∧ (_ → (argvLoop i (cmdline as)).length + 1 < _)
      by_cases hlast : as = []
      · subst hlast
        exact ⟨Nat.le_refl 1, fun h => by cases h⟩
      · have hle := (ih has hlast i).1
        rw [List.length_cons]
        exact ⟨by omega, fun _ => by omega⟩
    | cons c a =>
      obtain ⟨-, ha'⟩ := nul_free_cons ha
      obtain ⟨hle, hlt⟩ := hbegin i a ha'
      refine ⟨hle, fun h => hlt ?_⟩
      by_cases hlast : as = []
      · subst hlast
        cases h
      · rw [List.dropLast_cons_of_ne_nil hlast, List.mem_cons] at h
        exact h.resolve_left (by simp)

theorem argvLoop_hollow {as : List Bytes} (hnul : ∀ a ∈ as, 0 ∉ a) (h : [] ∈ as.tail.dropLast) :
    (argvLoop 0 (cmdline as)).length + 1 < as.length := by
  cases as with
  | nil => cases h
  | cons a as =>
    obtain ⟨ha, has⟩ := List.forall_mem_cons.mp hnul
    by_cases hlast : as = []
    · subst hlast
      cases h
    · have hlt := (argvLoop_length has hlast (0 + a.length + 2)).2.2 h
      rw [argvLoop_cons ha 0 hlast, List.length_cons, List.length_cons]
      omega

theorem denotes_end {buf : Bytes} {o : Nat} {a : Bytes} (h : Denotes buf o a) :
    o + a.length + 1 ≤ buf.length := by
  obtain ⟨rest, hrest⟩ := h
  have hlength := congrArg List.length hrest
  simp only [List.length_drop, List.length_append, List.length_cons] at hlength
  omega

/-- A string ends at the first NUL behind its pointer. -/
theorem denotes_before_nul {buf : Bytes} {o i : Nat} {a : Bytes} (h : Denotes buf o a) (ha : 0 ∉ a)
    (ho : o ≤ i) (hi : buf[i]? = some 0) : o + a.length ≤ i := by
  by_contra hlt
  obtain ⟨rest, hrest⟩ := h
  apply ha
  have hget : (buf.drop o)[i - o]? = some 0 := by
    rw [List.getElem?_drop, Nat.add_sub_cancel' ho, hi]
  rw [hrest, List.getElem?_append_left (by omega)] at hget
  exact List.mem_of_getElem? hget

/-- A pointer of the loop is behind a NUL, so strings that all end inside the buffer fit in it. -/
theorem denotes_total {buf t more : Bytes} {args : List Bytes} {o i : Nat}
    (hbuf : buf.drop i = t ++ more) (ho : o ≤ i)
    (h : List.Forall₂ (Denotes buf) (o :: argvLoop i t) args) (hnul : ∀ a ∈ args, 0 ∉ a) :
    o + (cmdline args).length ≤ buf.length := by
  have hone : ∀ {o args}, List.Forall₂ (Denotes buf) [o] args →
      o + (cmdline args).length ≤ buf.length := by
    intro o args h
    obtain ⟨a, as, ha, has, rfl⟩ := List.forall₂_cons_left_iff.mp h
    rw [List.forall₂_nil_left_iff.mp has]
    have hend := denotes_end ha
    rw [cmdline_cons, List.length_append]
    exact hend
  induction i, t using argvLoop.induct generalizing o args with
  | case1 i => exact hone h
  | case2 i c => exact hone h
  | case3 i d t ih =>
    rw [argvLoop, if_pos rfl] at h
    obtain ⟨a, as, ha, has, rfl⟩ := List.forall₂_cons_left_iff.mp h
    obtain ⟨hnul_a, hnul_as⟩ := List.forall_mem_cons.mp hnul
    have hget : buf[i]? = some 0 := by
      rw [← Nat.add_zero i, ← List.getElem?_drop, hbuf]
      rfl
    have hend := denotes_before_nul ha hnul_a ho hget
    have hbuf' : buf.drop (i + 2) = t ++ more := by
      rw [← List.drop_drop, hbuf]
      rfl
    have hrest := ih hbuf' (Nat.le_succ _) has hnul_as
    rw [cmdline_cons, List.length_append, List.length_cons]
    omega
  | case4 i c d t hc ih =>
    rw [argvLoop, if_neg hc] at h
    refine ih ?_ (Nat.le_succ_of_le ho) h hnul
    rw [← List.drop_drop, hbuf]
    rfl

/-! ## The exact condition -/

theorem parsePathAndArgv_eq_none {proc : ProcEntry} {buf : Bytes} {bufsize : Nat} :
    parsePathAndArgv proc buf bufsize = none ↔ proc.exe = some [] ∨ proc.cmdline = none := by
  unfold parsePathAndArgv
  dsimp only
  split
  · rename_i hexe
    simp [hexe]
  · rename_i hexe
    cases hcmd : proc.cmdline <;> simp [hexe]

theorem parsed_is {proc : ProcEntry} {argv : ArgVector} {buf text : Bytes} {bufsize : Nat}
    {r : Parsed} (htext : proc.cmdline = some text)
    (hr : parsePathAndArgv proc buf bufsize = some r) :
    r.Is argv ↔ List.Forall₂ (Denotes (text.take bufsize ++ buf.drop (text.take bufsize).length))
      (0 :: argvLoop 0 (text.take bufsize)) argv.args := by
  unfold parsePathAndArgv at hr
  dsimp only at hr
  split at hr
  · cases hr
  · rw [htext, Option.some.injEq] at hr
    subst hr
    constructor
    · intro his
      obtain ⟨os, hos, h⟩ := his
      rw [← List.cons_append] at hos
      have hmap := List.append_cancel_right hos
      have heq : 0 :: argvLoop 0 (text.take bufsize) = os :=
        List.map_injective_iff.mpr (fun _ _ h => Option.some.inj h) hmap
      rwa [heq]
    · exact fun h => ⟨_, rfl, h⟩

/-- What is parsed is the vector exactly if all of it fits in the buffer and no argument inside it
is empty. -/
theorem parsed_is_iff {proc : ProcEntry} {argv : ArgVector} {buf : Bytes} {r : Parsed}
    (hproc : proc.Of argv) (hr : parsePathAndArgv proc buf buf.length = some r) :
    r.Is argv ↔ (cmdline argv.args).length ≤ buf.length ∧ ¬argv.hollow := by
  obtain ⟨text, htext⟩ : ∃ text, proc.cmdline = some text := by
    rw [← Option.ne_none_iff_exists']
    intro hnone
    rw [parsePathAndArgv_eq_none.mpr (.inr hnone)] at hr
    cases hr
  obtain rfl := hproc text htext
  rw [parsed_is htext hr]
  constructor
  · intro h
    have htotal := denotes_total (i := 0) rfl (Nat.le_refl 0) h argv.nul_free
    have hfits : (cmdline argv.args).length ≤ buf.length := by
      simp only [List.length_append, List.length_drop, List.length_take] at htotal
      omega
    refine ⟨hfits, fun hhollow => ?_⟩
    have hlost := argvLoop_hollow argv.nul_free hhollow
    have hcount := h.length_eq
    rw [List.take_of_length_le hfits, List.length_cons] at hcount
    omega
  · intro hwhole
    obtain ⟨hfits, hfull⟩ := hwhole
    rw [List.take_of_length_le hfits, argvLoop_starts argv.nul_free hfull]
    have hall : (cmdline argv.args ++ buf.drop (cmdline argv.args).length).drop 0 =
        cmdline argv.args ++ buf.drop (cmdline argv.args).length := List.drop_zero
    have hdenote := starts_denote hall
    obtain ⟨a, as, hargs⟩ := List.exists_cons_of_ne_nil argv.nonempty
    rw [hargs] at hdenote ⊢
    exact hdenote

/-- A restart executes the command line of the daemon, if it gets to it, exactly when the command
line fits in the buffer and has no empty argument inside. -/
theorem restart_argv_iff (proc : ProcEntry) (argv : ArgVector) (buf : Bytes)
    (hproc : proc.Of argv) (hbuf : buf.length = 4096) :
    (∀ r, parsePathAndArgv proc buf 4096 = some r → r.Is argv) ↔
      proc.exe = some [] ∨ proc.cmdline = none ∨
      ((cmdline argv.args).length ≤ 4096 ∧ ¬argv.hollow) := by
  rw [← hbuf]
  cases hr : parsePathAndArgv proc buf buf.length with
  | none =>
    have hfails := parsePathAndArgv_eq_none.mp hr
    constructor
    · exact fun _ => hfails.elim .inl fun h => .inr (.inl h)
    · intro _ r h
      cases h
  | some r =>
    have hruns : ¬(proc.exe = some [] ∨ proc.cmdline = none) := by
      rw [← parsePathAndArgv_eq_none, hr]
      exact Option.some_ne_none r
    rw [← or_assoc, or_iff_right hruns, ← parsed_is_iff hproc hr]
    constructor
    · exact fun h => h r rfl
    · intro h r' hr'
      cases hr'
      exact h

theorem restart_argv_iff_daemon :
    ∃ r, parsePathAndArgv
        (ProcEntry.running (ascii "/usr/bin/svnsrv") [ascii "svnsrv", ascii "-D"])
        (List.replicate 4096 0) 4096 = some r ∧
      r.Is ⟨[ascii "svnsrv", ascii "-D"], by decide, by decide⟩ := by
  refine ⟨⟨_, _, [some 0, some 7, none]⟩, rfl, ?_⟩
  exact (restart_argv_iff
    (ProcEntry.running (ascii "/usr/bin/svnsrv") [ascii "svnsrv", ascii "-D"])
    ⟨[ascii "svnsrv", ascii "-D"], by decide, by decide⟩ (List.replicate 4096 0)
    (running_of (ascii "/usr/bin/svnsrv") ⟨[ascii "svnsrv", ascii "-D"], by decide, by decide⟩)
    List.length_replicate).mpr (.inr (.inr ⟨by decide, by decide⟩)) _ rfl

/-- A daemon that was started as `svnsrv "" -D` is executed again without the last argument. -/
theorem empty_argument_lost :
    ∃ r, parsePathAndArgv
        (ProcEntry.running (ascii "/usr/bin/svnsrv") [ascii "svnsrv", [], ascii "-D"])
        (List.replicate 4096 0) 4096 = some r ∧
      r.Argv_ = [some 0, some 7, none] ∧
      ¬r.Is ⟨[ascii "svnsrv", [], ascii "-D"], by decide, by decide⟩ := by
  refine ⟨⟨_, _, [some 0, some 7, none]⟩, rfl, rfl, ?_⟩
  intro his
  obtain ⟨os, hos, h⟩ := his
  have hargs := h.length_eq
  have hptrs := congrArg List.length hos
  simp only [List.length_append, List.length_map, List.length_cons, List.length_nil] at hargs hptrs
  omega

end Svnsrv.Daemon
