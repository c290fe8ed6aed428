import Svnsrv.Lib.Transition
import Svnsrv.KlogFiles

/-!
# Rotation and records

The counter of a log is never set back, so from the 50001st record on every record
rotates its log, and two rotations in one minute give one name. As long as no file
of a log lies at the new name, every record stays in a file of its log.
-/

namespace Svnsrv.Klog

open CText
set_option autoImplicit false

namespace Klogger

variable (k : Klogger) (log log' : LogKind) (p : FilePtr)

@[simp] theorem file_count : (k.count log).file log' = k.file log' := by
  cases log <;> cases log' <;> rfl

@[simp] theorem stream_count : (k.count log).stream log' = k.stream log' := by
  cases log <;> cases log' <;> rfl

@[simp] theorem file_withStream : (k.withStream p log).file log' = k.file log' := by
  cases log <;> cases log' <;> rfl

@[simp] theorem stream_withStream_self : (k.withStream p log).stream log = p := by
  cases log <;> rfl

theorem stream_withStream_of_ne (h : log' ≠ log) :
    (k.withStream p log).stream log' = k.stream log' := by
  cases log <;> cases log' <;> first | rfl | exact absurd rfl h

end Klogger

section Names

variable {s t : State} {log : LogKind} {name : Bytes} {i : Nat}

theorem mem_names : name ∈ s.names log ↔
    name = s.klogger.file log ∨ (s.klogger.file log, name) ∈ s.renamed := by
  simp only [State.names, List.mem_cons, List.mem_map, List.mem_filter, decide_eq_true_eq]
  constructor
  · rintro (rfl | ⟨⟨old, new⟩, ⟨hmem, rfl⟩, rfl⟩)
    · exact .inl rfl
    · exact .inr hmem
  · rintro (rfl | hmem)
    · exact .inl rfl
    · exact .inr ⟨_, ⟨hmem, rfl⟩, rfl⟩

theorem mem_filesOf : i ∈ s.filesOf log ↔ ∃ name ∈ s.names log, s.files.dir name = some i :=
  List.mem_filterMap

theorem filesOf_lt (h : i ∈ s.filesOf log) : i < s.files.next := by
  obtain ⟨name, -, hdir⟩ := mem_filesOf.mp h
  exact s.files.dir_lt name i hdir

theorem filesOf_congr (hfile : t.klogger.file log = s.klogger.file log)
    (hrenamed : t.renamed = s.renamed) (hdir : t.files.dir = s.files.dir) :
    t.filesOf log = s.filesOf log := by
  simp only [State.filesOf, State.names, hfile, hrenamed, hdir]

end Names

/-! ## The invariant -/

/-- The record is in one file, and there once. -/
def Once (s : State) (log : LogKind) (n : Nat) (bytes : Bytes) (i : Nat) : Prop :=
  (s.files.data i).count (.record log n bytes) = 1 ∧
    ∀ j, j ≠ i → .record log n bytes ∉ s.files.data j

/-- Every log is written to a file of its own names, and its records are in such files. -/
structure Sound (s : State) : Prop where
  closed_lt : ∀ k, .file k ∈ s.closed → k < s.streams.length
  streams : ∀ log, ∃ k i, s.klogger.stream log = .file k ∧ .file k ∉ s.closed ∧
    s.streams[k]? = some i ∧ i ∈ s.filesOf log
  distinct : s.klogger.stream .access ≠ s.klogger.stream .error
  named : ∀ log, ∃ i, s.files.dir (s.klogger.file log) = some i
  own : ∀ p ∈ s.renamed, ∀ log, p.2 = s.klogger.file log → p.1 = p.2
  known : ∀ i log n bytes, .record log n bytes ∈ s.files.data i →
    (s.written log)[n]? = some bytes
  kept : ∀ log n bytes, (s.written log)[n]? = some bytes →
    ∃ i ∈ s.filesOf log, Once s log n bytes i

theorem Sound.all_kept {s : State} (h : Sound s) : Kept s := by
  intro log n bytes hwritten
  obtain ⟨i, hi, hone, hothers⟩ := h.kept log n bytes hwritten
  exact ⟨i, hi, hone, fun j _ hj => hothers j hj⟩

theorem Sound.stream_ne {s : State} (h : Sound s) {log log' : LogKind} (hne : log' ≠ log) :
    s.klogger.stream log' ≠ s.klogger.stream log := by
  cases log <;> cases log'
  · exact absurd rfl hne
  · exact h.distinct.symm
  · exact h.distinct
  · exact absurd rfl hne

/-! ## Writing -/

section Append

variable {s t : State} {log : LogKind} {buffer : Bytes} {i : Nat}

/-- The state after a record has been appended to the file `i`. -/
def State.appended (s : State) (log : LogKind) (buffer : Bytes) (i : Nat) : State :=
  { s with
    klogger := s.klogger.count log
    files := s.files.put i (s.files.data i ++ [.record log (s.written log).length buffer])
    written := Function.update s.written log (s.written log ++ [buffer]) }

theorem append_eq {k : Nat} (hstream : s.klogger.stream log = .file k) (hopen : .file k ∉ s.closed)
    (hk : s.streams[k]? = some i) : s.append log buffer = some (s.appended log buffer i) := by
  simp [State.append, State.fwrite, hstream, hopen, hk, State.appended]

theorem filesOf_appended (log' : LogKind) :
    (s.appended log buffer i).filesOf log' = s.filesOf log' :=
  filesOf_congr (Klogger.file_count _ _ _) rfl rfl

theorem written_appended {log' : LogKind} {n : Nat} {bytes : Bytes} :
    ((s.appended log buffer i).written log')[n]? = some bytes ↔
      (s.written log')[n]? = some bytes ∨
        (log' = log ∧ n = (s.written log).length ∧ bytes = buffer) := by
  change (Function.update s.written log (s.written log ++ [buffer]) log')[n]? = some bytes ↔ _
  by_cases hlog : log' = log
  · subst hlog
    rw [Function.update_self, List.getElem?_append]
    split
    · simp only [true_and]
      constructor
      · exact .inl
      · rintro (h | ⟨rfl, -⟩)
        · exact h
        · omega
    · rename_i hn
      rw [List.getElem?_eq_none (by omega : (s.written log').length ≤ n)]
      constructor
      · intro h
        obtain ⟨hlt, hbytes⟩ := List.getElem?_eq_some_iff.mp h
        rw [List.length_singleton] at hlt
        refine .inr ⟨rfl, by omega, ?_⟩
        rw [← hbytes, List.getElem_singleton]
      · rintro (h | ⟨-, rfl, rfl⟩)
        · cases h
        · simp
  · rw [Function.update_of_ne hlog]
    simp [hlog]

theorem data_appended (j : Nat) : (s.appended log buffer i).files.data j =
    if j = i then s.files.data i ++ [.record log (s.written log).length buffer]
    else s.files.data j := by
  by_cases hj : j = i
  · subst hj
    simp [State.appended]
  · rw [if_neg hj]
    exact Files.put_data_of_ne _ hj

theorem count_appended {e : Entry} (he : e ≠ .record log (s.written log).length buffer) (j : Nat) :
    ((s.appended log buffer i).files.data j).count e = (s.files.data j).count e := by
  rw [data_appended]
  split
  · rename_i hj
    rw [List.count_append, List.count_singleton, hj, if_neg (by simpa using he.symm), Nat.add_zero]
  · rfl

theorem Sound.fresh (h : Sound s) (j : Nat) (bytes : Bytes) :
    .record log (s.written log).length bytes ∉ s.files.data j := by
  intro hmem
  have hknown := h.known j log _ bytes hmem
  simp at hknown

theorem Sound.appended (h : Sound s) (hi : i ∈ s.filesOf log) : Sound (s.appended log buffer i) where
  closed_lt := h.closed_lt
  streams := by
    intro log'
    obtain ⟨k, j, hstream, hrest⟩ := h.streams log'
    refine ⟨k, j, ?_, ?_⟩
    · rw [← hstream]
      exact Klogger.stream_count _ _ _
    · rw [filesOf_appended]
      exact hrest
  distinct := by
    change (s.klogger.count log).stream .access ≠ (s.klogger.count log).stream .error
    rw [Klogger.stream_count, Klogger.stream_count]
    exact h.distinct
  named := by
    intro log'
    change ∃ j, s.files.dir ((s.klogger.count log).file log') = some j
    rw [Klogger.file_count]
    exact h.named log'
  own := by
    intro p hp log' heq
    apply h.own p hp log'
    rw [heq]
    exact Klogger.file_count _ _ _
  known := by
    intro j log' n bytes hmem
    rw [written_appended]
    rw [data_appended] at hmem
    split at hmem
    · rcases List.mem_append.mp hmem with hold | hnew
      · exact .inl (h.known i log' n bytes hold)
      · rw [List.mem_singleton] at hnew
        cases hnew
        exact .inr ⟨rfl, rfl, rfl⟩
    · exact .inl (h.known j log' n bytes hmem)
  kept := by
    intro log' n bytes hwritten
    rw [filesOf_appended]
    rcases written_appended.mp hwritten with hold | ⟨rfl, rfl, rfl⟩
    · obtain ⟨j, hj, hone, hothers⟩ := h.kept log' n bytes hold
      have he : Entry.record log' n bytes ≠ .record log (s.written log).length buffer := by
        rintro ⟨⟩
        simp at hold
      refine ⟨j, hj, ?_, fun l hl => ?_⟩
      · rw [count_appended he, hone]
      · rw [← List.count_eq_zero, count_appended he, List.count_eq_zero]
        exact hothers l hl
    · refine ⟨i, hi, ?_, fun l hl => ?_⟩
      · rw [data_appended, if_pos rfl, List.count_append, List.count_eq_zero.mpr (h.fresh i bytes)]
        simp
      · rw [data_appended, if_neg hl]
        exact h.fresh l bytes

end Append

/-! ## Rotating -/

section Rolling

variable {s : State} {log : LogKind} {new : Bytes} {files : Files Bytes (List Entry)} {i : Nat}

/-- The state after the file of a log has been renamed to `new` and opened again. -/
def State.rolled (s : State) (log : LogKind) (new : Bytes) (files : Files Bytes (List Entry))
    (i : Nat) : State :=
  { s with
    klogger := s.klogger.withStream (.file s.streams.length) log
    files
    streams := s.streams ++ [i]
    closed := s.closed ++ [s.klogger.stream log]
    renamed := s.renamed ++ [(s.klogger.file log, new)] }

/-- What a rotation leaves of the files when no file of a log lies at `new`. -/
structure Spared (s : State) (log : LogKind) (new : Bytes) (files : Files Bytes (List Entry))
    (i : Nat) : Prop where
  current : files.dir (s.klogger.file log) = some i
  target : ∀ j, s.files.dir (s.klogger.file log) = some j → files.dir new = some j
  others : ∀ name, name ≠ s.klogger.file log → name ≠ new → files.dir name = s.files.dir name
  data : ∀ j, files.data j = s.files.data j ∨ (files.data j = [] ∧ s.files.next ≤ j)
  free : new = s.klogger.file log ∨
    ∀ j, s.files.dir new = some j → ∀ log, j ∉ s.filesOf log

theorem current_mem_filesOf (h : s.files.dir (s.klogger.file log) = some i) : i ∈ s.filesOf log :=
  mem_filesOf.mpr ⟨_, mem_names.mpr (.inl rfl), h⟩

section Succeeding

variable {std : FilePtr} {t : Turn} (hstd : ∀ k, std ≠ .file k) (hrenames : t.renames = true)
  (hopens : t.opens = true) (hnew : newname (s.klogger.file log) t.tm = new)
include hstd hrenames hopens hnew

theorem rolling_of_rename (h : Sound s)
    (hrename : s.files.rename (s.klogger.file log) new = some files) :
    s.rolling log std t = some (s.rolled log new
      (files.openOrCreate (s.klogger.file log) []).1
      (files.openOrCreate (s.klogger.file log) []).2) := by
  obtain ⟨k, -, hstream, hopen, -, -⟩ := h.streams log
  simp [State.rolling, State.fclose, State.rename, State.fopen, hstream, hopen, (hstd k).symm,
    hrenames, hopens, hnew, hrename, State.rolled]

theorem rolling_turned (h : Sound s) (hself : new ≠ s.klogger.file log)
    (hne : s.files.dir new ≠ s.files.dir (s.klogger.file log)) :
    ∃ files i, Files.Turned s.files (s.klogger.file log) new [] files i ∧
      s.rolling log std t = some (s.rolled log new files i) := by
  obtain ⟨i, hi⟩ := h.named log
  obtain ⟨files, hrename, hturned⟩ := Files.turned_of_rename [] hi hself (hi ▸ hne)
  exact ⟨_, _, hturned, rolling_of_rename hstd hrenames hopens hnew h hrename⟩

omit hstd hrenames hopens hnew in
theorem spared_of_turned (hturned : Files.Turned s.files (s.klogger.file log) new [] files i)
    (hfree : new = s.klogger.file log ∨ ∀ j, s.files.dir new = some j → ∀ log, j ∉ s.filesOf log) :
    Spared s log new files i := by
  constructor
  · rw [hturned.file]
    exact hturned.current
  · intro j hj
    rw [hturned.target, hj]
  · exact hturned.others
  · intro j
    rw [hturned.data]
    by_cases hj : j = s.files.next
    · rw [hj, Function.update_self]
      exact .inr ⟨rfl, Nat.le_refl _⟩
    · rw [Function.update_of_ne hj]
      exact .inl rfl
  · exact hfree

theorem rolling_spared (h : Sound s)
    (hfree : new = s.klogger.file log ∨ ∀ j, s.files.dir new = some j → ∀ log, j ∉ s.filesOf log) :
    ∃ files i, Spared s log new files i ∧
      s.rolling log std t = some (s.rolled log new files i) := by
  obtain ⟨i, hi⟩ := h.named log
  by_cases hself : new = s.klogger.file log
  · have hrename : s.files.rename (s.klogger.file log) new = some s.files := by
      rw [hself]
      exact Files.rename_self hi
    refine ⟨s.files, i, ?_, ?_⟩
    · exact ⟨hi, fun j hj => hself ▸ hj, fun _ _ _ => rfl, fun _ => .inl rfl, hfree⟩
    · rw [rolling_of_rename hstd hrenames hopens hnew h hrename, Files.openOrCreate_of_some [] hi]
  · have hne : s.files.dir new ≠ s.files.dir (s.klogger.file log) := by
      intro hdir
      exact hfree.resolve_left hself i (hdir.trans hi) log (current_mem_filesOf hi)
    obtain ⟨files, j, hturned, hrolling⟩ := rolling_turned hstd hrenames hopens hnew h hself hne
    exact ⟨files, j, spared_of_turned hturned hfree, hrolling⟩

end Succeeding

theorem file_rolled (log' : LogKind) :
    (s.rolled log new files i).klogger.file log' = s.klogger.file log' :=
  Klogger.file_withStream _ _ _ _

theorem mem_names_rolled {log' : LogKind} {name : Bytes} :
    name ∈ (s.rolled log new files i).names log' ↔ name ∈ s.names log' ∨
      (s.klogger.file log' = s.klogger.file log ∧ name = new) := by
  rw [mem_names, mem_names, file_rolled]
  simp only [State.rolled, List.mem_append, List.mem_singleton, Prod.mk.injEq, or_assoc]

theorem Sound.file_eq_of_mem_names (h : Sound s) {log' : LogKind}
    (hmem : s.klogger.file log ∈ s.names log') : s.klogger.file log' = s.klogger.file log := by
  rcases mem_names.mp hmem with heq | hrenamed
  · exact heq.symm
  · exact h.own _ hrenamed log rfl

theorem Spared.ne_file (h : Spared s log new files i) (hs : Sound s)
    (hself : new ≠ s.klogger.file log) (log' : LogKind) : new ≠ s.klogger.file log' := by
  rintro rfl
  obtain ⟨j, hj⟩ := hs.named log'
  exact h.free.resolve_left hself j hj log' (current_mem_filesOf hj)

theorem Spared.filesOf (h : Spared s log new files i) (hs : Sound s) {log' : LogKind} {j : Nat}
    (hj : j ∈ s.filesOf log') : j ∈ (s.rolled log new files i).filesOf log' := by
  obtain ⟨name, hname, hdir⟩ := mem_filesOf.mp hj
  by_cases hfile : name = s.klogger.file log
  · subst hfile
    have hsame := hs.file_eq_of_mem_names hname
    exact mem_filesOf.mpr ⟨new, mem_names_rolled.mpr (.inr ⟨hsame, rfl⟩), h.target j hdir⟩
  · have hne : name ≠ new := by
      rintro rfl
      exact h.free.resolve_left hfile j hdir log' hj
    refine mem_filesOf.mpr ⟨name, mem_names_rolled.mpr (.inl hname), ?_⟩
    exact (h.others name hfile hne).trans hdir

theorem Spared.mem_data (h : Spared s log new files i) {j : Nat} {e : Entry}
    (he : e ∈ files.data j) : e ∈ s.files.data j := by
  rcases h.data j with hsame | ⟨hempty, -⟩
  · rwa [← hsame]
  · rw [hempty] at he
    cases he

theorem Spared.data_eq (h : Spared s log new files i) {j : Nat} (hj : j < s.files.next) :
    files.data j = s.files.data j :=
  (h.data j).resolve_right fun hnew => Nat.not_le.mpr hj hnew.2

theorem stream_rolled_self :
    (s.rolled log new files i).klogger.stream log = .file s.streams.length :=
  Klogger.stream_withStream_self _ _ _

theorem stream_rolled_of_ne {log' : LogKind} (hne : log' ≠ log) :
    (s.rolled log new files i).klogger.stream log' = s.klogger.stream log' :=
  Klogger.stream_withStream_of_ne _ _ _ _ hne

theorem Sound.stream_lt (h : Sound s) {log' : LogKind} {k : Nat}
    (hstream : s.klogger.stream log' = .file k) : k < s.streams.length := by
  obtain ⟨k', j, hstream', -, hk', -⟩ := h.streams log'
  obtain rfl : k' = k := FilePtr.file.inj (hstream'.symm.trans hstream)
  exact (List.getElem?_eq_some_iff.mp hk').1

theorem Sound.stream_open (hs : Sound s) :
    .file s.streams.length ∉ (s.rolled log new files i).closed := by
  simp only [State.rolled, List.mem_append, List.mem_singleton, not_or]
  refine ⟨fun hmem => Nat.lt_irrefl _ (hs.closed_lt _ hmem), fun heq => ?_⟩
  exact Nat.lt_irrefl _ (hs.stream_lt heq.symm)

theorem getElem?_streams_rolled :
    (s.rolled log new files i).streams[s.streams.length]? = some i := by
  simp [State.rolled]

theorem Sound.append_rolled (hs : Sound s) (buffer : Bytes) :
    (s.rolled log new files i).append log buffer =
      some ((s.rolled log new files i).appended log buffer i) :=
  append_eq stream_rolled_self hs.stream_open getElem?_streams_rolled

theorem Sound.streams_rolled (hs : Sound s) (h : Spared s log new files i) (log' : LogKind) :
    ∃ k j, (s.rolled log new files i).klogger.stream log' = .file k ∧
      .file k ∉ (s.rolled log new files i).closed ∧
      (s.rolled log new files i).streams[k]? = some j ∧
      j ∈ (s.rolled log new files i).filesOf log' := by
  by_cases hlog : log' = log
  · subst hlog
    refine ⟨s.streams.length, i, stream_rolled_self, hs.stream_open, getElem?_streams_rolled, ?_⟩
    apply current_mem_filesOf
    rw [file_rolled]
    exact h.current
  · obtain ⟨k, j, hstream, hopen, hk, hj⟩ := hs.streams log'
    refine ⟨k, j, (stream_rolled_of_ne hlog).trans hstream, ?_, ?_, h.filesOf hs hj⟩
    · simp only [State.rolled, List.mem_append, List.mem_singleton, not_or]
      exact ⟨hopen, fun heq => hs.stream_ne hlog (hstream.trans heq)⟩
    · simp only [State.rolled]
      rw [List.getElem?_append_left (List.getElem?_eq_some_iff.mp hk).1]
      exact hk

theorem Sound.rolled (hs : Sound s) (h : Spared s log new files i) :
    Sound (s.rolled log new files i) where
  closed_lt := by
    intro k hmem
    change k < (s.streams ++ [i]).length
    rw [List.length_append]
    rcases List.mem_append.mp hmem with hold | hnew
    · exact Nat.lt_succ_of_lt (hs.closed_lt k hold)
    · exact Nat.lt_succ_of_lt (hs.stream_lt (List.mem_singleton.mp hnew).symm)
  streams := hs.streams_rolled h
  distinct := by
    intro heq
    cases log with
    | access =>
      rw [stream_rolled_self, stream_rolled_of_ne (by decide)] at heq
      exact Nat.lt_irrefl _ (hs.stream_lt heq.symm)
    | error =>
      rw [stream_rolled_self, stream_rolled_of_ne (by decide)] at heq
      exact Nat.lt_irrefl _ (hs.stream_lt heq)
  named := by
    intro log'
    rw [file_rolled]
    by_cases hfile : s.klogger.file log' = s.klogger.file log
    · rw [hfile]
      exact ⟨i, h.current⟩
    · obtain ⟨j, hj⟩ := hs.named log'
      by_cases hself : new = s.klogger.file log
      · exact ⟨j, (h.others _ hfile (hself ▸ hfile)).trans hj⟩
      · exact ⟨j, (h.others _ hfile (h.ne_file hs hself log').symm).trans hj⟩
  own := by
    intro p hp log' heq
    rw [file_rolled] at heq
    rcases List.mem_append.mp hp with hold | hnew
    · exact hs.own p hold log' heq
    · rw [List.mem_singleton] at hnew
      subst hnew
      by_contra hself
      exact h.ne_file hs (Ne.symm hself) log' heq
  known := fun j log' n bytes hmem => hs.known j log' n bytes (h.mem_data hmem)
  kept := by
    intro log' n bytes hwritten
    obtain ⟨j, hj, hone, hothers⟩ := hs.kept log' n bytes hwritten
    refine ⟨j, h.filesOf hs hj, ?_, fun l hl hmem => hothers l hl (h.mem_data hmem)⟩
    change (files.data j).count _ = 1
    rw [h.data_eq (filesOf_lt hj), hone]

end Rolling

/-! ## Runs -/

/-- The stream that a rotation of the log leaves alone. -/
def LogKind.std : LogKind → FilePtr
  | .access => .stdout
  | .error => .stderr

theorem LogKind.std_ne (log : LogKind) (k : Nat) : log.std ≠ .file k := by
  cases log <;> exact fun h => nomatch h

theorem step_eq (s : State) (c : Call) :
    step s c = (if maxLineNumber ≤ s.klogger.counts c.log then s.rolling c.log c.log.std c.turn
      else some s).bind fun s => s.append c.log c.buffer := by
  obtain ⟨log, buffer, turn⟩ := c
  by_cases hrotates : maxLineNumber ≤ s.klogger.counts log
  · rw [if_pos hrotates]
    cases log with
    | access => exact if_pos hrotates
    | error => exact if_pos hrotates
  · rw [if_neg hrotates]
    cases log with
    | access => exact if_neg hrotates
    | error => exact if_neg hrotates

theorem step_appends {s : State} {c : Call} (hrotates : ¬maxLineNumber ≤ s.klogger.counts c.log) :
    step s c = s.append c.log c.buffer := by
  rw [step_eq, if_neg hrotates]
  rfl

theorem step_rotates {s t : State} {c : Call} (hrotates : maxLineNumber ≤ s.klogger.counts c.log)
    (hrolling : s.rolling c.log c.log.std c.turn = some t) :
    step s c = t.append c.log c.buffer := by
  rw [step_eq, if_pos hrotates, hrolling]
  rfl

theorem Sound.exists_append {s : State} (h : Sound s) (log : LogKind) (buffer : Bytes) :
    ∃ i ∈ s.filesOf log, s.append log buffer = some (s.appended log buffer i) := by
  obtain ⟨k, i, hstream, hopen, hk, hi⟩ := h.streams log
  exact ⟨i, hi, append_eq hstream hopen hk⟩

theorem Sound.exists_step {s : State} {c : Call} (h : Sound s) (hsucceeds : Succeeds s c)
    (hspares : Spares s c) : ∃ t, step s c = some t ∧ Sound t := by
  by_cases hrotates : s.Rotates c
  · obtain ⟨hrenames, -, hopens⟩ := hsucceeds hrotates
    obtain ⟨files, i, hspared, hrolling⟩ :=
      rolling_spared c.log.std_ne hrenames hopens rfl h (hspares hrotates)
    have hrolled := h.rolled hspared
    obtain ⟨j, hj, happend⟩ := hrolled.exists_append c.log c.buffer
    exact ⟨_, (step_rotates hrotates hrolling).trans happend, hrolled.appended hj⟩
  · obtain ⟨j, hj, happend⟩ := h.exists_append c.log c.buffer
    exact ⟨_, (step_appends hrotates).trans happend, h.appended hj⟩

theorem sound_of_init {s : State} (h : Init s) : Sound s := by
  obtain ⟨files, infoFile, errorFile, hbefore, rfl⟩ := h
  have hinfo := Files.opened_openOrCreate files infoFile []
  have herror := Files.opened_openOrCreate (files.openOrCreate infoFile []).1 errorFile []
  have hinit : (State.constructed files).init (some infoFile) (some errorFile) true true =
      ⟨⟨infoFile, errorFile, .file 0, .file 1, 0, 0⟩,
        ((files.openOrCreate infoFile []).1.openOrCreate errorFile []).1,
        [(files.openOrCreate infoFile []).2,
          ((files.openOrCreate infoFile []).1.openOrCreate errorFile []).2], [], [], fun _ => []⟩ :=
    rfl
  rw [hinit]
  generalize (files.openOrCreate infoFile []) = first at hinfo herror ⊢
  obtain ⟨files₁, i₁⟩ := first
  generalize (files₁.openOrCreate errorFile []) = second at herror ⊢
  obtain ⟨files₂, i₂⟩ := second
  have hnone : ∀ j log n bytes, .record log n bytes ∉ files₂.data j := by
    intro j log n bytes hmem
    rcases herror.data j with hsame | hempty
    · rw [hsame] at hmem
      rcases hinfo.data j with hsame' | hempty'
      · rw [hsame'] at hmem
        obtain ⟨bytes', hbytes⟩ := hbefore j _ hmem
        cases hbytes
      · rw [hempty'] at hmem
        cases hmem
    · rw [hempty] at hmem
      cases hmem
  have hcurrent : files₂.dir infoFile = some i₁ := herror.keeps _ _ hinfo.found
  constructor
  · intro k hk
    cases hk
  · intro log
    cases log with
    | access => exact ⟨0, i₁, rfl, List.not_mem_nil, rfl, current_mem_filesOf hcurrent⟩
    | error => exact ⟨1, i₂, rfl, List.not_mem_nil, rfl, current_mem_filesOf herror.found⟩
  · exact fun heq => nomatch heq
  · intro log
    cases log with
    | access => exact ⟨i₁, hcurrent⟩
    | error => exact ⟨i₂, herror.found⟩
  · intro p hp
    cases hp
  · intro j log n bytes hmem
    exact absurd hmem (hnone j log n bytes)
  · intro log n bytes hwritten
    cases hwritten

/-- As long as every rotation finds a name at which no file of a log lies, every record is in
one file of its log, and every call goes through. -/
theorem rotation_keeps_records (s s' : State) (calls : List Call) (hinit : Init s)
    (hrun : Transition.Run (fun a c b => step a c = some b ∧ Succeeds a c ∧ Spares a c)
      s calls s') :
    Kept s' ∧ ∀ c, Succeeds s' c → Spares s' c → (step s' c).isSome := by
  have hsound : Sound s' := by
    apply hrun.invariant (I := Sound) ?_ (sound_of_init hinit)
    rintro a b c ha ⟨hstep, hsucceeds, hspares⟩
    obtain ⟨t, ht, hsound⟩ := ha.exists_step hsucceeds hspares
    rw [ht] at hstep
    cases hstep
    exact hsound
  refine ⟨hsound.all_kept, fun c hsucceeds hspares => ?_⟩
  obtain ⟨t, ht, -⟩ := hsound.exists_step hsucceeds hspares
  rw [ht]
  rfl

/-! ## Two rotations in a minute -/

@[simp] theorem Klogger.counts_count_self (k : Klogger) (log : LogKind) :
    (k.count log).counts log = k.counts log + 1 := by
  cases log <;> rfl

@[simp] theorem Klogger.counts_withStream (k : Klogger) (p : FilePtr) (log log' : LogKind) :
    (k.withStream p log).counts log' = k.counts log' := by
  cases log <;> cases log' <;> rfl

/-- The records `bs` have been appended to a log, and nothing else has happened. -/
structure Extended (s : State) (log : LogKind) (bs : List Bytes) (t : State) : Prop where
  sound : Sound t
  file : ∀ log', t.klogger.file log' = s.klogger.file log'
  dir : t.files.dir = s.files.dir
  renamed : t.renamed = s.renamed
  written : t.written log = s.written log ++ bs
  counts : (t.klogger.counts log).toNat = (s.klogger.counts log).toNat + bs.length

theorem Sound.run_below {s : State} (h : Sound s) (log : LogKind) (turn : Turn)
    (bs : List Bytes) (hcounts : (s.klogger.counts log).toNat + bs.length ≤ 50000) :
    ∃ t, Transition.Run (fun a c b => step a c = some b ∧ Succeeds a c ∧ Spares a c) s
        (bs.map fun b => ⟨log, b, turn⟩) t ∧ Extended s log bs t := by
  induction bs generalizing s with
  | nil => exact ⟨s, .refl s, h, fun _ => rfl, rfl, rfl, (List.append_nil _).symm, rfl⟩
  | cons b bs ih =>
    rw [List.length_cons] at hcounts
    have hbelow : ¬maxLineNumber ≤ s.klogger.counts log := by
      rw [UInt32.le_iff_toNat_le]
      change ¬50000 ≤ _
      omega
    obtain ⟨i, hi, happend⟩ := h.exists_append log b
    have hstep : step s ⟨log, b, turn⟩ = some (s.appended log b i) :=
      (step_appends (c := ⟨log, b, turn⟩) hbelow).trans happend
    have hcount : ((s.appended log b i).klogger.counts log).toNat =
        (s.klogger.counts log).toNat + 1 := by
      change ((s.klogger.count log).counts log).toNat = _
      rw [Klogger.counts_count_self, UInt32.toNat_add]
      change ((s.klogger.counts log).toNat + 1) % 2 ^ 32 = _
      omega
    have happended : Sound (s.appended log b i) := h.appended hi
    obtain ⟨t, hrun, ht⟩ := ih happended (by omega)
    have hfree : ∀ {P : Prop}, State.Rotates s ⟨log, b, turn⟩ → P := fun hr => absurd hr hbelow
    refine ⟨t, .cons ⟨hstep, hfree, hfree⟩ hrun, ht.sound, ?_, ht.dir, ht.renamed, ?_, ?_⟩
    · exact fun log' => (ht.file log').trans (Klogger.file_count _ _ _)
    · rw [ht.written]
      change Function.update s.written log (s.written log ++ [b]) log ++ bs = _
      rw [Function.update_self, List.append_assoc, List.singleton_append]
    · rw [ht.counts, hcount, List.length_cons]
      omega

theorem not_kept {s : State} {log : LogKind} {n i : Nat} {bytes : Bytes}
    (hwritten : (s.written log)[n]? = some bytes)
    (honly : ∀ j, .record log n bytes ∈ s.files.data j → j = i)
    (hgone : ∀ name, s.files.dir name ≠ some i) : ¬Kept s := by
  intro hkept
  obtain ⟨j, hj, hone, -⟩ := hkept log n bytes hwritten
  have hmem : .record log n bytes ∈ s.files.data j := by
    rw [← List.count_pos_iff, hone]
    exact Nat.one_pos
  obtain rfl := honly j hmem
  obtain ⟨name, -, hdir⟩ := mem_filesOf.mp hj
  exact hgone name hdir

/-- What was in one file before a rotation and another record is in no other file then. -/
theorem only_of_rolled {s : State} {log log' : LogKind} {new buffer bytes : Bytes} {i j n : Nat}
    {files : Files Bytes (List Entry)}
    (hturned : Files.Turned s.files (s.klogger.file log) new [] files i)
    (hn : (s.written log')[n]? = some bytes)
    (honly : ∀ l, .record log' n bytes ∈ s.files.data l → l = j) (l : Nat)
    (hmem : .record log' n bytes ∈
      (((s.rolled log new files i).appended log buffer i).files.data l)) : l = j := by
  apply honly
  have hne : Entry.record log' n bytes ≠
      .record log ((s.rolled log new files i).written log).length buffer := by
    rintro ⟨⟩
    change (s.written log)[(s.written log).length]? = _ at hn
    simp at hn
  rw [← List.count_pos_iff, count_appended hne, List.count_pos_iff] at hmem
  change _ ∈ files.data l at hmem
  rw [hturned.data] at hmem
  by_cases hl : l = s.files.next
  · rw [hl, Function.update_self] at hmem
    cases hmem
  · rwa [Function.update_of_ne hl] at hmem

theorem sampleLogs_init : Init sampleLogs := ⟨noFiles, _, _, fun _ _ h => (nomatch h), rfl⟩

def sampleCall : Call := ⟨.access, [newline], sampleTurn⟩

def rotatedName : Bytes := newname (ascii "a") sampleTurn.tm

/-- 50001 records have been written, and all but the last are in the rotated file. -/
structure RotatedOnce (s : State) : Prop where
  sound : Sound s
  file : s.klogger.file .access = ascii "a"
  first : (s.written .access)[0]? = some [newline]
  counts : (s.klogger.counts .access).toNat = 50001
  current : ∃ i, s.files.dir (ascii "a") = some i ∧ i ≠ 0
  only : ∀ name, s.files.dir name = some 0 → name = rotatedName
  target : s.files.dir rotatedName = some 0
  alone : ∀ l, .record .access 0 [newline] ∈ s.files.data l → l = 0
  renamed : s.renamed = [(ascii "a", rotatedName)]

theorem sampleLogs_dir {name : Bytes} (h : sampleLogs.files.dir name = some 0) :
    name = ascii "a" := by
  change Function.update (Function.update (fun _ => none) (ascii "a") (some 0)) (ascii "e")
    (some 1) name = some 0 at h
  by_cases he : name = ascii "e"
  · subst he
    rw [Function.update_self] at h
    cases h
  · rw [Function.update_of_ne he] at h
    by_contra ha
    rw [Function.update_of_ne ha] at h
    cases h

theorem rotatedName_free : sampleLogs.files.dir rotatedName = none := by decide

theorem rotatedName_ne : rotatedName ≠ ascii "a" := by decide

theorem Extended.alone {s : State} {bs : List Bytes} (hs : Extended sampleLogs .access bs s)
    (hfirst : (s.written .access)[0]? = some [newline]) (l : Nat)
    (hmem : .record .access 0 [newline] ∈ s.files.data l) : l = 0 := by
  obtain ⟨i, hi, -, hothers⟩ := hs.sound.kept _ _ _ hfirst
  obtain ⟨name, hname, hdir⟩ := mem_filesOf.mp hi
  have hfile : s.klogger.file .access = ascii "a" := hs.file .access
  have hnone : s.renamed = [] := hs.renamed
  rw [mem_names, hfile, hnone] at hname
  obtain rfl := hname.resolve_right List.not_mem_nil
  rw [hs.dir] at hdir
  obtain rfl : i = 0 := (Option.some.inj (hdir.symm.trans (by decide)))
  by_contra hl
  exact hothers l hl hmem

theorem exists_rotatedOnce : ∃ calls s,
    Transition.Run (fun a c b => step a c = some b ∧ Succeeds a c ∧ Spares a c)
      sampleLogs calls s ∧ RotatedOnce s := by
  obtain ⟨s, hrun, hs⟩ := (sound_of_init sampleLogs_init).run_below .access sampleTurn
    (List.replicate 50000 [newline]) (by
      rw [List.length_replicate]
      exact Nat.le_refl _)
  have hfile : s.klogger.file .access = ascii "a" := hs.file .access
  have hcounts : (s.klogger.counts .access).toNat = 50000 := by
    rw [hs.counts, List.length_replicate]
    rfl
  have hrotates : maxLineNumber ≤ s.klogger.counts .access := by
    rw [UInt32.le_iff_toNat_le, hcounts]
    exact Nat.le_refl _
  have hcurrent : s.files.dir (ascii "a") = some 0 := by
    rw [hs.dir]
    decide
  have hfirst : (s.written .access)[0]? = some [newline] := by
    rw [hs.written]
    exact List.getElem?_replicate_of_lt (by decide)
  have hfree : s.files.dir rotatedName = none := by rw [hs.dir, rotatedName_free]
  have hnew : newname (s.klogger.file .access) sampleTurn.tm = rotatedName := by
    rw [hfile]
    rfl
  have hself : rotatedName ≠ s.klogger.file .access := by
    rw [hfile]
    exact rotatedName_ne
  obtain ⟨files, i, hturned, hrolling⟩ : ∃ files i,
      Files.Turned s.files (s.klogger.file .access) rotatedName [] files i ∧
      s.rolling .access .stdout sampleTurn = some (s.rolled .access rotatedName files i) :=
    rolling_turned (fun _ h => nomatch h) rfl rfl hnew hs.sound hself (by
      rw [hfree, hfile, hcurrent]
      exact fun h => nomatch h)
  have hspare : rotatedName = s.klogger.file .access ∨
      ∀ j, s.files.dir rotatedName = some j → ∀ log, j ∉ s.filesOf log := by
    refine .inr fun j hj => ?_
    rw [hfree] at hj
    cases hj
  have hspared := spared_of_turned hturned hspare
  have hsound := hs.sound.rolled hspared
  have hi : i ∈ (s.rolled .access rotatedName files i).filesOf .access := by
    apply current_mem_filesOf
    rw [file_rolled]
    exact hspared.current
  have hstep := (step_rotates (c := sampleCall) hrotates hrolling).trans
    (hs.sound.append_rolled [newline])
  have hsucceeds : Succeeds s sampleCall := by
    refine fun _ => ⟨rfl, ?_, rfl⟩
    change (s.files.dir (s.klogger.file .access)).isSome
    rw [hfile, hcurrent]
    rfl
  have hspares : Spares s sampleCall := by
    intro _
    change newname (s.klogger.file .access) sampleTurn.tm = s.klogger.file .access ∨
      ∀ j, s.files.dir (newname (s.klogger.file .access) sampleTurn.tm) = some j → _
    rw [hnew]
    exact hspare
  refine ⟨_, _, hrun.snoc ⟨hstep, hsucceeds, hspares⟩, ?_⟩
  constructor
  · exact hsound.appended hi
  · exact (Klogger.file_count _ _ _).trans ((file_rolled _).trans hfile)
  · exact written_appended.mpr (.inl hfirst)
  · change (((s.klogger.withStream _ _).count .access).counts .access).toNat = 50001
    rw [Klogger.counts_count_self, Klogger.counts_withStream, UInt32.toNat_add, hcounts]
    rfl
  · refine ⟨s.files.next, ?_, Nat.ne_of_gt (s.files.dir_lt _ _ hcurrent)⟩
    rw [← hfile]
    exact hturned.current
  · intro name hname
    by_contra hother
    have hne : name ≠ ascii "a" := by
      rintro rfl
      have hnext := hturned.current
      rw [hfile] at hnext
      have hzero := Option.some.inj (hnext.symm.trans hname)
      exact Nat.ne_of_gt (s.files.dir_lt _ _ hcurrent) hzero
    have hold := (hturned.others name (hfile ▸ hne) hother).symm.trans hname
    rw [hs.dir] at hold
    exact hne (sampleLogs_dir hold)
  · exact hturned.target.trans (hfile ▸ hcurrent)
  · exact only_of_rolled hturned hfirst (hs.alone hfirst)
  · change s.renamed ++ [(s.klogger.file .access, rotatedName)] = _
    rw [hs.renamed, hfile]
    rfl

/-- A run with a rotation to a free name keeps its 50001 records. -/
theorem rotation_keeps_records_sample : ∃ s, RotatedOnce s ∧ Kept s := by
  obtain ⟨calls, s, hrun, hs⟩ := exists_rotatedOnce
  exact ⟨s, hs, (rotation_keeps_records sampleLogs s calls sampleLogs_init hrun).1⟩

/-- A second rotation in the same minute replaces the file of the first, though `rename` and
`fopen` succeed at every call. -/
theorem records_lost : Init sampleLogs ∧ ∃ calls s,
    Transition.Run (fun a c b => step a c = some b ∧ Succeeds a c) sampleLogs calls s ∧
      ¬Kept s := by
  obtain ⟨calls, s, hrun, hs⟩ := exists_rotatedOnce
  obtain ⟨i, hcurrent, hi⟩ := hs.current
  have hrotates : maxLineNumber ≤ s.klogger.counts .access := by
    rw [UInt32.le_iff_toNat_le, hs.counts]
    decide
  have hnew : newname (s.klogger.file .access) sampleTurn.tm = rotatedName := by
    rw [hs.file]
    rfl
  have hself : rotatedName ≠ s.klogger.file .access := by
    rw [hs.file]
    exact rotatedName_ne
  obtain ⟨files, j, hturned, hrolling⟩ : ∃ files j,
      Files.Turned s.files (s.klogger.file .access) rotatedName [] files j ∧
      s.rolling .access .stdout sampleTurn = some (s.rolled .access rotatedName files j) :=
    rolling_turned (fun _ h => nomatch h) rfl rfl hnew hs.sound hself (by
      rw [hs.target, hs.file, hcurrent]
      exact fun h => hi (Option.some.inj h).symm)
  have hstep := (step_rotates (c := sampleCall) hrotates hrolling).trans
    (hs.sound.append_rolled [newline])
  have hsucceeds : Succeeds s sampleCall := by
    refine fun _ => ⟨rfl, ?_, rfl⟩
    change (s.files.dir (s.klogger.file .access)).isSome
    rw [hs.file, hcurrent]
    rfl
  refine ⟨sampleLogs_init, _, _, (hrun.mono fun h => ⟨h.1, h.2.1⟩).snoc ⟨hstep, hsucceeds⟩, ?_⟩
  have hwritten : (((s.rolled .access rotatedName files j).appended .access [newline] j).written
      .access)[0]? = some [newline] := written_appended.mpr (.inl hs.first)
  apply not_kept hwritten
  · exact only_of_rolled hturned hs.first hs.alone
  · intro name hname
    change files.dir name = some 0 at hname
    by_cases ha : name = s.klogger.file .access
    · rw [ha, hturned.current] at hname
      exact Nat.ne_of_gt (s.files.dir_lt _ _ hs.target) (Option.some.inj hname)
    · by_cases hrotated : name = rotatedName
      · rw [hrotated, hturned.target, hs.file, hcurrent] at hname
        exact hi (Option.some.inj hname)
      · rw [hturned.others name ha hrotated] at hname
        exact hrotated (hs.only name hname)

end Svnsrv.Klog
