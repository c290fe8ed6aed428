import Mathlib.Logic.Function.Basic
import Mathlib.Data.List.Dedup

/-!
# Directories of files

A directory gives names to files. A file lives on while a name or an open stream
refers to it, so it has a number of its own, which is never used again. `rename`
replaces what lies at the new name.
-/

set_option autoImplicit false

universe u v

structure Files (ν : Type u) (γ : Type v) where
  dir : ν → Option Nat
  data : Nat → γ
  next : Nat
  dir_lt : ∀ name i, dir name = some i → i < next

namespace Files

variable {ν : Type u} {γ : Type v} {fs fs' : Files ν γ} {name old new : ν} {i j : Nat}

theorem no_file_lt (_name : ν) (i : Nat) (h : (none : Option Nat) = some i) : i < 0 := by
  cases h

def empty (c : γ) : Files ν γ := ⟨fun _ => none, fun _ => c, 0, no_file_lt⟩

def put (fs : Files ν γ) (i : Nat) (c : γ) : Files ν γ :=
  { fs with data := Function.update fs.data i c }

@[simp] theorem put_dir (c : γ) : (fs.put i c).dir = fs.dir := rfl

@[simp] theorem put_data_self (c : γ) : (fs.put i c).data i = c := Function.update_self ..

theorem put_data_of_ne (c : γ) (h : j ≠ i) : (fs.put i c).data j = fs.data j :=
  Function.update_of_ne h ..

variable [DecidableEq ν]

def create (fs : Files ν γ) (name : ν) (c : γ) : Files ν γ where
  dir := Function.update fs.dir name (some fs.next)
  data := Function.update fs.data fs.next c
  next := fs.next + 1
  dir_lt := by
    intro name' i h
    by_cases hname : name' = name
    · subst hname
      rw [Function.update_self] at h
      cases h
      exact Nat.lt_succ_self _
    · rw [Function.update_of_ne hname] at h
      exact Nat.lt_succ_of_lt (fs.dir_lt name' i h)

def unlink (fs : Files ν γ) (name : ν) : Files ν γ where
  dir := Function.update fs.dir name none
  data := fs.data
  next := fs.next
  dir_lt := by
    intro name' i h
    by_cases hname : name' = name
    · subst hname
      rw [Function.update_self] at h
      cases h
    · rw [Function.update_of_ne hname] at h
      exact fs.dir_lt name' i h

/-- Two names of one file stay as they are. -/
def rename (fs : Files ν γ) (old new : ν) : Option (Files ν γ) :=
  match h : fs.dir old with
  | none => none
  | some i =>
    if fs.dir new = some i then some fs
    else some
      { dir := Function.update (Function.update fs.dir old none) new (some i)
        data := fs.data
        next := fs.next
        dir_lt := by
          intro name j hj
          by_cases hnew : name = new
          · subst hnew
            rw [Function.update_self] at hj
            cases hj
            exact fs.dir_lt old i h
          · rw [Function.update_of_ne hnew] at hj
            by_cases hold : name = old
            · subst hold
              rw [Function.update_self] at hj
              cases hj
            · rw [Function.update_of_ne hold] at hj
              exact fs.dir_lt name j hj }

/-- The file at a name, which is made if there is none: the directory and the file. -/
def openOrCreate (fs : Files ν γ) (name : ν) (c : γ) : Files ν γ × Nat :=
  match fs.dir name with
  | some i => (fs, i)
  | none => (fs.create name c, fs.next)

theorem openOrCreate_of_some (c : γ) (h : fs.dir name = some i) :
    fs.openOrCreate name c = (fs, i) := by
  simp only [openOrCreate, h]

theorem openOrCreate_of_none (c : γ) (h : fs.dir name = none) :
    fs.openOrCreate name c = (fs.create name c, fs.next) := by
  simp only [openOrCreate, h]

/-- What opening a name does: it finds a file there or makes one. -/
structure Opened (fs : Files ν γ) (name : ν) (c : γ) (fs' : Files ν γ) (i : Nat) : Prop where
  found : fs'.dir name = some i
  keeps : ∀ name' j, fs.dir name' = some j → fs'.dir name' = some j
  data : ∀ j, fs'.data j = fs.data j ∨ fs'.data j = c

theorem opened_openOrCreate (fs : Files ν γ) (name : ν) (c : γ) :
    Opened fs name c (fs.openOrCreate name c).1 (fs.openOrCreate name c).2 := by
  cases h : fs.dir name with
  | some i =>
    rw [openOrCreate_of_some c h]
    exact ⟨h, fun _ _ hj => hj, fun _ => .inl rfl⟩
  | none =>
    rw [openOrCreate_of_none c h]
    refine ⟨Function.update_self .., fun name' j hj => ?_, fun j => ?_⟩
    · have hne : name' ≠ name := by
        rintro rfl
        rw [h] at hj
        cases hj
      exact (Function.update_of_ne hne ..).trans hj
    · by_cases hj : j = fs.next
      · subst hj
        exact .inr (Function.update_self ..)
      · exact .inl (Function.update_of_ne hj ..)

theorem rename_self (h : fs.dir old = some i) : fs.rename old old = some fs := by
  unfold rename
  split
  · simp_all
  · rename_i j hj
    rw [if_pos hj]

theorem rename_of_ne (h : fs.dir old = some i) (hnew : fs.dir new ≠ some i) :
    ∃ fs', fs.rename old new = some fs' ∧ fs'.data = fs.data ∧ fs'.next = fs.next ∧
      fs'.dir = Function.update (Function.update fs.dir old none) new (some i) := by
  unfold rename
  split
  · simp_all
  · rename_i j hj
    obtain rfl : i = j := Option.some.inj (h.symm.trans hj)
    rw [if_neg hnew]
    exact ⟨_, rfl, rfl, rfl, rfl⟩

/-- A file makes room: it is moved to another name, and a new one takes its place. -/
structure Turned (fs : Files ν γ) (old new : ν) (c : γ) (fs' : Files ν γ) (i : Nat) : Prop where
  target : fs'.dir new = fs.dir old
  current : fs'.dir old = some fs.next
  others : ∀ name, name ≠ old → name ≠ new → fs'.dir name = fs.dir name
  file : i = fs.next
  data : fs'.data = Function.update fs.data fs.next c

theorem turned_of_rename (c : γ) (h : fs.dir old = some i) (hne : new ≠ old)
    (hnew : fs.dir new ≠ some i) :
    ∃ fs', fs.rename old new = some fs' ∧
      Turned fs old new c (fs'.openOrCreate old c).1 (fs'.openOrCreate old c).2 := by
  obtain ⟨fs', hrename, hdata, hnext, hdir⟩ := rename_of_ne h hnew
  have hnone : fs'.dir old = none := by
    rw [hdir, Function.update_of_ne hne.symm, Function.update_self]
  refine ⟨fs', hrename, ?_⟩
  rw [openOrCreate_of_none c hnone]
  constructor
  · change Function.update fs'.dir old (some fs'.next) new = fs.dir old
    rw [Function.update_of_ne hne, hdir, Function.update_self, h]
  · change Function.update fs'.dir old (some fs'.next) old = some fs.next
    rw [Function.update_self, hnext]
  · intro name hold hnew'
    change Function.update fs'.dir old (some fs'.next) name = fs.dir name
    rw [Function.update_of_ne hold, hdir, Function.update_of_ne hnew', Function.update_of_ne hold]
  · exact hnext
  · change Function.update fs'.data fs'.next c = Function.update fs.data fs.next c
    rw [hdata, hnext]

end Files
