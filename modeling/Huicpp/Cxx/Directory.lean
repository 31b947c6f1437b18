import Mathlib

/-!
# Cxx.Directory

A directory of files that are only appended to. A name leads to a file, and a file that has lost its
names lives on for the descriptors that refer to it. Files are numbered as they are created.
-/

namespace Cxx

structure Directory (ν ρ : Type) where
  file : ν → Option Nat
  content : Nat → List ρ
  fresh : Nat
  file_lt : ∀ n i, file n = some i → i < fresh

namespace Directory

variable {ν ρ : Type} {d : Directory ν ρ} {n m src dst : ν} {i : Nat}

/-- No files. -/
def empty : Directory ν ρ where
  file _ := none
  content _ := []
  fresh := 0
  file_lt _ _ h := nomatch h

/-- `write` through a descriptor. -/
def append (d : Directory ν ρ) (i : Nat) (r : ρ) : Directory ν ρ :=
  { d with content := Function.update d.content i (d.content i ++ [r]) }

/-! ## append -/

@[simp] theorem append_file (r : ρ) : (d.append i r).file = d.file := rfl

@[simp] theorem append_fresh (r : ρ) : (d.append i r).fresh = d.fresh := rfl

theorem mem_append_self (r : ρ) : r ∈ (d.append i r).content i := by
  simp [append]

theorem mem_append_of_mem {r r' : ρ} {j : Nat} (h : r ∈ d.content j) :
    r ∈ (d.append i r').content j := by
  by_cases hij : j = i
  · subst hij
    simp [append, h]
  · simp [append, Function.update_of_ne hij, h]

variable [DecidableEq ν]

/-- `open` with `O_CREAT | O_APPEND`: the file the descriptor refers to. -/
def openAppend (d : Directory ν ρ) (n : ν) : Nat × Directory ν ρ :=
  match d.file n with
  | some i => (i, d)
  | none =>
    (d.fresh,
      { file := Function.update d.file n (some d.fresh)
        content := Function.update d.content d.fresh []
        fresh := d.fresh + 1
        file_lt := by
          intro n' i h
          rw [Function.update_apply] at h
          split at h
          · cases h
            exact Nat.lt_succ_self _
          · exact Nat.lt_succ_of_lt (d.file_lt n' i h) })

/-- `rename`: the target is replaced. Nothing happens if there is no such file, or if the two names
are names of one file. -/
def rename (d : Directory ν ρ) (src dst : ν) : Directory ν ρ :=
  match hsrc : d.file src with
  | none => d
  | some i =>
    if d.file dst = some i then d
    else
      { d with
        file := Function.update (Function.update d.file dst (some i)) src none
        file_lt := by
          intro n j h
          rw [Function.update_apply] at h
          split at h
          · cases h
          · rw [Function.update_apply] at h
            split at h
            · exact Option.some.inj h ▸ d.file_lt src i hsrc
            · exact d.file_lt n j h }

def remove (d : Directory ν ρ) (n : ν) : Directory ν ρ :=
  { d with
    file := Function.update d.file n none
    file_lt := by
      intro n' i h
      rw [Function.update_apply] at h
      split at h
      · cases h
      · exact d.file_lt n' i h }

/-! ## openAppend -/

theorem openAppend_file : (d.openAppend n).2.file n = some (d.openAppend n).1 := by
  unfold openAppend
  split
  · next h => exact h
  · exact Function.update_self ..

theorem openAppend_other (h : m ≠ n) : (d.openAppend n).2.file m = d.file m := by
  unfold openAppend
  split
  · rfl
  · exact Function.update_of_ne h ..

theorem openAppend_content (h : i < d.fresh) : (d.openAppend n).2.content i = d.content i := by
  unfold openAppend
  split
  · rfl
  · exact Function.update_of_ne h.ne ..

theorem openAppend_fresh : d.fresh ≤ (d.openAppend n).2.fresh := by
  unfold openAppend
  split
  · exact le_rfl
  · exact Nat.le_succ _

/-! ## rename -/

@[simp] theorem rename_content : (d.rename src dst).content = d.content := by
  unfold rename
  split
  · rfl
  · split <;> rfl

@[simp] theorem rename_fresh : (d.rename src dst).fresh = d.fresh := by
  unfold rename
  split
  · rfl
  · split <;> rfl

theorem rename_target (hne : dst ≠ src) (h : d.file src = some i) :
    (d.rename src dst).file dst = some i := by
  unfold rename
  split
  · next h' => rw [h] at h'; cases h'
  · next j h' =>
    rw [h] at h'
    cases h'
    split
    · next hdst => exact hdst
    · exact (Function.update_of_ne hne ..).trans (Function.update_self ..)

theorem rename_other (hsrc : n ≠ src) (hdst : n ≠ dst) : (d.rename src dst).file n = d.file n := by
  unfold rename
  split
  · rfl
  · split
    · rfl
    · exact (Function.update_of_ne hsrc ..).trans (Function.update_of_ne hdst ..)

theorem rename_source (h : d.file src = some i) (hdst : d.file dst ≠ some i) :
    (d.rename src dst).file src = none := by
  unfold rename
  split
  · next h' => exact h'
  · next j h' =>
    rw [h] at h'
    cases h'
    rw [if_neg hdst]
    exact Function.update_self ..

/-! ## remove -/

theorem remove_other (h : m ≠ n) : (d.remove n).file m = d.file m := Function.update_of_ne h ..

@[simp] theorem remove_content : (d.remove n).content = d.content := rfl

@[simp] theorem remove_fresh : (d.remove n).fresh = d.fresh := rfl

end Directory

end Cxx
