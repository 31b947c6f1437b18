import Mathlib

/-!
# Cxx.Storage

Objects in storage whose constructors and destructors the program calls itself. The objects are
numbered as they are constructed. A ledger records what was destroyed, and the two things that must
not happen: a destructor that runs where no object is, and a constructor that runs over an object.
-/

namespace Cxx

structure Storage (κ : Type) where
  object : κ → Option Nat
  constructed : Nat
  destroyed : List Nat
  destroyedRaw : List κ
  overwritten : List Nat

namespace Storage

variable {κ : Type}

/-- Fresh memory. -/
def raw : Storage κ where
  object _ := none
  constructed := 0
  destroyed := []
  destroyedRaw := []
  overwritten := []

/-- Destructors ran on live objects only, and constructors on raw cells only. -/
def Sound (s : Storage κ) : Prop := s.destroyedRaw = [] ∧ s.overwritten = []

/-- Every object that was constructed has been destroyed, exactly once. -/
def AllDestroyedOnce (s : Storage κ) : Prop := ∀ o < s.constructed, s.destroyed.count o = 1

variable [DecidableEq κ]

/-- Placement new in cell `c`. -/
def construct (c : κ) (s : Storage κ) : Storage κ :=
  { s with
    object := Function.update s.object c (some s.constructed)
    constructed := s.constructed + 1
    overwritten := s.overwritten ++ (s.object c).toList }

/-- An explicit destructor call on cell `c`. -/
def destroy (c : κ) (s : Storage κ) : Storage κ :=
  match s.object c with
  | some o => { s with
      object := Function.update s.object c none
      destroyed := s.destroyed ++ [o] }
  | none => { s with destroyedRaw := s.destroyedRaw ++ [c] }

@[simp] theorem construct_object (c : κ) (s : Storage κ) :
    (s.construct c).object = Function.update s.object c (some s.constructed) := rfl

@[simp] theorem destroy_object (c : κ) (s : Storage κ) :
    (s.destroy c).object = Function.update s.object c none := by
  unfold destroy
  split
  · rfl
  · next h => exact (Function.update_eq_self_iff.mpr h.symm).symm

@[simp] theorem destroy_constructed (c : κ) (s : Storage κ) :
    (s.destroy c).constructed = s.constructed := by
  unfold destroy
  split <;> rfl

@[simp] theorem destroy_overwritten (c : κ) (s : Storage κ) :
    (s.destroy c).overwritten = s.overwritten := by
  unfold destroy
  split <;> rfl

theorem destroy_live {c : κ} {s : Storage κ} {o : Nat} (h : s.object c = some o) :
    (s.destroy c).destroyed = s.destroyed ++ [o] ∧
      (s.destroy c).destroyedRaw = s.destroyedRaw := by
  simp [destroy, h]

theorem destroy_raw {c : κ} {s : Storage κ} (h : s.object c = none) :
    (s.destroy c).destroyed = s.destroyed ∧
      (s.destroy c).destroyedRaw = s.destroyedRaw ++ [c] := by
  simp [destroy, h]

end Storage

end Cxx
