import Mathlib

/-!
# Cxx.UndoSemaphore

A counting semaphore of the kernel whose operations are undone when a process ends (`SEM_UNDO`). `adj` is
what the end of each process adds to the value.

`held p` is how often process `p` holds the semaphore. What the operations do to the value and the holds
together is stated once, for any number of processes:

* `claims`: what the value and the processes lay claim to. Nobody gains by an operation, but for one who
  goes up without a hold.
* `Balanced`: nothing but the holds is claimed.
-/

namespace Cxx

/-- The largest value of a semaphore. -/
def SEMVMX : Nat := 32767

structure UndoSemaphore (ι : Type) where
  value : Nat
  adj : ι → Int

namespace UndoSemaphore

variable {ι : Type} [DecidableEq ι]

def new (value : Nat) : UndoSemaphore ι := ⟨value, fun _ => 0⟩

def down (s : UndoSemaphore ι) (p : ι) : UndoSemaphore ι :=
  ⟨s.value - 1, Function.update s.adj p (s.adj p + 1)⟩

def up (s : UndoSemaphore ι) (p : ι) : UndoSemaphore ι :=
  ⟨s.value + 1, Function.update s.adj p (s.adj p - 1)⟩

/-- Process `p` ends. The value stays within its bounds. -/
def exit (s : UndoSemaphore ι) (p : ι) : UndoSemaphore ι :=
  ⟨min SEMVMX (s.value + s.adj p).toNat, Function.update s.adj p 0⟩

variable [Fintype ι]

/-- The value, and for each process the larger one of its holds and what its end gives back. -/
def claims (s : UndoSemaphore ι) (held : ι → Nat) : Int := s.value + ∑ p, max (s.adj p) (held p)

theorem sum_change {f g : ι → Int} {p : ι} (h : ∀ q, q ≠ p → g q = f q) :
    ∑ q, g q = ∑ q, f q - f p + g p := by
  have hrest : ∑ q ∈ Finset.univ.erase p, g q = ∑ q ∈ Finset.univ.erase p, f q :=
    Finset.sum_congr rfl fun q hq => h q (Finset.ne_of_mem_erase hq)
  rw [← Finset.add_sum_erase _ g (Finset.mem_univ p), ← Finset.add_sum_erase _ f (Finset.mem_univ p),
    hrest]
  ring

variable {s : UndoSemaphore ι} {held : ι → Nat} {p : ι}

theorem claims_change (held : ι → Nat) (p : ι) (s : UndoSemaphore ι) {s' : UndoSemaphore ι} {held' : ι → Nat} (hadj : ∀ q, q ≠ p → s'.adj q = s.adj q)
    (hheld : ∀ q, q ≠ p → held' q = held q) :
    s'.claims held' = s.claims held - s.value - max (s.adj p) (held p)
      + s'.value + max (s'.adj p) (held' p) := by
  have hsum := sum_change (f := fun q => max (s.adj q) (held q)) (g := fun q => max (s'.adj q) (held' q))
    (p := p) fun q hq => by rw [hadj q hq, hheld q hq]
  rw [claims, claims, hsum]
  ring

omit [DecidableEq ι] in
theorem held_le_claims (held : ι → Nat) (s : UndoSemaphore ι) : (∑ q, held q : Nat) + (s.value : Int) ≤ s.claims held := by
  have hsum : ((∑ q, held q : Nat) : Int) ≤ ∑ q, max (s.adj q) (held q) := by
    rw [Nat.cast_sum]
    exact Finset.sum_le_sum fun q _ => le_max_right _ _
  rw [claims]
  omega

theorem claims_down (h : 0 < s.value) :
    (s.down p).claims (Function.update held p (held p + 1)) = s.claims held := by
  rw [claims_change held p s (fun q hq => Function.update_of_ne hq _ _)
    (fun q hq => Function.update_of_ne hq _ _)]
  simp only [down, Function.update_self]
  omega

theorem claims_up_held (h : 0 < held p) :
    (s.up p).claims (Function.update held p (held p - 1)) = s.claims held := by
  rw [claims_change held p s (fun q hq => Function.update_of_ne hq _ _)
    (fun q hq => Function.update_of_ne hq _ _)]
  simp only [up, Function.update_self]
  omega

theorem claims_up_le : (s.up p).claims held ≤ s.claims held + 1 := by
  rw [claims_change held p s (fun q hq => Function.update_of_ne hq _ _)
    (fun _ _ => rfl)]
  simp only [up, Function.update_self]
  omega

theorem claims_forget_le : s.claims (Function.update held p (held p - 1)) ≤ s.claims held := by
  rw [claims_change held p s (fun _ _ => rfl)
    (fun q hq => Function.update_of_ne hq _ _)]
  simp only [Function.update_self]
  omega

theorem claims_exit_le : (s.exit p).claims (Function.update held p 0) ≤ s.claims held := by
  rw [claims_change held p s (fun q hq => Function.update_of_ne hq _ _)
    (fun q hq => Function.update_of_ne hq _ _)]
  simp only [exit, Function.update_self]
  omega

/-! ## Nothing but holds -/

structure Balanced (s : UndoSemaphore ι) (held : ι → Nat) (start : Nat) : Prop where
  adj : ∀ p, s.adj p = held p
  value : s.value + ∑ p, held p = start

variable {start : Nat}

omit [DecidableEq ι] in
theorem balanced_new (start : Nat) : (new start : UndoSemaphore ι).Balanced (fun _ => 0) start :=
  ⟨fun _ => rfl, by rw [Finset.sum_const_zero]; rfl⟩

omit [DecidableEq ι] in
theorem Balanced.le (h : s.Balanced held start) (p : ι) : s.value + held p ≤ start := by
  have hle : held p ≤ ∑ q, held q := Finset.single_le_sum (fun q _ => Nat.zero_le _) (Finset.mem_univ p)
  have hvalue := h.value
  omega

theorem sum_held_change (held : ι → Nat) (p : ι) (n : Nat) : (∑ q, Function.update held p n q) + held p = (∑ q, held q) + n := by
  rw [Finset.sum_update_of_mem (Finset.mem_univ p), ← Finset.add_sum_erase _ held (Finset.mem_univ p),
    Finset.sdiff_singleton_eq_erase]
  ring

theorem Balanced.change {s' : UndoSemaphore ι} {n : Nat} (h : s.Balanced held start)
    (hadj : s'.adj = Function.update s.adj p n) (hvalue : s'.value + n = s.value + held p) :
    s'.Balanced (Function.update held p n) start := by
  refine ⟨fun q => ?_, ?_⟩
  · rw [hadj]
    by_cases hq : q = p
    · subst hq
      rw [Function.update_self, Function.update_self]
    · rw [Function.update_of_ne hq, Function.update_of_ne hq, h.adj q]
  · have hsum := sum_held_change held p n
    have hstart := h.value
    omega

theorem Balanced.down (h : s.Balanced held start) (hpos : 0 < s.value) :
    (s.down p).Balanced (Function.update held p (held p + 1)) start := by
  refine h.change ?_ ?_
  · rw [UndoSemaphore.down, h.adj p]
    push_cast
    rfl
  · simp only [UndoSemaphore.down]
    omega

theorem Balanced.up (h : s.Balanced held start) (hpos : 0 < held p) :
    (s.up p).Balanced (Function.update held p (held p - 1)) start := by
  refine h.change ?_ ?_
  · rw [UndoSemaphore.up, h.adj p, Nat.cast_sub hpos]
    rfl
  · simp only [UndoSemaphore.up]
    omega

theorem Balanced.exit (h : s.Balanced held start) (hmax : start ≤ SEMVMX) :
    (s.exit p).Balanced (Function.update held p 0) start := by
  refine h.change rfl ?_
  have hle := h.le p
  simp only [UndoSemaphore.exit, h.adj p]
  omega

end UndoSemaphore
end Cxx
