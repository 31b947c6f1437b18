import Mathlib
import Huicpp.Cxx.Lock
import Huicpp.Cxx.TransitionSystem

/-!
# Threads.ScopeHolders

The holder classes of `HOLDER_GENERATE(ty, dosth, undosth)` for `HMutex`, `HRwlock` and `HSpinLock`.
The constructor calls `dosth` and drops its result; the destructor calls `UnLock` in any case.

Every thread has the holders of the scopes that it is in, the innermost first. Whether `dosth`
succeeded is known here, but not to the code.
-/

namespace Huicpp
namespace Threads

open Cxx

inductive DoSth where
  | lock
  | tryLock
  | rLock
  | tryRLock
  | wLock
  | tryWLock
  deriving DecidableEq, Repr

namespace DoSth

def mode : DoSth → LockMode
  | .rLock => .shared
  | .tryRLock => .shared
  | _ => .exclusive

/-- Waits until the lock can be taken. -/
def Waits : DoSth → Prop
  | .lock => True
  | .rLock => True
  | .wLock => True
  | _ => False

end DoSth

inductive Device where
  | hMutex
  | hRwlock
  | hSpinLock
  deriving DecidableEq, Repr

/-- The holders that the header generates for a class. -/
def Device.holders : Device → List DoSth
  | .hMutex => [.lock, .tryLock]
  | .hRwlock => [.rLock, .tryRLock, .wLock, .tryWLock]
  | .hSpinLock => [.lock, .tryLock]

structure Holder where
  dosth : DoSth
  acquired : Bool
  deriving DecidableEq, Repr

structure Scopes (τ : Type) where
  device : Lock τ
  scopes : τ → List Holder

inductive ScopeAction (τ : Type) where
  | enter (t : τ) (dosth : DoSth)
  | leave (t : τ)
  deriving DecidableEq, Repr

namespace Scopes

variable {τ : Type}

def init : Scopes τ where
  device := .free
  scopes _ := []

variable [DecidableEq τ]

/-- The lock and the scopes of one thread are replaced. -/
def setScopes (s : Scopes τ) (t : τ) (device : Lock τ) (scopes : List Holder) : Scopes τ where
  device := device
  scopes := Function.update s.scopes t scopes

@[simp] theorem setScopes_device (s : Scopes τ) (t : τ) (device : Lock τ) (scopes : List Holder) :
    (s.setScopes t device scopes).device = device := rfl

@[simp] theorem setScopes_self (s : Scopes τ) (t : τ) (device : Lock τ) (scopes : List Holder) :
    (s.setScopes t device scopes).scopes t = scopes := Function.update_self ..

theorem setScopes_of_ne {s : Scopes τ} {t u : τ} (h : u ≠ t) (device : Lock τ)
    (scopes : List Holder) : (s.setScopes t device scopes).scopes u = s.scopes u :=
  Function.update_of_ne h ..

/-- A holder is constructed or destroyed. A call that waits fails only if the thread would wait for
itself. What `UnLock` does to a lock that the thread does not hold is undefined. -/
inductive Step (ty : Device) : Scopes τ → ScopeAction τ → Scopes τ → Prop where
  | acquired (s : Scopes τ) (t : τ) (dosth : DoSth) :
      dosth ∈ ty.holders → s.device.Grants dosth.mode →
      Step ty s (.enter t dosth)
        (s.setScopes t (s.device.acquire t dosth.mode) (⟨dosth, true⟩ :: s.scopes t))
  | failed (s : Scopes τ) (t : τ) (dosth : DoSth) :
      dosth ∈ ty.holders → ¬ s.device.Grants dosth.mode →
      (dosth.Waits → s.device.heldBy t ≠ []) →
      Step ty s (.enter t dosth) (s.setScopes t s.device (⟨dosth, false⟩ :: s.scopes t))
  | unLock (s : Scopes τ) (t : τ) (h : Holder) (outer : List Holder) :
      s.scopes t = h :: outer → s.device.heldBy t ≠ [] →
      Step ty s (.leave t) (s.setScopes t (s.device.release t) outer)
  | unLockForeign (s : Scopes τ) (t : τ) (h : Holder) (outer : List Holder) (device : Lock τ) :
      s.scopes t = h :: outer → s.device.heldBy t = [] →
      Step ty s (.leave t) (s.setScopes t device outer)

def system (ty : Device) (τ : Type) [DecidableEq τ] :
    TransitionSystem (Scopes τ) (ScopeAction τ) where
  init s := s = init
  step := Step ty

/-- Whoever calls `UnLock` owns the lock. -/
def OwnerUnLocks (s : Scopes τ) (a : ScopeAction τ) (_ : Scopes τ) : Prop :=
  ∀ t, a = .leave t → s.device.heldBy t ≠ []

/-- A holder is constructed only when the lock can be taken. -/
def Granted (s : Scopes τ) (a : ScopeAction τ) (_ : Scopes τ) : Prop :=
  ∀ t dosth, a = .enter t dosth → s.device.Grants dosth.mode

omit [DecidableEq τ] in
/-- No two threads are inside scopes whose holders acquired the lock, unless both share it. -/
def Exclusive (s : Scopes τ) : Prop :=
  ∀ t u, t ≠ u → ∀ h ∈ s.scopes t, ∀ k ∈ s.scopes u, h.acquired = true → k.acquired = true →
    h.dosth.mode = .shared ∧ k.dosth.mode = .shared

/-! ## Runs in which every lock is granted -/

/-- The scopes of a thread are its holds. -/
structure Inv (s : Scopes τ) : Prop where
  compatible : s.device.Compatible
  held : ∀ t, s.device.heldBy t = (s.scopes t).map fun h => h.dosth.mode

theorem inv_init : Inv (init : Scopes τ) where
  compatible := Lock.compatible_free
  held _ := rfl

theorem Inv.step {ty : Device} {s s' : Scopes τ} {a : ScopeAction τ} (hinv : Inv s)
    (h : Step ty s a s') (hgr : Granted s a s') : Inv s' := by
  cases h with
  | acquired t dosth _ hg =>
    refine ⟨Lock.compatible_acquire hg, fun u => ?_⟩
    by_cases hu : u = t
    · subst hu
      simp [hinv.held u]
    · rw [setScopes_device, Lock.heldBy_acquire_of_ne (Ne.symm hu), setScopes_of_ne hu]
      exact hinv.held u
  | failed t dosth _ hg _ => exact absurd (hgr t dosth rfl) hg
  | unLock t h outer hs _ =>
    refine ⟨hinv.compatible.release t, fun u => ?_⟩
    by_cases hu : u = t
    · subst hu
      simp [hinv.held u, hs]
    · rw [setScopes_device, Lock.heldBy_release_of_ne (Ne.symm hu), setScopes_of_ne hu]
      exact hinv.held u
  | unLockForeign t h outer device hs hno =>
    rw [hinv.held t, hs] at hno
    cases hno

theorem Inv.ownerUnLocks {ty : Device} {s s' : Scopes τ} {a : ScopeAction τ} (hinv : Inv s)
    (h : Step ty s a s') : OwnerUnLocks s a s' := by
  rintro t rfl
  cases h with
  | unLock _ h outer _ hown => exact hown
  | unLockForeign _ h outer device hs hno =>
    rw [hinv.held t, hs] at hno
    cases hno

theorem Inv.exclusive {s : Scopes τ} (hinv : Inv s) : s.Exclusive := by
  intro t u hne h hh k hk _ _
  have hht : h.dosth.mode ∈ s.device.heldBy t := by
    rw [hinv.held t]
    exact List.mem_map_of_mem hh
  have hku : k.dosth.mode ∈ s.device.heldBy u := by
    rw [hinv.held u]
    exact List.mem_map_of_mem hk
  exact ⟨hinv.compatible.shared hne hht hku, hinv.compatible.shared hne.symm hku hht⟩

theorem granted_run {ty : Device} {tr : List (ScopeAction τ)} {s : Scopes τ}
    (h : ((system ty τ).restrict Granted).Run tr s) :
    ((system ty τ).restrict OwnerUnLocks).Run tr s ∧ Inv s := by
  induction h with
  | init h =>
    obtain rfl : _ = init := h
    exact ⟨.init rfl, inv_init⟩
  | step _ hs ih =>
    obtain ⟨hrun, hinv⟩ := ih
    exact ⟨.step hrun ⟨hs.1, hinv.ownerUnLocks hs.1⟩, hinv.step hs.1 hs.2⟩

/-! ## Runs in which the owner unlocks -/

/-- A thread has no more holds than scopes, and fewer holds once a holder has failed. -/
structure Balance (ty : Device) (tr : List (ScopeAction τ)) (s : Scopes τ) : Prop where
  le : ∀ t, (s.device.heldBy t).length ≤ (s.scopes t).length
  failed : ((system ty τ).restrict Granted).Run tr s ∨
    ∃ t, (s.device.heldBy t).length < (s.scopes t).length

/-- Holds and scopes of every thread grow and shrink together. -/
theorem Balance.together {ty : Device} {tr : List (ScopeAction τ)} {s s' : Scopes τ}
    {a : ScopeAction τ} (hb : Balance ty tr s) (h : Step ty s a s') (hgr : Granted s a s')
    (hlen : ∀ t, (s'.device.heldBy t).length + (s.scopes t).length =
      (s.device.heldBy t).length + (s'.scopes t).length) : Balance ty (tr ++ [a]) s' := by
  refine ⟨fun t => ?_, ?_⟩
  · have hle := hb.le t
    have hlen := hlen t
    omega
  · rcases hb.failed with hrun | ⟨t, hlt⟩
    · exact .inl (.step hrun ⟨h, hgr⟩)
    · have hlen := hlen t
      exact .inr ⟨t, by omega⟩

theorem Balance.step {ty : Device} {tr : List (ScopeAction τ)} {s s' : Scopes τ}
    {a : ScopeAction τ} (hb : Balance ty tr s) (h : Step ty s a s') (hown : OwnerUnLocks s a s') :
    Balance ty (tr ++ [a]) s' := by
  have hstep : Step ty s a s' := h
  cases h with
  | acquired t dosth _ hg =>
    refine hb.together hstep ?_ fun u => ?_
    · rintro u d ⟨⟩
      exact hg
    · by_cases hu : u = t
      · subst hu
        simp
        omega
      · rw [setScopes_device, Lock.heldBy_acquire_of_ne (Ne.symm hu), setScopes_of_ne hu]
  | failed t dosth _ hg _ =>
    have hle := hb.le t
    refine ⟨fun u => ?_, .inr ⟨t, ?_⟩⟩
    · by_cases hu : u = t
      · subst hu
        simp
        omega
      · rw [setScopes_of_ne hu]
        exact hb.le u
    · simp
      omega
  | unLock t h outer hs hheld =>
    have hpos := List.length_pos_iff.mpr hheld
    refine hb.together hstep nofun fun u => ?_
    by_cases hu : u = t
    · subst hu
      simp [hs]
      omega
    · rw [setScopes_device, Lock.heldBy_release_of_ne (Ne.symm hu), setScopes_of_ne hu]
  | unLockForeign t h outer device hs hno => exact absurd hno (hown t rfl)

theorem ownerUnLocks_run {ty : Device} {tr : List (ScopeAction τ)} {s : Scopes τ}
    (h : ((system ty τ).restrict OwnerUnLocks).Run tr s) : Balance ty tr s := by
  induction h with
  | init h =>
    obtain rfl : _ = init := h
    exact ⟨fun _ => le_rfl, .inl (.init rfl)⟩
  | step _ hs ih => exact ih.step hs.1 hs.2

/-- In a run in which every holder is constructed when the lock can be taken, only owners unlock, and
the lock excludes. In a run after which all scopes are left, owners unlock in no other case. -/
theorem holders_exclude (ty : Device) (tr : List (ScopeAction τ)) (s : Scopes τ) :
    (((system ty τ).restrict Granted).Run tr s →
        ((system ty τ).restrict OwnerUnLocks).Run tr s ∧ s.Exclusive) ∧
      ((∀ t, s.scopes t = []) → ((system ty τ).restrict OwnerUnLocks).Run tr s →
        ((system ty τ).restrict Granted).Run tr s) := by
  constructor
  · intro hgr
    obtain ⟨hrun, hinv⟩ := granted_run hgr
    exact ⟨hrun, hinv.exclusive⟩
  · intro hleft hown
    rcases (ownerUnLocks_run hown).failed with hrun | ⟨t, hlt⟩
    · exact hrun
    · rw [hleft t] at hlt
      exact absurd hlt (Nat.not_lt_zero _)

/-- Two threads, one in the scope that the other one has left. -/
theorem holders_exclude_twoThreads : ∃ tr, ∃ s : Scopes Bool,
    ((system .hMutex Bool).restrict OwnerUnLocks).Run tr s ∧ s.Exclusive ∧
      s.scopes true = [] ∧ s.scopes false = [⟨.tryLock, true⟩] := by
  have h0 : ((system .hMutex Bool).restrict Granted).Run [] (init : Scopes Bool) := .init rfl
  have h1 := h0.step ⟨Step.acquired _ true .lock (by decide) rfl, by
    rintro t d ⟨⟩
    rfl⟩
  have h2 := h1.step ⟨Step.unLock _ true ⟨.lock, true⟩ [] rfl (by decide), nofun⟩
  have h3 := h2.step ⟨Step.acquired _ false .tryLock (by decide) rfl, by
    rintro t d ⟨⟩
    rfl⟩
  obtain ⟨hrun, hex⟩ := (holders_exclude .hMutex _ _).1 h3
  exact ⟨_, _, hrun, hex, rfl, rfl⟩

/-- The first thread is in its scope when the second one tries, fails and leaves. What it unlocks is
the lock of the first thread, and its next scope is entered beside that one. -/
theorem tryLock_unlocks_foreign : ¬ ∀ tr, ∀ s : Scopes Bool, (system .hMutex Bool).Run tr s →
    ((system .hMutex Bool).restrict OwnerUnLocks).Run tr s ∧ s.Exclusive := by
  intro hall
  have h0 : (system .hMutex Bool).Run [] (init : Scopes Bool) := .init rfl
  have h1 := h0.step (Step.acquired _ true .lock (by decide) rfl)
  have h2 := h1.step (Step.failed _ false .tryLock (by decide) (List.cons_ne_nil _ _) nofun)
  have h3 := h2.step (Step.unLockForeign _ false ⟨.tryLock, false⟩ [] .free rfl rfl)
  have h4 := h3.step (Step.acquired _ false .lock (by decide) rfl)
  have hex := (hall _ _ h4).2 true false (by decide) ⟨.lock, true⟩ (.head _) ⟨.lock, true⟩ (.head _)
    rfl rfl
  cases hex.1

end Scopes

end Threads
end Huicpp
