import Mathlib
import Huicpp.Cxx.TransitionSystem
import Huicpp.Cxx.UndoSemaphore

/-!
# Ipc.SemHolders

`SemHolder`, the scopes that processes are in by the semaphores of one `HSemaphore`. The constructor drops
the result of `Lock`, which a signal or the kernel may make fail, and the destructor calls `Unlock` in any
case. A holder can be copied, by its implicit constructor or with the memory of a process that forks, and
each copy has a destructor. Every process may end at any moment.

* `Undisturbed`: no call fails and no holder is copied.
* `holders_bounded`: how many processes are inside at once, and when this is what `Setall` has set.
-/

namespace Huicpp
namespace Ipc

open Cxx

/-- `struct sembuf`, with `SEM_UNDO`. -/
structure Sembuf where
  sem_num : Nat
  sem_op : Int
  deriving DecidableEq, Repr

namespace HSemaphore

/-- What `Lock(semnum)` gives to `operation`. -/
def lockOp (semnum : Nat) : Sembuf := ⟨semnum, -1⟩

/-- What `Unlock(semnum)` gives to `operation`. -/
def unlockOp (semnum : Nat) : Sembuf := ⟨semnum, 1⟩

/-- The array that `Setall(init_array)` sets the semaphores to. -/
def setallArray (init_array : Option (Nat → Nat)) : Nat → Nat := init_array.getD fun _ => 1

end HSemaphore

/-- `locked` is whether this object's `Lock` has succeeded. -/
structure SemHolder where
  m_index : Nat
  locked : Bool
  deriving DecidableEq, Repr

/-- The set of semaphores, and the holders of each process. -/
structure SemScopes (ι : Type) where
  set : Nat → UndoSemaphore ι
  scopes : ι → List SemHolder

inductive SemAction (ι : Type) where
  | enter (p : ι) (m_index : Nat) (ok : Bool)
  | copied (p q : ι) (h : SemHolder)
  | leave (p : ι) (h : SemHolder) (ok : Bool)
  | exit (p : ι)
  deriving DecidableEq, Repr

/-- A holder that has not locked semaphore `i` unlocks it. -/
def SemAction.unlocksForeign {ι : Type} (i : Nat) : SemAction ι → Bool
  | .leave _ h true => h.m_index == i && !h.locked
  | _ => false

namespace SemScopes

variable {ι : Type} [DecidableEq ι]

/-- `operation(&sops, 1)` of process `p`. A decrement waits until the value is positive. -/
inductive Operation (nsems : Nat) (p : ι) (set : Nat → UndoSemaphore ι) :
    Sembuf → Bool → (Nat → UndoSemaphore ι) → Prop where
  | down (i : Nat) : i < nsems → 0 < (set i).value →
      Operation nsems p set ⟨i, -1⟩ true (Function.update set i ((set i).down p))
  | up (i : Nat) : i < nsems → (set i).value < SEMVMX →
      Operation nsems p set ⟨i, 1⟩ true (Function.update set i ((set i).up p))
  | failed (sops : Sembuf) : Operation nsems p set sops false set

/-- A holder is constructed, copied or destroyed, or a process ends. -/
inductive Step (nsems : Nat) (s : SemScopes ι) : SemAction ι → SemScopes ι → Prop where
  | enter (p : ι) (i : Nat) (ok : Bool) (set : Nat → UndoSemaphore ι) :
      Operation nsems p s.set (HSemaphore.lockOp i) ok set →
      Step nsems s (.enter p i ok) ⟨set, Function.update s.scopes p (⟨i, ok⟩ :: s.scopes p)⟩
  | copied (p q : ι) (h : SemHolder) : h ∈ s.scopes p →
      Step nsems s (.copied p q h)
        ⟨s.set, Function.update s.scopes q (⟨h.m_index, false⟩ :: s.scopes q)⟩
  | leave (p : ι) (h : SemHolder) (ok : Bool) (set : Nat → UndoSemaphore ι) : h ∈ s.scopes p →
      Operation nsems p s.set (HSemaphore.unlockOp h.m_index) ok set →
      Step nsems s (.leave p h ok) ⟨set, Function.update s.scopes p ((s.scopes p).erase h)⟩
  | exit (p : ι) :
      Step nsems s (.exit p) ⟨fun i => (s.set i).exit p, Function.update s.scopes p []⟩

/-- `Setall` has set the semaphores, and nobody holds one. -/
def system (ι : Type) [DecidableEq ι] (nsems : Nat) (init_array : Option (Nat → Nat)) :
    TransitionSystem (SemScopes ι) (SemAction ι) where
  init s := s = ⟨fun i => .new (HSemaphore.setallArray init_array i), fun _ => []⟩
  step := Step nsems

/-- The holders of `p` for semaphore `i` that have locked it. -/
def held (s : SemScopes ι) (i : Nat) (p : ι) : Nat := (s.scopes p).count ⟨i, true⟩

/-- How many holders are inside by semaphore `i`. -/
def inside [Fintype ι] (s : SemScopes ι) (i : Nat) : Nat := ∑ p, s.held i p

/-- How often that has happened. -/
def foreign (tr : List (SemAction ι)) (i : Nat) : Nat := tr.countP (SemAction.unlocksForeign i)

/-- No call fails and no holder is copied. -/
def Undisturbed (_ : SemScopes ι) : SemAction ι → SemScopes ι → Prop
  | .enter _ _ ok, _ => ok = true
  | .copied _ _ _, _ => False
  | .leave _ _ ok, _ => ok = true
  | .exit _, _ => True

/-! ## The holds after a step -/

section Held

variable (set : Nat → UndoSemaphore ι) (s : SemScopes ι) (i : Nat) (p : ι)

theorem held_update (hs : List SemHolder) :
    held ⟨set, Function.update s.scopes p hs⟩ i
      = Function.update (s.held i) p (hs.count ⟨i, true⟩) := by
  funext q
  by_cases hq : q = p
  · subst hq
    simp [held]
  · simp [held, hq]

theorem held_enter : held ⟨set, Function.update s.scopes p (⟨i, true⟩ :: s.scopes p)⟩ i
    = Function.update (s.held i) p (s.held i p + 1) := by
  rw [held_update, List.count_cons_self]
  rfl

theorem held_cons_other {h : SemHolder} (hh : h ≠ ⟨i, true⟩) :
    held ⟨set, Function.update s.scopes p (h :: s.scopes p)⟩ i = s.held i := by
  rw [held_update, List.count_cons_of_ne hh]
  exact Function.update_eq_self p (s.held i)

theorem held_leave : held ⟨set, Function.update s.scopes p ((s.scopes p).erase ⟨i, true⟩)⟩ i
    = Function.update (s.held i) p (s.held i p - 1) := by
  rw [held_update, List.count_erase_self]
  rfl

theorem held_erase_other {h : SemHolder} (hh : h ≠ ⟨i, true⟩) :
    held ⟨set, Function.update s.scopes p ((s.scopes p).erase h)⟩ i = s.held i := by
  rw [held_update, List.count_erase_of_ne hh.symm]
  exact Function.update_eq_self p (s.held i)

theorem held_exit : held ⟨set, Function.update s.scopes p []⟩ i = Function.update (s.held i) p 0 := by
  rw [held_update, List.count_nil]

end Held

omit [DecidableEq ι] in
theorem set_self (set : Nat → UndoSemaphore ι) (i : Nat) (x : UndoSemaphore ι)
    (scopes : ι → List SemHolder) : (⟨Function.update set i x, scopes⟩ : SemScopes ι).set i = x :=
  Function.update_self _ _ _

omit [DecidableEq ι] in
theorem set_of_ne (set : Nat → UndoSemaphore ι) {i j : Nat} (h : i ≠ j) (x : UndoSemaphore ι)
    (scopes : ι → List SemHolder) :
    (⟨Function.update set j x, scopes⟩ : SemScopes ι).set i = set i :=
  Function.update_of_ne h _ _

variable {nsems : Nat} {init_array : Option (Nat → Nat)}

/-! ## In any run -/

omit [DecidableEq ι] in
theorem foreign_append (tr : List (SemAction ι)) (a : SemAction ι) (i : Nat) :
    foreign (tr ++ [a]) i = foreign tr i + if a.unlocksForeign i then 1 else 0 := by
  simp [foreign, List.countP_append, List.countP_singleton]

theorem lockOp_cases {p : ι} {set set' : Nat → UndoSemaphore ι} {i : Nat} {ok : Bool}
    (h : Operation nsems p set (HSemaphore.lockOp i) ok set') :
    (ok = true ∧ 0 < (set i).value ∧ set' = Function.update set i ((set i).down p)) ∨
      (ok = false ∧ set' = set) := by
  generalize hop : HSemaphore.lockOp i = sops at h
  cases h with
  | down j _ hpos =>
    obtain rfl : i = j := congrArg Sembuf.sem_num hop
    exact .inl ⟨rfl, hpos, rfl⟩
  | up j => cases congrArg Sembuf.sem_op hop
  | failed => exact .inr ⟨rfl, rfl⟩

theorem unlockOp_cases {p : ι} {set set' : Nat → UndoSemaphore ι} {i : Nat} {ok : Bool}
    (h : Operation nsems p set (HSemaphore.unlockOp i) ok set') :
    (ok = true ∧ set' = Function.update set i ((set i).up p)) ∨ (ok = false ∧ set' = set) := by
  generalize hop : HSemaphore.unlockOp i = sops at h
  cases h with
  | down j => cases congrArg Sembuf.sem_op hop
  | up j =>
    obtain rfl : i = j := congrArg Sembuf.sem_num hop
    exact .inl ⟨rfl, rfl⟩
  | failed => exact .inr ⟨rfl, rfl⟩

variable [Fintype ι]

theorem claims_step {s s' : SemScopes ι} {a : SemAction ι} (h : Step nsems s a s') (i : Nat) :
    (s'.set i).claims (s'.held i)
      ≤ (s.set i).claims (s.held i) + if a.unlocksForeign i then 1 else 0 := by
  have hnone : (s.set i).claims (s.held i)
      ≤ (s.set i).claims (s.held i) + if a.unlocksForeign i then 1 else 0 := by
    split <;> omega
  cases h with
  | enter p j ok set hop =>
    rcases lockOp_cases hop with ⟨rfl, hpos, rfl⟩ | ⟨rfl, rfl⟩
    · by_cases hij : i = j
      · subst hij
        rw [held_enter, set_self, UndoSemaphore.claims_down hpos]
        exact hnone
      · rw [held_cons_other _ _ _ _ (by simp [Ne.symm hij]), set_of_ne _ hij]
        exact hnone
    · rw [held_cons_other _ _ _ _ (by simp)]
      exact hnone
  | copied p q h hmem =>
    rw [held_cons_other _ _ _ _ (by simp)]
    exact hnone
  | leave p h ok set hmem hop =>
    obtain ⟨j, locked⟩ := h
    have hop : Operation nsems p s.set (HSemaphore.unlockOp j) ok set := hop
    rcases unlockOp_cases hop with ⟨rfl, rfl⟩ | ⟨rfl, rfl⟩
    · by_cases hij : i = j
      · subst hij
        rw [set_self]
        cases locked with
        | true =>
          have hheld : 0 < s.held i p := List.count_pos_iff.mpr hmem
          rw [held_leave, UndoSemaphore.claims_up_held hheld]
          exact hnone
        | false =>
          rw [held_erase_other _ _ _ _ (by simp)]
          simpa [SemAction.unlocksForeign] using UndoSemaphore.claims_up_le
      · rw [held_erase_other _ _ _ _ (by simp [Ne.symm hij]), set_of_ne _ hij]
        exact hnone
    · by_cases hhold : (⟨j, locked⟩ : SemHolder) = ⟨i, true⟩
      · cases hhold
        rw [held_leave]
        exact le_trans UndoSemaphore.claims_forget_le hnone
      · rw [held_erase_other _ _ _ _ hhold]
        exact hnone
  | exit p =>
    rw [held_exit]
    exact le_trans UndoSemaphore.claims_exit_le hnone

theorem claims_run {tr : List (SemAction ι)} {s : SemScopes ι}
    (h : (system ι nsems init_array).Run tr s) (i : Nat) :
    (s.set i).claims (s.held i) ≤ HSemaphore.setallArray init_array i + foreign tr i := by
  induction h with
  | init h =>
    subst h
    simp [UndoSemaphore.claims, UndoSemaphore.new, held, foreign]
  | step _ hs ih =>
    have hstep := claims_step hs i
    rw [foreign_append]
    push_cast
    omega

/-! ## In undisturbed runs -/

theorem balanced_step {s s' : SemScopes ι} {a : SemAction ι} {i start : Nat} (hmax : start ≤ SEMVMX)
    (hbal : (s.set i).Balanced (s.held i) start) (hlocked : ∀ p, ∀ h ∈ s.scopes p, h.locked = true)
    (h : Step nsems s a s') (hu : Undisturbed s a s') :
    (s'.set i).Balanced (s'.held i) start := by
  cases h with
  | enter p j ok set hop =>
    rcases lockOp_cases hop with ⟨rfl, hpos, rfl⟩ | ⟨rfl, rfl⟩
    · by_cases hij : i = j
      · subst hij
        rw [held_enter, set_self]
        exact hbal.down hpos
      · rw [held_cons_other _ _ _ _ (by simp [Ne.symm hij]), set_of_ne _ hij]
        exact hbal
    · cases hu
  | copied p q h hmem => exact hu.elim
  | leave p h ok set hmem hop =>
    obtain ⟨j, locked⟩ := h
    obtain rfl : locked = true := hlocked p _ hmem
    have hop : Operation nsems p s.set (HSemaphore.unlockOp j) ok set := hop
    rcases unlockOp_cases hop with ⟨rfl, rfl⟩ | ⟨rfl, rfl⟩
    · by_cases hij : i = j
      · subst hij
        rw [held_leave, set_self]
        exact hbal.up (List.count_pos_iff.mpr hmem)
      · rw [held_erase_other _ _ _ _ (by simp [Ne.symm hij]), set_of_ne _ hij]
        exact hbal
    · cases hu
  | exit p =>
    rw [held_exit]
    exact hbal.exit hmax

omit [Fintype ι] in
theorem locked_step {s s' : SemScopes ι} {a : SemAction ι}
    (hlocked : ∀ p, ∀ h ∈ s.scopes p, h.locked = true) (h : Step nsems s a s')
    (hu : Undisturbed s a s') : ∀ p, ∀ h ∈ s'.scopes p, h.locked = true := by
  have hupdate : ∀ (p : ι) (hs : List SemHolder), (∀ h ∈ hs, h.locked = true) →
      ∀ q, ∀ h ∈ Function.update s.scopes p hs q, h.locked = true := by
    intro p hs hhs q
    by_cases hq : q = p
    · subst hq
      rwa [Function.update_self]
    · rw [Function.update_of_ne hq]
      exact hlocked q
  cases h with
  | enter p j ok set hop =>
    have hok : ok = true := hu
    exact hupdate p _ (List.forall_mem_cons.mpr ⟨hok, hlocked p⟩)
  | copied p q h hmem => exact hu.elim
  | leave p h ok set hmem hop => exact hupdate p _ fun k hk => hlocked p k (List.mem_of_mem_erase hk)
  | exit p => exact hupdate p _ fun k hk => absurd hk List.not_mem_nil

theorem balanced_run {tr : List (SemAction ι)} {s : SemScopes ι}
    (h : ((system ι nsems init_array).restrict Undisturbed).Run tr s) (i : Nat)
    (hmax : HSemaphore.setallArray init_array i ≤ SEMVMX) :
    (s.set i).Balanced (s.held i) (HSemaphore.setallArray init_array i) ∧
      ∀ p, ∀ h ∈ s.scopes p, h.locked = true := by
  induction h with
  | init h =>
    subst h
    exact ⟨UndoSemaphore.balanced_new _, fun p h hh => absurd hh List.not_mem_nil⟩
  | step _ hs ih =>
    exact ⟨balanced_step hmax ih.1 ih.2 hs.1 hs.2, locked_step ih.2 hs.1 hs.2⟩

/-- **Scopes by a semaphore.** In every run of any number of processes: the value and those inside are
together no more than what `Setall` has set, but for each time that a holder unlocks what it has not
locked. In a run in which no call fails and no holder is copied they are always exactly that, whichever
processes end and where: as long as fewer are inside, the next `Lock` can succeed. -/
theorem holders_bounded {tr : List (SemAction ι)} {s : SemScopes ι} (i : Nat) :
    ((system ι nsems init_array).Run tr s →
      (s.set i).value + s.inside i ≤ HSemaphore.setallArray init_array i + foreign tr i) ∧
    (((system ι nsems init_array).restrict Undisturbed).Run tr s →
      HSemaphore.setallArray init_array i ≤ SEMVMX →
        (s.set i).value + s.inside i = HSemaphore.setallArray init_array i ∧
        (i < nsems → s.inside i < HSemaphore.setallArray init_array i →
          ∀ p, ∃ s', (system ι nsems init_array).step s (.enter p i true) s')) := by
  refine ⟨fun h => ?_, fun h hmax => ?_⟩
  · have hclaims := claims_run h i
    have hheld := UndoSemaphore.held_le_claims (s.held i) (s.set i)
    simp only [inside]
    omega
  · have hvalue := (balanced_run h i hmax).1.value
    refine ⟨hvalue, fun hi hlt p => ⟨_, .enter p i true _ (.down i hi ?_)⟩⟩
    simp only [inside] at hlt
    omega

/-- Of two processes, one is inside and ends there. -/
theorem holders_bounded_ended : ∃ tr, ∃ s : SemScopes Bool,
    ((system Bool 1 none).restrict Undisturbed).Run tr s ∧ tr.length = 2 ∧
      (s.set 0).value + s.inside 0 = 1 := by
  have h0 : ((system Bool 1 none).restrict Undisturbed).Run [] _ := .init rfl
  have h1 := h0.step ⟨Step.enter true 0 true _ (.down 0 (by decide) (by decide)), rfl⟩
  have h2 := h1.step ⟨Step.exit true, trivial⟩
  exact ⟨_, _, h2, rfl, ((holders_bounded 0).2 h2 (by decide)).1⟩

end SemScopes

end Ipc
end Huicpp
