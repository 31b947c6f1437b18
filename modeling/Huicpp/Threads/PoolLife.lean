import Mathlib
import Huicpp.Cxx.TransitionSystem

/-!
# Threads.PoolLife

The life of an `HThreadPool` of `n` threads: `Init`, perhaps `JoinAll`, and the destructor, which
decides by the status of a slot whether to cancel and join its thread. The statuses are written by
the parent (IDLE) and the threads (BUSY, UNUSED), and `JoinAll` does not write them.

Threads end by returning from `childThreadRun`, by `childThreadExit`, or when they are cancelled.
-/

namespace Huicpp
namespace Threads

open Cxx

inductive ChildStatus where
  | csUnused
  | csIdle
  | csBusy
  | csUnknown
  deriving DecidableEq, Repr

/-- Where a thread is in `thread_init_run`. -/
inductive ThreadPc where
  | notCreated
  | beforeSonRun
  | afterSonRun
  | childThreadRun
  | exiting
  | ended
  deriving DecidableEq, Repr

/-- A thread and its slot of `m_pinfos`. `held`: `m_thread` has the thread's id; `joins` counts how
often the thread has been joined. -/
structure ChildInfo where
  pc : ThreadPc
  cs : ChildStatus
  held : Bool
  joins : Nat
  cancelled : Bool
  deriving DecidableEq, Repr

/-- Where the parent is, and in which round of its loop. -/
inductive OwnerPc where
  | constructed
  | create (i : Nat)
  | waitSonRun (i : Nat)
  | moveThread (i : Nat)
  | setIdle (i : Nat)
  | initialised
  | initThrew
  | joinAll (i : Nat)
  | joinedAll
  | freeInfo (i : Nat)
  | cancel (i : Nat)
  | join (i : Nat)
  | destroyed
  | crashed
  deriving DecidableEq, Repr

structure PoolLife where
  pinfos : Bool
  owner : OwnerPc
  info : Nat → ChildInfo

/-- What a step shows. `create i`, `setIdle i` and `joinAll` are steps of the parent, which creates thread
`i`, writes IDLE to its slot and calls `JoinAll`. `look i`: the destructor reads the status of slot `i`, and
`cancel i` and `join i` are its calls. `setBusy i` and `childThreadExit i` are the writes of thread `i`. -/
inductive LifeAction where
  | init
  | create (i : Nat)
  | setIdle (i : Nat)
  | joinAll
  | look (i : Nat)
  | cancel (i : Nat)
  | join (i : Nat)
  | owner
  | setBusy (i : Nat)
  | childThreadExit (i : Nat)
  | child (i : Nat)
  deriving DecidableEq, Repr

namespace ChildInfo

def fresh : ChildInfo where
  pc := .notCreated
  cs := .csUnused
  held := false
  joins := 0
  cancelled := false

/-- `Join` with a thread that has ended. -/
def joined (c : ChildInfo) : ChildInfo := { c with held := false, joins := c.joins + 1 }

end ChildInfo

namespace PoolLife

def init : PoolLife where
  pinfos := false
  owner := .constructed
  info _ := .fresh

def setOwner (s : PoolLife) (pc : OwnerPc) : PoolLife := { s with owner := pc }

def setInfo (s : PoolLife) (i : Nat) (c : ChildInfo) : PoolLife :=
  { s with info := Function.update s.info i c }

@[simp] theorem setOwner_owner (s : PoolLife) (pc : OwnerPc) : (s.setOwner pc).owner = pc := rfl
@[simp] theorem setOwner_info (s : PoolLife) (pc : OwnerPc) : (s.setOwner pc).info = s.info := rfl
@[simp] theorem setInfo_owner (s : PoolLife) (i : Nat) (c : ChildInfo) :
    (s.setInfo i c).owner = s.owner := rfl
@[simp] theorem setInfo_self (s : PoolLife) (i : Nat) (c : ChildInfo) :
    (s.setInfo i c).info i = c := Function.update_self ..
theorem setInfo_of_ne {s : PoolLife} {i j : Nat} (h : j ≠ i) (c : ChildInfo) :
    (s.setInfo i c).info j = s.info j := Function.update_of_ne h ..

/-- The owner may join all threads once `Init` has returned or thrown, and may destroy the pool at
any time between two calls. -/
inductive Step (n : Nat) : PoolLife → LifeAction → PoolLife → Prop where
  | initNone (s : PoolLife) :
      s.owner = .constructed → n = 0 → Step n s .init (s.setOwner .initialised)
  | init (s : PoolLife) :
      s.owner = .constructed → 0 < n →
      Step n s .init { s.setOwner (.create 0) with pinfos := true }
  | create (s : PoolLife) (i : Nat) :
      s.owner = .create i →
      Step n s (.create i)
        ((s.setInfo i { s.info i with pc := .beforeSonRun }).setOwner (.waitSonRun i))
  | createFails (s : PoolLife) (i : Nat) :
      s.owner = .create i → Step n s .owner (s.setOwner .initThrew)
  | waitSonRun (s : PoolLife) (i : Nat) :
      s.owner = .waitSonRun i → (s.info i).pc ≠ .beforeSonRun →
      Step n s .owner (s.setOwner (.moveThread i))
  | moveThread (s : PoolLife) (i : Nat) :
      s.owner = .moveThread i →
      Step n s .owner ((s.setInfo i { s.info i with held := true }).setOwner (.setIdle i))
  | setIdle (s : PoolLife) (i : Nat) :
      s.owner = .setIdle i →
      Step n s (.setIdle i) ((s.setInfo i { s.info i with cs := .csIdle }).setOwner
        (if i + 1 < n then .create (i + 1) else .initialised))
  | joinAll (s : PoolLife) :
      s.owner = .initialised ∨ s.owner = .initThrew → Step n s .joinAll (s.setOwner (.joinAll 0))
  | joinAllInvalid (s : PoolLife) (i : Nat) :
      s.owner = .joinAll i → i < n → (s.info i).held = false →
      Step n s .owner (s.setOwner (.joinAll (i + 1)))
  | joinAllJoins (s : PoolLife) (i : Nat) :
      s.owner = .joinAll i → i < n → (s.info i).held = true → (s.info i).pc = .ended →
      Step n s .owner ((s.setInfo i (s.info i).joined).setOwner (.joinAll (i + 1)))
  | joinAllReturns (s : PoolLife) (i : Nat) :
      s.owner = .joinAll i → n ≤ i → Step n s .owner (s.setOwner .joinedAll)
  | destructor (s : PoolLife) :
      s.owner = .constructed ∨ s.owner = .initialised ∨ s.owner = .initThrew ∨
        s.owner = .joinedAll →
      Step n s .owner (s.setOwner (.freeInfo 0))
  | lookNull (s : PoolLife) (i : Nat) :
      s.owner = .freeInfo i → i < n → s.pinfos = false →
      Step n s (.look i) (s.setOwner .crashed)
  | lookUnused (s : PoolLife) (i : Nat) :
      s.owner = .freeInfo i → i < n → s.pinfos = true → (s.info i).cs = .csUnused →
      Step n s (.look i) (s.setOwner (.freeInfo (i + 1)))
  | lookUsed (s : PoolLife) (i : Nat) :
      s.owner = .freeInfo i → i < n → s.pinfos = true → (s.info i).cs ≠ .csUnused →
      Step n s (.look i) (s.setOwner (.cancel i))
  | cancel (s : PoolLife) (i : Nat) :
      s.owner = .cancel i →
      Step n s (.cancel i) ((s.setInfo i { s.info i with cancelled := true }).setOwner (.join i))
  | joinInvalid (s : PoolLife) (i : Nat) :
      s.owner = .join i → (s.info i).held = false →
      Step n s (.join i) (s.setOwner (.freeInfo (i + 1)))
  | join (s : PoolLife) (i : Nat) :
      s.owner = .join i → (s.info i).held = true → (s.info i).pc = .ended →
      Step n s (.join i) ((s.setInfo i (s.info i).joined).setOwner (.freeInfo (i + 1)))
  | destroyed (s : PoolLife) (i : Nat) :
      s.owner = .freeInfo i → n ≤ i → Step n s .owner (s.setOwner .destroyed)
  | sonRun (s : PoolLife) (i : Nat) :
      (s.info i).pc = .beforeSonRun →
      Step n s (.child i) (s.setInfo i { s.info i with pc := .afterSonRun })
  | setBusy (s : PoolLife) (i : Nat) :
      (s.info i).pc = .afterSonRun →
      Step n s (.setBusy i) (s.setInfo i { s.info i with pc := .childThreadRun, cs := .csBusy })
  | returns (s : PoolLife) (i : Nat) :
      (s.info i).pc = .childThreadRun →
      Step n s (.child i) (s.setInfo i { s.info i with pc := .ended })
  | childThreadExit (s : PoolLife) (i : Nat) :
      (s.info i).pc = .childThreadRun →
      Step n s (.childThreadExit i)
        (s.setInfo i { s.info i with pc := .exiting, cs := .csUnused })
  | exit (s : PoolLife) (i : Nat) :
      (s.info i).pc = .exiting →
      Step n s (.child i) (s.setInfo i { s.info i with pc := .ended })
  | cancelled (s : PoolLife) (i : Nat) :
      (s.info i).cancelled = true → (s.info i).pc ≠ .notCreated → (s.info i).pc ≠ .ended →
      Step n s (.child i) (s.setInfo i { s.info i with pc := .ended })

def system (n : Nat) : TransitionSystem PoolLife LifeAction where
  init s := s = init
  step := Step n

def Created (s : PoolLife) (i : Nat) : Prop := (s.info i).pc ≠ .notCreated

/-! ## What the life of a pool should be -/

/-- The destructor calls `Cancel` and `Join` only on threads that have not been joined. -/
def OnlyUnjoined (s : PoolLife) (a : LifeAction) (_ : PoolLife) : Prop :=
  ∀ i, a = .cancel i ∨ a = .join i → (s.info i).joins = 0

/-- The pool is not destroyed through a null pointer, no thread is joined twice, and when the pool
has been destroyed each thread that was created has been joined. -/
structure Safe (s : PoolLife) : Prop where
  notCrashed : s.owner ≠ .crashed
  atMostOnce : ∀ i, (s.info i).joins ≤ 1
  joined : s.owner = .destroyed → ∀ i, s.Created i → (s.info i).joins = 1

/-- Where the destructor reads a status, `Init` has made the slots, and the status is UNUSED exactly
if `JoinAll` has joined the thread. -/
def StatusTells (s : PoolLife) (a : LifeAction) (_ : PoolLife) : Prop :=
  ∀ i, a = .look i →
    s.pinfos = true ∧ (s.Created i → ((s.info i).cs = .csUnused ↔ (s.info i).joins = 1))

/-- After these steps `Init` has been called, and `JoinAll` has been called exactly if thread `i`, once
created, has left by `childThreadExit` after the parent wrote IDLE to its slot. -/
def LeftInOrder (tr : List LifeAction) (i : Nat) : Prop :=
  .init ∈ tr ∧ (.create i ∈ tr → (.joinAll ∈ tr ↔ [.setIdle i, .childThreadExit i].Sublist tr))

/-- So it is whenever the destructor comes to a slot. -/
def InOrder (tr : List LifeAction) : Prop :=
  ∀ pre i post, tr = pre ++ .look i :: post → LeftInOrder pre i

end PoolLife

end Threads
end Huicpp
