import Mathlib
import Huicpp.Cxx.TransitionSystem

/-!
# Threads.InitHandshake

`HThreadPool::Init` of any number of pools, and `thread_init_run` of the threads that they create, up
to `SonRun`. The flag `s_uChildCreated` and the lock `s_son_lock` are static members, so that all
pools have them in common. `WaitSonRun` up to its next `Wait`, and `SonRun` with its `Signal`, are
critical sections.
-/

namespace Huicpp
namespace Threads

open Cxx

structure ThreadArg (ι : Type) where
  pool : Option ι
  index : Nat

/-- The array of arguments. -/
inductive Parr (ι : Type) where
  | unallocated
  | live (args : Nat → ThreadArg ι)
  | freed

/-- Where `Init` of a pool is, and in which round of its loop. -/
inductive InitPc where
  | start
  | create (i : Nat)
  | waitSonRun (i : Nat)
  | waiting (i : Nat)
  | woken (i : Nat)
  | moveThread (i : Nat)
  | free
  | returned
  | threw (i : Nat)
  deriving DecidableEq, Repr

/-- Where a thread is, with what it has read of its argument. -/
inductive ChildPc (ι : Type) where
  | notCreated
  | loadPool
  | loadIndex (pool : Option ι)
  | sonRun (pool : Option ι) (index : Nat)
  | running (pool : ι) (index : Nat)
  | threw

namespace InitPc

/-- For how many threads `WaitSonRun` has been left, of `n`. -/
def left (n : Nat) : InitPc → Nat
  | .start => 0
  | .create i => i
  | .waitSonRun i => i
  | .waiting i => i
  | .woken i => i
  | .moveThread i => i + 1
  | .free => n
  | .returned => n
  | .threw i => i

/-- The thread that has been created and not yet been waited for. -/
def hand : InitPc → Option Nat
  | .waitSonRun i => some i
  | .waiting i => some i
  | .woken i => some i
  | _ => none

end InitPc

/-- `SonRun` has not been executed yet. -/
def ChildPc.BeforeSonRun {ι : Type} : ChildPc ι → Prop
  | .loadPool => True
  | .loadIndex _ => True
  | .sonRun _ _ => True
  | _ => False

/-- Its argument has not been read yet. -/
def ChildPc.ReadsArg {ι : Type} : ChildPc ι → Prop
  | .loadPool => True
  | .loadIndex _ => True
  | _ => False

structure InitHandshake (ι : Type) where
  uChildCreated : Bool
  parent : ι → InitPc
  parr : ι → Parr ι
  child : ι → Nat → ChildPc ι

inductive InitAction (ι : Type) where
  | create (p : ι)
  | parent (p : ι)
  | child (p : ι) (i : Nat)
  deriving DecidableEq, Repr

namespace InitHandshake

variable {ι : Type}

def init : InitHandshake ι where
  uChildCreated := false
  parent _ := .start
  parr _ := .unallocated
  child _ _ := .notCreated

variable [DecidableEq ι]

def setParent (s : InitHandshake ι) (p : ι) (pc : InitPc) : InitHandshake ι :=
  { s with parent := Function.update s.parent p pc }

def setParr (s : InitHandshake ι) (p : ι) (parr : Parr ι) : InitHandshake ι :=
  { s with parr := Function.update s.parr p parr }

def setChild (s : InitHandshake ι) (p : ι) (i : Nat) (pc : ChildPc ι) : InitHandshake ι :=
  { s with child := Function.update s.child p (Function.update (s.child p) i pc) }

/-- Pool `p` has `n p` threads. A parent in `WaitSonRun` may wake without a signal, and a signal
wakes any one of the parents that wait. What is read of a freed array is anything. -/
inductive Step (n : ι → Nat) : InitHandshake ι → InitAction ι → InitHandshake ι → Prop where
  | initNone (s : InitHandshake ι) (p : ι) :
      s.parent p = .start → n p = 0 → Step n s (.parent p) (s.setParent p .returned)
  | init (s : InitHandshake ι) (p : ι) :
      s.parent p = .start → 0 < n p →
      Step n s (.parent p) ((s.setParr p (.live fun _ => ⟨none, 0⟩)).setParent p (.create 0))
  | create (s : InitHandshake ι) (p : ι) (i : Nat) (args : Nat → ThreadArg ι) :
      s.parent p = .create i → s.parr p = .live args →
      Step n s (.create p)
        (((s.setParr p (.live (Function.update args i ⟨some p, i⟩))).setChild p i .loadPool).setParent p
          (.waitSonRun i))
  | createFails (s : InitHandshake ι) (p : ι) (i : Nat) :
      s.parent p = .create i → Step n s (.parent p) (s.setParent p (.threw i))
  | wait (s : InitHandshake ι) (p : ι) (i : Nat) :
      s.parent p = .waitSonRun i ∨ s.parent p = .woken i → s.uChildCreated = false →
      Step n s (.parent p) (s.setParent p (.waiting i))
  | wake (s : InitHandshake ι) (p : ι) (i : Nat) :
      s.parent p = .waiting i → Step n s (.parent p) (s.setParent p (.woken i))
  | leave (s : InitHandshake ι) (p : ι) (i : Nat) :
      s.parent p = .waitSonRun i ∨ s.parent p = .woken i → s.uChildCreated = true →
      Step n s (.parent p) { s.setParent p (.moveThread i) with uChildCreated := false }
  | moveThread (s : InitHandshake ι) (p : ι) (i : Nat) :
      s.parent p = .moveThread i →
      Step n s (.parent p) (s.setParent p (if i + 1 < n p then .create (i + 1) else .free))
  | free (s : InitHandshake ι) (p : ι) :
      s.parent p = .free → Step n s (.parent p) ((s.setParr p .freed).setParent p .returned)
  | loadPool (s : InitHandshake ι) (p : ι) (i : Nat) (args : Nat → ThreadArg ι) :
      s.child p i = .loadPool → s.parr p = .live args →
      Step n s (.child p i) (s.setChild p i (.loadIndex (args i).pool))
  | loadPoolFreed (s : InitHandshake ι) (p : ι) (i : Nat) (pool : Option ι) :
      s.child p i = .loadPool → s.parr p = .freed →
      Step n s (.child p i) (s.setChild p i (.loadIndex pool))
  | loadIndex (s : InitHandshake ι) (p : ι) (i : Nat) (pool : Option ι)
      (args : Nat → ThreadArg ι) :
      s.child p i = .loadIndex pool → s.parr p = .live args →
      Step n s (.child p i) (s.setChild p i (.sonRun pool (args i).index))
  | loadIndexFreed (s : InitHandshake ι) (p : ι) (i : Nat) (pool : Option ι) (index : Nat) :
      s.child p i = .loadIndex pool → s.parr p = .freed →
      Step n s (.child p i) (s.setChild p i (.sonRun pool index))
  | assertPool (s : InitHandshake ι) (p : ι) (i : Nat) (index : Nat) :
      s.child p i = .sonRun none index → Step n s (.child p i) (s.setChild p i .threw)
  | sonRun (s : InitHandshake ι) (p : ι) (i : Nat) (pool : ι) (index : Nat) (q : ι) (j : Nat) :
      s.child p i = .sonRun (some pool) index → s.parent q = .waiting j →
      Step n s (.child p i)
        { (s.setChild p i (.running pool index)).setParent q (.woken j) with uChildCreated := true }
  | sonRunNobody (s : InitHandshake ι) (p : ι) (i : Nat) (pool : ι) (index : Nat) :
      s.child p i = .sonRun (some pool) index → (∀ q j, s.parent q ≠ .waiting j) →
      Step n s (.child p i) { s.setChild p i (.running pool index) with uChildCreated := true }

def system (n : ι → Nat) : TransitionSystem (InitHandshake ι) (InitAction ι) where
  init s := s = init
  step := Step n

/-! ## What the handshake is for -/

omit [DecidableEq ι] in
/-- A parent has left `WaitSonRun` only for threads that have executed `SonRun`. -/
def PerChild (n : ι → Nat) (s : InitHandshake ι) : Prop :=
  ∀ p j, j < (s.parent p).left (n p) → ∃ pool index, s.child p j = .running pool index

omit [DecidableEq ι] in
/-- Threads that have still to read their argument find it. -/
def ArgsLive (s : InitHandshake ι) : Prop :=
  ∀ p j, (s.child p j).ReadsArg → s.parr p ≠ .freed

omit [DecidableEq ι] in
/-- While a parent waits, some thread has still to execute `SonRun`. -/
def NoLostSignal (s : InitHandshake ι) : Prop :=
  ∀ p i, s.parent p = .waiting i → ∃ q j, (s.child q j).BeforeSonRun

/-- A thread is created only when no other pool is between the creation of a thread and the end of
its `WaitSonRun`. -/
def Apart (s : InitHandshake ι) (a : InitAction ι) (_ : InitHandshake ι) : Prop :=
  ∀ p, a = .create p → ∀ q, q ≠ p → (s.parent q).hand = none

end InitHandshake

end Threads
end Huicpp
