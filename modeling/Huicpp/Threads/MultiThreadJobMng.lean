import Mathlib
import Huicpp.Cxx.ThreadPool
import Huicpp.Cxx.TransitionSystem

/-!
# Threads.MultiThreadJobMng

`MultiThreadJobMng` with its `JobPool`: `n` workers that take jobs until the pool is empty, and a
caller of `Finish`. `GetJob` and `allFinished` are critical sections, `DoJob` is one step, and
`m_nWorking--` is a read and a write.
-/

namespace Huicpp
namespace Threads

open Cxx

/-- Where a worker is in `childThreadRun`, and from `childThreadExit` on. -/
inductive WorkerPc (α : Type) where
  | getJob
  | doJob (job : α)
  | beforeThreadExit
  | decrement (nWorking : Int)
  | exited
  deriving DecidableEq, Repr

/-- Where the caller of `Finish` is. -/
inductive FinishPc where
  | readWorking
  | allFinished
  | returned (finished : Bool)
  deriving DecidableEq, Repr

/-- `executed` lists the jobs whose `DoJob` has returned. -/
structure MultiThreadJobMng (n : Nat) (α : Type) where
  nWorking : Int
  jobs : List α
  worker : Fin n → WorkerPc α
  finish : FinishPc
  executed : List α

namespace MultiThreadJobMng

variable {n : Nat} {α : Type}

/-- After the constructor and `initJobs`. -/
def init (n : Nat) (jobs : List α) : MultiThreadJobMng n α where
  nWorking := n
  jobs := jobs
  worker _ := .getJob
  finish := .readWorking
  executed := []

def setWorker (m : MultiThreadJobMng n α) (i : Fin n) (pc : WorkerPc α) : MultiThreadJobMng n α :=
  { m with worker := Function.update m.worker i pc }

/-- `JobPool::allFinished`. -/
def allFinished (m : MultiThreadJobMng n α) : Bool := m.jobs.isEmpty

/-- `Finish` in a state that no worker changes. -/
def Finish (m : MultiThreadJobMng n α) : Bool := m.nWorking == 0 && m.allFinished

/-- Who moves. -/
inductive Agent (n : Nat) where
  | worker (i : Fin n)
  | finisher
  deriving DecidableEq, Repr

/-- One step of a worker. -/
inductive WorkerStep (i : Fin n) : MultiThreadJobMng n α → MultiThreadJobMng n α → Prop where
  | noJob (m : MultiThreadJobMng n α) :
      m.worker i = .getJob → m.jobs = [] → WorkerStep i m (m.setWorker i .beforeThreadExit)
  | getJob (m : MultiThreadJobMng n α) (job : α) (rest : List α) :
      m.worker i = .getJob → m.jobs = job :: rest →
      WorkerStep i m { m.setWorker i (.doJob job) with jobs := rest }
  | doJob (m : MultiThreadJobMng n α) (job : α) :
      m.worker i = .doJob job →
      WorkerStep i m { m.setWorker i .getJob with executed := m.executed ++ [job] }
  | readWorking (m : MultiThreadJobMng n α) :
      m.worker i = .beforeThreadExit → WorkerStep i m (m.setWorker i (.decrement m.nWorking))
  | writeWorking (m : MultiThreadJobMng n α) (nWorking : Int) :
      m.worker i = .decrement nWorking →
      WorkerStep i m { m.setWorker i .exited with nWorking := nWorking - 1 }

/-- One step of the thread that calls `Finish`, again after each return. -/
inductive FinishStep : MultiThreadJobMng n α → MultiThreadJobMng n α → Prop where
  | working (m : MultiThreadJobMng n α) :
      m.finish = .readWorking → m.nWorking ≠ 0 →
      FinishStep m { m with finish := .returned false }
  | notWorking (m : MultiThreadJobMng n α) :
      m.finish = .readWorking → m.nWorking = 0 → FinishStep m { m with finish := .allFinished }
  | allFinished (m : MultiThreadJobMng n α) :
      m.finish = .allFinished → FinishStep m { m with finish := .returned m.allFinished }
  | call (m : MultiThreadJobMng n α) (finished : Bool) :
      m.finish = .returned finished → FinishStep m { m with finish := .readWorking }

def system (n : Nat) (jobs : List α) : TransitionSystem (MultiThreadJobMng n α) (Agent n) where
  init m := m = init n jobs
  step
    | m, .worker i, m' => WorkerStep i m m'
    | m, .finisher, m' => FinishStep m m'

/-- A worker that does not read `m_nWorking` while another one is between its read and its
write. -/
def Serial (m : MultiThreadJobMng n α) (a : Agent n) (_ : MultiThreadJobMng n α) : Prop :=
  match a with
  | .worker i => m.worker i = .beforeThreadExit → ∀ j nWorking, m.worker j ≠ .decrement nWorking
  | .finisher => True

end MultiThreadJobMng

end Threads
end Huicpp
