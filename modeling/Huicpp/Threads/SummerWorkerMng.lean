import Mathlib
import Huicpp.Cxx.BlockingQueue
import Huicpp.Cxx.ThreadPool

/-!
# Threads.SummerWorkerMng

`SummerWorkerMng` with its `JobQueue`: `n` workers that take one job after the other and run it, and
`ExitWork`, which pushes one `ExitThreadJob` for each of them. `PushJob` and `PopJob` are the events
of the blocking queue.
-/

namespace Huicpp
namespace Threads

open Cxx

/-- An `ExitThreadJob` ends the thread that runs it. -/
inductive JobBase (α : Type) where
  | work (job : α)
  | exitThread
  deriving DecidableEq, Repr

/-- A `JobBase*`: `none` is null. -/
abbrev JobPtr (α : Type) : Type := Option (JobBase α)

/-- Where a worker is in `childThreadRun`. -/
inductive SummerPc (α : Type) where
  | popJob
  | doJob (job : JobBase α)
  | terminated
  deriving DecidableEq, Repr

/-- `toPush` is what the pushing side has still to push; `completed` lists the jobs whose `DoJob`
has returned. -/
structure SummerWorkerMng (n : Nat) (α : Type) where
  queue : BlockingQueue (Fin n) (JobPtr α)
  toPush : List (JobPtr α)
  worker : Fin n → SummerPc α
  completed : List α

namespace SummerWorkerMng

variable {n : Nat} {α : Type}

/-- The jobs, and then `ExitWork`. -/
def program (n : Nat) (jobs : List α) : List (JobPtr α) :=
  jobs.map (fun job => some (.work job)) ++ List.replicate n (some .exitThread)

def init (n : Nat) (jobs : List α) : SummerWorkerMng n α where
  queue := .init
  toPush := program n jobs
  worker _ := .popJob
  completed := []

def setWorker (m : SummerWorkerMng n α) (i : Fin n) (pc : SummerPc α) : SummerWorkerMng n α :=
  { m with worker := Function.update m.worker i pc }

/-- `childThreadRun` after `PopJob`: a null job calls `childThreadExit`. -/
def afterPop : JobPtr α → SummerPc α
  | none => .terminated
  | some job => .doJob job

inductive Action (n : Nat) (α : Type) where
  | queue (e : QueueEvent (Fin n) (JobPtr α))
  | doJob (i : Fin n)
  deriving DecidableEq, Repr

/-- The part of an action that the queue sees. -/
def Action.event : Action n α → Option (QueueEvent (Fin n) (JobPtr α))
  | .queue e => some e
  | .doJob _ => none

inductive Step : SummerWorkerMng n α → Action n α → SummerWorkerMng n α → Prop where
  | pushJob (m : SummerWorkerMng n α) (job : JobPtr α) (rest : List (JobPtr α))
      (queue : BlockingQueue (Fin n) (JobPtr α)) :
      m.toPush = job :: rest → m.queue.Step (.push job) queue →
      Step m (.queue (.push job)) { m with queue := queue, toPush := rest }
  | signal (m : SummerWorkerMng n α) (queue : BlockingQueue (Fin n) (JobPtr α)) :
      m.queue.Step .signal queue → Step m (.queue .signal) { m with queue := queue }
  | wait (m : SummerWorkerMng n α) (i : Fin n) (queue : BlockingQueue (Fin n) (JobPtr α)) :
      m.worker i = .popJob → m.queue.Step (.wait i) queue →
      Step m (.queue (.wait i)) { m with queue := queue }
  | wake (m : SummerWorkerMng n α) (i : Fin n) (queue : BlockingQueue (Fin n) (JobPtr α)) :
      m.queue.Step (.wake i) queue → Step m (.queue (.wake i)) { m with queue := queue }
  | popJob (m : SummerWorkerMng n α) (i : Fin n) (job : JobPtr α)
      (queue : BlockingQueue (Fin n) (JobPtr α)) :
      m.worker i = .popJob → m.queue.Step (.pop i [job]) queue →
      Step m (.queue (.pop i [job])) { m.setWorker i (afterPop job) with queue := queue }
  | doJob (m : SummerWorkerMng n α) (i : Fin n) (job : α) :
      m.worker i = .doJob (.work job) →
      Step m (.doJob i) { m.setWorker i .popJob with completed := m.completed ++ [job] }
  | exitThread (m : SummerWorkerMng n α) (i : Fin n) :
      m.worker i = .doJob .exitThread → Step m (.doJob i) (m.setWorker i .terminated)

def system (n : Nat) (jobs : List α) : TransitionSystem (SummerWorkerMng n α) (Action n α) where
  init m := m = init n jobs
  step := Step

/-- The pointers that the queue was given. -/
def pushed (tr : List (Action n α)) : List (JobPtr α) :=
  (tr.filterMap Action.event).flatMap QueueEvent.pushed

/-- The pointers that the workers have taken. -/
def popped (tr : List (Action n α)) : List (JobPtr α) :=
  (tr.filterMap Action.event).flatMap QueueEvent.popped

/-- Worker `i` takes an exit job. -/
def Action.takesExit (i : Fin n) : Action n α → Bool
  | .queue (.pop j [some .exitThread]) => i == j
  | _ => false

end SummerWorkerMng

end Threads
end Huicpp
