import Mathlib
import Huicpp.Cxx.BlockingQueue

/-!
# Threads.JobQueue

`JobQueue`: any number of threads that push jobs and take them, one or all of them at a time. Each
function is one critical section of the queue, or one for each time `PopJob` waits; `PushJob` sends
its signal after it has let go of the lock.

* `jobQueue_spec`: jobs are delivered in the order in which they were pushed, and no wake-up is
  lost. `HasData` answers the opposite of what it is asked.
-/

namespace Huicpp
namespace Threads

open Cxx

/-- The queue of job pointers, for the threads `ι`. -/
abbrev JobQueue (ι α : Type) : Type := BlockingQueue ι α

namespace JobQueue

variable {ι α : Type}

/-- `HasData()`: `return m_queue.empty();`. -/
def hasData (q : JobQueue ι α) : Bool := q.queue.isEmpty

/-- In the run `tr` that led to `q`, every job that was taken was taken once, in the order in which
they were pushed; the others are queued, in that order. -/
def DeliveredInOrder (tr : List (QueueEvent ι α)) (q : JobQueue ι α) : Prop :=
  tr.flatMap QueueEvent.pushed = tr.flatMap QueueEvent.popped ++ q.queue

/-- Nobody sleeps beside a job, unless a signal is still to be sent or a woken thread is coming. -/
def NoLostWakeup (q : JobQueue ι α) : Prop :=
  q.queue ≠ [] → (∃ i, q.phase i = .waiting) → 0 < q.toSignal ∨ ∃ i, q.phase i = .woken

/-- What is wanted of `HasData`. -/
def HasDataRight (q : JobQueue ι α) : Prop := q.hasData = true ↔ q.queue ≠ []

theorem hasData_iff (q : JobQueue ι α) : q.hasData = true ↔ q.queue = [] := List.isEmpty_iff

/-- The answer is the opposite in every state. -/
theorem not_hasDataRight (q : JobQueue ι α) : ¬ q.HasDataRight := by
  intro h
  rw [HasDataRight, hasData_iff] at h
  exact iff_not_self h

variable [DecidableEq ι]

/-- A thread that calls `PopJob` now gets a job at once exactly if there is one. -/
theorem popJob_iff {q : JobQueue ι α} {i : ι} (hi : q.phase i = .running) :
    (∃ job q', BlockingQueue.Step q (.pop i [job]) q') ↔ q.queue ≠ [] := by
  constructor
  · rintro ⟨job, q', hs⟩ hq
    have hbal := hs.balance
    rw [hq] at hbal
    cases hbal
  · intro h
    obtain ⟨job, rest, hq⟩ := List.exists_cons_of_ne_nil h
    refine ⟨job, _, .popFront q i job rest ?_ hq⟩
    rw [hi]
    decide

/-- So it tells a thread that is about to take a job the opposite of what it will find. -/
theorem hasData_iff_blocks {q : JobQueue ι α} {i : ι} (hi : q.phase i = .running) :
    q.hasData = true ↔ ¬ ∃ job q', BlockingQueue.Step q (.pop i [job]) q' := by
  rw [hasData_iff, popJob_iff hi, not_not]

end JobQueue

/-- **The job queue.** In every run the jobs taken are those pushed first, in that order; somebody
asleep beside a job has a signal or a woken thread coming; and `HasData` is wrong. -/
theorem jobQueue_spec (ι α : Type) [DecidableEq ι] (tr : List (QueueEvent ι α)) (q : JobQueue ι α)
    (h : (BlockingQueue.system ι α).Run tr q) :
    q.DeliveredInOrder tr ∧ q.NoLostWakeup ∧ ¬ q.HasDataRight := by
  refine ⟨BlockingQueue.popped_in_order h, ?_, q.not_hasDataRight⟩
  rintro hq ⟨i, hi⟩
  exact BlockingQueue.no_lost_wakeup ⟨tr, h⟩ hq hi

/-- One thread sleeps, and another one takes the first of two jobs before any signal is sent. The signal for
the second job is still to come. -/
theorem jobQueue_spec_taken : ∃ (tr : List (QueueEvent Bool Nat)) (q : JobQueue Bool Nat),
    tr = [.wait true, .push 7, .push 8, .pop false [7], .signal] ∧ q.queue = [8] ∧
      q.phase true = .woken ∧ q.DeliveredInOrder tr ∧ q.NoLostWakeup ∧ ¬ q.HasDataRight := by
  have h0 : (BlockingQueue.system Bool Nat).Run [] BlockingQueue.init := .init rfl
  have h1 := h0.step (BlockingQueue.Step.wait _ true (by decide) rfl)
  have h2 := h1.step (BlockingQueue.Step.push _ 7)
  have h3 := h2.step (BlockingQueue.Step.push _ 8)
  have h4 := h3.step (BlockingQueue.Step.popFront _ false 7 [8] (by decide) rfl)
  have h5 := h4.step (BlockingQueue.Step.signal _ true (by decide) (by decide))
  exact ⟨_, _, rfl, rfl, rfl, jobQueue_spec Bool Nat _ _ h5⟩

/-- An empty queue is said to have data. -/
theorem hasData_empty :
    (BlockingQueue.system Unit Nat).Reachable BlockingQueue.init ∧
      ¬ JobQueue.HasDataRight (BlockingQueue.init : JobQueue Unit Nat) ∧
      JobQueue.hasData (BlockingQueue.init : JobQueue Unit Nat) = true :=
  ⟨.of_init rfl, JobQueue.not_hasDataRight _, rfl⟩

end Threads
end Huicpp
