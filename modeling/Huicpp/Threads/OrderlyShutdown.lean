import Mathlib
import Huicpp.Threads.SummerWorkerMng

/-!
# Threads.OrderlyShutdown

What `ExitWork` guarantees. The queue is first in, first out, so an exit job that was taken stands
for all jobs before it; a worker takes at most one of them, so `n` workers that have terminated have
taken all `n`, and nothing is left.
-/

namespace Huicpp
namespace Threads

open Cxx

namespace SummerWorkerMng

variable {n : Nat} {α : Type}

/-- One for a worker whose loop is over. -/
def leaving : SummerPc α → Nat
  | .popJob => 0
  | .doJob (.work _) => 0
  | .doJob .exitThread => 1
  | .terminated => 1

/-- The job a worker has taken and not finished. -/
def running : SummerPc α → Multiset α
  | .doJob (.work job) => {job}
  | _ => 0

/-- A pointer that ends the worker that takes it. -/
def ends : JobPtr α → Bool
  | some (.work _) => false
  | _ => true

/-- The ordinary job behind a pointer. -/
def ordinary : JobPtr α → Option α
  | some (.work job) => some job
  | _ => none

structure Inv (jobs : List α) (tr : List (Action n α)) (m : SummerWorkerMng n α) : Prop where
  todo : pushed tr ++ m.toPush = program n jobs
  left : total leaving m.worker = (popped tr).countP ends
  split : ((popped tr).filterMap ordinary : Multiset α) = m.completed + total running m.worker
  exits : ∀ i, tr.countP (Action.takesExit i) ≤ leaving (m.worker i)

theorem pushed_queue (tr : List (Action n α)) (e : QueueEvent (Fin n) (JobPtr α)) :
    pushed (tr ++ [.queue e]) = pushed tr ++ e.pushed := by
  simp [pushed, List.filterMap_append, Action.event]

theorem popped_queue (tr : List (Action n α)) (e : QueueEvent (Fin n) (JobPtr α)) :
    popped (tr ++ [.queue e]) = popped tr ++ e.popped := by
  simp [popped, List.filterMap_append, Action.event]

theorem pushed_doJob (tr : List (Action n α)) (i : Fin n) :
    pushed (tr ++ [.doJob i]) = pushed tr := by
  simp [pushed, List.filterMap_append, Action.event]

theorem popped_doJob (tr : List (Action n α)) (i : Fin n) :
    popped (tr ++ [.doJob i]) = popped tr := by
  simp [popped, List.filterMap_append, Action.event]

theorem leaving_afterPop (job : JobPtr α) : leaving (afterPop job) = [job].countP ends := by
  rcases job with _ | job | _ <;> rfl

theorem running_afterPop (job : JobPtr α) :
    running (afterPop job) = ([job].filterMap ordinary : Multiset α) := by
  rcases job with _ | job | _ <;> rfl

theorem inv_init (n : Nat) (jobs : List α) : Inv jobs [] (init n jobs) where
  todo := rfl
  left := by simp [init, leaving, popped]
  split := by simp [init, running, popped]
  exits i := Nat.zero_le _

theorem Inv.keep {jobs : List α} {tr : List (Action n α)} {m m' : SummerWorkerMng n α}
    {e : QueueEvent (Fin n) (JobPtr α)} (h : Inv jobs tr m)
    (hpush : e.pushed ++ m'.toPush = m.toPush) (hpop : e.popped = [])
    (hexit : ∀ i, (Action.queue e).takesExit i = false) (hworker : m'.worker = m.worker)
    (hdone : m'.completed = m.completed) : Inv jobs (tr ++ [.queue e]) m' where
  todo := by rw [pushed_queue, List.append_assoc, hpush, h.todo]
  left := by rw [popped_queue, hpop, List.append_nil, hworker, h.left]
  split := by rw [popped_queue, hpop, List.append_nil, hworker, hdone, h.split]
  exits i := by
    rw [List.countP_append, List.countP_singleton, hexit i, hworker]
    exact h.exits i

theorem exits_update {tr : List (Action n α)} {worker : Fin n → SummerPc α} {a : Action n α}
    {i : Fin n} {pc : SummerPc α}
    (h : ∀ j, tr.countP (Action.takesExit j) ≤ leaving (worker j))
    (hother : ∀ j, j ≠ i → a.takesExit j = false)
    (hown : leaving (worker i) + [a].countP (Action.takesExit i) ≤ leaving pc) (j : Fin n) :
    (tr ++ [a]).countP (Action.takesExit j) ≤ leaving (Function.update worker i pc j) := by
  have hj := h j
  rw [List.countP_append]
  by_cases hji : j = i
  · subst hji
    rw [Function.update_self]
    omega
  · rw [Function.update_of_ne hji, List.countP_singleton, hother j hji]
    exact hj

theorem Inv.popJob {jobs : List α} {tr : List (Action n α)} {m : SummerWorkerMng n α} {i : Fin n}
    {job : JobPtr α} (h : Inv jobs tr m) (hi : m.worker i = .popJob)
    (queue : BlockingQueue (Fin n) (JobPtr α)) :
    Inv jobs (tr ++ [.queue (.pop i [job])])
      { m.setWorker i (afterPop job) with queue := queue } where
  todo := by
    rw [pushed_queue]
    exact (congrArg (· ++ m.toPush) (List.append_nil _)).trans h.todo
  left := by
    have hmove := total_update leaving m.worker i (afterPop job)
    rw [hi, leaving_afterPop, h.left, ← List.countP_append] at hmove
    rw [popped_queue]
    exact hmove
  split := by
    have hmove := total_update running m.worker i (afterPop job)
    rw [hi, running_afterPop] at hmove
    simp only [running, add_zero] at hmove
    rw [popped_queue, List.filterMap_append, ← Multiset.coe_add, h.split, add_assoc]
    show _ = (m.completed : Multiset α) + total running (Function.update m.worker i (afterPop job))
    rw [hmove]
    rfl
  exits := by
    refine exits_update h.exits ?_ ?_
    · intro j hj
      rcases job with _ | job | _
      · rfl
      · rfl
      · exact beq_eq_false_iff_ne.mpr hj
    · rw [hi]
      rcases job with _ | job | _
      · exact Nat.zero_le _
      · exact Nat.le_refl _
      · simp [leaving, afterPop, Action.takesExit]

theorem Inv.doJob {jobs : List α} {tr : List (Action n α)} {m : SummerWorkerMng n α} {i : Fin n}
    {job : α} (h : Inv jobs tr m) (hi : m.worker i = .doJob (.work job)) :
    Inv jobs (tr ++ [.doJob i]) { m.setWorker i .popJob with completed := m.completed ++ [job] } where
  todo := by
    rw [pushed_doJob]
    exact h.todo
  left := by
    rw [popped_doJob, ← h.left]
    exact total_update_same (by rw [hi]; rfl)
  split := by
    have hmove := total_update running m.worker i .popJob
    rw [hi] at hmove
    simp only [running, add_zero] at hmove
    show _ = ((m.completed ++ [job] : List α) : Multiset α)
      + total running (Function.update m.worker i .popJob)
    rw [popped_doJob, h.split, ← hmove, ← Multiset.coe_add, Multiset.coe_singleton]
    abel
  exits := by
    refine exits_update h.exits (fun _ _ => rfl) ?_
    rw [hi]
    exact Nat.le_refl _

theorem Inv.exitThread {jobs : List α} {tr : List (Action n α)} {m : SummerWorkerMng n α}
    {i : Fin n} (h : Inv jobs tr m) (hi : m.worker i = .doJob .exitThread) :
    Inv jobs (tr ++ [.doJob i]) (m.setWorker i .terminated) where
  todo := by
    rw [pushed_doJob]
    exact h.todo
  left := by
    rw [popped_doJob, ← h.left]
    exact total_update_same (by rw [hi]; rfl)
  split := by
    show _ = (m.completed : Multiset α) + total running (Function.update m.worker i .terminated)
    rw [popped_doJob, h.split, total_update_same (by rw [hi]; rfl)]
  exits := by
    refine exits_update h.exits (fun _ _ => rfl) ?_
    rw [hi]
    exact Nat.le_refl _

theorem inv_run {jobs : List α} {tr : List (Action n α)} {m : SummerWorkerMng n α}
    (h : (system n jobs).Run tr m) : Inv jobs tr m := by
  refine h.invariant (fun tr m => Inv jobs tr m) ?_ ?_
  · rintro m rfl
    exact inv_init n jobs
  · intro tr m a m' hm hs
    cases hs with
    | pushJob job rest queue hrest _ => exact hm.keep hrest.symm rfl (fun _ => rfl) rfl rfl
    | signal queue _ => exact hm.keep rfl rfl (fun _ => rfl) rfl rfl
    | wait i queue _ _ => exact hm.keep rfl rfl (fun _ => rfl) rfl rfl
    | wake i queue _ => exact hm.keep rfl rfl (fun _ => rfl) rfl rfl
    | popJob i job queue hi _ => exact hm.popJob hi queue
    | doJob i job hi => exact hm.doJob hi
    | exitThread i hi => exact hm.exitThread hi

/-- The queue is a part of the system. -/
theorem queue_run {jobs : List α} {tr : List (Action n α)} {m : SummerWorkerMng n α}
    (h : (system n jobs).Run tr m) :
    (BlockingQueue.system (Fin n) (JobPtr α)).Run (tr.filterMap Action.event) m.queue := by
  refine h.project SummerWorkerMng.queue Action.event ?_ ?_ ?_
  · rintro m rfl
    rfl
  · intro m a m' hs hquiet
    cases hs with
    | doJob i job _ => rfl
    | exitThread i _ => rfl
    | pushJob => cases hquiet
    | signal => cases hquiet
    | wait => cases hquiet
    | wake => cases hquiet
    | popJob => cases hquiet
  · intro m a m' e hs hmove
    cases hs with
    | pushJob job rest queue _ hq => cases hmove; exact hq
    | signal queue hq => cases hmove; exact hq
    | wait i queue _ hq => cases hmove; exact hq
    | wake i queue hq => cases hmove; exact hq
    | popJob i job queue _ hq => cases hmove; exact hq
    | doJob => cases hmove
    | exitThread => cases hmove

theorem popped_split {jobs : List α} {tr : List (Action n α)} {m : SummerWorkerMng n α}
    (h : (system n jobs).Run tr m) :
    popped tr ++ (m.queue.queue ++ m.toPush) = program n jobs := by
  have hfifo : pushed tr = popped tr ++ m.queue.queue := BlockingQueue.popped_in_order (queue_run h)
  rw [← (inv_run h).todo, hfifo, List.append_assoc]

/-! ## The exit jobs -/

theorem countP_ends_work (jobs : List α) :
    (jobs.map fun job => some (JobBase.work job)).countP ends = 0 := by
  refine List.countP_eq_zero.mpr ?_
  intro p hp
  obtain ⟨job, _, rfl⟩ := List.mem_map.mp hp
  exact Bool.false_ne_true

theorem filterMap_program (n : Nat) (jobs : List α) :
    (program n jobs).filterMap ordinary = jobs := by
  have hexit : (List.replicate n (some (JobBase.exitThread : JobBase α))).filterMap ordinary = [] :=
    List.filterMap_eq_nil_iff.mpr fun p hp => by rw [List.eq_of_mem_replicate hp]; rfl
  rw [program, List.filterMap_append, List.filterMap_map, hexit, List.append_nil]
  exact List.filterMap_some

/-- An exit job is behind all jobs. -/
theorem work_prefix {jobs : List α} {p rest : List (JobPtr α)} (h : p ++ rest = program n jobs)
    (hend : 0 < p.countP ends) : jobs.map (fun job => some (.work job)) <+: p := by
  rcases List.prefix_or_prefix_of_prefix ⟨rest, h⟩ (List.prefix_append _ _) with hp | hp
  · have hle := hp.sublist.countP_le (p := ends)
    rw [countP_ends_work] at hle
    omega
  · exact hp

theorem rest_nil {jobs : List α} {p rest : List (JobPtr α)} (h : p ++ rest = program n jobs)
    (hn : 0 < n) (hall : p.countP ends = n) : rest = [] := by
  obtain ⟨r, rfl⟩ := work_prefix h (by omega)
  rw [program, List.append_assoc] at h
  have hlen := congrArg List.length (List.append_cancel_left h)
  rw [List.countP_append, countP_ends_work, Nat.zero_add] at hall
  have hle : r.countP ends ≤ r.length := List.countP_le_length
  rw [List.length_append, List.length_replicate] at hlen
  exact List.length_eq_zero_iff.mp (by omega)

theorem leaving_le (pc : SummerPc α) : leaving pc ≤ 1 := by
  rcases pc with _ | (job | _) | _
  · exact Nat.zero_le _
  · exact Nat.zero_le _
  · exact Nat.le_refl _
  · exact Nat.le_refl _

end SummerWorkerMng

end Threads
end Huicpp
