import Mathlib
import Huicpp.Threads.MultiThreadJobMng

/-!
# Threads.FinishExact

What `Finish` says about the jobs and the workers. `m_nWorking` never falls below the number of
workers that have not exited, so a zero means that all of them have. It stays above that number for
good once two workers have read it before either has written, and only then.
-/

namespace Huicpp
namespace Threads

open Cxx

namespace MultiThreadJobMng

variable {n : Nat} {α : Type}

/-- One for a worker that has still to write `m_nWorking`. -/
def notExited : WorkerPc α → Nat
  | .exited => 0
  | _ => 1

/-- The job a worker has taken and not finished. -/
def running : WorkerPc α → Multiset α
  | .doJob job => {job}
  | _ => 0

/-- The worker has seen the pool empty. -/
def Leaving : WorkerPc α → Prop
  | .getJob => False
  | .doJob _ => False
  | _ => True

/-- Workers that have not exited. -/
def working (worker : Fin n → WorkerPc α) : Nat := total notExited worker

/-- `m_nWorking` and its copies are never too low, and too high together. -/
structure Counted (nWorking : Int) (worker : Fin n → WorkerPc α) : Prop where
  le : (working worker : Int) ≤ nWorking
  read_le : ∀ i v, worker i = .decrement v → (working worker : Int) ≤ v
  above : (working worker : Int) < nWorking →
    ∀ i v, worker i = .decrement v → (working worker : Int) < v

/-- Every job is executed, in the hands of one worker, or in the pool. -/
structure Inv (jobs : List α) (m : MultiThreadJobMng n α) : Prop where
  counted : Counted m.nWorking m.worker
  split : (jobs : Multiset α) = m.executed + total running m.worker + m.jobs
  drained : ∀ i, Leaving (m.worker i) → m.jobs = []
  finish : m.finish = .allFinished → m.nWorking = 0
  finished : m.finish = .returned true → m.nWorking = 0 ∧ m.jobs = []

@[simp] theorem setWorker_worker (m : MultiThreadJobMng n α) (i : Fin n) (pc : WorkerPc α) :
    (m.setWorker i pc).worker = Function.update m.worker i pc := rfl

@[simp] theorem setWorker_nWorking (m : MultiThreadJobMng n α) (i : Fin n) (pc : WorkerPc α) :
    (m.setWorker i pc).nWorking = m.nWorking := rfl

@[simp] theorem setWorker_jobs (m : MultiThreadJobMng n α) (i : Fin n) (pc : WorkerPc α) :
    (m.setWorker i pc).jobs = m.jobs := rfl

@[simp] theorem setWorker_executed (m : MultiThreadJobMng n α) (i : Fin n) (pc : WorkerPc α) :
    (m.setWorker i pc).executed = m.executed := rfl

@[simp] theorem setWorker_finish (m : MultiThreadJobMng n α) (i : Fin n) (pc : WorkerPc α) :
    (m.setWorker i pc).finish = m.finish := rfl

theorem not_workerStep {m m' : MultiThreadJobMng n α} {i : Fin n} (h : m.worker i = .exited) :
    ¬ WorkerStep i m m' := by
  intro hs
  cases hs with
  | noJob hi _ => rw [h] at hi; cases hi
  | getJob _ _ hi _ => rw [h] at hi; cases hi
  | doJob _ hi => rw [h] at hi; cases hi
  | readWorking hi => rw [h] at hi; cases hi
  | writeWorking _ hi => rw [h] at hi; cases hi

theorem exited_of_working {worker : Fin n → WorkerPc α} (h : working worker = 0) (i : Fin n) :
    worker i = .exited := by
  have hi : notExited (worker i) ≤ 0 := h ▸ le_total notExited worker i
  cases hw : worker i with
  | exited => rfl
  | getJob => rw [hw] at hi; cases hi
  | doJob job => rw [hw] at hi; cases hi
  | beforeThreadExit => rw [hw] at hi; cases hi
  | decrement v => rw [hw] at hi; cases hi

theorem Inv.exited {jobs : List α} {m : MultiThreadJobMng n α} (h : Inv jobs m)
    (h0 : m.nWorking = 0) (i : Fin n) : m.worker i = .exited := by
  refine exited_of_working ?_ i
  have := h.counted.le
  omega

/-! ## The counter -/

theorem counted_init (n : Nat) : Counted (n : Int) fun _ : Fin n => (WorkerPc.getJob : WorkerPc α) where
  le := by simp [working, notExited]
  read_le := by
    intro i v h
    cases h
  above := by
    intro _ i v h
    cases h

theorem Counted.move {nWorking : Int} {worker : Fin n → WorkerPc α} {i : Fin n} {pc : WorkerPc α}
    (h : Counted nWorking worker) (hpc : notExited pc = notExited (worker i))
    (hread : ∀ v, pc ≠ .decrement v) : Counted nWorking (Function.update worker i pc) := by
  have hsame : working (Function.update worker i pc) = working worker := total_update_same hpc
  have hold : ∀ j v, Function.update worker i pc j = .decrement v → worker j = .decrement v :=
    fun j v hj => ((update_apply_eq_iff_of_ne (hread v)).mp hj).2
  constructor
  · rw [hsame]
    exact h.le
  · intro j v hj
    rw [hsame]
    exact h.read_le j v (hold j v hj)
  · intro ha j v hj
    rw [hsame] at ha ⊢
    exact h.above ha j v (hold j v hj)

theorem Counted.read {nWorking : Int} {worker : Fin n → WorkerPc α} {i : Fin n}
    (h : Counted nWorking worker) (hi : worker i = .beforeThreadExit) :
    Counted nWorking (Function.update worker i (.decrement nWorking)) := by
  have hsame : working (Function.update worker i (.decrement nWorking)) = working worker :=
    total_update_same (by rw [hi]; rfl)
  have hold : ∀ j v, Function.update worker i (.decrement nWorking) j = .decrement v →
      v = nWorking ∨ worker j = .decrement v := by
    intro j v hj
    rcases update_apply_eq_iff.mp hj with ⟨-, hj⟩ | ⟨-, hj⟩
    · cases hj
      exact .inl rfl
    · exact .inr hj
  constructor
  · rw [hsame]
    exact h.le
  · intro j v hj
    rw [hsame]
    rcases hold j v hj with rfl | hj
    · exact h.le
    · exact h.read_le j v hj
  · intro ha j v hj
    rw [hsame] at ha ⊢
    rcases hold j v hj with rfl | hj
    · exact ha
    · exact h.above ha j v hj

theorem working_exit {worker : Fin n → WorkerPc α} {i : Fin n} {v : Int}
    (hi : worker i = .decrement v) :
    working (Function.update worker i .exited) + 1 = working worker := by
  have h := total_update notExited worker i .exited
  rw [hi] at h
  exact h

theorem exited_ne_decrement (v : Int) : (WorkerPc.exited : WorkerPc α) ≠ .decrement v := nofun

theorem Counted.write {nWorking v : Int} {worker : Fin n → WorkerPc α} {i : Fin n}
    (h : Counted nWorking worker) (hi : worker i = .decrement v) :
    Counted (v - 1) (Function.update worker i .exited) := by
  have hone := working_exit hi
  have hother : ∀ j u, Function.update worker i .exited j = .decrement u →
      (working worker : Int) ≤ u := by
    intro j u hj
    obtain ⟨-, hj⟩ := (update_apply_eq_iff_of_ne (exited_ne_decrement u)).mp hj
    exact h.read_le j u hj
  constructor
  · have := h.read_le i v hi
    omega
  · intro j u hj
    have := hother j u hj
    omega
  · intro _ j u hj
    have := hother j u hj
    omega

/-! ## The jobs -/

theorem inv_init (n : Nat) (jobs : List α) : Inv jobs (init n jobs) where
  counted := counted_init n
  split := by simp [init, running]
  drained := by
    intro i h
    cases h
  finish := by
    intro h
    cases h
  finished := by
    intro h
    cases h

/-- The pool stays empty for a worker that has seen it empty. -/
theorem drained_move {m : MultiThreadJobMng n α} {i : Fin n} {pc : WorkerPc α} {jobs : List α}
    (h : ∀ j, Leaving (m.worker j) → m.jobs = []) (hjobs : m.jobs = [] → jobs = [])
    (hpc : Leaving pc → jobs = []) :
    ∀ j, Leaving (Function.update m.worker i pc j) → jobs = [] := by
  intro j hj
  by_cases hji : j = i
  · rw [hji, Function.update_self] at hj
    exact hpc hj
  · rw [Function.update_of_ne hji] at hj
    exact hjobs (h j hj)

/-- Once `Finish` has read a zero no worker moves, so what it relies on stays. -/
theorem Inv.not_zero {jobs : List α} {m m' : MultiThreadJobMng n α} {i : Fin n} (h : Inv jobs m)
    (hs : WorkerStep i m m') : m.nWorking ≠ 0 :=
  fun h0 => not_workerStep (h.exited h0 i) hs

theorem Inv.of_nonzero {jobs : List α} {m m' : MultiThreadJobMng n α} (h : Inv jobs m)
    (hnz : m.nWorking ≠ 0) (hfinish : m'.finish = m.finish)
    (hcounted : Counted m'.nWorking m'.worker)
    (hsplit : (jobs : Multiset α) = m'.executed + total running m'.worker + m'.jobs)
    (hdrained : ∀ i, Leaving (m'.worker i) → m'.jobs = []) : Inv jobs m' where
  counted := hcounted
  split := hsplit
  drained := hdrained
  finish hf := absurd (h.finish (hfinish ▸ hf)) hnz
  finished hf := absurd (h.finished (hfinish ▸ hf)).1 hnz

theorem Inv.workerStep {jobs : List α} {m m' : MultiThreadJobMng n α} {i : Fin n}
    (h : Inv jobs m) (hs : WorkerStep i m m') : Inv jobs m' := by
  have hnz := h.not_zero hs
  cases hs with
  | noJob hi hempty =>
    refine h.of_nonzero hnz rfl (h.counted.move (by rw [hi]; rfl) fun v hv => by cases hv) ?_
      (drained_move h.drained id fun _ => hempty)
    rw [setWorker_worker, total_update_same (by rw [hi]; rfl)]
    exact h.split
  | getJob job rest hi hjobs =>
    refine h.of_nonzero hnz rfl (h.counted.move (by rw [hi]; rfl) fun v hv => by cases hv) ?_
      (drained_move h.drained (fun he => by rw [hjobs] at he; cases he) False.elim)
    have hrun := total_update running m.worker i (.doJob job)
    have hsplit := h.split
    simp only [hi, running, add_zero] at hrun
    rw [hjobs, ← Multiset.cons_coe, ← Multiset.singleton_add] at hsplit
    rw [hsplit, setWorker_worker, setWorker_executed, hrun]
    abel
  | doJob job hi =>
    refine h.of_nonzero hnz rfl (h.counted.move (by rw [hi]; rfl) fun v hv => by cases hv) ?_
      (drained_move h.drained id False.elim)
    have hrun := total_update running m.worker i .getJob
    simp only [hi, running, add_zero] at hrun
    rw [h.split, ← hrun, setWorker_worker, setWorker_jobs, ← Multiset.coe_add,
      Multiset.coe_singleton]
    abel
  | readWorking hi =>
    refine h.of_nonzero hnz rfl (h.counted.read hi) ?_
      (drained_move h.drained id fun _ => h.drained i (by rw [hi]; trivial))
    rw [setWorker_worker, total_update_same (by rw [hi]; rfl)]
    exact h.split
  | writeWorking v hi =>
    refine h.of_nonzero hnz rfl (h.counted.write hi) ?_
      (drained_move h.drained id fun _ => h.drained i (by rw [hi]; trivial))
    rw [setWorker_worker, total_update_same (by rw [hi]; rfl)]
    exact h.split

theorem Inv.finishStep {jobs : List α} {m m' : MultiThreadJobMng n α} (h : Inv jobs m)
    (hs : FinishStep m m') : Inv jobs m' := by
  refine ⟨?_, ?_, ?_, ?_, ?_⟩
  · cases hs <;> exact h.counted
  · cases hs <;> exact h.split
  · cases hs <;> exact h.drained
  · intro hf
    cases hs with
    | working _ _ => cases hf
    | notWorking _ h0 => exact h0
    | allFinished _ => cases hf
    | call _ _ => cases hf
  · intro hf
    cases hs with
    | working _ _ => cases hf
    | notWorking _ _ => cases hf
    | allFinished hread => exact ⟨h.finish hread, List.isEmpty_iff.mp (FinishPc.returned.inj hf)⟩
    | call _ _ => cases hf

theorem inv_run {jobs : List α} {tr : List (Agent n)} {m : MultiThreadJobMng n α}
    (h : (system n jobs).Run tr m) : Inv jobs m := by
  refine h.invariant (fun _ m => Inv jobs m) ?_ ?_
  · rintro m rfl
    exact inv_init n jobs
  · intro _ m a m' hm hs
    cases a with
    | worker i => exact hm.workerStep hs
    | finisher => exact hm.finishStep hs

/-- With all workers out and the pool empty, every job has been executed once. -/
theorem Inv.executed_perm {jobs : List α} {m : MultiThreadJobMng n α} (h : Inv jobs m)
    (hexit : ∀ i, m.worker i = .exited) (hempty : m.jobs = []) : m.executed.Perm jobs := by
  have hsplit := h.split
  rw [total_eq_zero fun i => by rw [hexit i]; rfl, hempty, add_zero, Multiset.coe_nil, add_zero]
    at hsplit
  exact (Multiset.coe_eq_coe.mp hsplit).symm

/-! ## Reads that overlap -/

/-- The counter, or a copy of it that is still to be written, is too high. -/
def Late (m : MultiThreadJobMng n α) : Prop :=
  (working m.worker : Int) < m.nWorking ∨
  (∃ i v, m.worker i = .decrement v ∧ (working m.worker : Int) < v) ∨
  ∃ i j u v, i ≠ j ∧ m.worker i = .decrement u ∧ m.worker j = .decrement v

theorem Late.keep {m m' : MultiThreadJobMng n α} (h : Late m)
    (hworking : working m'.worker = working m.worker) (hn : m'.nWorking = m.nWorking)
    (hkeep : ∀ j v, m.worker j = .decrement v → m'.worker j = .decrement v) : Late m' := by
  rcases h with h | ⟨i, v, hi, hv⟩ | ⟨i, j, u, v, hij, hi, hj⟩
  · exact .inl (by rw [hworking, hn]; exact h)
  · exact .inr (.inl ⟨i, v, hkeep i v hi, by rw [hworking]; exact hv⟩)
  · exact .inr (.inr ⟨i, j, u, v, hij, hkeep i u hi, hkeep j v hj⟩)

theorem keep_update {worker : Fin n → WorkerPc α} {i : Fin n} {pc : WorkerPc α}
    (hi : ∀ v, worker i ≠ .decrement v) (j : Fin n) (v : Int) (hj : worker j = .decrement v) :
    Function.update worker i pc j = .decrement v := by
  by_cases hji : j = i
  · exact absurd (hji ▸ hj) (hi v)
  · rwa [Function.update_of_ne hji]

theorem Late.write {jobs : List α} {m : MultiThreadJobMng n α} {i : Fin n} {v : Int}
    (h : Inv jobs m) (hl : Late m) (hi : m.worker i = .decrement v) :
    Late { m.setWorker i .exited with nWorking := v - 1 } := by
  have hone := working_exit hi
  have hother : ∀ j u, j ≠ i → m.worker j = .decrement u →
      Late { m.setWorker i .exited with nWorking := v - 1 } := by
    intro j u hji hj
    refine .inr (.inl ⟨j, u, (Function.update_of_ne hji _ _).trans hj, ?_⟩)
    have := h.counted.read_le j u hj
    rw [setWorker_worker]
    omega
  have hown : (working m.worker : Int) < v →
      Late { m.setWorker i .exited with nWorking := v - 1 } := by
    intro hv
    refine .inl ?_
    show (working (Function.update m.worker i .exited) : Int) < v - 1
    omega
  rcases hl with hl | ⟨j, u, hj, hu⟩ | ⟨j, k, u, w, hjk, hj, hk⟩
  · exact hown (h.counted.above hl i v hi)
  · by_cases hji : j = i
    · subst hji
      rw [hi] at hj
      cases hj
      exact hown hu
    · exact hother j u hji hj
  · by_cases hji : j = i
    · exact hother k w (fun hki => hjk (hji.trans hki.symm)) hk
    · exact hother j u hji hj

/-- What is late stays late. -/
theorem Late.workerStep {jobs : List α} {m m' : MultiThreadJobMng n α} {i : Fin n}
    (h : Inv jobs m) (hl : Late m) (hs : WorkerStep i m m') : Late m' := by
  cases hs with
  | noJob hi _ =>
    exact hl.keep (total_update_same (by rw [hi]; rfl)) rfl
      (keep_update fun v hv => by rw [hi] at hv; cases hv)
  | getJob job rest hi _ =>
    exact hl.keep (total_update_same (by rw [hi]; rfl)) rfl
      (keep_update fun v hv => by rw [hi] at hv; cases hv)
  | doJob job hi =>
    exact hl.keep (total_update_same (by rw [hi]; rfl)) rfl
      (keep_update fun v hv => by rw [hi] at hv; cases hv)
  | readWorking hi =>
    exact hl.keep (total_update_same (by rw [hi]; rfl)) rfl
      (keep_update fun v hv => by rw [hi] at hv; cases hv)
  | writeWorking v hi => exact hl.write h hi

theorem late_of_not_serial {m m' : MultiThreadJobMng n α} {i : Fin n} (hs : WorkerStep i m m')
    (hserial : ¬ Serial m (.worker i) m') : Late m' := by
  rw [Serial, Classical.not_imp] at hserial
  obtain ⟨hi, hother⟩ := hserial
  push Not at hother
  obtain ⟨j, v, hj⟩ := hother
  have hji : j ≠ i := by
    rintro rfl
    rw [hi] at hj
    cases hj
  cases hs with
  | noJob h _ => rw [hi] at h; cases h
  | getJob _ _ h _ => rw [hi] at h; cases h
  | doJob _ h => rw [hi] at h; cases h
  | readWorking _ =>
    exact .inr (.inr ⟨i, j, m.nWorking, v, hji.symm, Function.update_self _ _ _,
      (Function.update_of_ne hji _ _).trans hj⟩)
  | writeWorking _ h => rw [hi] at h; cases h

theorem serial_or_late {jobs : List α} {tr : List (Agent n)} {m : MultiThreadJobMng n α}
    (h : (system n jobs).Run tr m) : ((system n jobs).restrict Serial).Run tr m ∨ Late m := by
  induction h with
  | init h => exact .inl (.init h)
  | @step tr m m' a hrun hs ih =>
    rcases ih with hserial | hlate
    · by_cases ha : Serial m a m'
      · exact .inl (.step hserial ⟨hs, ha⟩)
      · cases a with
        | worker i => exact .inr (late_of_not_serial hs ha)
        | finisher => exact absurd trivial ha
    · cases a with
      | worker i => exact .inr (hlate.workerStep (inv_run hrun) hs)
      | finisher => exact .inr (by cases hs <;> exact hlate)

/-! ## Reads that do not overlap -/

structure OnTime (m : MultiThreadJobMng n α) : Prop where
  nWorking_le : m.nWorking ≤ working m.worker
  le : ∀ i v, m.worker i = .decrement v → v ≤ working m.worker
  one : ∀ i j u v, m.worker i = .decrement u → m.worker j = .decrement v → i = j

theorem onTime_init (n : Nat) (jobs : List α) : OnTime (init n jobs) where
  nWorking_le := by simp [init, working, notExited]
  le := by
    intro i v h
    cases h
  one := by
    intro i j u v h
    cases h

theorem OnTime.move {m m' : MultiThreadJobMng n α} {i : Fin n} {pc : WorkerPc α} (h : OnTime m)
    (hn : m'.nWorking = m.nWorking) (hw : m'.worker = Function.update m.worker i pc)
    (hpc : notExited pc = notExited (m.worker i)) (hread : ∀ v, pc ≠ .decrement v) : OnTime m' := by
  have hsame : working m'.worker = working m.worker := by
    rw [hw]
    exact total_update_same hpc
  have hold : ∀ j v, m'.worker j = .decrement v → m.worker j = .decrement v := by
    intro j v hj
    rw [hw] at hj
    exact ((update_apply_eq_iff_of_ne (hread v)).mp hj).2
  constructor
  · rw [hsame, hn]
    exact h.nWorking_le
  · intro j v hj
    rw [hsame]
    exact h.le j v (hold j v hj)
  · intro j k u v hj hk
    exact h.one j k u v (hold j u hj) (hold k v hk)

theorem OnTime.read {m : MultiThreadJobMng n α} {i : Fin n} (h : OnTime m)
    (hi : m.worker i = .beforeThreadExit) (hother : ∀ j v, m.worker j ≠ .decrement v) :
    OnTime (m.setWorker i (.decrement m.nWorking)) := by
  have hsame : working (m.setWorker i (.decrement m.nWorking)).worker = working m.worker :=
    total_update_same (by rw [hi]; rfl)
  have hown : ∀ j v, (m.setWorker i (.decrement m.nWorking)).worker j = .decrement v →
      j = i ∧ v = m.nWorking := by
    intro j v hj
    rw [setWorker_worker] at hj
    rcases update_apply_eq_iff.mp hj with ⟨hji, hj⟩ | ⟨-, hj⟩
    · cases hj
      exact ⟨hji, rfl⟩
    · exact absurd hj (hother j v)
  constructor
  · rw [hsame]
    exact h.nWorking_le
  · intro j v hj
    rw [hsame, (hown j v hj).2]
    exact h.nWorking_le
  · intro j k u v hj hk
    rw [(hown j u hj).1, (hown k v hk).1]

theorem OnTime.write {m : MultiThreadJobMng n α} {i : Fin n} {v : Int} (h : OnTime m)
    (hi : m.worker i = .decrement v) :
    OnTime { m.setWorker i .exited with nWorking := v - 1 } := by
  have hone := working_exit hi
  have hnone : ∀ j u, (m.setWorker i .exited).worker j ≠ .decrement u := by
    intro j u hj
    rw [setWorker_worker] at hj
    obtain ⟨hji, hj⟩ := (update_apply_eq_iff_of_ne (exited_ne_decrement u)).mp hj
    exact hji (h.one j i u v hj hi)
  constructor
  · show v - 1 ≤ (working (Function.update m.worker i .exited) : Int)
    have := h.le i v hi
    omega
  · exact fun j u hj => absurd hj (hnone j u)
  · exact fun j k u w hj => absurd hj (hnone j u)

theorem onTime_run {jobs : List α} {tr : List (Agent n)} {m : MultiThreadJobMng n α}
    (h : ((system n jobs).restrict Serial).Run tr m) : OnTime m := by
  refine h.invariant (fun _ m => OnTime m) ?_ ?_
  · rintro m rfl
    exact onTime_init n jobs
  · rintro _ m a m' hm ⟨hs, hserial⟩
    cases a with
    | worker i =>
      cases hs with
      | noJob hi _ => exact hm.move rfl rfl (by rw [hi]; rfl) fun v hv => by cases hv
      | getJob job rest hi _ => exact hm.move rfl rfl (by rw [hi]; rfl) fun v hv => by cases hv
      | doJob job hi => exact hm.move rfl rfl (by rw [hi]; rfl) fun v hv => by cases hv
      | readWorking hi => exact hm.read hi (hserial hi)
      | writeWorking v hi => exact hm.write hi
    | finisher => cases hs <;> exact ⟨hm.nWorking_le, hm.le, hm.one⟩

/-! ## Finish -/

theorem working_exited {m : MultiThreadJobMng n α} (h : ∀ i, m.worker i = .exited) :
    working m.worker = 0 := total_eq_zero fun i => by rw [h i]; rfl

theorem executed_nil {jobs : List α} {tr : List (Agent 0)} {m : MultiThreadJobMng 0 α}
    (h : (system 0 jobs).Run tr m) : m.executed = [] := by
  refine h.invariant (fun _ m => m.executed = []) ?_ ?_
  · rintro m rfl
    rfl
  · intro _ m a m' hm hs
    cases a with
    | worker i => exact i.elim0
    | finisher => cases hs <;> exact hm

/-- Without overlapping reads the last worker leaves a zero behind. -/
theorem finish_of_serial {jobs : List α} {tr : List (Agent n)} {m : MultiThreadJobMng n α}
    (h : ((system n jobs).restrict Serial).Run tr m) (hexit : ∀ i, m.worker i = .exited)
    (hjobs : n = 0 → jobs = []) : m.Finish = true := by
  have hinv : Inv jobs m := inv_run h.of_restrict
  have hle := (onTime_run h).nWorking_le
  have hge := hinv.counted.le
  rw [working_exited hexit] at hle hge
  have hzero : m.nWorking = 0 := by omega
  have hempty : m.jobs = [] := by
    cases n with
    | zero =>
      have hsplit := hinv.split
      have hnone : total running m.worker = 0 ∧ m.jobs = [] := by
        rw [hjobs rfl, executed_nil h.of_restrict] at hsplit
        simpa using hsplit.symm
      exact hnone.2
    | succ n => exact hinv.drained 0 (by rw [hexit 0]; trivial)
  simp [Finish, allFinished, hzero, hempty]

theorem serial_of_finish {jobs : List α} {tr : List (Agent n)} {m : MultiThreadJobMng n α}
    (h : (system n jobs).Run tr m) (hexit : ∀ i, m.worker i = .exited) (hfin : m.Finish = true) :
    ((system n jobs).restrict Serial).Run tr m := by
  rcases serial_or_late h with hserial | hlate
  · exact hserial
  · exfalso
    simp only [Finish, Bool.and_eq_true, beq_iff_eq] at hfin
    rcases hlate with hlate | ⟨i, v, hi, _⟩ | ⟨i, _, v, _, _, hi, _⟩
    · rw [working_exited hexit, hfin.1] at hlate
      exact absurd hlate (by decide)
    · rw [hexit i] at hi
      cases hi
    · rw [hexit i] at hi
      cases hi

/-- A `Finish` that returned true means that every job was executed once. After the last worker,
`Finish` is true exactly when no worker read `m_nWorking` between another one's read and write, and
somebody was there to empty the pool. -/
theorem finish_exact {jobs : List α} {tr : List (Agent n)} {m : MultiThreadJobMng n α}
    (h : (system n jobs).Run tr m) :
    (m.finish = .returned true → m.executed.Perm jobs) ∧
      ((∀ i, m.worker i = .exited) →
        (m.Finish = true ↔ ((system n jobs).restrict Serial).Run tr m ∧ (n = 0 → jobs = []))) := by
  have hinv := inv_run h
  constructor
  · intro hfin
    obtain ⟨hzero, hempty⟩ := hinv.finished hfin
    exact hinv.executed_perm (hinv.exited hzero) hempty
  · intro hexit
    constructor
    · intro hfin
      refine ⟨serial_of_finish h hexit hfin, ?_⟩
      rintro rfl
      simp only [Finish, allFinished, Bool.and_eq_true, List.isEmpty_iff] at hfin
      have hperm := hinv.executed_perm hexit hfin.2
      rw [executed_nil h] at hperm
      exact hperm.nil_eq.symm
    · rintro ⟨hserial, hjobs⟩
      exact finish_of_serial hserial hexit hjobs

theorem run_worker {jobs : List α} {tr : List (Agent n)} {m m' : MultiThreadJobMng n α}
    {i : Fin n} (h : (system n jobs).Run tr m) (hs : WorkerStep i m m') :
    (system n jobs).Run (tr ++ [.worker i]) m' := .step h hs

theorem run_finisher {jobs : List α} {tr : List (Agent n)} {m m' : MultiThreadJobMng n α}
    (h : (system n jobs).Run tr m) (hs : FinishStep m m') :
    (system n jobs).Run (tr ++ [.finisher]) m' := .step h hs

/-- One worker, one job, and a `Finish` afterwards. -/
theorem finish_exact_oneWorker : ∃ tr m, (system 1 [7]).Run tr m ∧
    m.executed.Perm [7] ∧ ((system 1 [7]).restrict Serial).Run tr m := by
  have h0 : (system 1 [7]).Run [] (init 1 [7]) := .init rfl
  have h1 := run_worker h0 (.getJob (i := 0) _ 7 [] rfl rfl)
  have h2 := run_worker h1 (.doJob (i := 0) _ 7 rfl)
  have h3 := run_worker h2 (.noJob (i := 0) _ rfl rfl)
  have h4 := run_worker h3 (.readWorking (i := 0) _ rfl)
  have h5 := run_worker h4 (.writeWorking (i := 0) _ 1 rfl)
  have h6 := run_finisher h5 (.notWorking _ rfl rfl)
  have h7 := run_finisher h6 (.allFinished _ rfl)
  have hexact := finish_exact h7
  exact ⟨_, _, h7, hexact.1 rfl, ((hexact.2 fun i => by fin_cases i; rfl).mp rfl).1⟩

/-- Two workers read the same count, and one decrement is lost: `Finish` stays false. -/
theorem finish_lostUpdate : ¬ ∀ tr (m : MultiThreadJobMng 2 Nat), (system 2 []).Run tr m →
    (∀ i, m.worker i = .exited) → m.Finish = true := by
  intro h
  have h0 : (system 2 ([] : List Nat)).Run [] (init 2 []) := .init rfl
  have h1 := run_worker h0 (.noJob (i := 0) _ rfl rfl)
  have h2 := run_worker h1 (.noJob (i := 1) _ rfl rfl)
  have h3 := run_worker h2 (.readWorking (i := 0) _ rfl)
  have h4 := run_worker h3 (.readWorking (i := 1) _ rfl)
  have h5 := run_worker h4 (.writeWorking (i := 0) _ 2 rfl)
  have h6 := run_worker h5 (.writeWorking (i := 1) _ 2 rfl)
  have hfin := h _ _ h6 fun i => by fin_cases i <;> rfl
  cases hfin

end MultiThreadJobMng

end Threads
end Huicpp
