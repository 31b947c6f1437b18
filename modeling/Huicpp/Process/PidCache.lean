import Mathlib
import Huicpp.Cxx.TransitionSystem

/-!
# Process.PidCache

`HGetPid` and `HAtFork`. A task keeps a reference to the name that it was registered with, which is gone
when `RegisterHandler` returns; so what `UnregisterHandler` compares a name with is gone, and what the
comparisons answer is an argument. Of a caller's hooks only those for the child matter, and of these
whether they call `HGetPid`; what the others call, the process calls before or after the fork.

* `Careful`: no comparison makes `UnregisterHandler` take the task of the cache, and at a fork no hook in
  front of the cache's calls `HGetPid`.
* `cached_pid_right`: in runs of such steps every `HGetPid` gives the own pid; after another step it does
  not, at once or after the next fork.
-/

namespace Huicpp
namespace Process
namespace PidCache

open Cxx

/-- A task of the list, by its hook for the child. -/
inductive AtForkTask where
  /-- `this->m_pid = getpid()`, registered as `"pidcache"` -/
  | storePid
  /-- A caller's hook -/
  | other (asks : Bool)
  deriving DecidableEq, Repr

/-- `Append` -/
def append (tasks : List AtForkTask) (task : AtForkTask) : List AtForkTask := tasks ++ [task]

/-- `Remove`, where `equal i` is the answer of the comparison with the `i`-th name. -/
def remove (equal : Nat → Bool) : List AtForkTask → List AtForkTask
  | [] => []
  | it :: tasks => if equal 0 then tasks else it :: remove (fun i => equal (i + 1)) tasks

/-- The task that `Remove` erases. -/
def erased (equal : Nat → Bool) : List AtForkTask → Option AtForkTask
  | [] => none
  | it :: tasks => if equal 0 then some it else erased (fun i => equal (i + 1)) tasks

/-- The two static objects of a process: `pid_cache` and the list. -/
structure Statics where
  m_pid : Nat
  m_task : List AtForkTask
  deriving DecidableEq, Repr

/-- A call of `HGetPid`: the process that made it, and what it returned. -/
structure Asked where
  pid : Nat
  answer : Nat
  deriving DecidableEq, Repr

namespace Statics

def new : Statics := ⟨0, []⟩

/-- `PidCache::init` -/
def init (x : Statics) (getpid : Nat) : Statics := ⟨getpid, append x.m_task .storePid⟩

/-- `HGetPid()` -/
def hGetPid (x : Statics) (getpid : Nat) : Nat × Statics :=
  let x := if x.m_pid = 0 then x.init getpid else x
  (x.m_pid, x)

/-- A hook runs in the child. -/
def runHook (getpid : Nat) (r : Statics × List Asked) (it : AtForkTask) : Statics × List Asked :=
  match it with
  | .storePid => ({ r.1 with m_pid := getpid }, r.2)
  | .other false => r
  | .other true => ((r.1.hGetPid getpid).2, r.2 ++ [⟨getpid, (r.1.hGetPid getpid).1⟩])

/-- `Child()`. The loop goes on to a task that a hook has appended. This is at most one, of the cache. -/
def child (x : Statics) (getpid : Nat) : Statics × List Asked :=
  let r := x.m_task.foldl (runHook getpid) (x, [])
  (r.1.m_task.drop x.m_task.length).foldl (runHook getpid) r

end Statics

/-! ## Trees of processes -/

structure State where
  processes : Nat → Option Statics
  asked : List Asked

inductive Event where
  | hGetPid (p : Nat)
  | registerHandler (p : Nat) (asks : Bool)
  | unregisterHandler (p : Nat) (equal : Nat → Bool)
  | fork (p c : Nat)
  | exit (p : Nat)

namespace State

def set (s : State) (p : Nat) (x : Option Statics) (asked : List Asked) : State :=
  ⟨Function.update s.processes p x, s.asked ++ asked⟩

inductive Step : State → Event → State → Prop where
  | hGetPid (s : State) (p : Nat) (x : Statics) : s.processes p = some x →
      Step s (.hGetPid p) (s.set p (some (x.hGetPid p).2) [⟨p, (x.hGetPid p).1⟩])
  | registerHandler (s : State) (p : Nat) (asks : Bool) (x : Statics) : s.processes p = some x →
      Step s (.registerHandler p asks)
        (s.set p (some { x with m_task := append x.m_task (.other asks) }) [])
  | unregisterHandler (s : State) (p : Nat) (equal : Nat → Bool) (x : Statics) :
      s.processes p = some x →
      Step s (.unregisterHandler p equal)
        (s.set p (some { x with m_task := remove equal x.m_task }) [])
  | fork (s : State) (p c : Nat) (x : Statics) : s.processes p = some x → s.processes c = none → c ≠ 0 →
      Step s (.fork p c) (s.set c (some (x.child c).1) (x.child c).2)
  | exit (s : State) (p : Nat) (x : Statics) : s.processes p = some x →
      Step s (.exit p) (s.set p none [])

/-- The condition on a step. -/
def Careful (s : State) (e : Event) (_ : State) : Prop :=
  match e with
  | .unregisterHandler p equal =>
      ∀ x, s.processes p = some x → erased equal x.m_task ≠ some .storePid
  | .fork p _ => ∀ x, s.processes p = some x → x.m_pid ≠ 0 →
      .other true ∉ x.m_task.takeWhile (· ≠ .storePid)
  | _ => True

end State

/-- All runs, from one process that has called nothing yet. -/
def forks : TransitionSystem State Event where
  init s := ∃ p, p ≠ 0 ∧ s = ⟨Function.update (fun _ => none) p (some .new), []⟩
  step := State.Step

/-- Some answer is not the pid of the process. -/
def Wrong (asked : List Asked) : Prop := ∃ a ∈ asked, a.answer ≠ a.pid

/-- Nothing is cached and there is no task of the cache, or there is one and the pid is cached. -/
def Cached (p : Nat) (x : Statics) : Prop :=
  x.m_pid = 0 ∧ x.m_task.count .storePid = 0 ∨ x.m_pid = p ∧ x.m_task.count .storePid = 1

/-! ## What one process does -/

variable {p c q : Nat} {x : Statics} {tasks : List AtForkTask} {asked : List Asked} {s s' : State}
  {e : Event} {equal : Nat → Bool}

theorem not_wrong_own (p : Nat) : ¬ Wrong [⟨p, p⟩] := by
  rintro ⟨a, ha, hne⟩
  rw [List.mem_singleton.mp ha] at hne
  exact hne rfl

theorem not_wrong_append {asked' : List Asked} (h : ¬ Wrong asked) (h' : ¬ Wrong asked') :
    ¬ Wrong (asked ++ asked') := by
  rintro ⟨a, ha, hne⟩
  rcases List.mem_append.mp ha with ha | ha
  · exact h ⟨a, ha, hne⟩
  · exact h' ⟨a, ha, hne⟩

theorem count_append_storePid (tasks : List AtForkTask) :
    (append tasks .storePid).count .storePid = tasks.count .storePid + 1 := by
  rw [append, List.count_append]
  rfl

theorem count_append_other (tasks : List AtForkTask) (asks : Bool) :
    (append tasks (.other asks)).count .storePid = tasks.count .storePid := by
  rw [append, List.count_append]
  rfl

theorem count_remove_of_other (h : erased equal tasks ≠ some .storePid) :
    (remove equal tasks).count .storePid = tasks.count .storePid := by
  induction tasks generalizing equal with
  | nil => rfl
  | cons it tasks ih =>
    rw [erased] at h
    rw [remove]
    by_cases heq : equal 0 = true
    · rw [if_pos heq] at h ⊢
      have hne : it ≠ .storePid := fun hit => h (congrArg some hit)
      exact (List.count_cons_of_ne hne).symm
    · rw [if_neg heq] at h ⊢
      rw [List.count_cons, List.count_cons, ih h]

theorem count_remove_of_storePid (h : erased equal tasks = some .storePid) :
    (remove equal tasks).count .storePid + 1 = tasks.count .storePid := by
  induction tasks generalizing equal with
  | nil => cases h
  | cons it tasks ih =>
    rw [erased] at h
    rw [remove]
    by_cases heq : equal 0 = true
    · rw [if_pos heq] at h ⊢
      obtain rfl : it = .storePid := Option.some.inj h
      exact List.count_cons_self.symm
    · rw [if_neg heq] at h ⊢
      rw [List.count_cons, List.count_cons, ← ih h]
      omega

namespace Statics

theorem hGetPid_of_empty (h : x.m_pid = 0) (p : Nat) : x.hGetPid p = (p, x.init p) := by
  rw [hGetPid, if_pos h]
  rfl

theorem hGetPid_of_filled (h : x.m_pid ≠ 0) (p : Nat) : x.hGetPid p = (x.m_pid, x) := by
  rw [hGetPid, if_neg h]

theorem mem_runHooks {a : Asked} (h : a ∈ asked) (c : Nat) (x : Statics)
    (tasks : List AtForkTask) : a ∈ (tasks.foldl (runHook c) (x, asked)).2 := by
  induction tasks generalizing x asked with
  | nil => exact h
  | cons it tasks ih =>
    rw [List.foldl_cons]
    cases it with
    | storePid => exact ih h _
    | other asks =>
      cases asks with
      | false => exact ih h x
      | true => exact ih (List.mem_append_left _ h) _

/-- Where the own pid is cached, the hooks change nothing and get right answers. -/
theorem runHooks_right (hc : c ≠ 0) (hx : x.m_pid = c) (hr : ¬ Wrong asked) :
    (tasks.foldl (runHook c) (x, asked)).1 = x ∧
      ¬ Wrong (tasks.foldl (runHook c) (x, asked)).2 := by
  induction tasks generalizing asked with
  | nil => exact ⟨rfl, hr⟩
  | cons it tasks ih =>
    rw [List.foldl_cons]
    cases it with
    | storePid =>
      have hsame : runHook c (x, asked) .storePid = (x, asked) := by
        rw [runHook, ← hx]
      rw [hsame]
      exact ih hr
    | other asks =>
      cases asks with
      | false => exact ih hr
      | true =>
        have hget : x.hGetPid c = (c, x) := by
          rw [hGetPid_of_filled (by rw [hx]; exact hc), hx]
        have hnext : runHook c (x, asked) (.other true) = (x, asked ++ [⟨c, c⟩]) := by
          rw [runHook, hget]
        rw [hnext]
        exact ih (not_wrong_append hr (not_wrong_own c))

theorem runHooks_empty (hc : c ≠ 0) (hx : x.m_pid = 0) (ht : tasks.count .storePid = 0)
    (hr : ¬ Wrong asked) :
    ((tasks.foldl (runHook c) (x, asked)).1 = x ∨
      (tasks.foldl (runHook c) (x, asked)).1 = x.init c) ∧
      ¬ Wrong (tasks.foldl (runHook c) (x, asked)).2 := by
  induction tasks generalizing asked with
  | nil => exact ⟨.inl rfl, hr⟩
  | cons it tasks ih =>
    rw [List.foldl_cons]
    cases it with
    | storePid =>
      rw [List.count_cons_self] at ht
      cases ht
    | other asks =>
      rw [List.count_cons_of_ne (by simp)] at ht
      cases asks with
      | false => exact ih ht hr
      | true =>
        have hnext : runHook c (x, asked) (.other true) = (x.init c, asked ++ [⟨c, c⟩]) := by
          rw [runHook, hGetPid_of_empty hx]
        rw [hnext]
        exact (runHooks_right hc rfl (not_wrong_append hr (not_wrong_own c))).imp_left .inr

/-- The hook of the cache comes before the first one that asks. -/
theorem runHooks_stored (hc : c ≠ 0) (ht : .storePid ∈ tasks)
    (hask : .other true ∉ tasks.takeWhile (· ≠ .storePid)) (hr : ¬ Wrong asked) :
    (tasks.foldl (runHook c) (x, asked)).1 = { x with m_pid := c } ∧
      ¬ Wrong (tasks.foldl (runHook c) (x, asked)).2 := by
  induction tasks with
  | nil => cases ht
  | cons it tasks ih =>
    rw [List.foldl_cons]
    cases it with
    | storePid => exact runHooks_right (x := { x with m_pid := c }) hc rfl hr
    | other asks =>
      rw [List.takeWhile_cons_of_pos (by simp)] at hask
      obtain ⟨hhead, htail⟩ := not_or.mp (mt List.mem_cons.mpr hask)
      cases asks with
      | false => exact ih ((List.mem_cons.mp ht).resolve_left (by simp)) htail
      | true => exact absurd rfl hhead

theorem runHooks_wrong (hx : x.m_pid ≠ 0) (hask : .other true ∈ tasks.takeWhile (· ≠ .storePid)) :
    ⟨c, x.m_pid⟩ ∈ (tasks.foldl (runHook c) (x, asked)).2 := by
  induction tasks generalizing asked with
  | nil => cases hask
  | cons it tasks ih =>
    rw [List.foldl_cons]
    cases it with
    | storePid =>
      rw [List.takeWhile_cons_of_neg (by simp)] at hask
      cases hask
    | other asks =>
      rw [List.takeWhile_cons_of_pos (by simp)] at hask
      cases asks with
      | false => exact ih ((List.mem_cons.mp hask).resolve_left (by simp))
      | true =>
        rw [runHook, hGetPid_of_filled hx]
        exact mem_runHooks (List.mem_append_right _ (List.mem_singleton_self _)) c x tasks

theorem runHooks_stale (hx : x.m_pid ≠ 0) (ht : tasks.count .storePid = 0) :
    (tasks.foldl (runHook c) (x, asked)).1 = x := by
  induction tasks generalizing asked with
  | nil => rfl
  | cons it tasks ih =>
    rw [List.foldl_cons]
    cases it with
    | storePid =>
      rw [List.count_cons_self] at ht
      cases ht
    | other asks =>
      rw [List.count_cons_of_ne (by simp)] at ht
      cases asks with
      | false => exact ih ht
      | true =>
        rw [runHook, hGetPid_of_filled hx]
        exact ih ht

/-- Where no task was appended, the loop ends with the list that it began with. -/
theorem child_of_same (h : (x.m_task.foldl (runHook c) (x, [])).1.m_task = x.m_task) :
    x.child c = x.m_task.foldl (runHook c) (x, []) := by
  rw [child, h, List.drop_length]
  rfl

theorem hGetPid_cached (hp : p ≠ 0) (h : Cached p x) :
    (x.hGetPid p).1 = p ∧ Cached p (x.hGetPid p).2 := by
  rcases h with ⟨hx, ht⟩ | ⟨hx, ht⟩
  · rw [hGetPid_of_empty hx]
    refine ⟨rfl, .inr ⟨rfl, ?_⟩⟩
    show (append x.m_task .storePid).count .storePid = 1
    rw [count_append_storePid, ht]
  · rw [hGetPid_of_filled (by rw [hx]; exact hp)]
    exact ⟨hx, .inr ⟨hx, ht⟩⟩

theorem child_cached (hc : c ≠ 0) (hp : p ≠ 0) (h : Cached p x)
    (hask : x.m_pid ≠ 0 → .other true ∉ x.m_task.takeWhile (· ≠ .storePid)) :
    Cached c (x.child c).1 ∧ ¬ Wrong (x.child c).2 := by
  have hnone : ¬ Wrong [] := by
    rintro ⟨a, ha, -⟩
    cases ha
  rcases h with ⟨hx, ht⟩ | ⟨hx, ht⟩
  · obtain ⟨hsame | hinit, hright⟩ := runHooks_empty hc hx ht hnone
    · rw [child_of_same (congrArg m_task hsame), hsame]
      exact ⟨.inl ⟨hx, ht⟩, hright⟩
    · -- the task that was appended runs, too
      have hnew : (x.init c).m_task.drop x.m_task.length = [.storePid] := List.drop_left
      have hchild : x.child c = (x.init c, (x.m_task.foldl (runHook c) (x, [])).2) := by
        rw [child, hinit, hnew, List.foldl_cons, List.foldl_nil, runHook, hinit]
        rfl
      rw [hchild]
      refine ⟨.inr ⟨rfl, ?_⟩, hright⟩
      show (append x.m_task .storePid).count .storePid = 1
      rw [count_append_storePid, ht]
  · have hmem : .storePid ∈ x.m_task := List.count_pos_iff.mp (by rw [ht]; exact Nat.one_pos)
    obtain ⟨hstored, hright⟩ :=
      runHooks_stored (x := x) hc hmem (hask (by rw [hx]; exact hp)) hnone
    rw [child_of_same (by rw [hstored]), hstored]
    exact ⟨.inr ⟨rfl, ht⟩, hright⟩

theorem child_wrong (hx : x.m_pid ≠ 0) (hask : .other true ∈ x.m_task.takeWhile (· ≠ .storePid)) :
    ⟨c, x.m_pid⟩ ∈ (x.child c).2 := by
  rw [child]
  exact mem_runHooks (runHooks_wrong hx hask) c _ _

/-- A child whose parent has lost the task of the cache. -/
theorem child_stale (hx : x.m_pid ≠ 0) (ht : x.m_task.count .storePid = 0) : (x.child c).1 = x := by
  have hstale : (x.m_task.foldl (runHook c) (x, [])).1 = x := runHooks_stale hx ht
  rw [child_of_same (congrArg m_task hstale), hstale]

end Statics

/-! ## Runs -/

/-- Every process has its own pid cached, or none, and every answer was right. -/
structure Inv (s : State) : Prop where
  cached : ∀ p x, s.processes p = some x → p ≠ 0 ∧ Cached p x
  right : ¬ Wrong s.asked

theorem Inv.set (h : Inv s) (hx : p ≠ 0 ∧ Cached p x) (hr : ¬ Wrong asked) :
    Inv (s.set p (some x) asked) := by
  refine ⟨fun q y hq => ?_, not_wrong_append h.right hr⟩
  rcases update_apply_eq_iff.mp hq with ⟨rfl, hxy⟩ | ⟨-, hq⟩
  · rw [← Option.some.inj hxy]
    exact hx
  · exact h.cached q y hq

theorem Inv.cached_after (h : Inv s) (hx : s.processes p = some x) {tasks : List AtForkTask}
    (ht : tasks.count .storePid = x.m_task.count .storePid) :
    p ≠ 0 ∧ Cached p { x with m_task := tasks } := by
  obtain ⟨hp, hcached⟩ := h.cached p x hx
  refine ⟨hp, ?_⟩
  rw [Cached, ht]
  exact hcached

theorem State.Step.inv (h : Step s e s') (hc : Careful s e s') (hi : Inv s) : Inv s' := by
  have hnone : ¬ Wrong [] := by
    rintro ⟨a, ha, -⟩
    cases ha
  cases h with
  | hGetPid p x hx =>
    obtain ⟨hp, hcached⟩ := hi.cached p x hx
    obtain ⟨hret, hcached'⟩ := Statics.hGetPid_cached hp hcached
    rw [hret]
    exact hi.set ⟨hp, hcached'⟩ (not_wrong_own p)
  | registerHandler p asks x hx =>
    exact hi.set (hi.cached_after hx (count_append_other x.m_task asks)) hnone
  | unregisterHandler p equal x hx =>
    exact hi.set (hi.cached_after hx (count_remove_of_other (hc x hx))) hnone
  | fork p c x hx hfree hzero =>
    obtain ⟨hp, hcached⟩ := hi.cached p x hx
    obtain ⟨hcached', hright⟩ := Statics.child_cached hzero hp hcached (hc x hx)
    exact hi.set ⟨hzero, hcached'⟩ hright
  | exit p x hx =>
    refine ⟨fun q y hq => ?_, not_wrong_append hi.right hnone⟩
    obtain ⟨-, hq⟩ := (update_apply_eq_iff_of_ne (Option.some_ne_none y).symm).mp hq
    exact hi.cached q y hq

theorem State.Step.wrong (h : Step s e s') (hc : ¬ Careful s e s') (hi : Inv s) :
    Wrong s'.asked ∨ ∃ p, ∀ c, c ≠ 0 → s'.processes c = none →
      ∃ s₁ s₂, Step s' (.fork p c) s₁ ∧ Step s₁ (.hGetPid c) s₂ ∧ Wrong s₂.asked := by
  cases h with
  | hGetPid p x hx => exact absurd trivial hc
  | registerHandler p asks x hx => exact absurd trivial hc
  | exit p x hx => exact absurd trivial hc
  | unregisterHandler p equal x hx =>
    obtain ⟨y, hbad⟩ := not_forall.mp hc
    obtain ⟨hy, hbad⟩ := Classical.not_imp.mp hbad
    obtain rfl : x = y := Option.some.inj (hx.symm.trans hy)
    have hcount := count_remove_of_storePid (not_not.mp hbad)
    obtain ⟨hp, hcached⟩ := hi.cached p x hx
    obtain ⟨hpid, hone⟩ : x.m_pid = p ∧ x.m_task.count .storePid = 1 := by
      refine hcached.resolve_left fun hnone => ?_
      rw [hnone.2] at hcount
      cases hcount
    refine .inr ⟨p, fun c hzero hfree => ?_⟩
    -- the child has its parent's pid
    let left : Statics := { x with m_task := remove equal x.m_task }
    have hleft : (s.set p (some left) []).processes p = some left := Function.update_self ..
    have hstale : (left.child c).1 = left := by
      refine Statics.child_stale (by rw [hpid]; exact hp) ?_
      show (remove equal x.m_task).count .storePid = 0
      omega
    have hchild : ((s.set p (some left) []).set c (some (left.child c).1)
        (left.child c).2).processes c = some left := by
      rw [hstale]
      exact Function.update_self ..
    have hpc : p ≠ c := by
      rintro rfl
      rw [hleft] at hfree
      cases hfree
    refine ⟨_, _, .fork _ p c left hleft hfree hzero, .hGetPid _ c left hchild, ⟨c, p⟩, ?_, hpc⟩
    have hget : left.hGetPid c = (x.m_pid, left) :=
      Statics.hGetPid_of_filled (by rw [hpid]; exact hp) c
    rw [hget, hpid]
    exact List.mem_append_right _ (List.mem_singleton_self _)
  | fork p c x hx hfree hzero =>
    obtain ⟨y, hbad⟩ := not_forall.mp hc
    obtain ⟨hy, hbad⟩ := Classical.not_imp.mp hbad
    obtain ⟨hfilled, hask⟩ := Classical.not_imp.mp hbad
    obtain rfl : x = y := Option.some.inj (hx.symm.trans hy)
    obtain ⟨hp, hcached⟩ := hi.cached p x hx
    have hpid : x.m_pid = p := by
      rcases hcached with ⟨h0, -⟩ | ⟨hpid, -⟩
      · exact absurd h0 hfilled
      · exact hpid
    have hwrong := Statics.child_wrong (c := c) hfilled (not_not.mp hask)
    refine .inl ⟨_, List.mem_append_right _ hwrong, ?_⟩
    rintro heq
    have heq : x.m_pid = c := heq
    rw [← heq, hpid, hx] at hfree
    cases hfree

/-- **The cached pid is right.** In a run of careful steps every `HGetPid` gives the pid of the process that
calls it. A step that is not careful ends this, at once or in the next child. -/
theorem cached_pid_right (h : (forks.restrict State.Careful).Reachable s) :
    (∀ a ∈ s.asked, a.answer = a.pid) ∧
      ∀ e s', State.Step s e s' → ¬ State.Careful s e s' →
        Wrong s'.asked ∨ ∃ p, ∀ c, c ≠ 0 → s'.processes c = none →
          ∃ s₁ s₂, State.Step s' (.fork p c) s₁ ∧ State.Step s₁ (.hGetPid c) s₂ ∧ Wrong s₂.asked := by
  have hi : Inv s := by
    refine h.invariant Inv ?_ ?_
    · rintro s ⟨p, hp, rfl⟩
      have hempty : Inv ⟨fun _ => none, []⟩ :=
        ⟨fun q x hq => (by cases hq), fun ⟨a, ha, _⟩ => (by cases ha)⟩
      show Inv (State.set ⟨fun _ => none, []⟩ p (some .new) [])
      exact hempty.set ⟨hp, .inl ⟨rfl, rfl⟩⟩ hempty.right
    · rintro s e s' hi ⟨hstep, hc⟩
      exact hstep.inv hc hi
  refine ⟨fun a ha => ?_, fun e s' hstep hc => hstep.wrong hc hi⟩
  by_contra hne
  exact hi.right ⟨a, ha, hne⟩

/-- One process, with the pid 1. -/
def single : State := ⟨Function.update (fun _ => none) 1 (some .new), []⟩

/-- It has called `HGetPid`. -/
def singleAsked : State := single.set 1 (some ⟨1, [.storePid]⟩) [⟨1, 1⟩]

theorem step_singleAsked : State.Step single (.hGetPid 1) singleAsked :=
  .hGetPid single 1 .new rfl

/-- It registers a hook that asks, and its child, with the pid 2, asks as well. -/
theorem cached_pid_right_child :
    ∃ s, s.asked = [⟨1, 1⟩, ⟨2, 2⟩, ⟨2, 2⟩] ∧ (∀ a ∈ s.asked, a.answer = a.pid) ∧
      ∀ e s', State.Step s e s' → ¬ State.Careful s e s' →
        Wrong s'.asked ∨ ∃ p, ∀ c, c ≠ 0 → s'.processes c = none →
          ∃ s₁ s₂, State.Step s' (.fork p c) s₁ ∧ State.Step s₁ (.hGetPid c) s₂ ∧
            Wrong s₂.asked := by
  have h0 : (forks.restrict State.Careful).Reachable single := .of_init ⟨1, by decide, rfl⟩
  have h1 := h0.next ⟨step_singleAsked, trivial⟩
  have h2 := h1.next ⟨.registerHandler _ 1 true _ rfl, trivial⟩
  have hcareful : ∀ x : Statics, some (⟨1, [.storePid, .other true]⟩ : Statics) = some x → x.m_pid ≠ 0 →
      .other true ∉ x.m_task.takeWhile (· ≠ .storePid) := by
    rintro _ ⟨⟩ _
    decide
  have h3 := h2.next ⟨.fork _ 1 2 _ rfl rfl (by decide), hcareful⟩
  have h4 := h3.next ⟨.hGetPid _ 2 ⟨2, [.storePid, .other true]⟩ rfl, trivial⟩
  exact ⟨_, rfl, cached_pid_right h4⟩

/-- `UnregisterHandler` of some name takes the task of the cache; the next child, with the pid 2, gets 1. -/
theorem child_gets_parent_pid : ¬ ∀ s, forks.Reachable s → ∀ a ∈ s.asked, a.answer = a.pid := by
  intro hall
  let lost := singleAsked.set 1 (some ⟨1, []⟩) []
  have hasked : singleAsked.processes 1 = some ⟨1, [.storePid]⟩ := rfl
  have hlost : lost.processes 1 = some ⟨1, []⟩ := rfl
  have hfree : lost.processes 2 = none := rfl
  have hsingle : forks.Reachable single := .of_init ⟨1, by decide, rfl⟩
  have h1 : forks.Reachable singleAsked := hsingle.next step_singleAsked
  have h2 : forks.Reachable lost :=
    h1.next (.unregisterHandler singleAsked 1 (fun _ => true) ⟨1, [.storePid]⟩ hasked)
  have h3 := h2.next (.fork lost 1 2 ⟨1, []⟩ hlost hfree (by decide))
  have h4 := h3.next (.hGetPid _ 2 ⟨1, []⟩ rfl)
  have hright := hall _ h4 ⟨2, 1⟩ (List.mem_append_right _ (List.mem_singleton_self _))
  exact absurd hright (by decide)

end PidCache
end Process
end Huicpp
