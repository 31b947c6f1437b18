import Mathlib
import Huicpp.Process.ProcessPool

/-!
# Process.TouchPass

One pass of `parent_touch`, with a clock. Each `kill_child` sleeps for two seconds, and nothing else
takes time; a child may die, or touch its record with the current time, before every step of the
parent. A touch is one step here. `startat` is stored by the parent alone, so that `at` and
`startat` are read in one step. A new process has a pid that no slot's child has.

* `Careful`: the time that the parent compares with is not so old that a recent touch is more than
  `MAX_HEAR_TIME` after it.
* `restarts_justified`: in runs of such steps only dead or silent children are restarted, at most
  once each, and every slot has one child after the pass.
-/

namespace Huicpp
namespace Process
namespace TouchPass

open Cxx
open HProcessPool (MAX_HEAR_TIME)

def AFTER_SIGTERM_ST : Int := 2

/-- A process that was forked for a slot; `killed` says that `kill_child` was called for it. -/
structure Forked where
  pid : Int
  alive : Bool
  killed : Bool
  deriving DecidableEq, Repr

/-- Which branch of `parent_touch` called `kill_child` and `create_child`. -/
inductive Branch where
  | notExists
  | silent
  deriving DecidableEq, Repr

/-- Where the parent is; `nt` is the time at which the pass began, and `created` says that the first
branch was taken for `i`. -/
inductive Pc (n : Nat) where
  | start
  | processExists (i : Nat) (nt : Int)
  | lastAccess (i : Fin n) (nt : Int) (created : Bool)
  | kill (i : Fin n) (nt : Int) (b : Branch)
  | sigkill (i : Fin n) (nt : Int) (b : Branch)
  | create (i : Fin n) (nt : Int) (b : Branch)
  | setStart (i : Fin n) (nt : Int) (b : Branch) (pid : Int)
  | done
  | thrown
  deriving DecidableEq, Repr

/-- `child i` is the process that was forked for the slot `i` last, and `former` are all others. -/
structure Pass (n : Nat) where
  clock : Int
  info : Fin n → CntlInfo
  child : Fin n → Forked
  former : List Forked
  pc : Pc n

inductive Action (n : Nat) where
  | restart (i : Fin n)
  | parent
  | child
  deriving DecidableEq, Repr

/-- `set_info_as_status`, which stores back the pid that is there. -/
def setInfoAsStatus (info : CntlInfo) (status : ChildStatus) (time : Int) : CntlInfo :=
  { info with at' := time, status := status }

/-- When the child was last heard of, as the parent computes it. -/
def heardAt (info : CntlInfo) : Int := if info.at' = 0 then info.startat else info.at'

namespace Pass

variable {n : Nat}

def goto (s : Pass n) (pc : Pc n) : Pass n := { s with pc := pc }

def setInfo (s : Pass n) (i : Fin n) (info : CntlInfo) : Pass n :=
  { s with info := Function.update s.info i info }

def setChild (s : Pass n) (i : Fin n) (c : Forked) : Pass n :=
  { s with child := Function.update s.child i c }

def processExists (s : Pass n) (pid : Int) : Prop :=
  (∃ i, (s.child i).pid = pid ∧ (s.child i).alive = true) ∨
    ∃ c ∈ s.former, c.pid = pid ∧ c.alive = true

/-- `SIGKILL` to a pid. -/
def killAnyway (s : Pass n) (pid : Int) : Pass n :=
  { s with child := fun i => if (s.child i).pid = pid then ⟨pid, false, true⟩ else s.child i }

/-- Where the parent goes on after `create_child(i)`. -/
def afterCreate (i : Fin n) (nt : Int) : Branch → Pc n
  | .notExists => .lastAccess i nt true
  | .silent => .processExists (i + 1) nt

/-- `start` to `silent` are steps of `parent_touch`, the next two of `kill_child`, and `fork` to `setStart`
of `create_child`. The last two are steps of the children. -/
inductive Step : Pass n → Action n → Pass n → Prop where
  | start (s : Pass n) : s.pc = .start → Step s .parent (s.goto (.processExists 0 s.clock))
  | done (s : Pass n) (nt : Int) : s.pc = .processExists n nt → Step s .parent (s.goto .done)
  | exists' (s : Pass n) (i : Fin n) (nt : Int) :
      s.pc = .processExists i nt → s.processExists (s.info i).pid →
      Step s .parent (s.goto (.lastAccess i nt false))
  | notExists (s : Pass n) (i : Fin n) (nt : Int) :
      s.pc = .processExists i nt → ¬ s.processExists (s.info i).pid →
      Step s (.restart i) (s.goto (.kill i nt .notExists))
  | heard (s : Pass n) (i : Fin n) (nt : Int) (created : Bool) :
      s.pc = .lastAccess i nt created → |nt - heardAt (s.info i)| ≤ MAX_HEAR_TIME →
      Step s .parent (s.goto (.processExists (i + 1) nt))
  | silent (s : Pass n) (i : Fin n) (nt : Int) (created : Bool) :
      s.pc = .lastAccess i nt created → MAX_HEAR_TIME < |nt - heardAt (s.info i)| →
      Step s (.restart i) (s.goto (.kill i nt .silent))
  | sigterm (s : Pass n) (i : Fin n) (nt : Int) (b : Branch) :
      s.pc = .kill i nt b →
      Step s .parent { s.goto (.sigkill i nt b) with clock := s.clock + AFTER_SIGTERM_ST }
  | sigkill (s : Pass n) (i : Fin n) (nt : Int) (b : Branch) :
      s.pc = .sigkill i nt b →
      Step s .parent (((s.goto (.create i nt b)).killAnyway (s.info i).pid).setInfo i
        (setInfoAsStatus (s.info i) .CS_UNUSED s.clock))
  | fork (s : Pass n) (i : Fin n) (nt : Int) (b : Branch) (pid : Int) :
      s.pc = .create i nt b → (∀ j, (s.child j).pid ≠ pid) →
      Step s .parent { (s.goto (.setStart i nt b pid)).setChild i ⟨pid, true, false⟩ with
        former := s.child i :: s.former }
  | forkFailed (s : Pass n) (i : Fin n) (nt : Int) (b : Branch) :
      s.pc = .create i nt b → Step s .parent (s.goto .thrown)
  | setStart (s : Pass n) (i : Fin n) (nt : Int) (b : Branch) (pid : Int) :
      s.pc = .setStart i nt b pid →
      Step s .parent ((s.goto (afterCreate i nt b)).setInfo i ⟨s.clock, .CS_IDLE, 0, pid⟩)
  | die (s : Pass n) (i : Fin n) : Step s .child (s.setChild i { s.child i with alive := false })
  | touch (s : Pass n) (i : Fin n) (f : InfoCall) :
      (s.child i).alive = true →
      Step s .child (s.setInfo i (setInfoAsStatus (s.info i) f.status s.clock))

/-- The recorded pids are those of the children, and no time is in the future. -/
structure Init (s : Pass n) : Prop where
  pc : s.pc = .start
  former : s.former = []
  recorded : ∀ i, (s.info i).pid = (s.child i).pid
  unkilled : ∀ i, (s.child i).killed = false
  distinct : ∀ i j, (s.child i).pid = (s.child j).pid → i = j
  past : ∀ i, heardAt (s.info i) ≤ s.clock ∧ (s.info i).startat ≤ s.clock

/-- The child is dead, or was not heard of for too long. -/
def Justified (s : Pass n) (i : Fin n) : Prop :=
  (s.child i).alive = false ∨ MAX_HEAR_TIME < s.clock - heardAt (s.info i)

/-- A child is not restarted for having been heard of too long after the pass began. -/
def Careful (s : Pass n) (a : Action n) (_ : Pass n) : Prop :=
  ∀ i nt created, s.pc = .lastAccess i nt created → a = .restart i →
    heardAt (s.info i) - nt ≤ MAX_HEAR_TIME

end Pass

/-- A pass over `n` slots. -/
def system (n : Nat) : TransitionSystem (Pass n) (Action n) where
  init := Pass.Init
  step := Pass.Step

namespace Pass

variable {n : Nat} {s s' : Pass n} {a : Action n}

/-! ## What holds at each place -/

/-- The slots whose recorded pid is that of the child: not the one that gets a new child. -/
def Records : Pc n → Fin n → Prop
  | .setStart i _ _ _, j => j ≠ i
  | .thrown, _ => False
  | _, _ => True

/-- The slots whose child was not killed. -/
def Keeps : Pc n → Fin n → Prop
  | .create i _ _, j => j ≠ i
  | .thrown, _ => False
  | _, _ => True

/-- What else holds where the parent is: the pass began in the past, a killed child is dead, and a
new one was heard of just now. -/
def Local (s : Pass n) : Pc n → Prop
  | .processExists _ nt => nt ≤ s.clock
  | .lastAccess i nt created => nt ≤ s.clock ∧ (created = true → heardAt (s.info i) = s.clock)
  | .kill _ nt _ => nt ≤ s.clock
  | .sigkill _ nt _ => nt ≤ s.clock
  | .create i nt _ => nt ≤ s.clock ∧ (s.child i).alive = false
  | .setStart i nt _ pid => nt ≤ s.clock ∧ (s.child i).pid = pid
  | _ => True

structure Inv (s : Pass n) : Prop where
  recorded : ∀ i, Records s.pc i → (s.info i).pid = (s.child i).pid
  unkilled : ∀ i, Keeps s.pc i → (s.child i).killed = false
  distinct : ∀ i j, (s.child i).pid = (s.child j).pid → i = j
  past : ∀ i, heardAt (s.info i) ≤ s.clock ∧ (s.info i).startat ≤ s.clock
  former : ∀ c ∈ s.former, c.alive = false
  here : Local s s.pc

theorem Init.inv (h : Init s) : Inv s where
  recorded i _ := h.recorded i
  unkilled i _ := h.unkilled i
  distinct := h.distinct
  past := h.past
  former c hc := by
    rw [h.former] at hc
    cases hc
  here := by
    rw [h.pc]
    exact trivial

/-- The parent is neither between the two signals and `SetStartInfo`, nor gone. -/
def Whole : Pc n → Prop
  | .create _ _ _ => False
  | .setStart _ _ _ _ => False
  | .thrown => False
  | _ => True

theorem Whole.records {pc : Pc n} (h : Whole pc) (i : Fin n) : Records pc i := by
  cases pc <;> first | exact trivial | exact h.elim

theorem Whole.keeps {pc : Pc n} (h : Whole pc) (i : Fin n) : Keeps pc i := by
  cases pc <;> first | exact trivial | exact h.elim

theorem Inv.goto (h : Inv s) (hw : Whole s.pc) {pc : Pc n} (hlocal : Local s pc) :
    Inv (s.goto pc) where
  recorded i _ := h.recorded i (hw.records i)
  unkilled i _ := h.unkilled i (hw.keeps i)
  distinct := h.distinct
  past := h.past
  former := h.former
  here := by
    cases pc <;> exact hlocal

theorem Local.setChild {pc : Pc n} (h : Local s pc) {i : Fin n} {c : Forked}
    (hpid : c.pid = (s.child i).pid) (hdead : (s.child i).alive = false → c.alive = false) :
    Local (s.setChild i c) pc := by
  cases pc with
  | create j nt b =>
    refine ⟨h.1, ?_⟩
    show (Function.update s.child i c j).alive = false
    by_cases hj : j = i
    · subst hj
      rw [Function.update_self]
      exact hdead h.2
    · rw [Function.update_of_ne hj]
      exact h.2
  | setStart j nt b pid =>
    refine ⟨h.1, ?_⟩
    show (Function.update s.child i c j).pid = pid
    by_cases hj : j = i
    · subst hj
      rw [Function.update_self, hpid]
      exact h.2
    · rw [Function.update_of_ne hj]
      exact h.2
  | start | processExists | lastAccess | kill | sigkill | done | thrown => exact h

/-- Only the child of the slot has the pid that is recorded for it. -/
theorem Inv.killAnyway_child (h : Inv s) {i : Fin n} (hi : (s.info i).pid = (s.child i).pid)
    (j : Fin n) : (s.killAnyway (s.info i).pid).child j =
      if j = i then ⟨(s.child i).pid, false, true⟩ else s.child j := by
  show (if (s.child j).pid = (s.info i).pid then _ else _) = _
  by_cases hj : j = i
  · rw [if_pos hj, hj, if_pos hi.symm, hi]
  · rw [if_neg hj, if_neg fun hp => hj (h.distinct j i (hp.trans hi))]

theorem heardAt_touch {info : CntlInfo} {time : Int} (h : heardAt info = time)
    (status : ChildStatus) : heardAt (setInfoAsStatus info status time) = time := by
  rw [heardAt] at h
  show (if time = 0 then info.startat else time) = time
  by_cases ht : time = 0
  · rw [if_pos ht]
    by_cases hat : info.at' = 0
    · rwa [if_pos hat] at h
    · rw [if_neg hat] at h
      exact absurd (h.trans ht) hat
  · exact if_neg ht

theorem Local.touch {pc : Pc n} (h : Local s pc) (i : Fin n) (status : ChildStatus) :
    Local (s.setInfo i (setInfoAsStatus (s.info i) status s.clock)) pc := by
  cases pc with
  | lastAccess j nt created =>
    refine ⟨h.1, fun hc => ?_⟩
    show heardAt (Function.update s.info i _ j) = s.clock
    by_cases hj : j = i
    · subst hj
      rw [Function.update_self]
      exact heardAt_touch (h.2 hc) status
    · rw [Function.update_of_ne hj]
      exact h.2 hc
  | start | processExists | kill | sigkill | create | setStart | done | thrown => exact h

theorem past_update {info : Fin n → CntlInfo} {clock : Int}
    (h : ∀ i, heardAt (info i) ≤ clock ∧ (info i).startat ≤ clock) {i : Fin n} {r : CntlInfo}
    (hr : heardAt r ≤ clock ∧ r.startat ≤ clock) (j : Fin n) :
    heardAt (Function.update info i r j) ≤ clock ∧
      (Function.update info i r j).startat ≤ clock := by
  by_cases hj : j = i
  · rw [hj, Function.update_self]
    exact hr
  · rw [Function.update_of_ne hj]
    exact h j

theorem past_touch {info : CntlInfo} {clock : Int} (h : info.startat ≤ clock)
    (status : ChildStatus) : heardAt (setInfoAsStatus info status clock) ≤ clock ∧
      (setInfoAsStatus info status clock).startat ≤ clock := by
  refine ⟨?_, h⟩
  rw [heardAt]
  split
  · exact h
  · exact le_rfl

theorem pid_touch (info : Fin n → CntlInfo) (i : Fin n) (status : ChildStatus) (time : Int)
    (j : Fin n) :
    (Function.update info i (setInfoAsStatus (info i) status time) j).pid = (info j).pid := by
  by_cases hj : j = i
  · rw [hj, Function.update_self]
    rfl
  · rw [Function.update_of_ne hj]

theorem Step.inv (hstep : Step s a s') (h : Inv s) : Inv s' := by
  have here := h.here
  cases hstep with
  | start hpc => exact h.goto (hpc ▸ trivial) le_rfl
  | done nt hpc => exact h.goto (hpc ▸ trivial) trivial
  | exists' i nt hpc hex =>
    rw [hpc] at here
    exact h.goto (hpc ▸ trivial) ⟨here, Bool.noConfusion⟩
  | notExists i nt hpc hex =>
    rw [hpc] at here
    exact h.goto (hpc ▸ trivial) here
  | heard i nt created hpc hle =>
    rw [hpc] at here
    exact h.goto (hpc ▸ trivial) here.1
  | silent i nt created hpc hlt =>
    rw [hpc] at here
    exact h.goto (hpc ▸ trivial) here.1
  | sigterm i nt b hpc =>
    have hw : Whole s.pc := hpc ▸ trivial
    rw [hpc] at here
    have hlater : s.clock ≤ s.clock + AFTER_SIGTERM_ST := by
      rw [AFTER_SIGTERM_ST]
      omega
    exact
      { recorded := fun j _ => h.recorded j (hw.records j)
        unkilled := fun j _ => h.unkilled j (hw.keeps j)
        distinct := h.distinct
        past := fun j => ⟨(h.past j).1.trans hlater, (h.past j).2.trans hlater⟩
        former := h.former
        here := le_trans here hlater }
  | sigkill i nt b hpc =>
    have hw : Whole s.pc := hpc ▸ trivial
    rw [hpc] at here
    have hi : (s.info i).pid = (s.child i).pid := h.recorded i (hw.records i)
    have hpid : ∀ j, ((s.killAnyway (s.info i).pid).child j).pid = (s.child j).pid := by
      intro j
      rw [h.killAnyway_child hi]
      split
      · next hj => rw [hj]
      · rfl
    refine ⟨fun j _ => ?_, fun j hj => ?_, fun j k hjk => ?_, fun j => ?_, h.former, here, ?_⟩
    · show (Function.update s.info i _ j).pid = ((s.killAnyway (s.info i).pid).child j).pid
      rw [hpid, pid_touch]
      exact h.recorded j (hw.records j)
    · show ((s.killAnyway (s.info i).pid).child j).killed = false
      rw [h.killAnyway_child hi, if_neg hj]
      exact h.unkilled j (hw.keeps j)
    · refine h.distinct j k ?_
      rw [← hpid j, ← hpid k]
      exact hjk
    · exact past_update h.past (past_touch (h.past i).2 .CS_UNUSED) j
    · show ((s.killAnyway (s.info i).pid).child i).alive = false
      rw [h.killAnyway_child hi, if_pos rfl]
  | fork i nt b pid hpc hfresh =>
    rw [hpc] at here
    have hrec : ∀ j, (s.info j).pid = (s.child j).pid := fun j => h.recorded j (hpc ▸ trivial)
    have hkeep : ∀ j, j ≠ i → (s.child j).killed = false := fun j hj => h.unkilled j (by
      rw [hpc]
      exact hj)
    refine ⟨fun j hj => ?_, fun j _ => ?_, fun j k hjk => ?_, h.past, fun c hc => ?_, here.1, ?_⟩
    · show (s.info j).pid = (Function.update s.child i _ j).pid
      rw [Function.update_of_ne hj]
      exact hrec j
    · show (Function.update s.child i _ j).killed = false
      by_cases hj : j = i
      · rw [hj, Function.update_self]
      · rw [Function.update_of_ne hj]
        exact hkeep j hj
    · replace hjk : (Function.update s.child i ⟨pid, true, false⟩ j).pid =
          (Function.update s.child i ⟨pid, true, false⟩ k).pid := hjk
      by_cases hj : j = i
      · by_cases hk : k = i
        · rw [hj, hk]
        · rw [hj, Function.update_self, Function.update_of_ne hk] at hjk
          exact absurd hjk.symm (hfresh k)
      · by_cases hk : k = i
        · rw [hk, Function.update_self, Function.update_of_ne hj] at hjk
          exact absurd hjk (hfresh j)
        · rw [Function.update_of_ne hj, Function.update_of_ne hk] at hjk
          exact h.distinct j k hjk
    · rcases List.mem_cons.mp hc with rfl | hc
      · exact here.2
      · exact h.former c hc
    · show (Function.update s.child i _ i).pid = pid
      rw [Function.update_self]
  | forkFailed i nt b hpc =>
    exact ⟨fun _ hf => hf.elim, fun _ hf => hf.elim, h.distinct, h.past, h.former, trivial⟩
  | setStart i nt b pid hpc =>
    rw [hpc] at here
    refine ⟨fun j _ => ?_, fun j _ => ?_, h.distinct, fun j => ?_, h.former, ?_⟩
    · show (Function.update s.info i _ j).pid = (s.child j).pid
      by_cases hj : j = i
      · rw [hj, Function.update_self]
        exact here.2.symm
      · rw [Function.update_of_ne hj]
        exact h.recorded j (by
          rw [hpc]
          exact hj)
    · exact h.unkilled j (hpc ▸ trivial)
    · exact past_update (r := ⟨s.clock, .CS_IDLE, 0, pid⟩) h.past ⟨le_rfl, le_rfl⟩ j
    · cases b with
      | notExists =>
        refine ⟨here.1, fun _ => ?_⟩
        show heardAt (Function.update s.info i _ i) = s.clock
        rw [Function.update_self]
        rfl
      | silent => exact here.1
  | die i =>
    have hsame : ∀ j, (Function.update s.child i { s.child i with alive := false } j).pid =
          (s.child j).pid ∧
        (Function.update s.child i { s.child i with alive := false } j).killed =
          (s.child j).killed := by
      intro j
      by_cases hj : j = i
      · rw [hj, Function.update_self]
        exact ⟨rfl, rfl⟩
      · rw [Function.update_of_ne hj]
        exact ⟨rfl, rfl⟩
    refine ⟨fun j hj => ?_, fun j hj => ?_, fun j k hjk => ?_, h.past, h.former,
      here.setChild rfl fun _ => rfl⟩
    · exact (h.recorded j hj).trans (hsame j).1.symm
    · exact (hsame j).2.trans (h.unkilled j hj)
    · exact h.distinct j k ((hsame j).1.symm.trans (hjk.trans (hsame k).1))
  | touch i f halive =>
    refine ⟨fun j hj => ?_, h.unkilled, h.distinct, fun j => ?_, h.former, here.touch i f.status⟩
    · exact (pid_touch s.info i f.status s.clock j).trans (h.recorded j hj)
    · exact past_update h.past (past_touch (h.past i).2 f.status) j

/-! ## Restarts -/

/-- The slots that the parent may still restart. -/
def Ahead : Pc n → Fin n → Prop
  | .start, _ => True
  | .processExists i _, j => i ≤ j.val
  | .lastAccess i _ created, j => i < j ∨ i = j ∧ created = false
  | .kill i _ _, j => i < j
  | .sigkill i _ _, j => i < j
  | .create i _ _, j => i < j
  | .setStart i _ _ _, j => i < j
  | .done, _ => False
  | .thrown, _ => False

/-- No slot gets ahead again, and one that is restarted is not ahead after that. -/
theorem Step.ahead (hstep : Step s a s') (j : Fin n) (hj : Ahead s'.pc j) :
    Ahead s.pc j ∧ a ≠ .restart j := by
  have hne : ∀ {i : Fin n}, i < j → Action.restart i ≠ .restart j := by
    intro i hi h
    cases h
    exact lt_irrefl _ hi
  have hparent : Action.parent ≠ .restart j := by
    intro h
    cases h
  cases hstep with
  | start hpc =>
    rw [hpc]
    exact ⟨trivial, hparent⟩
  | done nt hpc => exact hj.elim
  | exists' i nt hpc hex =>
    rw [hpc]
    refine ⟨?_, hparent⟩
    rcases hj with hlt | ⟨rfl, _⟩
    · exact Nat.le_of_lt hlt
    · exact le_rfl
  | notExists i nt hpc hex =>
    rw [hpc]
    exact ⟨Nat.le_of_lt hj, hne hj⟩
  | heard i nt created hpc hle =>
    rw [hpc]
    exact ⟨.inl hj, hparent⟩
  | silent i nt created hpc hlt =>
    rw [hpc]
    exact ⟨.inl hj, hne hj⟩
  | sigterm i nt b hpc =>
    rw [hpc]
    exact ⟨hj, hparent⟩
  | sigkill i nt b hpc =>
    rw [hpc]
    exact ⟨hj, hparent⟩
  | fork i nt b pid hpc hfresh =>
    rw [hpc]
    exact ⟨hj, hparent⟩
  | forkFailed i nt b hpc => exact hj.elim
  | setStart i nt b pid hpc =>
    rw [hpc]
    refine ⟨?_, hparent⟩
    cases b with
    | notExists =>
      rcases hj with hlt | ⟨_, hfalse⟩
      · exact hlt
      · cases hfalse
    | silent => exact hj
  | die i => exact ⟨hj, fun h => by cases h⟩
  | touch i f halive => exact ⟨hj, fun h => by cases h⟩

theorem Step.restart_ahead {i : Fin n} (hstep : Step s (.restart i) s')
    (hc : Careful s (.restart i) s') (h : Inv s) : Ahead s.pc i ∧ s.Justified i := by
  have here := h.here
  cases hstep with
  | notExists _ nt hpc hex =>
    have hi : (s.info i).pid = (s.child i).pid := h.recorded i (hpc ▸ trivial)
    refine ⟨?_, .inl ?_⟩
    · rw [hpc]
      exact le_rfl
    · exact Bool.eq_false_of_not_eq_true fun halive => hex (.inl ⟨i, hi.symm, halive⟩)
  | silent _ nt created hpc hlt =>
    rw [hpc] at here
    obtain ⟨hbegan, hcreated⟩ := here
    have hnotLate : heardAt (s.info i) - nt ≤ MAX_HEAR_TIME := hc i nt created hpc rfl
    have hsilent : MAX_HEAR_TIME < nt - heardAt (s.info i) := by
      rcases lt_abs.mp hlt with hpos | hneg
      · exact hpos
      · omega
    refine ⟨?_, .inr (by omega)⟩
    rw [hpc]
    cases created with
    | false => exact .inr ⟨rfl, rfl⟩
    | true =>
      have hnow : heardAt (s.info i) = s.clock := hcreated rfl
      rw [MAX_HEAR_TIME] at hsilent
      omega

/-- Of the trace: no slot was restarted twice, and none that is ahead. -/
def Counted (tr : List (Action n)) (s : Pass n) : Prop :=
  Inv s ∧ ∀ j, tr.count (.restart j) ≤ 1 ∧ (Ahead s.pc j → tr.count (.restart j) = 0)

theorem Step.counted {tr : List (Action n)} (hstep : Step s a s') (hc : Careful s a s')
    (h : Counted tr s) : Counted (tr ++ [a]) s' := by
  refine ⟨hstep.inv h.1, fun j => ?_⟩
  obtain ⟨hle, hzero⟩ := h.2 j
  rw [List.count_append, List.count_singleton]
  by_cases ha : a = .restart j
  · subst ha
    have hnone := hzero (hstep.restart_ahead hc h.1).1
    rw [hnone, if_pos (beq_self_eq_true _)]
    exact ⟨le_rfl, fun hj => absurd rfl (hstep.ahead j hj).2⟩
  · rw [if_neg (by simpa using ha)]
    exact ⟨hle, fun hj => hzero (hstep.ahead j hj).1⟩

end Pass

open Pass

/-- **A pass restarts only dead or silent children.** In a run whose restarts are careful each
restart is of a child that is dead, or was not heard of for more than `MAX_HEAR_TIME`; no slot is
restarted twice; and when the pass is over, each slot has one child, whose pid is recorded: it was
not killed, and no other process of the slot is left. -/
theorem restarts_justified {n : Nat} (tr : List (Action n)) (s : Pass n)
    (h : ((system n).restrict Careful).Run tr s) :
    (∀ i, tr.count (.restart i) ≤ 1) ∧
      (∀ i s', (system n).step s (.restart i) s' → Careful s (.restart i) s' → s.Justified i) ∧
      (s.pc = .done → ∀ i, (s.info i).pid = (s.child i).pid ∧ (s.child i).killed = false) ∧
      ∀ c ∈ s.former, c.alive = false := by
  have hcounted : Counted tr s := by
    refine h.invariant Counted ?_ ?_
    · intro s hinit
      exact ⟨hinit.inv, fun j => ⟨Nat.zero_le _, fun _ => rfl⟩⟩
    · rintro tr s a s' ih ⟨hstep, hc⟩
      exact hstep.counted hc ih
  obtain ⟨hinv, hcount⟩ := hcounted
  refine ⟨fun i => (hcount i).1, fun i s' hstep hc => (hstep.restart_ahead hc hinv).2, ?_,
    hinv.former⟩
  intro hdone i
  exact ⟨hinv.recorded i (hdone ▸ trivial), hinv.unkilled i (hdone ▸ trivial)⟩

/-- Two slots, one whose child is dead and one whose child was not heard of for too long. -/
def deadAndSilent : Pass 2 where
  clock := 1000
  info i := ⟨10, .CS_IDLE, 0, Int.ofNat i.val⟩
  child i := ⟨Int.ofNat i.val, decide (i.val = 1), false⟩
  former := []
  pc := .start

theorem deadAndSilent_init : Init deadAndSilent where
  pc := rfl
  former := rfl
  recorded _ := rfl
  unkilled _ := rfl
  distinct i j hij := Fin.ext (Int.ofNat.inj hij)
  past _ := ⟨show (10 : Int) ≤ 1000 by decide, show (10 : Int) ≤ 1000 by decide⟩

theorem run_parent {n : Nat} {tr : List (Action n)} {s s' : Pass n}
    (h : ((system n).restrict Careful).Run tr s) (hs : Step s .parent s') :
    ((system n).restrict Careful).Run (tr ++ [.parent]) s' := by
  refine h.step ⟨hs, fun i nt created _ ha => ?_⟩
  cases ha

/-- Both are restarted, and the pass is over. -/
theorem restarts_justified_two : ∃ tr s, ((system 2).restrict Careful).Run tr s ∧
    tr.count (.restart 0) = 1 ∧ tr.count (.restart 1) = 1 ∧ s.pc = .done ∧
    (∀ i, (s.info i).pid = (s.child i).pid ∧ (s.child i).killed = false) ∧
    s.former.length = 2 ∧ ∀ c ∈ s.former, c.alive = false := by
  have h0 : ((system 2).restrict Careful).Run [] deadAndSilent := .init deadAndSilent_init
  have h1 := run_parent h0 (.start _ rfl)
  have hdead : ¬ (deadAndSilent.goto (.processExists 0 1000)).processExists 0 := by
    rintro (⟨i, hpid, halive⟩ | ⟨c, hc, _⟩)
    · obtain rfl : i = 0 := Fin.ext (Int.ofNat.inj hpid)
      cases halive
    · cases hc
  have h2 := h1.step ⟨.notExists _ 0 1000 rfl hdead, fun _ _ _ hpc => by cases hpc⟩
  have h3 := run_parent h2 (.sigterm _ 0 1000 .notExists rfl)
  have h4 := run_parent h3 (.sigkill _ 0 1000 .notExists rfl)
  have h5 := run_parent h4 (.fork _ 0 1000 .notExists 20 rfl (by decide))
  have h6 := run_parent h5 (.setStart _ 0 1000 .notExists 20 rfl)
  have h7 := run_parent h6 (.heard _ 0 1000 true rfl (by decide))
  have h8 := run_parent h7 (.exists' _ 1 1000 rfl (.inl ⟨1, rfl, rfl⟩))
  have h9 := h8.step ⟨.silent _ 1 1000 false rfl (by decide), by
    rintro _ _ _ ⟨⟩ _
    decide⟩
  have h10 := run_parent h9 (.sigterm _ 1 1000 .silent rfl)
  have h11 := run_parent h10 (.sigkill _ 1 1000 .silent rfl)
  have h12 := run_parent h11 (.fork _ 1 1000 .silent 21 rfl (by decide))
  have h13 := run_parent h12 (.setStart _ 1 1000 .silent 21 rfl)
  have h14 := run_parent h13 (.done _ 1000 rfl)
  obtain ⟨_, _, hdone, hformer⟩ := restarts_justified _ _ h14
  exact ⟨_, _, h14, by decide, by decide, rfl, hdone rfl, rfl, hformer⟩

/-! ## Late in a long pass -/

theorem Pass.setInfo_self {n : Nat} (s : Pass n) (i : Fin n) (info : CntlInfo) :
    (s.setInfo i info).info i = info := Function.update_self _ _ _

theorem inv_of_reachable {n : Nat} {s : Pass n} (h : (system n).Reachable s) : Inv s := by
  refine h.invariant Inv ?_ ?_
  · intro s hinit
    exact Init.inv hinit
  · intro s a s' hinv hstep
    exact Step.inv hstep hinv

theorem recreate {n : Nat} {s : Pass n} (h : (system n).Reachable s) {i : Fin n} {nt : Int}
    (hpc : s.pc = .processExists i nt) (hdead : (s.child i).alive = false) :
    ∃ s', (system n).Reachable s' ∧ s'.pc = .lastAccess i nt true ∧ s'.clock = s.clock + 2 ∧
      heardAt (s'.info i) = s'.clock ∧ (s'.child i).alive = true ∧
      ∀ j, j ≠ i → s'.child j = s.child j := by
  have hinv := inv_of_reachable h
  have hi : (s.info i).pid = (s.child i).pid := hinv.recorded i (hpc ▸ trivial)
  have hnone : ¬ s.processExists (s.info i).pid := by
    rintro (⟨j, hj, halive⟩ | ⟨c, hc, _, halive⟩)
    · obtain rfl : j = i := hinv.distinct j i (hj.trans hi)
      rw [hdead] at halive
      cases halive
    · rw [hinv.former c hc] at halive
      cases halive
  have h₁ := h.next (.notExists s i nt hpc hnone)
  have h₂ := h₁.next (.sigterm _ i nt .notExists rfl)
  have h₃ := h₂.next (.sigkill _ i nt .notExists rfl)
  obtain ⟨pid, hpid⟩ := (Set.finite_range fun j => (s.child j).pid).infinite_compl.nonempty
  have hfresh : ∀ j, ((s.killAnyway (s.info i).pid).child j).pid ≠ pid := by
    intro j hj
    refine hpid ⟨j, ?_⟩
    rw [hinv.killAnyway_child hi] at hj
    split at hj
    · next hji => rw [hji, ← hj]
    · exact hj
  have h₄ := h₃.next (.fork _ i nt .notExists pid rfl hfresh)
  have h₅ := h₄.next (.setStart _ i nt .notExists pid rfl)
  refine ⟨_, h₅, rfl, rfl, ?_, ?_, fun j hj => ?_⟩
  · exact (congrArg heardAt (setInfo_self _ i _)).trans rfl
  · show (Function.update (s.killAnyway (s.info i).pid).child i ⟨pid, true, false⟩ i).alive = true
    rw [Function.update_self]
  · show Function.update (s.killAnyway (s.info i).pid).child i _ j = s.child j
    rw [Function.update_of_ne hj, hinv.killAnyway_child hi, if_neg hj]

/-- Sixteen slots whose children are dead. -/
def allDead : Pass 16 where
  clock := 100
  info i := ⟨0, .CS_IDLE, 0, i⟩
  child i := ⟨i, false, false⟩
  former := []
  pc := .start

theorem allDead_init : Init allDead where
  pc := rfl
  former := rfl
  recorded _ := rfl
  unkilled _ := rfl
  distinct i j hij := Fin.ext (Int.ofNat.inj hij)
  past _ := ⟨show (0 : Int) ≤ 100 by decide, show (0 : Int) ≤ 100 by decide⟩

/-- The first fifteen are replaced in time. -/
theorem replaced (k : Nat) (hk : k ≤ 15) :
    ∃ s, (system 16).Reachable s ∧ s.pc = .processExists k 100 ∧ s.clock = 100 + 2 * k ∧
      ∀ j : Fin 16, k ≤ j.val → (s.child j).alive = false := by
  induction k with
  | zero =>
    have h₀ : (system 16).Reachable allDead := .of_init allDead_init
    exact ⟨_, h₀.next (.start _ rfl), rfl, rfl, fun _ _ => rfl⟩
  | succ k ih =>
    obtain ⟨s, h, hpc, hclock, hdead⟩ := ih (by omega)
    let i : Fin 16 := ⟨k, by omega⟩
    obtain ⟨s', h', hpc', hclock', hheard, _, hothers⟩ :=
      recreate h (i := i) hpc (hdead i le_rfl)
    have hle : |100 - heardAt (s'.info i)| ≤ MAX_HEAR_TIME := by
      rw [hheard, hclock', hclock, abs_le, MAX_HEAR_TIME]
      omega
    refine ⟨_, h'.next (.heard s' i 100 true hpc' hle), rfl, ?_, fun j hj => ?_⟩
    · show s'.clock = _
      rw [hclock', hclock]
      omega
    · have hne : j ≠ i := by
        rintro rfl
        exact absurd hj (Nat.not_succ_le_self k)
      show (s'.child j).alive = false
      rw [hothers j hne]
      exact hdead j (Nat.le_of_succ_le hj)

/-- The sixteenth is restarted as soon as it was created, alive. -/
theorem new_child_restarted :
    ∃ (s s' : Pass 16) (i : Fin 16), (system 16).Reachable s ∧
      (system 16).step s (.restart i) s' ∧ (s.child i).alive = true ∧
      heardAt (s.info i) = s.clock := by
  obtain ⟨s, h, hpc, hclock, hdead⟩ := replaced 15 le_rfl
  obtain ⟨s', h', hpc', hclock', hheard, halive, _⟩ := recreate h (i := 15) hpc (hdead 15 le_rfl)
  have hlt : MAX_HEAR_TIME < |100 - heardAt (s'.info 15)| := by
    rw [hheard, hclock', hclock, lt_abs, MAX_HEAR_TIME]
    omega
  exact ⟨s', _, 15, h', .silent s' 15 100 true hpc' hlt, halive, hheard⟩

end TouchPass
end Process
end Huicpp
