import Mathlib
import Huicpp.Cxx.TransitionSystem
import Huicpp.Scheduler.TriggerSet

/-!
# Scheduler.TriggerPasses

The calls of a `TriggerSet` and the passes of `TriggeUpAll` over it. A callable has the number of the
`CreateTrigger` that it came with. While it executes it may create and remove triggers, itself
included, and it may throw, which ends the pass.

* `Careful`: no empty callable is put into a free slot, no callable removes its own trigger, and
  none throws before the last one of the pass.
* `triggers_kept`: in runs of careful steps every trigger keeps its id and its slot, and each pass
  invokes it once; after another step this is not so any more.
-/

namespace Huicpp
namespace Scheduler
namespace TriggerPasses

open Cxx

/-- Where `TriggeUpAll` is. -/
inductive Pc where
  | outside
  /-- It comes to slot `i`. -/
  | turn (i : Nat)
  | calling (i : Fin max_trigger_count) (trigger : Nat)
  deriving DecidableEq, Repr

namespace Pc

/-- So many slots have had their turn. -/
def reached : Pc → Nat
  | outside => max_trigger_count
  | turn i => i
  | calling i _ => i.val + 1

def executing : Pc → Option Nat
  | calling _ trigger => some trigger
  | _ => none

/-- Calls are made from outside, or by the callable that executes. -/
def MayCall : Pc → Prop
  | turn _ => False
  | _ => True

end Pc

/-- A `CreateTrigger` that has returned an id. -/
structure Creation where
  trigger : Nat
  tid : Int
  deriving DecidableEq, Repr

structure Invocation where
  trigger : Nat
  /-- It had not been removed. -/
  registered : Bool
  deriving DecidableEq, Repr

structure State where
  set : TriggerSet Nat
  pc : Pc
  created : Nat
  /-- Creations that no `RemoveTrigger` has removed. -/
  live : List Creation
  /-- Those at the beginning of the pass, but for the ones that were removed before their turn. -/
  due : List Creation
  /-- In the pass -/
  invoked : List Invocation
  /-- A callable was destroyed or moved while it was executing. -/
  harmed : Bool

namespace State

def init : State := ⟨.new, .outside, 0, [], [], [], false⟩

/-- The callable that executes does not stay in its slot. -/
def harms (s : State) (set : TriggerSet Nat) : Bool :=
  s.pc.executing.any fun n => decide (∃ i, s.set.m_triggers i = some n ∧ set.m_triggers i ≠ some n)

def edit (s : State) (set : TriggerSet Nat) : State :=
  { s with set := set, harmed := s.harmed || s.harms set }

/-- `CreateTrigger` with a callable, or with an empty one. -/
def create (s : State) (callable : Bool) : State :=
  let (tid, set) := s.set.createTrigger (if callable then some s.created else none)
  { s.edit set with
    created := s.created + 1
    live := if tid = -1 then s.live else ⟨s.created, tid⟩ :: s.live }

/-- `RemoveTrigger` -/
def remove (s : State) (tid : Int) : State :=
  { s.edit (s.set.removeTrigger tid) with
    live := s.live.filter fun c => c.tid ≠ tid
    due := s.due.filter fun c => ¬ (c.tid = tid ∧ s.pc.reached ≤ c.tid) }

/-- The call of `m_triggers[i]`. -/
def call (s : State) (i : Fin max_trigger_count) (n : Nat) : State :=
  { s with
    pc := .calling i n
    invoked := ⟨n, decide (n ∈ s.live.map Creation.trigger)⟩ :: s.invoked }

end State

inductive Event where
  | create (callable : Bool)
  | remove (tid : Int)
  | passBegins
  | turn
  | returns
  | throws
  | passEnds
  deriving DecidableEq, Repr

inductive Step : State → Event → State → Prop where
  | create (s : State) (callable : Bool) : s.pc.MayCall → Step s (.create callable) (s.create callable)
  | remove (s : State) (tid : Int) : s.pc.MayCall → Step s (.remove tid) (s.remove tid)
  | passBegins (s : State) : s.pc = .outside →
      Step s .passBegins { s with pc := .turn 0, due := s.live, invoked := [] }
  | skip (s : State) (i : Fin max_trigger_count) : s.pc = .turn i.val → s.set.m_triggers i = none →
      Step s .turn { s with pc := .turn (i.val + 1) }
  | call (s : State) (i : Fin max_trigger_count) (n : Nat) : s.pc = .turn i.val →
      s.set.m_triggers i = some n → Step s .turn (s.call i n)
  | returns (s : State) (i : Fin max_trigger_count) (n : Nat) : s.pc = .calling i n →
      Step s .returns { s with pc := .turn (i.val + 1) }
  | throws (s : State) (i : Fin max_trigger_count) (n : Nat) : s.pc = .calling i n →
      Step s .throws { s with pc := .outside }
  | passEnds (s : State) : s.pc = .turn max_trigger_count → Step s .passEnds { s with pc := .outside }

/-- Every sequence of calls and passes, from the constructor on -/
def system : TransitionSystem State Event where
  init s := s = .init
  step := Step

/-- The triggers that the pass has invoked. -/
def State.called (s : State) : List Nat := s.invoked.map Invocation.trigger

/-- Triggers keep their ids and slots. Behind a pass each one that was registered before it, and not
removed before its turn, has been invoked. -/
structure Kept (s : State) : Prop where
  distinct : (s.live.map Creation.tid).Nodup
  removal : ∀ tid, ∀ c ∈ s.live, (s.set.removeTrigger tid).Holds c.tid c.trigger ↔ c.tid ≠ tid
  once : s.called.Nodup
  all : s.pc = .outside → ∀ c ∈ s.due, c.trigger ∈ s.called
  registered : ∀ x ∈ s.invoked, x.registered = true
  unharmed : s.harmed = false

/-- The condition on a step. -/
def Careful (s : State) (e : Event) (_ : State) : Prop :=
  match e with
  | .create callable => callable = true ∨ s.set.Full
  | .remove tid => ∀ i n, s.pc = .calling i n → tid ≠ i.val
  | .throws => ∀ c ∈ s.due, c.tid < s.pc.reached
  | _ => True

/-! ## Invariant -/

/-- The slots hold the triggers that have not been removed. `waiting`: behind the slot that the pass has
come to, nothing has been invoked. -/
structure Inv (s : State) : Prop where
  holds : ∀ c, c ∈ s.live ↔ s.set.Holds c.tid c.trigger
  distinct : (s.live.map Creation.tid).Nodup
  fresh : ∀ i n, s.set.m_triggers i = some n → n < s.created
  inj : ∀ i j n, s.set.m_triggers i = some n → s.set.m_triggers j = some n → i = j
  executing : ∀ i n, s.pc = .calling i n → s.set.m_triggers i = some n
  old : ∀ n ∈ s.called, n < s.created
  once : s.called.Nodup
  waiting : ∀ i n, s.pc.reached ≤ i.val → s.set.m_triggers i = some n → n ∉ s.called
  ahead : ∀ c ∈ s.due, s.pc.reached ≤ c.tid → c ∈ s.live
  behind : ∀ c ∈ s.due, c.tid < s.pc.reached → c.trigger ∈ s.called
  registered : ∀ x ∈ s.invoked, x.registered = true
  unharmed : s.harmed = false

variable {s s' : State} {e : Event} {i : Fin max_trigger_count} {n : Nat}

namespace State

theorem create_free (hfree : s.set.firstFree = some i) (callable : Bool) : s.create callable =
    ⟨s.set.put i (if callable then some s.created else none), s.pc, s.created + 1,
      ⟨s.created, i.val⟩ :: s.live, s.due, s.invoked,
      s.harmed || s.harms (s.set.put i (if callable then some s.created else none))⟩ := by
  have hid : ¬ (i.val : Int) = -1 := by omega
  rw [create, TriggerSet.createTrigger_free hfree]
  dsimp only
  rw [if_neg hid]
  rfl

theorem create_full (hfull : s.set.Full) (callable : Bool) : s.create callable =
    ⟨s.set, s.pc, s.created + 1, s.live, s.due, s.invoked, s.harmed || s.harms s.set⟩ := by
  rw [create, TriggerSet.createTrigger_full hfull]
  dsimp only
  rw [if_pos rfl]
  rfl

end State

namespace Inv

theorem mem_live (h : Inv s) (hi : s.set.m_triggers i = some n) : ⟨n, i.val⟩ ∈ s.live :=
  (h.holds ⟨n, i.val⟩).mpr (TriggerSet.holds_val.mpr hi)

theorem invoked_of_due (h : Inv s) (hpc : s.pc = .outside) {c : Creation} (hc : c ∈ s.due) :
    c.trigger ∈ s.called := by
  by_cases hlt : c.tid < s.pc.reached
  · exact h.behind c hc hlt
  · have hlive := h.ahead c hc (not_lt.mp hlt)
    have hrange := ((h.holds c).mp hlive).range
    rw [hpc] at hlt
    exact absurd hrange.2 hlt

theorem kept (h : Inv s) : Kept s where
  distinct := h.distinct
  removal tid c hc := by
    rw [TriggerSet.holds_removeTrigger_iff]
    exact and_iff_right ((h.holds c).mp hc)
  once := h.once
  all hpc _ hc := h.invoked_of_due hpc hc
  registered := h.registered
  unharmed := h.unharmed

theorem init : Inv .init where
  holds c := by
    refine iff_of_false List.not_mem_nil ?_
    rintro ⟨i, -, hi⟩
    cases hi
  distinct := List.nodup_nil
  fresh i n hi := by cases hi
  inj i j n hi := by cases hi
  executing i n hpc := by cases hpc
  old n hn := absurd hn List.not_mem_nil
  once := List.nodup_nil
  waiting _ _ _ _ := List.not_mem_nil
  ahead c hc := absurd hc List.not_mem_nil
  behind c hc := absurd hc List.not_mem_nil
  registered x hx := absurd hx List.not_mem_nil
  unharmed := rfl

/-! ### The pass -/

theorem passBegins (h : Inv s) : Inv { s with pc := .turn 0, due := s.live, invoked := [] } where
  holds := h.holds
  distinct := h.distinct
  fresh := h.fresh
  inj := h.inj
  executing i n hpc := by cases hpc
  old n hn := absurd hn List.not_mem_nil
  once := List.nodup_nil
  waiting _ _ _ _ := List.not_mem_nil
  ahead c hc _ := hc
  behind c hc hlt := by
    have hrange := ((h.holds c).mp hc).range
    exact absurd hrange.1 (not_le.mpr hlt)
  registered x hx := absurd hx List.not_mem_nil
  unharmed := h.unharmed

theorem moveTo (h : Inv s) {pc : Pc} (hexec : pc.executing = none) (hle : s.pc.reached ≤ pc.reached)
    (hbehind : ∀ c ∈ s.due, c.tid < pc.reached → c.trigger ∈ s.called) : Inv { s with pc := pc } where
  holds := h.holds
  distinct := h.distinct
  fresh := h.fresh
  inj := h.inj
  executing i n hpc := by
    have hpc : pc = .calling i n := hpc
    rw [hpc] at hexec
    cases hexec
  old := h.old
  once := h.once
  waiting i n hi := h.waiting i n (hle.trans hi)
  ahead c hc hlt := h.ahead c hc ((Int.ofNat_le.mpr hle).trans hlt)
  behind := hbehind
  registered := h.registered
  unharmed := h.unharmed

theorem goOn (h : Inv s) {pc : Pc} (hexec : pc.executing = none)
    (hsame : s.pc.reached = pc.reached) : Inv { s with pc := pc } :=
  h.moveTo hexec hsame.le fun c hc hlt => h.behind c hc (hsame ▸ hlt)

theorem skip (h : Inv s) (hpc : s.pc = .turn i.val) (hi : s.set.m_triggers i = none) :
    Inv { s with pc := .turn (i.val + 1) } := by
  have hreached : s.pc.reached = i.val := by rw [hpc, Pc.reached]
  refine h.moveTo rfl (hreached ▸ Nat.le_succ i.val) fun c hc hlt => ?_
  have hlt : c.tid < i.val + 1 := hlt
  by_cases hold : c.tid < s.pc.reached
  · exact h.behind c hc hold
  · -- the trigger of this slot would still be there
    have hlive := h.ahead c hc (not_lt.mp hold)
    obtain ⟨j, hj, hslot⟩ := (h.holds c).mp hlive
    rw [hreached] at hold
    obtain rfl : j = i := Fin.ext (by omega)
    rw [hi] at hslot
    cases hslot

theorem call (h : Inv s) (hpc : s.pc = .turn i.val) (hi : s.set.m_triggers i = some n) :
    Inv (s.call i n) := by
  have hreached : s.pc.reached = i.val := by rw [hpc, Pc.reached]
  have hnew : n ∉ s.called := h.waiting i n hreached.le hi
  refine ⟨h.holds, h.distinct, h.fresh, h.inj, ?_, ?_, ?_, ?_, ?_, ?_, ?_, h.unharmed⟩
  · intro j m hj
    cases hj
    exact hi
  · intro m hm
    rcases List.mem_cons.mp hm with rfl | hm
    · exact h.fresh i _ hi
    · exact h.old m hm
  · exact List.nodup_cons.mpr ⟨hnew, h.once⟩
  · intro j m hj hslot hm
    have hj : i.val + 1 ≤ j.val := hj
    rcases List.mem_cons.mp hm with rfl | hm
    · have heq := h.inj i j _ hi hslot
      omega
    · exact h.waiting j m (by omega) hslot hm
  · intro c hc hle
    have hle : ((i.val + 1 : Nat) : Int) ≤ c.tid := hle
    exact h.ahead c hc (by omega)
  · intro c hc hlt
    have hlt : c.tid < ((i.val + 1 : Nat) : Int) := hlt
    by_cases hold : c.tid < s.pc.reached
    · exact List.mem_cons_of_mem _ (h.behind c hc hold)
    · -- it is the trigger of this slot
      obtain ⟨j, hj, hslot⟩ := (h.holds c).mp (h.ahead c hc (not_lt.mp hold))
      obtain rfl : j = i := Fin.ext (by omega)
      rw [hi] at hslot
      exact List.mem_cons.mpr (.inl (Option.some.inj hslot).symm)
  · intro x hx
    rcases List.mem_cons.mp hx with rfl | hx
    · exact decide_eq_true (List.mem_map_of_mem (h.mem_live hi))
    · exact h.registered x hx

/-! ### Calls -/

theorem unharmed_edit (h : Inv s) {set : TriggerSet Nat}
    (hkept : ∀ i n, s.pc = .calling i n → set.m_triggers i = some n) :
    (s.harmed || s.harms set) = false := by
  rw [h.unharmed, Bool.false_or, State.harms]
  cases hpc : s.pc with
  | outside => rfl
  | turn i => rfl
  | calling i n =>
    rw [Pc.executing, Option.any_some, decide_eq_false_iff_not]
    rintro ⟨j, hj, hne⟩
    obtain rfl : j = i := h.inj j i n hj (h.executing i n hpc)
    exact hne (hkept j n hpc)

theorem create_free (h : Inv s) (hfree : s.set.firstFree = some i) : Inv (s.create true) := by
  have hnone := TriggerSet.firstFree_some hfree
  have hother : ∀ j m, s.set.m_triggers j = some m → j ≠ i := by
    rintro j m hj rfl
    rw [hnone] at hj
    cases hj
  -- a slot of the new set holds the new callable, or the one that it held before
  have hslot : ∀ j m, (s.set.put i (some s.created)).m_triggers j = some m →
      j = i ∧ m = s.created ∨ s.set.m_triggers j = some m := by
    intro j m hj
    by_cases hji : j = i
    · rw [hji, TriggerSet.put_self] at hj
      exact .inl ⟨hji, (Option.some.inj hj).symm⟩
    · rw [TriggerSet.put_of_ne hji] at hj
      exact .inr hj
  have hsame : ∀ j m, s.set.m_triggers j = some m →
      (s.set.put i (some s.created)).m_triggers j = some m :=
    fun j m hj => (TriggerSet.put_of_ne (hother j m hj)).trans hj
  rw [State.create_free hfree]
  refine ⟨fun c => ?_, ?_, ?_, ?_, ?_, ?_, h.once, ?_, ?_, h.behind, h.registered, ?_⟩
  · rw [List.mem_cons, h.holds c]
    refine Iff.trans ?_ (TriggerSet.holds_put_iff hnone).symm
    refine or_congr ?_ Iff.rfl
    constructor
    · rintro rfl
      exact ⟨rfl, rfl⟩
    · rintro ⟨htid, htrigger⟩
      rw [← htid, ← htrigger]
  · refine List.nodup_cons.mpr ⟨?_, h.distinct⟩
    intro hmem
    obtain ⟨c, hc, htid⟩ := List.mem_map.mp hmem
    obtain ⟨j, hj, hholds⟩ := (h.holds c).mp hc
    exact hother j _ hholds (Fin.ext (Int.ofNat.inj (hj.symm.trans htid)))
  · intro j m hj
    rcases hslot j m hj with ⟨-, rfl⟩ | hj
    · exact Nat.lt_succ_self _
    · exact (h.fresh j m hj).trans (Nat.lt_succ_self _)
  · intro j k m hj hk
    rcases hslot j m hj with ⟨hji, hm⟩ | hj'
    · rcases hslot k m hk with ⟨hki, -⟩ | hk'
      · exact hji.trans hki.symm
      · exact absurd hm (h.fresh k m hk').ne
    · rcases hslot k m hk with ⟨-, hm⟩ | hk'
      · exact absurd hm (h.fresh j m hj').ne
      · exact h.inj j k m hj' hk'
  · intro j m hpc
    exact hsame j m (h.executing j m hpc)
  · intro m hm
    exact (h.old m hm).trans (Nat.lt_succ_self _)
  · intro j m hj hm hmem
    rcases hslot j m hm with ⟨-, rfl⟩ | hm
    · exact absurd (h.old _ hmem) (lt_irrefl _)
    · exact h.waiting j m hj hm hmem
  · intro c hc hle
    exact List.mem_cons_of_mem _ (h.ahead c hc hle)
  · exact h.unharmed_edit fun j m hpc => hsame j m (h.executing j m hpc)

theorem create_full (h : Inv s) (hfull : s.set.Full) (callable : Bool) : Inv (s.create callable) := by
  rw [State.create_full hfull]
  refine ⟨h.holds, h.distinct, ?_, h.inj, h.executing, ?_, h.once, h.waiting, h.ahead, h.behind,
    h.registered, h.unharmed_edit h.executing⟩
  · intro j m hj
    exact (h.fresh j m hj).trans (Nat.lt_succ_self _)
  · intro m hm
    exact (h.old m hm).trans (Nat.lt_succ_self _)

theorem create (h : Inv s) {callable : Bool} (hc : callable = true ∨ s.set.Full) :
    Inv (s.create callable) := by
  cases hfree : s.set.firstFree with
  | none => exact h.create_full (TriggerSet.firstFree_none_iff.mp hfree) callable
  | some i =>
    rcases hc with rfl | hfull
    · exact h.create_free hfree
    · exact absurd (TriggerSet.firstFree_some hfree) (hfull i)

theorem remove (h : Inv s) {tid : Int} (hc : ∀ i n, s.pc = .calling i n → tid ≠ i.val) :
    Inv (s.remove tid) := by
  -- what the new set holds, the old one held
  have hslot : ∀ j m, (s.set.removeTrigger tid).m_triggers j = some m →
      s.set.m_triggers j = some m := by
    intro j m hj
    rw [TriggerSet.removeTrigger_apply] at hj
    split at hj
    · cases hj
    · exact hj
  have hexec : ∀ j m, s.pc = .calling j m → (s.set.removeTrigger tid).m_triggers j = some m := by
    intro j m hpc
    rw [TriggerSet.removeTrigger_apply, if_neg (hc j m hpc).symm]
    exact h.executing j m hpc
  refine ⟨fun c => ?_, ?_, ?_, ?_, hexec, h.old, h.once, ?_, ?_, ?_, h.registered,
    h.unharmed_edit hexec⟩
  · refine Iff.trans ?_ TriggerSet.holds_removeTrigger_iff.symm
    rw [← h.holds c]
    exact List.mem_filter.trans (and_congr_right fun _ => decide_eq_true_iff)
  · exact h.distinct.sublist (List.filter_sublist.map _)
  · intro j m hj
    exact h.fresh j m (hslot j m hj)
  · intro j k m hj hk
    exact h.inj j k m (hslot j m hj) (hslot k m hk)
  · intro j m hj hm
    exact h.waiting j m hj (hslot j m hm)
  · intro c hc hle
    obtain ⟨hdue, hkept⟩ := List.mem_filter.mp hc
    have hne : c.tid ≠ tid := fun htid => of_decide_eq_true hkept ⟨htid, hle⟩
    exact List.mem_filter.mpr ⟨h.ahead c hdue hle, decide_eq_true hne⟩
  · intro c hc hlt
    exact h.behind c (List.mem_filter.mp hc).1 hlt

end Inv

theorem Step.inv (h : Step s e s') (hc : Careful s e s') (hi : Inv s) : Inv s' := by
  cases h with
  | create callable _ => exact hi.create hc
  | remove tid _ => exact hi.remove hc
  | passBegins _ => exact hi.passBegins
  | skip i hpc hnone => exact hi.skip hpc hnone
  | call i n hpc hsome => exact hi.call hpc hsome
  | returns i n hpc => exact hi.goOn rfl (by rw [hpc, Pc.reached, Pc.reached])
  | throws i n hpc =>
    have hreached : s.pc.reached = i.val + 1 := by rw [hpc, Pc.reached]
    exact hi.moveTo rfl (hreached ▸ i.isLt) fun c hdue _ => hi.behind c hdue (hc c hdue)
  | passEnds hpc => exact hi.goOn rfl (by rw [hpc, Pc.reached, Pc.reached])

/-! ## Steps that are not careful -/

/-- The id of an empty callable is given out again, a callable that removes its own trigger is
destroyed, and one that throws leaves triggers behind that were due. -/
theorem Step.breaks (h : Step s e s') (hc : ¬ Careful s e s') (hi : Inv s) :
    ∃ s'', (s'' = s' ∨ Step s' (.create true) s'') ∧ ¬ Kept s'' := by
  cases h with
  | passBegins | skip | call | returns | passEnds => exact absurd trivial hc
  | create callable hmay =>
    obtain ⟨hempty, hroom⟩ := not_or.mp hc
    obtain rfl : callable = false := Bool.eq_false_of_not_eq_true hempty
    obtain ⟨i, hfree⟩ := Option.ne_none_iff_exists'.mp (mt TriggerSet.firstFree_none_iff.mp hroom)
    have hset : s.set.put i none = s.set := TriggerSet.put_none (TriggerSet.firstFree_some hfree)
    have hcreate := State.create_free hfree false
    rw [if_neg Bool.false_ne_true, hset] at hcreate
    have hagain : (s.create false).set.firstFree = some i := by
      rw [hcreate]
      exact hfree
    have hlive : (s.create false).live = ⟨s.created, i.val⟩ :: s.live := by rw [hcreate]
    refine ⟨_, .inr (.create _ true hmay), fun hkept => ?_⟩
    have hdistinct := hkept.distinct
    rw [State.create_free hagain true, hlive] at hdistinct
    exact (List.nodup_cons.mp hdistinct).1 List.mem_cons_self
  | remove tid _ =>
    refine ⟨_, .inl rfl, fun hkept => ?_⟩
    obtain ⟨i, hbad⟩ := not_forall.mp hc
    obtain ⟨n, hbad⟩ := not_forall.mp hbad
    obtain ⟨hpc, hself⟩ := Classical.not_imp.mp hbad
    have hgone : (s.set.removeTrigger tid).m_triggers i = none := by
      rw [TriggerSet.removeTrigger_apply, if_pos (not_not.mp hself).symm]
    have hharms : s.harms (s.set.removeTrigger tid) = true := by
      rw [State.harms, hpc, Pc.executing, Option.any_some, decide_eq_true_iff]
      refine ⟨i, hi.executing i n hpc, ?_⟩
      rw [hgone]
      exact Option.some_ne_none n ∘ Eq.symm
    have hunharmed : (s.harmed || s.harms (s.set.removeTrigger tid)) = false := hkept.unharmed
    rw [hharms, Bool.or_true] at hunharmed
    cases hunharmed
  | throws i n _ =>
    refine ⟨_, .inl rfl, fun hkept => ?_⟩
    obtain ⟨c, hbad⟩ := not_forall.mp hc
    obtain ⟨hdue, hlate⟩ := Classical.not_imp.mp hbad
    have hahead : s.pc.reached ≤ c.tid := not_lt.mp hlate
    obtain ⟨j, hj, hslot⟩ := (hi.holds c).mp (hi.ahead c hdue hahead)
    exact hi.waiting j c.trigger (by omega) hslot (hkept.all rfl c hdue)

/-- **Triggers keep their identity.** In a run of careful steps the ids of the triggers that are not
removed are distinct, a removal takes the trigger of its id and no other, a pass invokes what was
registered before it once and nothing that is removed, and no callable is destroyed while it
executes. A step that is not careful ends this, at once or with the next `CreateTrigger`. -/
theorem triggers_kept (h : (system.restrict Careful).Reachable s) :
    Kept s ∧ ∀ e s', Step s e s' → ¬ Careful s e s' →
      ∃ s'', (s'' = s' ∨ Step s' (.create true) s'') ∧ ¬ Kept s'' := by
  have hi : Inv s := by
    refine h.invariant Inv ?_ ?_
    · rintro s rfl
      exact .init
    · rintro s e s' hi ⟨hstep, hc⟩
      exact hstep.inv hc hi
  exact ⟨hi.kept, fun e s' hstep hc => hstep.breaks hc hi⟩

theorem skip_rest (h : (system.restrict Careful).Reachable s) {i k : Nat} (hpc : s.pc = .turn i)
    (hk : i + k = max_trigger_count)
    (hfree : ∀ j : Fin max_trigger_count, i ≤ j.val → s.set.m_triggers j = none) :
    (system.restrict Careful).Reachable { s with pc := .turn max_trigger_count } := by
  induction k generalizing s i with
  | zero =>
    obtain rfl : i = max_trigger_count := hk
    rw [← hpc]
    exact h
  | succ k ih =>
    have hlt : i < max_trigger_count := by omega
    have hnext := h.next ⟨.skip s ⟨i, hlt⟩ hpc (hfree _ le_rfl), trivial⟩
    have hrest := ih hnext rfl (by show i + 1 + k = _; omega) fun j hj => hfree j (Nat.le_of_succ_le hj)
    exact hrest

/-- Of two triggers the first removes the second, and creates one that gets its id and its turn. -/
theorem triggers_kept_pass : ∃ s, s.pc = .outside ∧ s.live = [⟨2, 1⟩, ⟨0, 0⟩] ∧
    s.called = [2, 0] ∧ Kept s := by
  have h0 : (system.restrict Careful).Reachable .init := .of_init rfl
  have h1 := h0.next ⟨.create _ true trivial, .inl rfl⟩
  have h2 := h1.next ⟨.create _ true trivial, .inl rfl⟩
  have h3 := h2.next ⟨.passBegins _ rfl, trivial⟩
  have h4 := h3.next ⟨.call _ ⟨0, by decide⟩ 0 rfl rfl, trivial⟩
  have h5 := h4.next ⟨.remove _ 1 trivial, by rintro _ _ ⟨⟩; decide⟩
  have h6 := h5.next ⟨.create _ true trivial, .inl rfl⟩
  have h7 := h6.next ⟨.returns _ ⟨0, by decide⟩ 0 rfl, trivial⟩
  have h8 := h7.next ⟨.call _ ⟨1, by decide⟩ 2 rfl rfl, trivial⟩
  have h9 := h8.next ⟨.returns _ ⟨1, by decide⟩ 2 rfl, trivial⟩
  have h10 := skip_rest (k := 126) h9 rfl rfl (by decide)
  have h11 := h10.next ⟨.passEnds _ rfl, trivial⟩
  exact ⟨_, rfl, rfl, rfl, (triggers_kept h11).1⟩

/-- Two empty callables get the id 0. -/
theorem empty_triggers_share_id : ¬ ∀ s, system.Reachable s → Kept s := by
  intro hall
  have hfirst : Step .init (.create false) (State.init.create false) := .create _ _ trivial
  have hsecond : Step (State.init.create false) (.create false) _ := .create _ _ trivial
  have hkept := hall _ (((TransitionSystem.Reachable.of_init rfl).next hfirst).next hsecond)
  exact absurd hkept.distinct (by decide)

end TriggerPasses
end Scheduler
end Huicpp
