import Mathlib
import Huicpp.Scheduler.TimerQueue

/-!
# Scheduler.Timers

What every run of a delay queue shows (`timer_queue`): the differences add up to the waiting times,
the entries are in the order in which they are due, handlers are called at most once, not early and
in that order, and nothing is due when `HandleAlarm` returns.

`TimeToNextAlarm` answers exactly how long the head has to wait. For a head that is overdue this is
zero, and so more than `due - time` (`overdue_head`).
-/

namespace Huicpp
namespace Scheduler

open Cxx Cxx.Prog

namespace State

/-- What is to hold in a state of a run. -/
structure Correct (s : State) : Prop where
  /-- The queue holds the pending entries, in order. -/
  entries : ∃ l, IsRing s.queue.next s.queue.prev this l ∧ (∀ e, e ∈ l ↔ s.pending e ≠ none) ∧
    s.Ordered l ∧ ∀ l₁ e l₂ t, l = l₁ ++ e :: l₂ → s.pending e = some t →
      ((l₁ ++ [e]).map s.queue.gap).sum = max 0 (t.due - s.time)
  once : (s.handled.map Alarm.entry).Nodup
  not_early : ∀ a ∈ s.handled, ∃ t, a.timer = some t ∧ t.due ≤ a.time
  in_order : s.handled.Pairwise
    fun a b => ∀ t u, a.timer = some t → b.timer = some u → t.due ≤ u.due
  none_due : ∀ s', Step s .handleAlarmReturns s' →
    ∀ e t, s'.pending e = some t → s'.time < t.due
  answer : ∀ now r s', Step s (.timeToNextAlarm now r) s' →
    ∀ e t, s'.queue.next this = some e → s'.pending e = some t → r.micros = max 0 (t.due - s'.time)

variable {s : State} {l : List Ptr}

theorem Inv.sum (h : Inv s l) {l₁ l₂ : List Ptr} {e : Ptr} {t : Timer} (hl : l = l₁ ++ e :: l₂)
    (ht : s.pending e = some t) :
    ((l₁ ++ [e]).map s.queue.gap).sum = max 0 (t.due - s.time) := by
  have hs := h.repr.stored
  have hsplit : l ++ [this] = (l₁ ++ [e]) ++ (l₂ ++ [this]) := by simp [hl]
  rw [hsplit, stored_append] at hs
  rw [hs.1.sum, sub_zero, remaining_some ht]

theorem Inv.next_this (h : Inv s l) : s.queue.next this = some (l.headD this) := by
  have hch : List.IsChain (Linked s.queue.next s.queue.prev) (this :: (l ++ this :: [])) :=
    h.repr.ring.chain
  exact next_of_isChain hch

theorem Inv.correct (h : Inv s l) : s.Correct where
  entries := ⟨l, h.repr.ring, h.mem, h.ordered, fun _ _ _ _ hl ht => h.sum hl ht⟩
  once := h.handled.nodup
  not_early a ha := by
    obtain ⟨t, ht, hdue, _⟩ := h.handled.due a ha
    exact ⟨t, ht, hdue⟩
  in_order := h.handled.sorted
  none_due s' hs := by
    cases hs with
    | handleAlarmReturns q _ hret =>
      obtain ⟨rfl, hdue⟩ := h.nextAlarm_none hret
      rw [advance_same rfl]
      exact hdue
  answer now r s' hs e t he ht := by
    cases hs with
    | timeToNextAlarm now r q _ hc hret =>
      obtain ⟨r', q', hret', hinv, hr⟩ := h.timeToNextAlarm hc
      cases hret.unique hret'
      have hhead : l.headD this = e := Option.some.inj (hinv.next_this.symm.trans he)
      rw [hr, hhead, remaining_some ht]

/-- No call hangs, or follows a null pointer. -/
structure Returning (s : State) : Prop where
  addEntry : ∀ e now, s.Live e → s.pending e = none → s.ClockOk now →
    s.DelayOk now (s.queue.deltaTimeRemaining e) → ∃ q, Returns (s.queue.addEntry now e) q
  updateEntry : ∀ e now delay, s.Live e → s.ClockOk now → s.DelayOk now delay →
    ∃ q, Returns (s.queue.updateEntry now (some e) delay) q
  removeEntry : ∀ e, s.Live e → ∃ q, Returns (s.queue.removeEntry (some e)) q
  timeToNextAlarm : ∀ now, s.ClockOk now → ∃ r q, Returns (s.queue.timeToNextAlarm now) (r, q)
  beginAlarm : ∀ now, s.ClockOk now → ∃ q, Returns (s.queue.beginAlarm now) q
  nextAlarm : ∃ e q, Returns s.queue.nextAlarm (e, q)

theorem Inv.exists_nextAlarm (h : Inv s l) : ∃ e q, Returns s.queue.nextAlarm (e, q) := by
  by_cases hz : s.remaining (l.headD this) = 0
  · cases l with
    | nil => exact absurd hz h.remaining_this_pos.ne'
    | cons e l =>
      obtain ⟨q, hret, _⟩ := DelayQueue.nextAlarm_some h.repr h.remaining_this_le hz
      exact ⟨_, _, hret⟩
  · exact ⟨_, _, DelayQueue.nextAlarm_none h.repr hz⟩

theorem Inv.returning (h : Inv s l) : s.Returning where
  addEntry e now he hp hc hd := by
    obtain ⟨q, _, hret, _⟩ := h.addEntry he hp hc hd
    exact ⟨q, hret⟩
  updateEntry e now delay he hc hd := by
    obtain ⟨q, _, hret, _⟩ := h.updateEntry he hc hd
    exact ⟨q, hret⟩
  removeEntry e he := by
    obtain ⟨q, hret, _⟩ := h.removeEntry he
    exact ⟨q, hret⟩
  timeToNextAlarm now hc := by
    obtain ⟨r, q, hret, _⟩ := h.timeToNextAlarm hc
    exact ⟨r, q, hret⟩
  beginAlarm now hc := by
    obtain ⟨q, hret, _⟩ := h.beginAlarm hc
    exact ⟨q, hret⟩
  nextAlarm := h.exists_nextAlarm

end State

theorem calls_return {s : State} (h : alarms.Reachable s) : s.Returning := by
  obtain ⟨l, hl⟩ := reachable_inv h
  exact hl.returning

/-! ## A run -/

/-- One entry, of one second. -/
def oneCreated : State :=
  { State.start ⟨0, 0⟩ with
    queue := (State.start ⟨0, 0⟩).queue.newEntry 1 ⟨1, 0⟩
    created := [1] }

/-- The queue after `AddEntry`: the entry is linked in, and the sentinel is a second closer. -/
def oneQueue : DelayQueue :=
  let q := (oneCreated.queue.setDelta this ETERNITY).setDelta this ⟨LONG_MAX - 1, MILLION - 1⟩
  (((q.setNext 1 (some this)).setPrev 1 (some this)).setNext this (some 1)).setPrev this (some 1)

def oneAdded : State := (oneCreated.advance oneQueue).schedule 1 (oneCreated.queue.gap 1)

theorem reachable_oneAdded : alarms.Reachable oneAdded := by
  have h0 : alarms.Reachable (State.start ⟨0, 0⟩) :=
    .of_init ⟨_, ⟨by decide, by decide, by decide, by decide⟩, rfl⟩
  have h1 : alarms.Reachable oneCreated :=
    h0.next (.create _ 1 ⟨1, 0⟩ (by decide) (by decide) (by decide)
      ⟨by decide, by decide, by decide, by decide⟩)
  refine h1.next (.addEntry _ 1 ⟨0, 0⟩ oneQueue (by decide) ⟨by decide, by decide⟩ rfl
    ⟨⟨by decide, by decide, by decide, by decide⟩, by decide⟩
    ⟨⟨by decide, by decide, by decide, by decide⟩, by decide⟩ ?_)
  refine ⟨2, fun m hm => ?_⟩
  obtain ⟨k, rfl⟩ := Nat.exists_eq_add_of_le' hm
  rfl

/-- **Timer queue correctness.** -/
theorem timer_queue (s : State) (h : alarms.Reachable s) : s.Correct := by
  obtain ⟨l, hl⟩ := reachable_inv h
  exact hl.correct

theorem timer_queue_oneAdded : oneAdded.Correct := timer_queue oneAdded reachable_oneAdded

/-- The same queue five seconds later. -/
def overdueQueue : DelayQueue :=
  ({ oneQueue with lastSyncTime := ⟨5, 0⟩ }.setDelta 1 DELAY_ZERO).setDelta this
    ⟨LONG_MAX - 5, MILLION - 1⟩

/-- `TimeToNextAlarm` can return more than `due - time`: zero, for a head that is overdue. -/
theorem overdue_head :
    ¬ ∀ s, alarms.Reachable s → ∀ now r s', s.Step (.timeToNextAlarm now r) s' →
      ∀ e t, s'.queue.next this = some e → s'.pending e = some t →
        r.micros ≤ t.due - s'.time := by
  intro h
  have hret : Returns (oneAdded.queue.timeToNextAlarm ⟨5, 0⟩) (DELAY_ZERO, overdueQueue) := by
    refine ⟨3, fun m hm => ?_⟩
    obtain ⟨k, rfl⟩ := Nat.exists_eq_add_of_le' hm
    rfl
  have hclock : oneAdded.ClockOk ⟨5, 0⟩ :=
    ⟨⟨by decide, by decide, by decide, by decide⟩, by decide⟩
  have hstep := State.Step.timeToNextAlarm oneAdded _ _ _ (by decide) hclock hret
  have hle := h _ reachable_oneAdded _ _ _ hstep 1 ⟨1000000, 0⟩ rfl rfl
  exact absurd hle (by decide)

end Scheduler
end Huicpp
