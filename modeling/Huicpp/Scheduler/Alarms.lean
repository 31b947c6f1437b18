import Mathlib
import Huicpp.Cxx.TransitionSystem
import Huicpp.Scheduler.Rebalance

/-!
# Scheduler.Alarms

Runs of a delay queue: its calls in any order, with a handler running in the middle of
`HandleAlarm` that may itself call on other entries. Next to the queue in memory, a state keeps what
the queue is for.

* `time` is the virtual time: each reading that `synchronize` takes adds the time since the reading
  before it, and nothing if the clock was set back. A jump of `2 ^ 31` seconds or more adds nothing
  if `operator-` loses it.
* `pending` has the entries that were added and not removed or handled since, each with the time at
  which it is due and its place in the order of insertion.
* `handled` lists the handlers that were called, with the virtual time of the call.

A call is made on an entry that was created and whose handler was not called, since `HandleAlarm`
deletes an entry after its handler; `AddEntry` is for an entry that is not in the queue.
-/

namespace Huicpp
namespace Scheduler

open Cxx Cxx.Prog

structure Timer where
  due : Int
  number : Nat
  deriving DecidableEq, Repr

/-- Due earlier, or at the same time and added earlier. -/
def Timer.Before (a b : Timer) : Prop := a.due < b.due ∨ a.due = b.due ∧ a.number < b.number

/-- The call of a handler. The entry was pending with `timer`, if it was. -/
structure Alarm where
  entry : Ptr
  timer : Option Timer
  time : Int
  deriving DecidableEq, Repr

/-- Where `HandleAlarm` is. -/
inductive Control where
  | idle
  | loop
  | handler (e : Ptr)
  deriving DecidableEq, Repr

structure State where
  queue : DelayQueue
  control : Control
  created : List Ptr
  time : Int
  pending : Ptr → Option Timer
  inserted : Nat
  handled : List Alarm

inductive Event where
  | create (e : Ptr) (delay : DelayInterval)
  | addEntry (e : Ptr) (now : DelayEventTime)
  | updateEntry (e : Option Ptr) (delay : DelayInterval) (now : DelayEventTime)
  | removeEntry (e : Option Ptr)
  | timeToNextAlarm (now : DelayEventTime) (answer : DelayInterval)
  | handleAlarm (now : DelayEventTime)
  | handler (e : Ptr)
  | handlerReturns
  | handleAlarmReturns
  deriving DecidableEq, Repr

namespace State

/-- A new queue, with the first reading of the clock. -/
def start (now : DelayEventTime) : State where
  queue := .new now
  control := .idle
  created := []
  time := 0
  pending _ := none
  inserted := 0
  handled := []

/-- A call leaves the queue `q`, and may have synchronized it. -/
def advance (s : State) (q : DelayQueue) : State :=
  { s with
    queue := q
    time := s.time + DelayQueue.elapsed s.queue.lastSyncTime q.lastSyncTime }

/-- `e` is added with a delay. -/
def schedule (s : State) (e : Ptr) (delay : Int) : State :=
  { s with
    pending := Function.update s.pending e (some ⟨s.time + delay, s.inserted⟩)
    inserted := s.inserted + 1 }

def cancel (s : State) (e : Ptr) : State :=
  { s with pending := Function.update s.pending e none }

@[simp] theorem schedule_pending_self (s : State) (e : Ptr) (delay : Int) :
    (s.schedule e delay).pending e = some ⟨s.time + delay, s.inserted⟩ :=
  Function.update_self _ _ _

theorem schedule_pending_of_ne (s : State) {e x : Ptr} (delay : Int) (hx : x ≠ e) :
    (s.schedule e delay).pending x = s.pending x :=
  Function.update_of_ne hx _ _

@[simp] theorem cancel_pending_self (s : State) (e : Ptr) : (s.cancel e).pending e = none :=
  Function.update_self _ _ _

theorem cancel_pending_of_ne (s : State) {e x : Ptr} (hx : x ≠ e) :
    (s.cancel e).pending x = s.pending x :=
  Function.update_of_ne hx _ _

/-- The handler of `e` is called. -/
def handle (s : State) (e : Ptr) : State :=
  { s.cancel e with
    control := .handler e
    handled := s.handled ++ [⟨e, s.pending e, s.time⟩] }

/-- Calls come from outside `HandleAlarm`, or from a handler. -/
def CanCall (s : State) : Prop := s.control ≠ .loop

instance (s : State) : Decidable s.CanCall := inferInstanceAs (Decidable (s.control ≠ .loop))

/-- `e` exists. -/
def Live (s : State) (e : Ptr) : Prop := e ∈ s.created ∧ e ∉ s.handled.map Alarm.entry

/-- The virtual time if the clock reads `now`. -/
def timeAt (s : State) (now : DelayEventTime) : Int :=
  s.time + DelayQueue.elapsed s.queue.lastSyncTime now

/-- The clock may read `now`: the virtual time stays below `LONG_MAX` seconds. -/
structure ClockOk (s : State) (now : DelayEventTime) : Prop where
  isTime : now.IsTime
  time_lt : s.timeAt now < LONG_MAX * MILLION

/-- A delay is normalized and not negative, and ends below `LONG_MAX` seconds. -/
structure DelayOk (s : State) (now : DelayEventTime) (delay : DelayInterval) : Prop where
  interval : delay.IsInterval
  due_lt : s.timeAt now + delay.micros < LONG_MAX * MILLION

inductive Step : State → Event → State → Prop where
  | create (s : State) (e : Ptr) (delay : DelayInterval) :
      s.CanCall → e ∉ s.created → e ≠ this → delay.IsInterval →
      Step s (.create e delay) { s with
        queue := s.queue.newEntry e delay
        created := e :: s.created }
  | addEntry (s : State) (e : Ptr) (now : DelayEventTime) (q : DelayQueue) :
      s.CanCall → s.Live e → s.pending e = none → s.ClockOk now →
      s.DelayOk now (s.queue.deltaTimeRemaining e) → Returns (s.queue.addEntry now e) q →
      Step s (.addEntry e now) ((s.advance q).schedule e (s.queue.gap e))
  | updateEntry (s : State) (e : Ptr) (delay : DelayInterval) (now : DelayEventTime)
      (q : DelayQueue) :
      s.CanCall → s.Live e → s.ClockOk now → s.DelayOk now delay →
      Returns (s.queue.updateEntry now (some e) delay) q →
      Step s (.updateEntry (some e) delay now)
        (((s.cancel e).advance q).schedule e delay.micros)
  | updateNull (s : State) (delay : DelayInterval) (now : DelayEventTime) (q : DelayQueue) :
      s.CanCall → s.ClockOk now → Returns (s.queue.updateEntry now none delay) q →
      Step s (.updateEntry none delay now) (s.advance q)
  | removeEntry (s : State) (e : Ptr) (q : DelayQueue) :
      s.CanCall → s.Live e → Returns (s.queue.removeEntry (some e)) q →
      Step s (.removeEntry (some e)) ((s.cancel e).advance q)
  | removeNull (s : State) (q : DelayQueue) :
      s.CanCall → Returns (s.queue.removeEntry none) q →
      Step s (.removeEntry none) (s.advance q)
  | timeToNextAlarm (s : State) (now : DelayEventTime) (answer : DelayInterval)
      (q : DelayQueue) :
      s.CanCall → s.ClockOk now → Returns (s.queue.timeToNextAlarm now) (answer, q) →
      Step s (.timeToNextAlarm now answer) (s.advance q)
  | handleAlarm (s : State) (now : DelayEventTime) (q : DelayQueue) :
      s.control = .idle → s.ClockOk now → Returns (s.queue.beginAlarm now) q →
      Step s (.handleAlarm now) { s.advance q with control := .loop }
  | handler (s : State) (e : Ptr) (q : DelayQueue) :
      s.control = .loop → Returns s.queue.nextAlarm (some e, q) →
      Step s (.handler e) ((s.handle e).advance q)
  | handlerReturns (s : State) (e : Ptr) :
      s.control = .handler e → Step s .handlerReturns { s with control := .loop }
  | handleAlarmReturns (s : State) (q : DelayQueue) :
      s.control = .loop → Returns s.queue.nextAlarm (none, q) →
      Step s .handleAlarmReturns { s.advance q with control := .idle }

end State

/-- All runs, from any first reading of the clock. -/
def alarms : TransitionSystem State Event where
  init s := ∃ now, now.IsTime ∧ s = .start now
  step := State.Step

end Scheduler
end Huicpp
