import Mathlib
import Huicpp.Scheduler.AlarmLoop
import Huicpp.Scheduler.SelectRound
import Huicpp.Scheduler.TriggerPasses

/-!
# Scheduler.EventLoop

`HSingleScheduler` as a whole: `DoEventLoop` runs `singleStep` until `StopLoop` was called, and
`singleStep` waits in `select`, calls the handlers of the descriptors that are ready, then all
triggers, then the tasks that are due. All of these are callables, which call the scheduler in turn:
they schedule tasks, edit the handler set, and create and remove triggers.

The components are those of `DelayQueue`, `HandlerSet` and `TriggerSet`. A state also keeps `since`, the
virtual time at the end of the last `HandleAlarm`. A handler that removes or replaces itself destroys
the callable that executes; runs in which none does are those of `EventLoopSafe`.
-/

namespace Huicpp
namespace Scheduler

open Cxx Cxx.Prog

/-- The time-out for `select`: very large seconds are cut off. -/
def selectTimeout (timeToDelay : DelayInterval) : Timeval :=
  if timeToDelay.seconds > MILLION then { timeToDelay with seconds := MILLION } else timeToDelay

namespace EventLoop

/-- Where `DoEventLoop` is. -/
inductive Pc (π : Type) where
  | outside
  /-- At the test of `m_quit` -/
  | test
  | begun
  /-- About to call `select` -/
  | selecting (timeout : Timeval)
  /-- In `CallHandlers`: its iterator, and the callback that executes. -/
  | handlers (sel : Selected) (nextPtr : Ptr) (executing : Option (Called π))
  | triggers
  | alarms
  /-- `select` has failed. -/
  | aborted

structure State (π : Type) where
  timers : Scheduler.State
  set : HandlerSet π
  triggers : TriggerPasses.State
  quit : Bool
  pc : Pc π
  since : Int

inductive Event (π : Type) where
  | doEventLoop
  | stopLoop
  | singleStep
  | loopEnds
  /-- A part of `TimeToNextAlarm` or `HandleAlarm` -/
  | timers (a : Scheduler.Event)
  /-- `select` answers, with descriptors or after the time-out, or it fails. -/
  | ready (sel : Selected)
  | timeout
  | selectFails
  | handler (called : Option (Called π))
  | handlerReturns
  | handlerThrows
  | handlersEnd
  /-- A part of `TriggeUpAll` -/
  | triggers (a : TriggerPasses.Event)
  | scheduleDelayTask (microseconds : Nat)
  | edit (e : Edit π)
  | createTrigger (callable : Bool)
  | removeTrigger (tid : Int)

namespace State

variable {π : Type}

/-- The scheduler is called from outside the loop, or by the callable that executes. -/
def MayCall (s : State π) : Prop :=
  match s.pc with
  | .outside => True
  | .handlers _ _ (some _) => True
  | .triggers => ∃ i n, s.triggers.pc = .calling i n
  | .alarms => ∃ e, s.timers.control = .handler e
  | _ => False

inductive Step : State π → Event π → State π → Prop where
  | doEventLoop (s : State π) : s.pc = .outside → Step s .doEventLoop { s with pc := .test }
  /-- From any thread -/
  | stopLoop (s : State π) : Step s .stopLoop { s with quit := true }
  | singleStep (s : State π) : s.pc = .test → s.quit = false →
      Step s .singleStep { s with pc := .begun }
  | loopEnds (s : State π) : s.pc = .test → s.quit = true → Step s .loopEnds { s with pc := .outside }
  | timeToNextAlarm (s : State π) (now : DelayEventTime) (r : DelayInterval) (t : Scheduler.State) :
      s.pc = .begun → Scheduler.State.Step s.timers (.timeToNextAlarm now r) t →
      Step s (.timers (.timeToNextAlarm now r)) { s with timers := t, pc := .selecting (selectTimeout r) }
  | ready (s : State π) (tv : Timeval) (st : Setup) (sel : Selected) (p : Ptr) :
      s.pc = .selecting tv → Returns s.set.setupHandleSet st → Returns s.set.iterReset p →
      Step s (.ready sel) { s with pc := .handlers (st.select sel) p none }
  | timeout (s : State π) (tv : Timeval) (st : Setup) (t : TriggerPasses.State) :
      s.pc = .selecting tv → Returns s.set.setupHandleSet st →
      TriggerPasses.Step s.triggers .passBegins t →
      Step s .timeout { s with triggers := t, pc := .triggers }
  | selectFails (s : State π) (tv : Timeval) (st : Setup) :
      s.pc = .selecting tv → Returns s.set.setupHandleSet st →
      Step s .selectFails { s with pc := .aborted }
  | skip (s : State π) (sel : Selected) (p dec p' : Ptr) :
      s.pc = .handlers sel p none → Returns (s.set.iterNext p) (some dec, p') →
      Returns (s.set.access dec) () →
      sel.resultEvents (s.set.hander dec) &&& s.set.flags dec = 0 ∨ s.set.bc dec = none →
      Step s (.handler none) { s with pc := .handlers sel p' none }
  | handler (s : State π) (sel : Selected) (p dec p' : Ptr) (f : π) :
      s.pc = .handlers sel p none → Returns (s.set.iterNext p) (some dec, p') →
      Returns (s.set.access dec) () →
      sel.resultEvents (s.set.hander dec) &&& s.set.flags dec ≠ 0 → s.set.bc dec = some f →
      Step s (.handler (some ⟨dec, f, sel.resultEvents (s.set.hander dec)⟩))
        { s with pc := .handlers sel p' (some ⟨dec, f, sel.resultEvents (s.set.hander dec)⟩) }
  | handlerReturns (s : State π) (sel : Selected) (p : Ptr) (c : Called π) :
      s.pc = .handlers sel p (some c) →
      Step s .handlerReturns { s with pc := .handlers sel p none }
  | handlerThrows (s : State π) (sel : Selected) (p : Ptr) (c : Called π) :
      s.pc = .handlers sel p (some c) → Step s .handlerThrows { s with pc := .outside }
  | handlersEnd (s : State π) (sel : Selected) (p p' : Ptr) (t : TriggerPasses.State) :
      s.pc = .handlers sel p none → Returns (s.set.iterNext p) (none, p') →
      TriggerPasses.Step s.triggers .passBegins t →
      Step s .handlersEnd { s with triggers := t, pc := .triggers }
  | trigger (s : State π) (a : TriggerPasses.Event) (t : TriggerPasses.State) :
      s.pc = .triggers → a = .turn ∨ a = .returns → TriggerPasses.Step s.triggers a t →
      Step s (.triggers a) { s with triggers := t }
  | triggerThrows (s : State π) (t : TriggerPasses.State) :
      s.pc = .triggers → TriggerPasses.Step s.triggers .throws t →
      Step s (.triggers .throws) { s with triggers := t, pc := .outside }
  | triggersEnd (s : State π) (t : TriggerPasses.State) :
      s.pc = .triggers → TriggerPasses.Step s.triggers .passEnds t →
      Step s (.triggers .passEnds) { s with triggers := t, pc := .alarms }
  | alarm (s : State π) (a : Scheduler.Event) (t : Scheduler.State) :
      s.pc = .alarms →
      ((∃ now, a = .handleAlarm now) ∨ (∃ e, a = .handler e) ∨ a = .handlerReturns) →
      Scheduler.State.Step s.timers a t → Step s (.timers a) { s with timers := t }
  | alarmsEnd (s : State π) (t : Scheduler.State) :
      s.pc = .alarms → Scheduler.State.Step s.timers .handleAlarmReturns t →
      Step s (.timers .handleAlarmReturns) { s with timers := t, pc := .test, since := t.time }
  | scheduleDelayTask (s : State π) (microseconds : Nat) (t : Scheduler.State) :
      s.MayCall → s.timers.ScheduleDelayTask microseconds t →
      Step s (.scheduleDelayTask microseconds) { s with timers := t }
  | edit (s : State π) (e : Edit π) (set : HandlerSet π) :
      s.MayCall → Returns (s.set.edit e) set → Step s (.edit e) { s with set := set }
  | createTrigger (s : State π) (callable : Bool) (t : TriggerPasses.State) :
      s.MayCall → TriggerPasses.Step s.triggers (.create callable) t →
      Step s (.createTrigger callable) { s with triggers := t }
  | removeTrigger (s : State π) (tid : Int) (t : TriggerPasses.State) :
      s.MayCall → TriggerPasses.Step s.triggers (.remove tid) t →
      Step s (.removeTrigger tid) { s with triggers := t }

/-- The constructor, with its reading of the clock. -/
def start (π : Type) (now : DelayEventTime) : State π :=
  ⟨.start now, .init, .init, false, .outside, 0⟩

end State

/-- All runs of a scheduler -/
def system (π : Type) : TransitionSystem (State π) (Event π) where
  init s := ∃ now, now.IsTime ∧ s = .start π now
  step := State.Step

end EventLoop

end Scheduler
end Huicpp
