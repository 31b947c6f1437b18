import Mathlib
import Huicpp.Cxx.Prog
import Huicpp.Scheduler.Timeval

/-!
# Scheduler.DelayQueue

The delay queue in memory. An entry has two links and a time relative to the entry before it; the
queue is itself an entry, and closes the ring of its entries. Memory is kept as one map for each
field, from pointers.

`TimeNow` reads the clock, so a call takes the reading that it would get. The loops follow the
links, and `HandleAlarm` is in two parts, since handlers run inside its loop.
-/

namespace Huicpp
namespace Scheduler

open Cxx Cxx.Prog

abbrev Ptr := Nat

/-- The queue, as an entry. -/
def this : Ptr := 0

structure DelayQueue where
  next : Ptr → Option Ptr
  prev : Ptr → Option Ptr
  deltaTimeRemaining : Ptr → DelayInterval
  lastSyncTime : DelayEventTime

/-- The object behind a pointer. -/
def deref : Option Ptr → Prog Ptr
  | some p => pure p
  | none => liftM (Outcome.undef .nullAccess : Outcome Ptr)

namespace DelayQueue

def setNext (q : DelayQueue) (p : Ptr) (v : Option Ptr) : DelayQueue :=
  { q with next := Function.update q.next p v }

def setPrev (q : DelayQueue) (p : Ptr) (v : Option Ptr) : DelayQueue :=
  { q with prev := Function.update q.prev p v }

def setDelta (q : DelayQueue) (p : Ptr) (v : DelayInterval) : DelayQueue :=
  { q with deltaTimeRemaining := Function.update q.deltaTimeRemaining p v }

/-- The constructor of `DelayQueueEntry`: the entry is linked to itself. -/
def newEntry (q : DelayQueue) (p : Ptr) (delay : DelayInterval) : DelayQueue :=
  ((q.setNext p (some p)).setPrev p (some p)).setDelta p delay

/-- The constructor of `DelayQueue`. -/
def new (timeNow : DelayEventTime) : DelayQueue :=
  newEntry ⟨fun _ => none, fun _ => none, fun _ => DELAY_ZERO, timeNow⟩ this ETERNITY

def head (q : DelayQueue) : Prog Ptr := deref (q.next this)

/-- The loop test of `synchronize`. -/
def sweepTest : DelayInterval × Ptr × DelayQueue → Bool
  | (timeSinceLastSync, curEntry, q) => timeSinceLastSync.ge (q.deltaTimeRemaining curEntry)

/-- The loop body of `synchronize`. -/
def sweepBody : DelayInterval × Ptr × DelayQueue → Prog (DelayInterval × Ptr × DelayQueue)
  | (timeSinceLastSync, curEntry, q) => do
    let timeSinceLastSync := timeSinceLastSync.subAssign (q.deltaTimeRemaining curEntry)
    let q := q.setDelta curEntry DELAY_ZERO
    let curEntry ← deref (q.next curEntry)
    pure (timeSinceLastSync, curEntry, q)

/-- `synchronize` once it knows the time that has passed. -/
def sweep (timeSinceLastSync : DelayInterval) (q : DelayQueue) : Prog DelayQueue := do
  let curEntry ← q.head
  let (timeSinceLastSync, curEntry, q) ←
    whileDo sweepTest sweepBody (timeSinceLastSync, curEntry, q)
  pure (q.setDelta curEntry ((q.deltaTimeRemaining curEntry).subAssign timeSinceLastSync))

def synchronize (timeNow : DelayEventTime) (q : DelayQueue) : Prog DelayQueue :=
  if timeNow.lt q.lastSyncTime then
    -- the clock has been set back
    pure { q with lastSyncTime := timeNow }
  else
    let timeSinceLastSync := timeNow.sub q.lastSyncTime
    ({ q with lastSyncTime := timeNow } : DelayQueue).sweep timeSinceLastSync

/-- The loop test of `AddEntry`. -/
def placeTest (newEntry : Ptr) : Ptr × DelayQueue → Bool
  | (cur, q) => (q.deltaTimeRemaining newEntry).ge (q.deltaTimeRemaining cur)

/-- The loop body of `AddEntry`. -/
def placeBody (newEntry : Ptr) : Ptr × DelayQueue → Prog (Ptr × DelayQueue)
  | (cur, q) => do
    let q := q.setDelta newEntry
      ((q.deltaTimeRemaining newEntry).subAssign (q.deltaTimeRemaining cur))
    let cur ← deref (q.next cur)
    pure (cur, q)

/-- `AddEntry` after it has synchronized. -/
def placeEntry (newEntry : Ptr) (q : DelayQueue) : Prog DelayQueue := do
  let cur ← q.head
  let (cur, q) ← whileDo (placeTest newEntry) (placeBody newEntry) (cur, q)
  let q := q.setDelta cur
    ((q.deltaTimeRemaining cur).subAssign (q.deltaTimeRemaining newEntry))
  let q := q.setNext newEntry (some cur)
  let q := q.setPrev newEntry (q.prev cur)
  let pred ← deref (q.prev newEntry)
  let q := q.setNext pred (some newEntry)
  pure (q.setPrev cur (some newEntry))

def addEntry (timeNow : DelayEventTime) (newEntry : Ptr) (q : DelayQueue) : Prog DelayQueue := do
  let q ← q.synchronize timeNow
  q.placeEntry newEntry

/-- Taking an entry out of its ring. An entry that is not linked anywhere is left alone. -/
def unlinkEntry (entry : Ptr) (q : DelayQueue) : Prog DelayQueue :=
  match q.next entry with
  | none => pure q
  | some next => do
    let q := q.setDelta next
      ((q.deltaTimeRemaining next).addAssign (q.deltaTimeRemaining entry))
    let prev ← deref (q.prev entry)
    let q := q.setNext prev (q.next entry)
    let next ← deref (q.next entry)
    let q := q.setPrev next (q.prev entry)
    pure ((q.setPrev entry none).setNext entry none)

def removeEntry (entry : Option Ptr) (q : DelayQueue) : Prog DelayQueue :=
  match entry with
  | none => pure q
  | some entry => q.unlinkEntry entry

def updateEntry (timeNow : DelayEventTime) (entry : Option Ptr) (newDelay : DelayInterval)
    (q : DelayQueue) : Prog DelayQueue :=
  match entry with
  | none => pure q
  | some entry => do
    let q ← q.removeEntry (some entry)
    let q := q.setDelta entry newDelay
    q.addEntry timeNow entry

def timeToNextAlarm (timeNow : DelayEventTime) (q : DelayQueue) :
    Prog (DelayInterval × DelayQueue) := do
  let head ← q.head
  if (q.deltaTimeRemaining head).eq DELAY_ZERO then
    pure (DELAY_ZERO, q)
  else do
    let q ← q.synchronize timeNow
    let head ← q.head
    pure (q.deltaTimeRemaining head, q)

/-- `HandleAlarm` before its loop. -/
def beginAlarm (timeNow : DelayEventTime) (q : DelayQueue) : Prog DelayQueue := do
  let head ← q.head
  if (q.deltaTimeRemaining head).ne DELAY_ZERO then q.synchronize timeNow else pure q

/-- The loop test of `HandleAlarm`, and an iteration up to the call of the handler: the entry whose
handler is called, or `none` at the end of the loop. -/
def nextAlarm (q : DelayQueue) : Prog (Option Ptr × DelayQueue) := do
  let head ← q.head
  if (q.deltaTimeRemaining head).eq DELAY_ZERO then do
    let q ← q.removeEntry (some head)
    pure (some head, q)
  else
    pure (none, q)

section Fields

variable (q : DelayQueue) (p : Ptr)

@[simp] theorem setNext_next (v : Option Ptr) :
    (q.setNext p v).next = Function.update q.next p v := rfl
@[simp] theorem setNext_prev (v : Option Ptr) : (q.setNext p v).prev = q.prev := rfl
@[simp] theorem setNext_delta (v : Option Ptr) :
    (q.setNext p v).deltaTimeRemaining = q.deltaTimeRemaining := rfl
@[simp] theorem setNext_lastSyncTime (v : Option Ptr) :
    (q.setNext p v).lastSyncTime = q.lastSyncTime := rfl
@[simp] theorem setPrev_next (v : Option Ptr) : (q.setPrev p v).next = q.next := rfl
@[simp] theorem setPrev_prev (v : Option Ptr) :
    (q.setPrev p v).prev = Function.update q.prev p v := rfl
@[simp] theorem setPrev_delta (v : Option Ptr) :
    (q.setPrev p v).deltaTimeRemaining = q.deltaTimeRemaining := rfl
@[simp] theorem setPrev_lastSyncTime (v : Option Ptr) :
    (q.setPrev p v).lastSyncTime = q.lastSyncTime := rfl
@[simp] theorem setDelta_next (v : DelayInterval) : (q.setDelta p v).next = q.next := rfl
@[simp] theorem setDelta_prev (v : DelayInterval) : (q.setDelta p v).prev = q.prev := rfl
@[simp] theorem setDelta_delta (v : DelayInterval) :
    (q.setDelta p v).deltaTimeRemaining = Function.update q.deltaTimeRemaining p v := rfl
@[simp] theorem setDelta_lastSyncTime (v : DelayInterval) :
    (q.setDelta p v).lastSyncTime = q.lastSyncTime := rfl

@[simp] theorem setDelta_setDelta (v w : DelayInterval) :
    (q.setDelta p v).setDelta p w = q.setDelta p w := by
  simp [setDelta]

end Fields

end DelayQueue

theorem returns_deref {o : Option Ptr} {p : Ptr} (h : o = some p) : Returns (deref o) p := by
  subst h
  exact .pure p

end Scheduler
end Huicpp
