import Mathlib
import Huicpp.Cxx.Prog
import Huicpp.Scheduler.DelayQueue

/-!
# Scheduler.HandlerSet

`HandlerSet` in memory and the pass of `CallHandlers` over it. A descriptor has two links, a socket,
flags and a callback; the set holds one descriptor of its own, which closes the ring. Every access
to a descriptor checks that it has not been deleted. `new` never returns a pointer twice, so that a
dangling pointer stays dangling.

A callback may edit the set. What it does depends on the callbacks called so far in the pass.
-/

namespace Huicpp
namespace Scheduler

open Cxx Cxx.Prog

/-- `flags_t` -/
abbrev Flags := BitVec 32

def invalid_handler_value : Int := -1

def HIT_READ : Flags := 1
def HIT_WRITE : Flags := 2
def HIT_EXCEP : Flags := 4

/-- The descriptor `m_handlers`. -/
def handlers : Ptr := 0

/-- `π` names the callbacks; an empty `std::function` is `none`. -/
structure HandlerSet (π : Type) where
  hander : Ptr → Int
  flags : Ptr → Flags
  bc : Ptr → Option π
  next : Ptr → Option Ptr
  prev : Ptr → Option Ptr
  live : Ptr → Bool
  fresh : Ptr

namespace HandlerSet

variable {π : Type}

/-- The constructor: `m_handlers` is linked to itself. -/
def init : HandlerSet π where
  hander _ := invalid_handler_value
  flags _ := 0
  bc _ := none
  next := Function.update (fun _ => none) handlers (some handlers)
  prev := Function.update (fun _ => none) handlers (some handlers)
  live := Function.update (fun _ => false) handlers true
  fresh := 1

/-! ## Access -/

def access (p : Ptr) (s : HandlerSet π) : Prog Unit :=
  if s.live p then pure () else liftM (Outcome.undef .useAfterFree : Outcome Unit)

def loadNext (p : Ptr) (s : HandlerSet π) : Prog Ptr := do
  s.access p
  deref (s.next p)

def loadPrev (p : Ptr) (s : HandlerSet π) : Prog Ptr := do
  s.access p
  deref (s.prev p)

def storeNext (p v : Ptr) (s : HandlerSet π) : Prog (HandlerSet π) := do
  s.access p
  pure { s with next := Function.update s.next p (some v) }

def storePrev (p v : Ptr) (s : HandlerSet π) : Prog (HandlerSet π) := do
  s.access p
  pure { s with prev := Function.update s.prev p (some v) }

def setHandle (p : Ptr) (h : Int) (s : HandlerSet π) : Prog (HandlerSet π) := do
  s.access p
  pure { s with hander := Function.update s.hander p h }

def setFlags (p : Ptr) (f : Flags) (s : HandlerSet π) : Prog (HandlerSet π) := do
  s.access p
  pure { s with flags := Function.update s.flags p f }

def setProc (p : Ptr) (bc : Option π) (s : HandlerSet π) : Prog (HandlerSet π) := do
  s.access p
  pure { s with bc := Function.update s.bc p bc }

/-! ## Descriptors -/

/-- `new` gives the memory, and the members are initialised. -/
def allocate (s : HandlerSet π) : HandlerSet π :=
  { s with
    hander := Function.update s.hander s.fresh invalid_handler_value
    flags := Function.update s.flags s.fresh 0
    bc := Function.update s.bc s.fresh none
    live := Function.update s.live s.fresh true
    fresh := s.fresh + 1 }

/-- `new HandlerDescriptor(nextHandler)`, linked in before `nextHandler`. -/
def newDescriptor (nextHandler : Ptr) (s : HandlerSet π) : Prog (Ptr × HandlerSet π) := do
  let this := s.fresh
  let s ← s.allocate.storeNext this nextHandler
  let prev ← s.loadPrev nextHandler
  let s ← s.storePrev this prev
  let s ← s.storePrev nextHandler this
  let prev ← s.loadPrev this
  let s ← s.storeNext prev this
  pure (this, s)

/-- `delete`: the destructor unlinks the descriptor, and the memory is freed. -/
def deleteDescriptor (this : Ptr) (s : HandlerSet π) : Prog (HandlerSet π) := do
  let next ← s.loadNext this
  let prev ← s.loadPrev this
  let s ← s.storePrev next prev
  let prev ← s.loadPrev this
  let next ← s.loadNext this
  let s ← s.storeNext prev next
  pure { s with live := Function.update s.live this false }

/-! ## The iterator -/

/-- `Next` of the iterator that holds `nextPtr`: its result, and what it holds then. -/
def iterNext (nextPtr : Ptr) (s : HandlerSet π) : Prog (Option Ptr × Ptr) :=
  if nextPtr = handlers then pure (none, nextPtr)
  else do
    let next ← s.loadNext nextPtr
    pure (some nextPtr, next)

/-- `Reset` -/
def iterReset (s : HandlerSet π) : Prog Ptr := s.loadNext handlers

/-- The loop body of `lookupHandler`. -/
def lookupBody (socketNum : Int) (s : HandlerSet π) (nextPtr : Ptr) :
    Prog (Ctl Ptr (Option Ptr)) := do
  let (handler, nextPtr) ← s.iterNext nextPtr
  match handler with
  | none => pure (.exit none)
  | some handler => do
    s.access handler
    if s.hander handler = socketNum then pure (.exit (some handler)) else pure (.again nextPtr)

def lookupHandler (socketNum : Int) (s : HandlerSet π) : Prog (Option Ptr) := do
  let iter ← s.iterReset
  loop (s.lookupBody socketNum) iter

/-! ## The set -/

/-- The descriptor of a socket, made if there is none. -/
def lookupOrNew (socketNum : Int) (s : HandlerSet π) : Prog (Ptr × HandlerSet π) := do
  match ← s.lookupHandler socketNum with
  | some handler => pure (handler, s)
  | none => do
    let first ← s.loadNext handlers
    let (handler, s) ← s.newDescriptor first
    let s ← s.setHandle handler socketNum
    pure (handler, s)

def assignHandler (socketNum : Int) (conditionSet : Flags) (handlerProc : Option π)
    (s : HandlerSet π) : Prog (HandlerSet π) :=
  if socketNum ≤ 0 then pure s
  else do
    let (handler, s) ← s.lookupOrNew socketNum
    let s ← s.setFlags handler conditionSet
    s.setProc handler handlerProc

def removeHandler (socketNum : Int) (s : HandlerSet π) : Prog (HandlerSet π) := do
  match ← s.lookupHandler socketNum with
  | some handler => s.deleteDescriptor handler
  | none => pure s

end HandlerSet

/-- The calls of `SelectHandlerMap` that change the set. -/
inductive Edit (π : Type) where
  | addHandle (socketNum : Int) (conditionSet : Flags) (handlerProc : Option π)
  | removeHandle (socketNum : Int)
  deriving DecidableEq, Repr

/-- The three sets that `select` has filled. -/
structure Selected where
  rfds : Int → Bool
  wfds : Int → Bool
  efds : Int → Bool

def Selected.resultEvents (sel : Selected) (h : Int) : Flags :=
  (if sel.rfds h then HIT_READ else 0) ||| (if sel.wfds h then HIT_WRITE else 0) |||
    (if sel.efds h then HIT_EXCEP else 0)

/-- A callback called on a descriptor. -/
structure Called (π : Type) where
  dec : Ptr
  proc : π
  events : Flags
  deriving DecidableEq, Repr

namespace HandlerSet

variable {π : Type}

def edit : Edit π → HandlerSet π → Prog (HandlerSet π)
  | .addHandle socketNum conditionSet handlerProc, s =>
    s.assignHandler socketNum conditionSet handlerProc
  | .removeHandle socketNum, s => s.removeHandler socketNum

def edits : List (Edit π) → HandlerSet π → Prog (HandlerSet π)
  | [], s => pure s
  | e :: es, s => do
    let s ← s.edit e
    edits es s

/-- What a pass holds: the iterator, the callbacks called with the sets they were called in, and
the set. -/
structure Pass (π : Type) where
  nextPtr : Ptr
  log : List (Called π × HandlerSet π)
  set : HandlerSet π

/-- What the callbacks do, given those called so far. -/
abbrev Behaviour (π : Type) := List (Called π) → List (Edit π)

/-- `CallHandler` on a live descriptor. -/
def callHandler (behave : Behaviour π) (dec : Ptr) (events : Flags) (s : Pass π) :
    Prog (Pass π) := do
  s.set.access dec
  match s.set.bc dec with
  | none => pure s
  | some proc => do
    let log := s.log ++ [(⟨dec, proc, events⟩, s.set)]
    let set ← s.set.edits (behave (log.map Prod.fst))
    pure { s with log := log, set := set }

/-- The loop body of `CallHandlers`. -/
def passBody (sel : Selected) (behave : Behaviour π) (s : Pass π) :
    Prog (Ctl (Pass π) (Pass π)) := do
  let (dec, nextPtr) ← s.set.iterNext s.nextPtr
  let s := { s with nextPtr := nextPtr }
  match dec with
  | none => pure (.exit s)
  | some dec => do
    s.set.access dec
    let resultEvents := sel.resultEvents (s.set.hander dec)
    if resultEvents &&& s.set.flags dec ≠ 0 then do
      let s ← callHandler behave dec resultEvents s
      pure (.again s)
    else pure (.again s)

def callHandlers (sel : Selected) (behave : Behaviour π) (s : HandlerSet π) : Prog (Pass π) := do
  let iter ← s.iterReset
  loop (passBody sel behave) ⟨iter, [], s⟩

/-- The set finds the descriptor under its socket. -/
def Registered (s : HandlerSet π) (p : Ptr) : Prop :=
  Returns (s.lookupHandler (s.hander p)) (some p)

/-- The pass comes to its end, so that it touched no deleted descriptor. It called each descriptor
at most once, and only while it was registered. -/
def Robust (sel : Selected) (behave : Behaviour π) (s : HandlerSet π) : Prop :=
  ∃ r, Returns (s.callHandlers sel behave) r ∧ (r.log.map fun c => c.1.dec).Nodup ∧
    ∀ c ∈ r.log, c.2.Registered c.1.dec

end HandlerSet

end Scheduler
end Huicpp
