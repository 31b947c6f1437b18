import Mathlib
import Huicpp.Cxx.TransitionSystem

/-!
# Queue.SingleFastQueue

`HSingleFastQueue`, one atomic step at a time. The producer and the consumer each have a program
counter with the local variables of the call in progress; a step of the system is one step of
either. `accepted` and `obtained` record what successful calls of `Push` and `Get` have passed.

A slot is `raw` memory, a `live` object, or an object that has been `moved` from.
-/

namespace Huicpp
namespace Queue

open Cxx

inductive Slot (α : Type) where
  | raw
  | live (v : α)
  | moved
  deriving DecidableEq, Repr

/-- What a move out of the slot delivers. -/
def Slot.value {α : Type} : Slot α → Option α
  | .live v => some v
  | _ => none

/-- Where `Push` is. -/
inductive ProducerPc (α : Type) where
  | idle
  | loadReadIndex (v : α) (currentPushIndex : Nat)
  | construct (v : α) (nextPos : Nat)
  | storeWriteIndex (v : α) (nextPos : Nat)
  deriving DecidableEq, Repr

/-- Where `Get` is. `value` is the caller's variable after the move. -/
inductive ConsumerPc (α : Type) where
  | idle
  | loadWriteIndex (currentGetIndex : Nat)
  | moveOut (currentGetIndex nextPos : Nat)
  | destroy (currentGetIndex nextPos : Nat) (value : Option α)
  | storeReadIndex (nextPos : Nat) (value : Option α)
  deriving DecidableEq, Repr

structure HSingleFastQueue (α : Type) where
  data : Nat → Slot α
  readIndex : Nat
  writeIndex : Nat
  producer : ProducerPc α
  consumer : ConsumerPc α
  accepted : List α
  obtained : List (Option α)

namespace HSingleFastQueue

variable {α : Type}

/-- The constructor: both indices are zero and the slots are raw memory. -/
def init : HSingleFastQueue α where
  data _ := .raw
  readIndex := 0
  writeIndex := 0
  producer := .idle
  consumer := .idle
  accepted := []
  obtained := []

/-- `next_pos`, computed in `unsigned int`. -/
def nextPos (size pos : Nat) : Nat :=
  let nextPos := (pos + 1) % 2 ^ 32
  if nextPos = size then 0 else nextPos

/-- One step of `Push`. The value is chosen when the call starts. -/
inductive PushStep (size : Nat) : HSingleFastQueue α → HSingleFastQueue α → Prop where
  | loadWriteIndex (q : HSingleFastQueue α) (v : α) :
      q.producer = .idle → PushStep size q { q with producer := .loadReadIndex v q.writeIndex }
  | full (q : HSingleFastQueue α) (v : α) (current : Nat) :
      q.producer = .loadReadIndex v current → nextPos size current = q.readIndex →
      PushStep size q { q with producer := .idle }
  | notFull (q : HSingleFastQueue α) (v : α) (current : Nat) :
      q.producer = .loadReadIndex v current → nextPos size current ≠ q.readIndex →
      PushStep size q { q with producer := .construct v (nextPos size current) }
  | construct (q : HSingleFastQueue α) (v : α) (next : Nat) :
      q.producer = .construct v next →
      PushStep size q { q with
        data := Function.update q.data next (.live v)
        producer := .storeWriteIndex v next }
  | storeWriteIndex (q : HSingleFastQueue α) (v : α) (next : Nat) :
      q.producer = .storeWriteIndex v next →
      PushStep size q { q with
        writeIndex := next
        producer := .idle
        accepted := q.accepted ++ [v] }

/-- One step of `Get`. The object is moved out of the slot after the read index, and the slot at
the read index is destroyed. -/
inductive GetStep (size : Nat) : HSingleFastQueue α → HSingleFastQueue α → Prop where
  | loadReadIndex (q : HSingleFastQueue α) :
      q.consumer = .idle → GetStep size q { q with consumer := .loadWriteIndex q.readIndex }
  | empty (q : HSingleFastQueue α) (current : Nat) :
      q.consumer = .loadWriteIndex current → current = q.writeIndex →
      GetStep size q { q with consumer := .idle }
  | notEmpty (q : HSingleFastQueue α) (current : Nat) :
      q.consumer = .loadWriteIndex current → current ≠ q.writeIndex →
      GetStep size q { q with consumer := .moveOut current (nextPos size current) }
  | moveOut (q : HSingleFastQueue α) (current next : Nat) :
      q.consumer = .moveOut current next →
      GetStep size q { q with
        data := Function.update q.data next .moved
        consumer := .destroy current next (q.data next).value }
  | destroy (q : HSingleFastQueue α) (current next : Nat) (value : Option α) :
      q.consumer = .destroy current next value →
      GetStep size q { q with
        data := Function.update q.data current .raw
        consumer := .storeReadIndex next value }
  | storeReadIndex (q : HSingleFastQueue α) (next : Nat) (value : Option α) :
      q.consumer = .storeReadIndex next value →
      GetStep size q { q with
        readIndex := next
        consumer := .idle
        obtained := q.obtained ++ [value] }

/-- Which thread makes a step. -/
inductive Thread where
  | producer
  | consumer
  deriving DecidableEq, Repr

/-- One producer and one consumer, interleaved. -/
def system (size : Nat) : TransitionSystem (HSingleFastQueue α) Thread where
  init q := q = init
  step
    | q, .producer, q' => PushStep size q q'
    | q, .consumer, q' => GetStep size q q'

/-- The slot the producer's next step constructs into. -/
def producerSlot (q : HSingleFastQueue α) : Option Nat :=
  match q.producer with
  | .construct _ next => some next
  | _ => none

/-- The slot the consumer's next step moves out of or destroys. -/
def consumerSlot (q : HSingleFastQueue α) : Option Nat :=
  match q.consumer with
  | .moveOut _ next => some next
  | .destroy current _ _ => some current
  | _ => none

end HSingleFastQueue

end Queue
end Huicpp
