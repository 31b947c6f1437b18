import Mathlib
import Huicpp.Cxx.Storage
import Huicpp.Queue.SingleFastQueue

/-!
# Queue.Calls

`HSingleFastQueue` used by one thread: whole calls, one after the other, and the destructor at the
end. Beside the queue itself stands the storage of its slots, in which `Push` constructs and `Get`,
`popFront` and the destructor destroy.
-/

namespace Huicpp
namespace Queue

open Cxx

/-- A queue and the storage it has allocated. -/
structure Owned (α : Type) where
  queue : HSingleFastQueue α
  storage : Storage Nat

inductive Call (α : Type) where
  | push (v : α)
  | get
  | popFront
  deriving DecidableEq, Repr

namespace Owned

variable {α : Type}

/-- The constructor allocates and constructs no object. -/
def init : Owned α where
  queue := .init
  storage := .raw

/-- `Push` returns false on a full queue. -/
def push (size : Nat) (v : α) (t : Owned α) : Owned α × Bool :=
  let currentPushIndex := t.queue.writeIndex
  let nextPos := HSingleFastQueue.nextPos size currentPushIndex
  if nextPos ≠ t.queue.readIndex then
    ({ queue := { t.queue with
         data := Function.update t.queue.data nextPos (.live v)
         writeIndex := nextPos
         accepted := t.queue.accepted ++ [v] }
       storage := t.storage.construct nextPos }, true)
  else (t, false)

/-- `Get` returns false on an empty queue. The object moved from stays constructed; the one
destroyed is in the slot at the old read index. -/
def get (size : Nat) (t : Owned α) : Owned α × Bool :=
  let currentGetIndex := t.queue.readIndex
  if currentGetIndex = t.queue.writeIndex then (t, false)
  else
    let nextPos := HSingleFastQueue.nextPos size currentGetIndex
    ({ queue := { t.queue with
         data := Function.update (Function.update t.queue.data nextPos .moved) currentGetIndex .raw
         readIndex := nextPos
         obtained := t.queue.obtained ++ [(t.queue.data nextPos).value] }
       storage := t.storage.destroy currentGetIndex }, true)

/-- `popFront` asserts that the queue is not empty. -/
def popFront (size : Nat) (t : Owned α) : Except (Owned α) (Owned α) :=
  let currentGetPos := t.queue.readIndex
  if currentGetPos = t.queue.writeIndex then .error t
  else .ok
    { queue := { t.queue with
        data := Function.update t.queue.data currentGetPos .raw
        readIndex := HSingleFastQueue.nextPos size currentGetPos }
      storage := t.storage.destroy currentGetPos }

def exec (size : Nat) : Call α → Owned α → Except (Owned α) (Owned α)
  | .push v, t => .ok (t.push size v).1
  | .get, t => .ok (t.get size).1
  | .popFront, t => t.popFront size

/-- The calls in order. An assertion that fails ends the program where it stands. -/
def run (size : Nat) : List (Call α) → Owned α → Except (Owned α) (Owned α)
  | [], t => .ok t
  | c :: cs, t =>
    match exec size c t with
    | .ok t' => run size cs t'
    | .error t' => .error t'

/-- The loop of the destructor. Its index is a `size_t`. -/
def destroyFrom (size : Nat) : Nat → Nat → Nat → Storage Nat → Storage Nat
  | 0, _, _, s => s
  | fuel + 1, readIndex, writeIndex, s =>
    if readIndex = writeIndex then s
    else
      let next := (readIndex + 1) % 2 ^ 64
      destroyFrom size fuel (if next = size then 0 else next) writeIndex (s.destroy readIndex)

/-- `~HSingleFastQueue`, for elements that have a destructor. -/
def destructor (size : Nat) (t : Owned α) : Storage Nat :=
  destroyFrom size size t.queue.readIndex t.queue.writeIndex t.storage

/-- Every destructor ran on a live object and every constructor on a raw slot, and a program that
got to the destructor of the queue has destroyed each object exactly once. -/
def LifetimesBalanced (size : Nat) : Except (Owned α) (Owned α) → Prop
  | .error t => t.storage.Sound
  | .ok t => (t.destructor size).Sound ∧ (t.destructor size).AllDestroyedOnce

/-! ## Calls are steps -/

theorem pushStep_reachable {size : Nat} {q q' : HSingleFastQueue α}
    (h : (HSingleFastQueue.system size).Reachable q) (hs : HSingleFastQueue.PushStep size q q') :
    (HSingleFastQueue.system size).Reachable q' :=
  h.next (a := .producer) hs

theorem getStep_reachable {size : Nat} {q q' : HSingleFastQueue α}
    (h : (HSingleFastQueue.system size).Reachable q) (hs : HSingleFastQueue.GetStep size q q') :
    (HSingleFastQueue.system size).Reachable q' :=
  h.next (a := .consumer) hs

theorem push_reachable {size : Nat} {v : α} {t : Owned α}
    (h : (HSingleFastQueue.system size).Reachable t.queue) (hidle : t.queue.producer = .idle) :
    (HSingleFastQueue.system size).Reachable (t.push size v).1.queue := by
  have h₁ := pushStep_reachable h (.loadWriteIndex t.queue v hidle)
  by_cases hn : HSingleFastQueue.nextPos size t.queue.writeIndex = t.queue.readIndex
  · have h₂ := pushStep_reachable h₁ (.full _ v _ rfl hn)
    rw [push, if_neg (not_not.mpr hn)]
    simpa [← hidle] using h₂
  · have h₂ := pushStep_reachable h₁ (.notFull _ v _ rfl hn)
    have h₃ := pushStep_reachable h₂ (.construct _ v _ rfl)
    have h₄ := pushStep_reachable h₃ (.storeWriteIndex _ v _ rfl)
    rw [push, if_pos hn]
    simpa [← hidle] using h₄

theorem get_reachable {size : Nat} {t : Owned α}
    (h : (HSingleFastQueue.system size).Reachable t.queue) (hidle : t.queue.consumer = .idle) :
    (HSingleFastQueue.system size).Reachable (t.get size).1.queue := by
  have h₁ := getStep_reachable h (.loadReadIndex t.queue hidle)
  by_cases hn : t.queue.readIndex = t.queue.writeIndex
  · have h₂ := getStep_reachable h₁ (.empty _ _ rfl hn)
    rw [get, if_pos hn]
    simpa [← hidle] using h₂
  · have h₂ := getStep_reachable h₁ (.notEmpty _ _ rfl hn)
    have h₃ := getStep_reachable h₂ (.moveOut _ _ _ rfl)
    have h₄ := getStep_reachable h₃ (.destroy _ _ _ _ rfl)
    have h₅ := getStep_reachable h₄ (.storeReadIndex _ _ _ rfl)
    rw [get, if_neg hn]
    simpa [← hidle] using h₅

@[simp] theorem push_producer (size : Nat) (v : α) (t : Owned α) :
    (t.push size v).1.queue.producer = t.queue.producer := by
  unfold push
  dsimp only
  split <;> rfl

@[simp] theorem push_consumer (size : Nat) (v : α) (t : Owned α) :
    (t.push size v).1.queue.consumer = t.queue.consumer := by
  unfold push
  dsimp only
  split <;> rfl

@[simp] theorem get_producer (size : Nat) (t : Owned α) :
    (t.get size).1.queue.producer = t.queue.producer := by
  unfold get
  dsimp only
  split <;> rfl

@[simp] theorem get_consumer (size : Nat) (t : Owned α) :
    (t.get size).1.queue.consumer = t.queue.consumer := by
  unfold get
  dsimp only
  split <;> rfl

/-- Calls of `Push` and `Get` in one thread are one of the interleavings of two. -/
theorem run_reachable {size : Nat} {calls : List (Call α)} {t t' : Owned α}
    (h : (HSingleFastQueue.system size).Reachable t.queue) (hp : t.queue.producer = .idle)
    (hc : t.queue.consumer = .idle) (hcalls : .popFront ∉ calls) (hrun : run size calls t = .ok t') :
    (HSingleFastQueue.system size).Reachable t'.queue := by
  induction calls generalizing t with
  | nil =>
    cases hrun
    exact h
  | cons c cs ih =>
    rw [List.mem_cons, not_or] at hcalls
    cases c with
    | push v => exact ih (push_reachable h hp) (by simpa using hp) (by simpa using hc) hcalls.2 hrun
    | get => exact ih (get_reachable h hc) (by simpa using hp) (by simpa using hc) hcalls.2 hrun
    | popFront => exact absurd rfl hcalls.1

end Owned

end Queue
end Huicpp
