import Mathlib
import Huicpp.Cxx.TransitionSystem

/-!
# Cxx.BlockingQueue

A queue in a monitor: a mutex, a condition variable and the elements. Producers append and then
signal; a consumer that finds the queue empty waits, and looks again when it is woken. Every
critical section is one event. A woken consumer has not got the element that it was woken for:
another one may take it first.

* `popped_in_order`: what is taken is what was appended, in the same order.
* `no_lost_wakeup`: nobody sleeps beside an element that no signal and no woken consumer is for.
-/

namespace Cxx

/-- A consumer's position with respect to the condition variable. -/
inductive WaitPhase where
  | running
  | waiting
  | woken
  deriving DecidableEq, Repr

/-- `toSignal` counts the elements that are appended and not yet signalled. -/
structure BlockingQueue (ι α : Type) where
  queue : List α
  phase : ι → WaitPhase
  toSignal : Nat

/-- What happens to the queue. `pop i as`: consumer `i` leaves with the elements `as`. -/
inductive QueueEvent (ι α : Type) where
  | push (a : α)
  | signal
  | wait (i : ι)
  | wake (i : ι)
  | pop (i : ι) (as : List α)
  deriving DecidableEq, Repr

namespace QueueEvent

variable {ι α : Type}

def pushed : QueueEvent ι α → List α
  | .push a => [a]
  | _ => []

def popped : QueueEvent ι α → List α
  | .pop _ as => as
  | _ => []

end QueueEvent

namespace BlockingQueue

variable {ι α : Type}

def init : BlockingQueue ι α where
  queue := []
  phase _ := .running
  toSignal := 0

/-- One critical section, one signal or one wake-up. A wake-up needs no signal, and the first
element or all of them may be taken. -/
inductive Step [DecidableEq ι] : BlockingQueue ι α → QueueEvent ι α → BlockingQueue ι α → Prop where
  | push (q : BlockingQueue ι α) (a : α) :
      Step q (.push a) { q with queue := q.queue ++ [a], toSignal := q.toSignal + 1 }
  | signal (q : BlockingQueue ι α) (i : ι) :
      0 < q.toSignal → q.phase i = .waiting →
      Step q .signal { q with
        phase := Function.update q.phase i .woken
        toSignal := q.toSignal - 1 }
  | signalNobody (q : BlockingQueue ι α) :
      0 < q.toSignal → (∀ i, q.phase i ≠ .waiting) →
      Step q .signal { q with toSignal := q.toSignal - 1 }
  | wait (q : BlockingQueue ι α) (i : ι) :
      q.phase i ≠ .waiting → q.queue = [] →
      Step q (.wait i) { q with phase := Function.update q.phase i .waiting }
  | wake (q : BlockingQueue ι α) (i : ι) :
      q.phase i = .waiting →
      Step q (.wake i) { q with phase := Function.update q.phase i .woken }
  | popFront (q : BlockingQueue ι α) (i : ι) (a : α) (rest : List α) :
      q.phase i ≠ .waiting → q.queue = a :: rest →
      Step q (.pop i [a]) { q with queue := rest, phase := Function.update q.phase i .running }
  | popAll (q : BlockingQueue ι α) (i : ι) :
      q.phase i ≠ .waiting → q.queue ≠ [] →
      Step q (.pop i q.queue) { q with queue := [], phase := Function.update q.phase i .running }

variable [DecidableEq ι]

def system (ι α : Type) [DecidableEq ι] : TransitionSystem (BlockingQueue ι α) (QueueEvent ι α) where
  init q := q = init
  step := Step

/-- What is taken comes off the front, and what is appended goes to the back. -/
theorem Step.balance {q q' : BlockingQueue ι α} {e : QueueEvent ι α} (h : Step q e q') :
    q.queue ++ e.pushed = e.popped ++ q'.queue := by
  cases h with
  | push a => rfl
  | signal i _ _ => exact List.append_nil _
  | signalNobody _ _ => exact List.append_nil _
  | wait i _ _ => exact List.append_nil _
  | wake i _ => exact List.append_nil _
  | popFront i a rest _ hq =>
    rw [hq]
    exact List.append_nil _
  | popAll i _ _ => rfl

/-- First in, first out: the elements that were taken, in the order in which they were, are the
first ones that were appended. -/
theorem popped_in_order {tr : List (QueueEvent ι α)} {q : BlockingQueue ι α} (h : (system ι α).Run tr q) :
    tr.flatMap QueueEvent.pushed = tr.flatMap QueueEvent.popped ++ q.queue := by
  refine h.invariant
    (fun tr q => tr.flatMap QueueEvent.pushed = tr.flatMap QueueEvent.popped ++ q.queue) ?_ ?_
  · rintro q rfl
    rfl
  · intro tr q e q' ih hs
    rw [List.flatMap_append, List.flatMap_append, ih, List.append_assoc, List.append_assoc,
      List.flatMap_singleton, List.flatMap_singleton, Step.balance hs]

/-! ## Wake-ups -/

/-- `woken` are the consumers on their way. While somebody sleeps there are no more elements than
signals to be sent and consumers on their way. -/
structure Attended (q : BlockingQueue ι α) (woken : List ι) : Prop where
  nodup : woken.Nodup
  mem : ∀ i, i ∈ woken ↔ q.phase i = .woken
  enough : (∃ i, q.phase i = .waiting) → q.queue.length ≤ q.toSignal + woken.length

namespace Attended

variable {q : BlockingQueue ι α} {woken : List ι} {i : ι}

theorem mem_wake (h : q.Attended woken) (j : ι) :
    j ∈ i :: woken ↔ Function.update q.phase i .woken j = .woken := by
  by_cases hj : j = i
  · rw [hj, Function.update_self]
    simp
  · rw [Function.update_of_ne hj, ← h.mem, List.mem_cons]
    simp [hj]

theorem mem_erase (h : q.Attended woken) {p : WaitPhase} (hp : p ≠ .woken) (j : ι) :
    j ∈ woken.erase i ↔ Function.update q.phase i p j = .woken := by
  rw [h.nodup.mem_erase_iff]
  by_cases hj : j = i
  · rw [hj, Function.update_self]
    simp [hp]
  · rw [Function.update_of_ne hj, ← h.mem]
    simp [hj]

theorem wake (h : q.Attended woken) (hi : q.phase i = .waiting) (toSignal : Nat)
    (hle : q.toSignal ≤ toSignal + 1) :
    Attended { q with phase := Function.update q.phase i .woken, toSignal := toSignal }
      (i :: woken) where
  nodup := by
    refine List.nodup_cons.mpr ⟨fun hmem => ?_, h.nodup⟩
    have hw := (h.mem i).mp hmem
    rw [hi] at hw
    cases hw
  mem := h.mem_wake
  enough _ := by
    have hlen := h.enough ⟨i, hi⟩
    show q.queue.length ≤ toSignal + (woken.length + 1)
    omega

theorem leave (h : q.Attended woken) {p : WaitPhase} (hp : p ≠ .woken) (queue : List α)
    (hq : (∃ j, Function.update q.phase i p j = .waiting) →
      queue.length ≤ q.toSignal + (woken.erase i).length) :
    Attended { q with queue := queue, phase := Function.update q.phase i p } (woken.erase i) where
  nodup := h.nodup.erase i
  mem := h.mem_erase hp
  enough := hq

end Attended

theorem Step.attended {q q' : BlockingQueue ι α} {e : QueueEvent ι α} {woken : List ι}
    (h : q.Attended woken) (hs : Step q e q') : ∃ woken', q'.Attended woken' := by
  cases hs with
  | push a =>
    refine ⟨woken, h.nodup, h.mem, fun hw => ?_⟩
    have hlen := h.enough hw
    show (q.queue ++ [a]).length ≤ q.toSignal + 1 + woken.length
    rw [List.length_append, List.length_singleton]
    omega
  | signal i hpos hi => exact ⟨i :: woken, h.wake hi _ (by omega)⟩
  | signalNobody hpos hnone =>
    refine ⟨woken, h.nodup, h.mem, fun ⟨i, hi⟩ => ?_⟩
    exact absurd hi (hnone i)
  | wait i _ hq =>
    refine ⟨_, h.leave (i := i) (by decide) q.queue fun _ => ?_⟩
    rw [hq]
    exact Nat.zero_le _
  | wake i hi => exact ⟨i :: woken, h.wake hi q.toSignal (Nat.le_succ _)⟩
  | popFront i a rest hi hq =>
    refine ⟨_, h.leave (by decide) rest fun ⟨j, hj⟩ => ?_⟩
    have hji : j ≠ i := by
      rintro rfl
      rw [Function.update_self] at hj
      cases hj
    rw [Function.update_of_ne hji] at hj
    have hlen := h.enough ⟨j, hj⟩
    have herase : woken.length - 1 ≤ (woken.erase i).length := List.le_length_erase
    rw [hq, List.length_cons] at hlen
    omega
  | popAll i _ _ => exact ⟨_, h.leave (by decide) [] fun _ => Nat.zero_le _⟩

theorem exists_attended {q : BlockingQueue ι α} (h : (system ι α).Reachable q) :
    ∃ woken, q.Attended woken := by
  refine h.invariant (fun q => ∃ woken, q.Attended woken) ?_ ?_
  · rintro q rfl
    refine ⟨[], .nil, fun i => ?_, fun _ => Nat.zero_le _⟩
    simp [init]
  · rintro q e q' ⟨woken, hq⟩ hs
    exact hs.attended hq

/-- No wake-up is lost: an element beside a sleeping consumer has a signal still to be sent, or a
woken consumer on its way. -/
theorem no_lost_wakeup {q : BlockingQueue ι α} (h : (system ι α).Reachable q) (hq : q.queue ≠ [])
    {i : ι} (hi : q.phase i = .waiting) : 0 < q.toSignal ∨ ∃ j, q.phase j = .woken := by
  obtain ⟨woken, hw⟩ := exists_attended h
  have hlen := hw.enough ⟨i, hi⟩
  have hpos : 0 < q.queue.length := List.length_pos_iff.mpr hq
  cases woken with
  | nil => exact .inl (by simpa using Nat.lt_of_lt_of_le hpos hlen)
  | cons j _ => exact .inr ⟨j, (hw.mem j).mp List.mem_cons_self⟩

end BlockingQueue
end Cxx
