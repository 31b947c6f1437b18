import Mathlib
import Huicpp.Queue.Calls
import Huicpp.Queue.Fifo

/-!
# Queue.InPlace

`FrontPtr` and `popFront` beside `Get`. The element that belongs to a read index is in the slot after
it. `Get` and `popFront` know this; `FrontPtr` points to the slot at the read index, where the element
before it was.

* `Bounded`: the abstract queue, which remembers what is left of the element taken last.
* `Holds`: the queue in memory is that queue.
* `frontAgrees_iff`: when `FrontPtr` agrees with `Get`.
-/

namespace Huicpp
namespace Queue

open Cxx

/-- A queue, and what its objects hold that were moved from. -/
structure InPlace (α : Type) where
  owned : Owned α
  residue : Nat → Option α

namespace InPlace

variable {α : Type}

def init : InPlace α where
  owned := .init
  residue _ := none

/-- The object in a slot. -/
def object (s : InPlace α) (p : Nat) : Option α :=
  match s.owned.queue.data p with
  | .raw => none
  | .live v => some v
  | .moved => s.residue p

def push (size : Nat) (v : α) (s : InPlace α) : InPlace α :=
  { s with owned := (s.owned.push size v).1 }

/-- A move leaves `left v` of `v`: the same value, if the type has only a copy. -/
def get (left : α → α) (size : Nat) (s : InPlace α) : InPlace α × Bool :=
  let nextPos := HSingleFastQueue.nextPos size s.owned.queue.readIndex
  let got := s.owned.get size
  ({ owned := got.1
     residue :=
       if got.2 then Function.update s.residue nextPos ((s.object nextPos).map left)
       else s.residue }, got.2)

/-- Null on an empty queue. -/
def frontPtr (s : InPlace α) : Option Nat :=
  let currentGetPos := s.owned.queue.readIndex
  if currentGetPos = s.owned.queue.writeIndex then none else some currentGetPos

def popFront (size : Nat) (s : InPlace α) : Except (InPlace α) (InPlace α) :=
  match s.owned.popFront size with
  | .ok t => .ok { s with owned := t }
  | .error t => .error { s with owned := t }

def exec (left : α → α) (size : Nat) : Call α → InPlace α → Except (InPlace α) (InPlace α)
  | .push v, s => .ok (s.push size v)
  | .get, s => .ok (s.get left size).1
  | .popFront, s => s.popFront size

def run (left : α → α) (size : Nat) : List (Call α) → InPlace α → Except (InPlace α) (InPlace α)
  | [], s => .ok s
  | c :: cs, s =>
    match exec left size c s with
    | .ok s' => run left size cs s'
    | .error s' => .error s'

end InPlace

/-! ## The abstract queue -/

/-- At most `size - 1` elements, and what is left of the one taken last. -/
structure Bounded (α : Type) where
  pending : List α
  last : Option α
  deriving DecidableEq, Repr

namespace Bounded

variable {α : Type}

def empty : Bounded α := ⟨[], none⟩

def push (size : Nat) (v : α) (q : Bounded α) : Bounded α :=
  if q.pending.length + 1 < size then { q with pending := q.pending ++ [v] } else q

/-- The first element goes; `f` of it is left. -/
def take (f : α → α) (q : Bounded α) : Bounded α :=
  match q.pending with
  | [] => q
  | v :: l => ⟨l, some (f v)⟩

def apply (left : α → α) (size : Nat) : Call α → Bounded α → Bounded α
  | .push v, q => q.push size v
  | .get, q => q.take left
  | .popFront, q => q.take id

def applyAll (left : α → α) (size : Nat) : List (Call α) → Bounded α → Bounded α
  | [], q => q
  | c :: cs, q => applyAll left size cs (apply left size c q)

/-- What is left of the last element equals the first one. -/
def LeftIsFirst (q : Bounded α) : Prop := ∀ v l, q.pending = v :: l → q.last = some v

end Bounded

namespace InPlace

variable {α : Type} {size C : Nat} {s : InPlace α} {q : Bounded α}

/-- The queue in memory, after `C` elements taken. -/
structure Holds (size C : Nat) (s : InPlace α) (q : Bounded α) : Prop where
  read : s.owned.queue.readIndex = C % size
  write : s.owned.queue.writeIndex = (C + q.pending.length) % size
  room : q.pending.length < size
  live : ∀ i v, q.pending[i]? = some v → s.owned.queue.data ((C + i + 1) % size) = .live v
  last : s.object (C % size) = q.last

/-- The elements that are waiting. -/
def Pending (size : Nat) (s : InPlace α) (l : List α) : Prop :=
  ∃ C last, Holds size C s ⟨l, last⟩

/-- `FrontPtr` and `popFront` do together what `Get` does. -/
structure FrontAgrees (left : α → α) (size : Nat) (s : InPlace α) : Prop where
  null : s.frontPtr = none ↔ (s.get left size).2 = false
  object : ∀ p, s.frontPtr = some p → ∃ v, s.object p = some v ∧
    (s.get left size).1.owned.queue.obtained = s.owned.queue.obtained ++ [some v]
  pop : ∀ p, s.frontPtr = some p → ∃ s' l, s.popFront size = .ok s' ∧ s'.Pending size l ∧
    (s.get left size).1.Pending size l

namespace Holds

theorem init (h2 : 2 ≤ size) : Holds size 0 (InPlace.init : InPlace α) .empty where
  read := (Nat.zero_mod size).symm
  write := (Nat.zero_mod size).symm
  room := by
    show 0 < size
    omega
  live := by
    intro i v h
    cases h
  last := rfl

theorem empty_iff (h : Holds size C s q) :
    s.owned.queue.readIndex = s.owned.queue.writeIndex ↔ q.pending = [] := by
  have hroom := h.room
  rw [h.read, h.write, HSingleFastQueue.slot_eq_iff (by omega) (by omega), ← List.length_eq_zero_iff]
  omega

theorem next (h2 : 2 ≤ size) (hlt : size < 2 ^ 32) (h : Holds size C s q) :
    HSingleFastQueue.nextPos size s.owned.queue.readIndex = (C + 1) % size := by
  rw [h.read, HSingleFastQueue.nextPos_mod h2 hlt]

theorem front (h : Holds size C s q) {v : α} {l : List α} (hq : q.pending = v :: l) :
    s.owned.queue.data ((C + 1) % size) = .live v :=
  h.live 0 v (by rw [hq]; rfl)

theorem unique {C' : Nat} {q' : Bounded α} (h : Holds size C s q) (h' : Holds size C' s q')
    (hsize : 0 < size) : q.pending = q'.pending := by
  have hread : C % size = C' % size := h.read.symm.trans h'.read
  have hlen : q.pending.length = q'.pending.length := by
    have hwrite := h.write.symm.trans h'.write
    have hroom := h.room
    have hroom' := h'.room
    rw [Nat.add_mod, Nat.add_mod C', ← hread, Nat.mod_eq_of_lt hroom, Nat.mod_eq_of_lt hroom'] at hwrite
    have hC := Nat.mod_lt C hsize
    rcases Nat.le_total q.pending.length q'.pending.length with hle | hle
    · have := (HSingleFastQueue.slot_eq_iff (by omega) (by omega)).mp hwrite
      omega
    · have := (HSingleFastQueue.slot_eq_iff (by omega) (by omega)).mp hwrite.symm
      omega
  refine List.ext_getElem hlen fun i hi hi' => ?_
  have hslot : (C + i + 1) % size = (C' + i + 1) % size := by
    rw [Nat.add_assoc, Nat.add_mod, hread, ← Nat.add_mod, ← Nat.add_assoc]
  have hdata := h'.live i _ (List.getElem?_eq_getElem hi')
  rw [← hslot, h.live i _ (List.getElem?_eq_getElem hi)] at hdata
  exact Slot.live.inj hdata

theorem push (h2 : 2 ≤ size) (hlt : size < 2 ^ 32) (h : Holds size C s q) (v : α) :
    Holds size C (s.push size v) (q.push size v) := by
  have hroom := h.room
  have hnext : HSingleFastQueue.nextPos size s.owned.queue.writeIndex =
      (C + q.pending.length + 1) % size := by
    rw [h.write, HSingleFastQueue.nextPos_mod h2 hlt]
  have hfree : HSingleFastQueue.nextPos size s.owned.queue.writeIndex ≠
      s.owned.queue.readIndex ↔ q.pending.length + 1 < size := by
    rw [hnext, h.read, Ne, HSingleFastQueue.slot_next_iff (by omega) (by omega)]
    omega
  rw [InPlace.push, Owned.push, Bounded.push]
  by_cases hroom' : q.pending.length + 1 < size
  · rw [if_pos hroom', if_pos (hfree.mpr hroom'), hnext]
    have hother : ∀ k, C ≤ k → k < C + q.pending.length + 1 →
        k % size ≠ (C + q.pending.length + 1) % size :=
      fun k h1 h2 => HSingleFastQueue.slot_ne h2 (by omega)
    refine ⟨h.read, ?_, ?_, ?_, ?_⟩
    · rw [List.length_append, ← Nat.add_assoc]
      rfl
    · rw [List.length_append]
      exact hroom'
    · intro i w hw
      show Function.update s.owned.queue.data _ _ _ = _
      rcases Nat.lt_or_ge i q.pending.length with hi | hi
      · rw [List.getElem?_append_left hi] at hw
        rw [Function.update_of_ne (hother _ (by omega) (by omega))]
        exact h.live i w hw
      · have hlen : i < (q.pending ++ [v]).length := (List.getElem?_eq_some_iff.mp hw).1
        rw [List.length_append, List.length_singleton] at hlen
        obtain rfl : i = q.pending.length := by omega
        rw [List.getElem?_concat_length] at hw
        cases hw
        exact Function.update_self _ _ _
    · rw [← h.last]
      show (match Function.update s.owned.queue.data _ _ _ with | .raw => _ | .live v => _ | .moved => _) = _
      rw [Function.update_of_ne (hother C le_rfl (by omega))]
      rfl
  · rw [if_neg hroom', if_neg (mt hfree.mp hroom')]
    exact h

/-- A take moves the read index on by one slot. It destroys the slot before, and leaves alone the
slots of the elements that are still waiting. -/
theorem take (h2 : 2 ≤ size) (hlt : size < 2 ^ 32) (h : Holds size C s q) {v : α} {l : List α}
    (hq : q.pending = v :: l) {s' : InPlace α} (f : α → α)
    (hread : s'.owned.queue.readIndex = HSingleFastQueue.nextPos size s.owned.queue.readIndex)
    (hwrite : s'.owned.queue.writeIndex = s.owned.queue.writeIndex)
    (hdata : ∀ k, C + 2 ≤ k → k < C + size →
      s'.owned.queue.data (k % size) = s.owned.queue.data (k % size))
    (hlast : s'.object ((C + 1) % size) = some (f v)) :
    Holds size (C + 1) s' ⟨l, some (f v)⟩ := by
  have hroom := h.room
  rw [hq, List.length_cons] at hroom
  refine ⟨?_, ?_, ?_, ?_, hlast⟩
  · rw [hread, h.next h2 hlt]
  · rw [hwrite, h.write, hq, List.length_cons]
    show _ = (C + 1 + l.length) % size
    rw [Nat.add_assoc C 1, Nat.add_comm 1]
  · show l.length < size
    omega
  · intro i w hw
    have hi : i < l.length := (List.getElem?_eq_some_iff.mp hw).1
    rw [hdata _ (by omega) (by omega), Nat.add_assoc C 1, Nat.add_comm 1]
    exact h.live (i + 1) w (by rw [hq]; exact hw)

theorem get_empty (left : α → α) (h : Holds size C s q) (hq : q.pending = []) :
    s.get left size = (s, false) := by
  rw [InPlace.get, Owned.get]
  dsimp only
  rw [if_pos (h.empty_iff.mpr hq)]
  rfl

theorem popFront_empty (h : Holds size C s q) (hq : q.pending = []) :
    s.popFront size = .error s := by
  rw [InPlace.popFront, Owned.popFront]
  dsimp only
  rw [if_pos (h.empty_iff.mpr hq)]

theorem get_cons (h2 : 2 ≤ size) (hlt : size < 2 ^ 32) (left : α → α) (h : Holds size C s q) {v : α}
    {l : List α} (hq : q.pending = v :: l) :
    (s.get left size).2 = true ∧ Holds size (C + 1) (s.get left size).1 ⟨l, some (left v)⟩ ∧
      (s.get left size).1.owned.queue.obtained = s.owned.queue.obtained ++ [some v] := by
  have hne : ¬ s.owned.queue.readIndex = s.owned.queue.writeIndex := by
    rw [h.empty_iff, hq]
    exact List.cons_ne_nil v l
  have hfront := h.front hq
  have hobject : s.object ((C + 1) % size) = some v := by
    rw [InPlace.object, hfront]
  have hstep : (C + 1) % size ≠ C % size := (HSingleFastQueue.slot_ne (by omega) (by omega)).symm
  rw [InPlace.get, Owned.get]
  dsimp only
  rw [if_neg hne, if_pos rfl, h.next h2 hlt, hobject, hfront, h.read]
  refine ⟨rfl, h.take h2 hlt hq left (h.next h2 hlt).symm rfl ?_ ?_, rfl⟩
  · intro k h1 h2
    show Function.update (Function.update s.owned.queue.data _ _) _ _ _ = _
    rw [Function.update_of_ne (HSingleFastQueue.slot_ne (by omega) (by omega)).symm,
      Function.update_of_ne (HSingleFastQueue.slot_ne (by omega) (by omega)).symm]
  · rw [InPlace.object]
    dsimp only
    rw [Function.update_of_ne hstep, Function.update_self, Function.update_self]
    rfl

theorem popFront_cons (h2 : 2 ≤ size) (hlt : size < 2 ^ 32) (h : Holds size C s q) {v : α} {l : List α}
    (hq : q.pending = v :: l) :
    ∃ s', s.popFront size = .ok s' ∧ Holds size (C + 1) s' ⟨l, some v⟩ := by
  have hne : ¬ s.owned.queue.readIndex = s.owned.queue.writeIndex := by
    rw [h.empty_iff, hq]
    exact List.cons_ne_nil v l
  have hstep : (C + 1) % size ≠ C % size := (HSingleFastQueue.slot_ne (by omega) (by omega)).symm
  rw [InPlace.popFront, Owned.popFront]
  dsimp only
  rw [if_neg hne, h.read]
  refine ⟨_, rfl, h.take h2 hlt hq id (by rw [h.read]) rfl ?_ ?_⟩
  · intro k h1 h2
    exact Function.update_of_ne (HSingleFastQueue.slot_ne (by omega) (by omega)).symm _ _
  · rw [InPlace.object]
    dsimp only
    rw [Function.update_of_ne hstep, h.front hq]
    rfl

theorem exec (h2 : 2 ≤ size) (hlt : size < 2 ^ 32) (left : α → α) (h : Holds size C s q) (c : Call α)
    {s' : InPlace α} (hs : InPlace.exec left size c s = .ok s') :
    ∃ C', Holds size C' s' (q.apply left size c) := by
  cases c with
  | push v =>
    cases hs
    exact ⟨C, h.push h2 hlt v⟩
  | get =>
    cases hs
    rw [Bounded.apply, Bounded.take]
    cases hq : q.pending with
    | nil =>
      rw [h.get_empty left hq]
      exact ⟨C, h⟩
    | cons v l => exact ⟨C + 1, (h.get_cons h2 hlt left hq).2.1⟩
  | popFront =>
    rw [InPlace.exec] at hs
    rw [Bounded.apply, Bounded.take]
    cases hq : q.pending with
    | nil =>
      rw [h.popFront_empty hq] at hs
      cases hs
    | cons v l =>
      obtain ⟨s₁, hs₁, h₁⟩ := h.popFront_cons h2 hlt hq
      rw [hs₁] at hs
      cases hs
      exact ⟨C + 1, h₁⟩

theorem run (h2 : 2 ≤ size) (hlt : size < 2 ^ 32) (left : α → α) (h : Holds size C s q)
    (calls : List (Call α)) {s' : InPlace α} (hs : InPlace.run left size calls s = .ok s') :
    ∃ C', Holds size C' s' (q.applyAll left size calls) := by
  induction calls generalizing s q C with
  | nil =>
    cases hs
    exact ⟨C, h⟩
  | cons c cs ih =>
    rw [InPlace.run] at hs
    split at hs
    · next s₁ hs₁ =>
      obtain ⟨C₁, h₁⟩ := h.exec h2 hlt left c hs₁
      exact ih h₁ hs
    · cases hs

/-- `FrontPtr` shows what is left of the last element. -/
theorem agrees_iff (h2 : 2 ≤ size) (hlt : size < 2 ^ 32) (left : α → α) (h : Holds size C s q) :
    s.FrontAgrees left size ↔ q.LeftIsFirst := by
  cases hq : q.pending with
  | nil =>
    have hnull : s.frontPtr = none := if_pos (h.empty_iff.mpr hq)
    refine iff_of_true ⟨?_, ?_, ?_⟩ ?_
    · rw [h.get_empty left hq]
      exact iff_of_true hnull rfl
    · intro p hp
      rw [hnull] at hp
      cases hp
    · intro p hp
      rw [hnull] at hp
      cases hp
    · intro v l hcons
      rw [hq] at hcons
      cases hcons
  | cons v l =>
    obtain ⟨hok, hget, hdelivered⟩ := h.get_cons h2 hlt left hq
    have hfront : s.frontPtr = some (C % size) := by
      have hne : ¬ s.owned.queue.readIndex = s.owned.queue.writeIndex := by
        rw [h.empty_iff, hq]
        exact List.cons_ne_nil v l
      rw [← h.read]
      exact if_neg hne
    constructor
    · intro hagrees w l' hcons
      rw [hq] at hcons
      cases hcons
      obtain ⟨w, hw, hobtained⟩ := hagrees.object _ hfront
      rw [hdelivered] at hobtained
      cases List.append_cancel_left hobtained
      rw [← h.last]
      exact hw
    · intro hleft
      refine ⟨?_, ?_, ?_⟩
      · rw [hfront, hok]
        exact iff_of_false (Option.some_ne_none _) Bool.noConfusion
      · intro p hp
        rw [hfront] at hp
        cases hp
        exact ⟨v, h.last.trans (hleft v l hq), hdelivered⟩
      · intro p _
        obtain ⟨s', hs', hpop⟩ := h.popFront_cons h2 hlt hq
        exact ⟨s', l, hs', ⟨C + 1, _, hpop⟩, ⟨C + 1, _, hget⟩⟩

end Holds

theorem Pending.unique {l l' : List α} (hsize : 0 < size) (h : s.Pending size l)
    (h' : s.Pending size l') : l = l' := by
  obtain ⟨_, _, h⟩ := h
  obtain ⟨_, _, h'⟩ := h'
  exact h.unique h' hsize

end InPlace

open InPlace

/-- **In-place access.** After any calls, `FrontPtr` and `popFront` agree with `Get` exactly if no
element is waiting or what is left of the last element taken equals the first one that is waiting. -/
theorem frontAgrees_iff {α : Type} (left : α → α) (size : Nat) (h2 : 2 ≤ size) (hlt : size < 2 ^ 32)
    (calls : List (Call α)) (s : InPlace α) (hs : run left size calls init = .ok s) :
    s.FrontAgrees left size ↔ (Bounded.empty.applyAll left size calls).LeftIsFirst := by
  obtain ⟨C, h⟩ := (Holds.init h2).run h2 hlt left calls hs
  exact h.agrees_iff h2 hlt left

/-- Two equal elements, one taken in place. -/
theorem frontAgrees_iff_popFront :
    ∃ s, run id 3 [.push 7, .push 7, .popFront] (init : InPlace Nat) = .ok s ∧ s.FrontAgrees id 3 := by
  have hrun : ∃ s, run id 3 [.push 7, .push 7, .popFront] (init : InPlace Nat) = .ok s := ⟨_, rfl⟩
  obtain ⟨s, hs⟩ := hrun
  refine ⟨s, hs, (frontAgrees_iff id 3 (by decide) (by decide) _ s hs).mpr ?_⟩
  intro v l hcons
  cases hcons
  rfl

/-- One element, not taken: `FrontPtr` points to slot 0, which is raw. -/
theorem frontPtr_raw : ∃ s, run id 2 [.push 7] (init : InPlace Nat) = .ok s ∧
    ¬ s.FrontAgrees id 2 := by
  refine ⟨_, rfl, fun h => ?_⟩
  obtain ⟨v, hv, -⟩ := h.object 0 rfl
  cases hv

end Queue
end Huicpp
