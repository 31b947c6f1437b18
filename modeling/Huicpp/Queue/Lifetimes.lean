import Mathlib
import Huicpp.Queue.Calls
import Huicpp.Queue.Fifo

/-!
# Queue.Lifetimes

Which objects the queue destroys. After `P` objects pushed and `C` taken the constructed slots are
`C, …, P`, without slot 0 of the beginning, and each `Get` and `popFront` destroys the slot at `C`.
So the first one runs a destructor on raw memory, and the destructor of the queue stops one slot
short of the last object.
-/

namespace Huicpp
namespace Queue

open Cxx

/-- The calls up to the first `popFront` contain no `Push`. -/
def PushFree {α : Type} : List (Call α) → Prop
  | [] => True
  | .push _ :: _ => False
  | .get :: cs => PushFree cs
  | .popFront :: _ => True

/-- `P` objects have been constructed, in the slots `1, …, P` modulo the size, and the slots before
`C` have been destroyed. -/
structure Ledger (size P C : Nat) (s : Storage Nat) : Prop where
  constructed : s.constructed = P
  destroyed : s.destroyed = List.range (C - 1)
  destroyedRaw : s.destroyedRaw = if C = 0 then [] else [0]
  overwritten : s.overwritten = []
  held : ∀ k, C ≤ k → k ≤ P → 1 ≤ k → s.object (k % size) = some (k - 1)
  only : ∀ c o, s.object c = some o → ∃ k, C ≤ k ∧ k ≤ P ∧ 1 ≤ k ∧ c = k % size

variable {α : Type} {size P C : Nat} {s : Storage Nat}

namespace Ledger

theorem raw : Ledger size 0 0 .raw where
  constructed := rfl
  destroyed := rfl
  destroyedRaw := rfl
  overwritten := rfl
  held k _ h0 h1 := by omega
  only c o h := by cases h

theorem construct (h : Ledger size P C s) (hle : C ≤ P) (hroom : P + 1 < C + size) :
    Ledger size (P + 1) C (s.construct ((P + 1) % size)) := by
  have hraw : s.object ((P + 1) % size) = none := by
    cases hc : s.object ((P + 1) % size) with
    | none => rfl
    | some o =>
      obtain ⟨k, hCk, hkP, _, hk⟩ := h.only _ _ hc
      exact absurd hk.symm (HSingleFastQueue.slot_ne (by omega) (by omega))
  refine ⟨by simp [Storage.construct, h.constructed], h.destroyed, h.destroyedRaw,
    by simp [Storage.construct, h.overwritten, hraw], ?_, ?_⟩
  · intro k hCk hkP hk
    rw [Storage.construct_object]
    rcases Nat.lt_succ_iff_lt_or_eq.mp (Nat.lt_succ_of_le hkP) with hlt | rfl
    · have hne : k % size ≠ (P + 1) % size := HSingleFastQueue.slot_ne hlt (by omega)
      rw [Function.update_of_ne hne]
      exact h.held k hCk (by omega) hk
    · simp [h.constructed]
  · intro c o hc
    rw [Storage.construct_object, Function.update_apply] at hc
    split at hc
    · next heq => exact ⟨P + 1, by omega, le_rfl, by omega, heq⟩
    · obtain ⟨k, hCk, hkP, hk, hck⟩ := h.only c o hc
      exact ⟨k, hCk, by omega, hk, hck⟩

theorem destroy (h : Ledger size P C s) (hlt : C < P) (hroom : P < C + size) :
    Ledger size P (C + 1) (s.destroy (C % size)) := by
  have hledger : (s.destroy (C % size)).destroyed = List.range C ∧
      (s.destroy (C % size)).destroyedRaw = [0] := by
    cases C with
    | zero =>
      -- the read index starts at a slot that nothing was ever constructed in
      have hraw : s.object (0 % size) = none := by
        cases hc : s.object (0 % size) with
        | none => rfl
        | some o =>
          obtain ⟨k, _, hkP, hk, hck⟩ := h.only _ _ hc
          exact absurd hck (HSingleFastQueue.slot_ne hk (by omega))
      obtain ⟨hd, hr⟩ := Storage.destroy_raw hraw
      rw [hd, hr, h.destroyed, h.destroyedRaw]
      simp
    | succ C =>
      obtain ⟨hd, hr⟩ := Storage.destroy_live (h.held (C + 1) le_rfl (by omega) (by omega))
      rw [hd, hr, h.destroyed, h.destroyedRaw]
      simp [List.range_succ]
  refine ⟨by simp [h.constructed], hledger.1, hledger.2, by simp [h.overwritten], ?_, ?_⟩
  · intro k hCk hkP hk
    have hne : k % size ≠ C % size := (HSingleFastQueue.slot_ne hCk (by omega)).symm
    rw [Storage.destroy_object, Function.update_of_ne hne]
    exact h.held k (by omega) hkP hk
  · intro c o hc
    rw [Storage.destroy_object, Function.update_apply] at hc
    split at hc
    · cases hc
    · next hne =>
      obtain ⟨k, hCk, hkP, hk, hck⟩ := h.only c o hc
      have hkC : k ≠ C := by
        rintro rfl
        exact hne hck
      exact ⟨k, by omega, hkP, hk, hck⟩

theorem sound_iff (h : Ledger size P P s) : s.Sound ↔ P = 0 := by
  simp [Storage.Sound, h.destroyedRaw, h.overwritten]

theorem allDestroyedOnce_iff (h : Ledger size P P s) : s.AllDestroyedOnce ↔ P = 0 := by
  rw [Storage.AllDestroyedOnce, h.constructed, h.destroyed]
  constructor
  · intro hall
    by_contra hP
    have hlast := hall (P - 1) (by omega)
    rw [List.count_eq_zero.mpr (by simp)] at hlast
    cases hlast
  · intro hP o ho
    omega

/-- The destructor of the queue destroys what is before the write index and ends there. -/
theorem destroyFrom (h2 : 2 ≤ size) (hlt : size < 2 ^ 32) (fuel : Nat) (h : Ledger size P C s)
    (hle : C ≤ P) (hroom : P < C + size) (hfuel : P ≤ C + fuel) :
    Ledger size P P (Owned.destroyFrom size fuel (C % size) (P % size) s) := by
  induction fuel generalizing C s with
  | zero =>
    obtain rfl : C = P := by omega
    exact h
  | succ fuel ih =>
    rw [Owned.destroyFrom]
    split
    · next heq =>
      obtain rfl := (HSingleFastQueue.slot_eq_iff hle hroom).mp heq
      exact h
    · next hne =>
      have hlt' : C < P := lt_of_le_of_ne hle fun hCP => hne (by rw [hCP])
      dsimp only
      rw [HSingleFastQueue.wrap_mod h2 (by omega)]
      exact ih (h.destroy hlt' hroom) (by omega) (by omega) (by omega)

end Ledger

namespace Owned

/-- The indices are where the ledger says. -/
structure Inv (size P C : Nat) (t : Owned α) : Prop where
  read : t.queue.readIndex = C % size
  write : t.queue.writeIndex = P % size
  le : C ≤ P
  room : P < C + size
  ledger : Ledger size P C t.storage

namespace Inv

variable {t : Owned α}

theorem init (h2 : 2 ≤ size) : Inv size 0 0 (Owned.init : Owned α) where
  read := (Nat.zero_mod size).symm
  write := (Nat.zero_mod size).symm
  le := le_rfl
  room := by omega
  ledger := .raw

theorem empty_iff (h : Inv size P C t) : t.queue.readIndex = t.queue.writeIndex ↔ C = P := by
  rw [h.read, h.write]
  exact HSingleFastQueue.slot_eq_iff h.le h.room

theorem push (h2 : 2 ≤ size) (hlt : size < 2 ^ 32) (h : Inv size P C t) (v : α) :
    ∃ P', P ≤ P' ∧ 1 ≤ P' ∧ Inv size P' C (t.push size v).1 := by
  rw [Owned.push, h.write, HSingleFastQueue.nextPos_mod h2 hlt, h.read]
  dsimp only
  have hle := h.le
  have hroom := h.room
  have hfull_iff := HSingleFastQueue.slot_next_iff hle hroom
  split
  · next hne =>
    have hroom' : P + 1 < C + size := lt_of_le_of_ne (by omega) (mt hfull_iff.mpr hne)
    exact ⟨P + 1, by omega, by omega, h.read, rfl, by omega, hroom', h.ledger.construct hle hroom'⟩
  · next hfull =>
    have hfull := hfull_iff.mp (not_not.mp hfull)
    exact ⟨P, le_rfl, by omega, h⟩

theorem take (h2 : 2 ≤ size) (hlt : size < 2 ^ 32) (h : Inv size P C t) (data : Nat → Slot α)
    (obtained : List (Option α)) (hne : t.queue.readIndex ≠ t.queue.writeIndex) :
    Inv size P (C + 1)
      { queue := { t.queue with
          data := data
          readIndex := HSingleFastQueue.nextPos size t.queue.readIndex
          obtained := obtained }
        storage := t.storage.destroy t.queue.readIndex } := by
  have hCP : C < P := lt_of_le_of_ne h.le fun hCP => hne (h.empty_iff.mpr hCP)
  have hroom := h.room
  rw [h.read, HSingleFastQueue.nextPos_mod h2 hlt]
  exact ⟨rfl, h.write, hCP, by omega, h.ledger.destroy hCP hroom⟩

theorem get (h2 : 2 ≤ size) (hlt : size < 2 ^ 32) (h : Inv size P C t) :
    ∃ C', Inv size P C' (t.get size).1 := by
  rw [Owned.get]
  dsimp only
  split
  · exact ⟨C, h⟩
  · next hne => exact ⟨C + 1, h.take h2 hlt _ _ hne⟩

end Inv

/-- Where a program stands at its end, with the objects pushed and the slots destroyed. -/
def EndsAt (size P C : Nat) : Except (Owned α) (Owned α) → Prop
  | .ok t => Inv size P C t
  | .error t => Inv size P C t ∧ C = P

theorem run_endsAt (h2 : 2 ≤ size) (hlt : size < 2 ^ 32) (calls : List (Call α)) {t : Owned α}
    (h : Inv size P C t) :
    ∃ P' C', P ≤ P' ∧ EndsAt size P' C' (run size calls t) ∧ (P = 0 → (P' = 0 ↔ PushFree calls)) := by
  induction calls generalizing P C t with
  | nil => exact ⟨P, C, le_rfl, h, fun hP => by simp [hP, PushFree]⟩
  | cons c cs ih =>
    cases c with
    | push v =>
      obtain ⟨P₁, hPP, hP₁, h₁⟩ := h.push h2 hlt v
      obtain ⟨P', C', hle, hend, -⟩ := ih h₁
      exact ⟨P', C', by omega, hend, fun _ => by simp [PushFree]; omega⟩
    | get =>
      obtain ⟨C₁, h₁⟩ := h.get h2 hlt
      obtain ⟨P', C', hle, hend, hfree⟩ := ih h₁
      exact ⟨P', C', hle, hend, hfree⟩
    | popFront =>
      by_cases he : t.queue.readIndex = t.queue.writeIndex
      · have hCP := h.empty_iff.mp he
        refine ⟨P, C, le_rfl, ?_, fun hP => by simp [hP, PushFree]⟩
        rw [run, exec, popFront, if_pos he]
        exact ⟨h, hCP⟩
      · obtain ⟨P', C', hle, hend, -⟩ := ih (h.take h2 hlt _ t.queue.obtained he)
        have hCP : C ≠ P := fun hCP => he (h.empty_iff.mpr hCP)
        have hCP' := h.le
        refine ⟨P', C', hle, ?_, fun hP => by omega⟩
        rw [run, exec, popFront, if_neg he]
        exact hend

theorem lifetimes_iff (size : Nat) (h2 : 2 ≤ size) (hlt : size < 2 ^ 32) (calls : List (Call α)) :
    LifetimesBalanced size (run size calls init) ↔ PushFree calls := by
  obtain ⟨P, C, -, hend, hfree⟩ := run_endsAt h2 hlt calls (Inv.init h2)
  rw [← hfree rfl]
  cases hrun : run size calls init with
  | error t =>
    rw [hrun] at hend
    obtain ⟨hinv, rfl⟩ := hend
    exact hinv.ledger.sound_iff
  | ok t =>
    rw [hrun] at hend
    have hledger : Ledger size P P (t.destructor size) := by
      rw [destructor, hend.read, hend.write]
      exact hend.ledger.destroyFrom h2 hlt size hend.le hend.room hend.room.le
    rw [LifetimesBalanced, hledger.sound_iff, hledger.allDestroyedOnce_iff, and_self]

/-- One value pushed and taken again. -/
theorem lifetimes_iff_pushGet : ¬ LifetimesBalanced 2 (run 2 [.push 7, .get] (init : Owned Nat)) :=
  fun h => (lifetimes_iff 2 (by decide) (by decide) [.push 7, .get]).mp h

/-- One value pushed: the destructor of the queue destroys slot 0, which is raw, and leaves the value
in slot 1. -/
theorem push_leaks : ¬ LifetimesBalanced 2 (run 2 [.push 7] (init : Owned Nat)) := by
  intro h
  exact absurd h.1.1 (by decide)

end Owned

end Queue
end Huicpp
