import Mathlib

/-!
# Scheduler.TriggerSet

`TriggerSet`: an array of callables. The id of a trigger is its slot, and a slot with an empty
callable is free. `HSingleScheduler` passes its trigger calls on to its `TriggerSet`.

`s.Holds tid k`: the callable `k` stands in the slot `tid`.
-/

namespace Huicpp
namespace Scheduler

def max_trigger_count : Nat := 128

/-- `κ` names the callables; an empty `std::function` is `none`. -/
structure TriggerSet (κ : Type) where
  m_triggers : Fin max_trigger_count → Option κ

namespace TriggerSet

variable {κ : Type}

/-- The constructor -/
def new : TriggerSet κ := ⟨fun _ => none⟩

def put (s : TriggerSet κ) (i : Fin max_trigger_count) (c : Option κ) : TriggerSet κ :=
  ⟨Function.update s.m_triggers i c⟩

/-- The first slot that the loop of `CreateTrigger` finds free. -/
def firstFree (s : TriggerSet κ) : Option (Fin max_trigger_count) :=
  (List.finRange max_trigger_count).find? fun i => (s.m_triggers i).isNone

/-- What is swapped with the new callable is empty. -/
def createTrigger (s : TriggerSet κ) (new_trigger : Option κ) : Int × TriggerSet κ :=
  match s.firstFree with
  | some i => (i.val, s.put i new_trigger)
  | none => (-1, s)

def removeTrigger (s : TriggerSet κ) (tid : Int) : TriggerSet κ :=
  if h : tid < 0 ∨ tid ≥ max_trigger_count then s else s.put ⟨tid.toNat, by omega⟩ none

def Holds (s : TriggerSet κ) (tid : Int) (k : κ) : Prop :=
  ∃ i : Fin max_trigger_count, tid = i.val ∧ s.m_triggers i = some k

def Full (s : TriggerSet κ) : Prop := ∀ i, s.m_triggers i ≠ none

variable {s : TriggerSet κ} {i j : Fin max_trigger_count} {c : Option κ} {k : κ} {tid : Int}

@[simp] theorem put_self (s : TriggerSet κ) (i : Fin max_trigger_count) (c : Option κ) :
    (s.put i c).m_triggers i = c := Function.update_self ..

theorem put_of_ne (h : j ≠ i) : (s.put i c).m_triggers j = s.m_triggers j :=
  Function.update_of_ne h ..

/-- A free slot stays free when an empty callable is put into it. -/
theorem put_none (h : s.m_triggers i = none) : s.put i none = s := by
  rw [put, ← h, Function.update_eq_self]

theorem holds_val : s.Holds i.val k ↔ s.m_triggers i = some k := by
  constructor
  · rintro ⟨j, hj, hk⟩
    obtain rfl : i = j := Fin.ext (Int.ofNat.inj hj)
    exact hk
  · intro h
    exact ⟨i, rfl, h⟩

theorem Holds.range (h : s.Holds tid k) : 0 ≤ tid ∧ tid < max_trigger_count := by
  obtain ⟨i, rfl, -⟩ := h
  exact ⟨Int.natCast_nonneg _, Int.ofNat_lt.mpr i.isLt⟩

/-! ## `CreateTrigger` -/

theorem firstFree_some (h : s.firstFree = some i) : s.m_triggers i = none := by
  have hnone : (s.m_triggers i).isNone = true :=
    List.find?_some (p := fun i => (s.m_triggers i).isNone) h
  exact Option.isNone_iff_eq_none.mp hnone

theorem firstFree_none_iff : s.firstFree = none ↔ s.Full := by
  rw [firstFree, List.find?_eq_none]
  constructor
  · intro h i hi
    exact h i (List.mem_finRange i) (Option.isNone_iff_eq_none.mpr hi)
  · intro h i _ hi
    exact h i (Option.isNone_iff_eq_none.mp hi)

theorem createTrigger_free (h : s.firstFree = some i) (c : Option κ) :
    s.createTrigger c = ((i.val : Int), s.put i c) := by
  rw [createTrigger, h]

theorem createTrigger_full (h : s.Full) (c : Option κ) : s.createTrigger c = (-1, s) := by
  rw [createTrigger, firstFree_none_iff.mpr h]

theorem holds_put_iff (h : s.m_triggers i = none) {k' : κ} :
    (s.put i (some k)).Holds tid k' ↔ tid = i.val ∧ k' = k ∨ s.Holds tid k' := by
  constructor
  · rintro ⟨j, rfl, hj⟩
    by_cases hji : j = i
    · rw [hji, put_self] at hj
      exact .inl ⟨congrArg _ (congrArg _ hji), (Option.some.inj hj).symm⟩
    · rw [put_of_ne hji] at hj
      exact .inr (holds_val.mpr hj)
  · rintro (⟨rfl, rfl⟩ | ⟨j, rfl, hj⟩)
    · exact holds_val.mpr (put_self ..)
    · have hji : j ≠ i := by
        rintro rfl
        rw [h] at hj
        cases hj
      exact holds_val.mpr ((put_of_ne hji).trans hj)

/-! ## `RemoveTrigger` -/

theorem removeTrigger_apply (s : TriggerSet κ) (tid : Int) (i : Fin max_trigger_count) :
    (s.removeTrigger tid).m_triggers i = if (i.val : Int) = tid then none else s.m_triggers i := by
  rw [removeTrigger]
  split
  · rename_i h
    have hi := i.isLt
    rw [if_neg (by omega)]
  · rename_i h
    by_cases hi : (i.val : Int) = tid
    · have heq : (⟨tid.toNat, by omega⟩ : Fin max_trigger_count) = i := Fin.ext (by simp [← hi])
      rw [if_pos hi, heq, put_self]
    · have hne : i ≠ ⟨tid.toNat, by omega⟩ := by
        rintro rfl
        simp only at hi
        omega
      rw [if_neg hi, put_of_ne hne]

theorem holds_removeTrigger_iff {t : Int} :
    (s.removeTrigger t).Holds tid k ↔ s.Holds tid k ∧ tid ≠ t := by
  constructor
  · rintro ⟨i, rfl, hi⟩
    rw [removeTrigger_apply] at hi
    by_cases ht : (i.val : Int) = t
    · rw [if_pos ht] at hi
      cases hi
    · rw [if_neg ht] at hi
      exact ⟨⟨i, rfl, hi⟩, ht⟩
  · rintro ⟨⟨i, rfl, hi⟩, ht⟩
    refine ⟨i, rfl, ?_⟩
    rw [removeTrigger_apply, if_neg ht]
    exact hi

end TriggerSet

end Scheduler
end Huicpp
