import Mathlib

/-!
# Cxx.KeyedQueue

A queue whose elements have keys, and from which the first element is taken whose key is wanted. Whatever is
wanted each time, the elements of one key come out in the order in which they were put in.
-/

namespace Cxx
namespace KeyedQueue

variable {α κ : Type} {key : α → κ} {want : κ → Bool} {q q' : List α} {m : α}

/-- The first element whose key is wanted, and the queue without it. -/
def takeFirst (key : α → κ) (want : κ → Bool) : List α → Option (α × List α)
  | [] => none
  | m :: q => if want (key m) then some (m, q) else (takeFirst key want q).map fun r => (r.1, m :: r.2)

theorem takeFirst_eq_some (h : takeFirst key want q = some (m, q')) :
    ∃ front rest, q = front ++ m :: rest ∧ q' = front ++ rest ∧ want (key m) = true ∧
      ∀ x ∈ front, want (key x) = false := by
  induction q generalizing m q' with
  | nil => cases h
  | cons x q ih =>
    rw [takeFirst] at h
    split at h
    · rename_i hx
      cases h
      exact ⟨[], q, rfl, rfl, hx, fun y hy => absurd hy List.not_mem_nil⟩
    · rename_i hx
      obtain ⟨r, hr, he⟩ := Option.map_eq_some_iff.mp h
      cases he
      obtain ⟨front, rest, hq, hq', hm, hfront⟩ := ih (hr : _ = some (r.1, r.2))
      exact ⟨x :: front, rest, congrArg (x :: ·) hq, congrArg (x :: ·) hq', hm,
        List.forall_mem_cons.mpr ⟨Bool.eq_false_of_not_eq_true hx, hfront⟩⟩

variable [DecidableEq κ]

/-- The elements of one key. -/
def ofKey (key : α → κ) (k : κ) (q : List α) : List α := q.filter fun m => key m = k

theorem ofKey_append (k : κ) (q q' : List α) : ofKey key k (q ++ q') = ofKey key k q ++ ofKey key k q' :=
  List.filter_append q q'

theorem ofKey_takeFirst (h : takeFirst key want q = some (m, q')) (k : κ) :
    ofKey key k [m] ++ ofKey key k q' = ofKey key k q := by
  obtain ⟨front, rest, rfl, rfl, hm, hfront⟩ := takeFirst_eq_some h
  rw [ofKey_append, show front ++ m :: rest = front ++ ([m] ++ rest) from rfl, ofKey_append, ofKey_append]
  by_cases hk : key m = k
  · -- in front of `m` there is none of its key
    have hnone : ofKey key k front = [] := by
      refine List.filter_eq_nil_iff.mpr fun x hx hxk => ?_
      have hxk : key x = key m := (of_decide_eq_true hxk).trans hk.symm
      have hxw := hfront x hx
      rw [hxk, hm] at hxw
      cases hxw
    rw [hnone, List.nil_append, List.nil_append]
  · have hnone : ofKey key k [m] = [] := by simp [ofKey, hk]
    rw [hnone, List.nil_append, List.nil_append]

/-- Of each key: what was taken, then what is still there, is what was put in. -/
def Delivers (key : α → κ) (putIn got q : List α) : Prop :=
  ∀ k, ofKey key k got ++ ofKey key k q = ofKey key k putIn

variable {putIn got : List α}

theorem Delivers.nil : Delivers key [] [] [] := fun _ => rfl

theorem Delivers.put (h : Delivers key putIn got q) (m : α) : Delivers key (putIn ++ [m]) got (q ++ [m]) := by
  intro k
  rw [ofKey_append, ofKey_append, ← List.append_assoc, h k]

theorem Delivers.take (h : Delivers key putIn got q) (ht : takeFirst key want q = some (m, q')) :
    Delivers key putIn (got ++ [m]) q' := by
  intro k
  rw [ofKey_append, List.append_assoc, ofKey_takeFirst ht, h k]

/-- Nothing is taken twice, and nothing that was not put in. -/
theorem Delivers.perm (h : Delivers key putIn got q) : (got ++ q).Perm putIn := by
  classical
  refine List.perm_iff_count.mpr fun m => ?_
  have hcount : ∀ l : List α, (ofKey key (key m) l).count m = l.count m :=
    fun l => List.count_filter (by simp)
  rw [List.count_append, ← hcount got, ← hcount q, ← hcount putIn, ← h (key m), List.count_append]

end KeyedQueue
end Cxx
