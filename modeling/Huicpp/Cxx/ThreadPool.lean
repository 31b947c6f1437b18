import Mathlib

/-!
# Cxx.ThreadPool

A measure of one thread, summed over finitely many threads. A step of one thread changes the sum by
the change of its own summand.
-/

namespace Cxx

variable {ι τ M : Type} [Fintype ι] [AddCommMonoid M]

/-- The sum of `f` over all threads. -/
def total (f : τ → M) (threads : ι → τ) : M := ∑ i, f (threads i)

theorem total_update [DecidableEq ι] (f : τ → M) (threads : ι → τ) (i : ι) (t : τ) :
    total f (Function.update threads i t) + f (threads i) = total f threads + f t := by
  have hmove : ∀ j, f (Function.update threads i t j)
      = Function.update (fun j => f (threads j)) i (f t) j :=
    Function.apply_update (fun _ => f) threads i t
  rw [total, total, Finset.sum_congr rfl fun j _ => hmove j,
    Finset.sum_update_of_mem (Finset.mem_univ i),
    Finset.sum_eq_add_sum_sdiff_singleton_of_mem (Finset.mem_univ i) fun j => f (threads j)]
  abel

theorem total_update_same [DecidableEq ι] {f : τ → M} {threads : ι → τ} {i : ι} {t : τ}
    (h : f t = f (threads i)) : total f (Function.update threads i t) = total f threads := by
  refine Finset.sum_congr rfl fun j _ => ?_
  by_cases hj : j = i
  · subst hj
    rw [Function.update_self, h]
  · rw [Function.update_of_ne hj]

@[simp] theorem total_const (f : τ → M) (t : τ) :
    total f (fun _ : ι => t) = Fintype.card ι • f t := by
  rw [total, Finset.sum_const, Finset.card_univ]

theorem total_eq_zero {f : τ → M} {threads : ι → τ} (h : ∀ i, f (threads i) = 0) :
    total f threads = 0 := Finset.sum_eq_zero fun i _ => h i

theorem le_total (f : τ → Nat) (threads : ι → τ) (i : ι) : f (threads i) ≤ total f threads :=
  Finset.single_le_sum (f := fun j => f (threads j)) (fun _ _ => Nat.zero_le _) (Finset.mem_univ i)

end Cxx
