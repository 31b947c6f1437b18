import Mathlib

/-!
# Cxx.BijectiveBase

Bijective numeration in base `b`. A digit `d < b` stands for `d + 1`, so there is no zero digit and
every number has exactly one expansion, leading digits included. Digits come least significant
first.

* `bijVal_bijDigits`, `bijDigits_bijVal`: the two maps are inverse to each other.
* `bijDigits_length`: the expansion has `k` digits exactly between two repunits.
-/

namespace Cxx

/-- The number with the given digits. -/
def bijVal (b : Nat) : List Nat → Nat
  | [] => 0
  | d :: ds => d + 1 + b * bijVal b ds

/-- The digits of a number. -/
def bijDigits (b : Nat) : Nat → List Nat
  | 0 => []
  | n + 1 => n % b :: bijDigits b (n / b)
termination_by n => n
decreasing_by exact Nat.lt_succ_of_le (Nat.div_le_self n b)

/-- `1 + b + ... + b^(k-1)`. -/
def repunit (b k : Nat) : Nat := ∑ i ∈ Finset.range k, b ^ i

theorem repunit_succ (b k : Nat) : repunit b (k + 1) = 1 + b * repunit b k := by
  rw [repunit, repunit, Finset.sum_range_succ', Finset.mul_sum, Nat.add_comm]
  simp [Nat.pow_succ']

@[simp] theorem repunit_zero (b : Nat) : repunit b 0 = 0 := by simp [repunit]

theorem bijDigits_zero (b : Nat) : bijDigits b 0 = [] := by rw [bijDigits]

theorem bijDigits_succ (b n : Nat) : bijDigits b (n + 1) = n % b :: bijDigits b (n / b) := by
  rw [bijDigits]

theorem bijDigits_lt {b : Nat} (hb : 0 < b) (n : Nat) : ∀ d ∈ bijDigits b n, d < b := by
  induction n using Nat.strongRecOn with
  | ind n ih =>
    cases n with
    | zero => simp [bijDigits_zero]
    | succ n =>
      intro d hd
      rw [bijDigits_succ] at hd
      rcases List.mem_cons.mp hd with rfl | hd
      · exact Nat.mod_lt _ hb
      · exact ih (n / b) (Nat.lt_succ_of_le (Nat.div_le_self n b)) d hd

theorem bijVal_bijDigits (b n : Nat) : bijVal b (bijDigits b n) = n := by
  induction n using Nat.strongRecOn with
  | ind n ih =>
    cases n with
    | zero => rw [bijDigits_zero, bijVal]
    | succ n =>
      rw [bijDigits_succ, bijVal, ih (n / b) (Nat.lt_succ_of_le (Nat.div_le_self n b))]
      have := Nat.mod_add_div n b
      omega

theorem bijDigits_bijVal {b : Nat} {ds : List Nat} (h : ∀ d ∈ ds, d < b) :
    bijDigits b (bijVal b ds) = ds := by
  induction ds with
  | nil => exact bijDigits_zero b
  | cons d ds ih =>
    have hd : d < b := h d (by simp)
    have hval : bijVal b (d :: ds) = d + b * bijVal b ds + 1 := by rw [bijVal]; omega
    rw [hval, bijDigits_succ, Nat.add_mul_mod_self_left, Nat.mod_eq_of_lt hd,
      Nat.add_mul_div_left _ _ (by omega), Nat.div_eq_of_lt hd, Nat.zero_add,
      ih fun d hd => h d (by simp [hd])]

theorem bijDigits_length {b : Nat} (hb : 0 < b) (n k : Nat) :
    (bijDigits b n).length = k ↔ repunit b k ≤ n ∧ n < repunit b (k + 1) := by
  induction k generalizing n with
  | zero =>
    cases n with
    | zero => simp [bijDigits_zero, repunit_succ]
    | succ n => simp [bijDigits_succ, repunit_succ]
  | succ k ih =>
    cases n with
    | zero => simp [bijDigits_zero, repunit_succ]
    | succ n =>
      have h1 : repunit b (k + 1) ≤ n + 1 ↔ repunit b k ≤ n / b := by
        rw [repunit_succ, Nat.le_div_iff_mul_le hb, Nat.mul_comm]; omega
      have h2 : n + 1 < repunit b (k + 1 + 1) ↔ n / b < repunit b (k + 1) := by
        rw [repunit_succ b (k + 1), Nat.div_lt_iff_lt_mul hb, Nat.mul_comm b]; omega
      rw [bijDigits_succ, List.length_cons, h1, h2, ← ih]
      omega

theorem repunit_mul (b k : Nat) : b * repunit b k = ∑ i ∈ Finset.Icc 1 k, b ^ i := by
  induction k with
  | zero => simp
  | succ k ih =>
    rw [Finset.sum_Icc_succ_top (by omega), ← ih, repunit, repunit, Finset.sum_range_succ,
      Nat.mul_add, Nat.pow_succ']

end Cxx
