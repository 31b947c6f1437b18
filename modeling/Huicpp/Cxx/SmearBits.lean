import Mathlib

/-!
# Cxx.SmearBits

Filling a number with ones below its highest bit, by shifts that are or-ed to it.

`Smeared n k x`: the ones of `x` are those of `n`, each with the `k - 1` places below it. A shift by up
to `k` extends this (`Smeared.shift`), and once `k` reaches the length of `n` the number is all ones
(`Smeared.ones`).
-/

namespace Cxx

def Smeared (n k x : Nat) : Prop :=
  ∀ i, x.testBit i = true ↔ ∃ j, i ≤ j ∧ j < i + k ∧ n.testBit j = true

namespace Smeared

variable {n k m x : Nat}

theorem start (n : Nat) : Smeared n 1 n := by
  intro i
  constructor
  · intro hi
    exact ⟨i, le_rfl, Nat.lt_succ_self i, hi⟩
  · rintro ⟨j, hij, hji, hj⟩
    obtain rfl : j = i := by omega
    exact hj

theorem shift (h : Smeared n k x) (hm : m ≤ k) : Smeared n (k + m) (x ||| x >>> m) := by
  intro i
  rw [Nat.testBit_or, Nat.testBit_shiftRight, Bool.or_eq_true, h, h]
  constructor
  · rintro (⟨j, hij, hji, hj⟩ | ⟨j, hij, hji, hj⟩)
    · exact ⟨j, hij, by omega, hj⟩
    · exact ⟨j, by omega, by omega, hj⟩
  · rintro ⟨j, hij, hji, hj⟩
    by_cases hlow : j < i + k
    · exact .inl ⟨j, hij, hlow, hj⟩
    · exact .inr ⟨j, by omega, by omega, hj⟩

theorem ones (h : Smeared n k x) (hn : n < 2 ^ k) : x = 2 ^ n.size - 1 := by
  have hk : n.size ≤ k := Nat.size_le.mpr hn
  refine Nat.eq_of_testBit_eq fun i => ?_
  rw [Nat.testBit_two_pow_sub_one, Bool.eq_iff_iff, h, decide_eq_true_eq]
  constructor
  · rintro ⟨j, hij, -, hj⟩
    have hlow : j < n.size := Nat.lt_size.mpr (Nat.ge_two_pow_of_testBit hj)
    omega
  · intro hi
    obtain ⟨j, hij, hj⟩ := Nat.exists_ge_and_testBit_of_ge_two_pow (Nat.lt_size.mp hi)
    have hlow : j < n.size := Nat.lt_size.mpr (Nat.ge_two_pow_of_testBit hj)
    exact ⟨j, hij, by omega, hj⟩

end Smeared

end Cxx
