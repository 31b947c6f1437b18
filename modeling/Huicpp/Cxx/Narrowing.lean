import Mathlib

/-!
# Cxx.Narrowing

Remainders after a conversion to 32 bits. The conversion takes off a multiple of `2 ^ 32`, and the
remainder of a negative number is not positive: `x` keeps its remainder where neither matters.
-/

namespace Cxx

/-- What is taken off is a multiple of `n`, and what is left is not negative, or has no remainder. -/
def KeepsRem (n x : Int) : Prop := n ∣ x - x.bmod (2 ^ 32) ∧ (0 ≤ x.bmod (2 ^ 32) ∨ n ∣ x)

instance (n x : Int) : Decidable (KeepsRem n x) := inferInstanceAs (Decidable (_ ∧ _))

variable {n x y : Int}

theorem emod_eq_iff : y % n = x % n ↔ n ∣ x - y := by
  rw [eq_comm, Int.emod_eq_emod_iff_emod_sub_eq_zero, Int.dvd_iff_emod_eq_zero]

theorem tmod_neg_eq_iff (hn : 0 < n) (hy : y < 0) : y.tmod n = x % n ↔ n ∣ x - y ∧ n ∣ x := by
  have hx := Int.emod_nonneg x hn.ne'
  have htmod : y.tmod n ≤ 0 := by
    have hneg := Int.tmod_nonneg n (show 0 ≤ -y by omega)
    rw [Int.neg_tmod] at hneg
    omega
  constructor
  · intro h
    have hnx : n ∣ x := Int.dvd_of_emod_eq_zero (by omega)
    have hny : n ∣ y := Int.dvd_of_tmod_eq_zero (by omega)
    exact ⟨dvd_sub hnx hny, hnx⟩
  · rintro ⟨hsub, hnx⟩
    have hny : n ∣ y := (dvd_sub_right hnx).mp hsub
    rw [Int.tmod_eq_zero_of_dvd hny, Int.emod_eq_zero_of_dvd hnx]

theorem bmod_tmod_eq_iff (hn : 0 < n) : (x.bmod (2 ^ 32)).tmod n = x % n ↔ KeepsRem n x := by
  by_cases hy : 0 ≤ x.bmod (2 ^ 32)
  · rw [Int.tmod_eq_emod_of_nonneg hy, emod_eq_iff]
    exact ⟨fun h => ⟨h, .inl hy⟩, And.left⟩
  · rw [tmod_neg_eq_iff hn (Int.not_le.mp hy), KeepsRem, or_iff_right hy]

theorem keepsRem_of_lt (n : Int) (hlo : 0 ≤ x) (hhi : x < 2 ^ 31) : KeepsRem n x := by
  have hsame : x.bmod (2 ^ 32) = x := Int.bmod_eq_of_le (by omega) (by omega)
  rw [KeepsRem, hsame, sub_self]
  exact ⟨dvd_zero n, .inl hlo⟩

end Cxx
