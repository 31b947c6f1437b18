import Mathlib
import Huicpp.Cxx.Prog
import Huicpp.Cxx.SmearBits

/-!
# Utils.Ceil2Pow2

The least power of two that is not below a number: all ones below the highest bit of `x - 1`, and one
more. The shifts by 1, 2 and 4 are written out, the others come from a loop.
-/

namespace Huicpp
namespace Utils

open Cxx Prog

/-- `x |= x >> k` -/
def orShift (x k : UInt64) : UInt64 := x ||| x >>> k

/-- `i <<= 1`, after `x |= x >> (i << 3)` -/
def ceilStep (s : UInt64 × UInt64) : UInt64 × UInt64 := (s.1 <<< 1, orShift s.2 (s.1 <<< 3))

def sizeofHSIZE : UInt64 := 8

/-- `Ceil2Pow2` -/
def ceil2Pow2 (x : UInt64) : Prog UInt64 := do
  let x := x - 1
  let x := orShift x 1
  let x := orShift x 2
  let x := orShift x 4
  let s ← whileDo (fun s => s.1 < sizeofHSIZE) (fun s => pure (ceilStep s)) (1, x)
  return s.2 + 1

theorem orShift_toNat (x : UInt64) {k : UInt64} (hk : k.toNat < 64) :
    (orShift x k).toNat = x.toNat ||| x.toNat >>> k.toNat := by
  rw [orShift, UInt64.toNat_or, UInt64.toNat_shiftRight, Nat.mod_eq_of_lt hk]

theorem smeared_orShift {n k : Nat} {x m : UInt64} (h : Smeared n k x.toNat) (hm : m.toNat < 64)
    (hmk : m.toNat ≤ k) : Smeared n (k + m.toNat) (orShift x m).toNat := by
  rw [orShift_toNat x hm]
  exact h.shift hmk

theorem ceilLoop_returns (x : UInt64) :
    Returns (whileDo (fun s => s.1 < sizeofHSIZE) (fun s => pure (ceilStep s)) (1, x))
      (8, orShift (orShift (orShift x 8) 16) 32) := by
  refine .while_step rfl (.pure _) ?_
  refine .while_step rfl (.pure _) ?_
  refine .while_step rfl (.pure _) ?_
  exact .while_done rfl

theorem smeared_ceil (x : UInt64) :
    Smeared x.toNat 64
      (orShift (orShift (orShift (orShift (orShift (orShift x 1) 2) 4) 8) 16) 32).toNat := by
  have h1 := smeared_orShift (m := 1) (.start x.toNat) (by decide) (by decide)
  have h2 := smeared_orShift (m := 2) h1 (by decide) (by decide)
  have h4 := smeared_orShift (m := 4) h2 (by decide) (by decide)
  have h8 := smeared_orShift (m := 8) h4 (by decide) (by decide)
  have h16 := smeared_orShift (m := 16) h8 (by decide) (by decide)
  exact smeared_orShift (m := 32) h16 (by decide) (by decide)

theorem ceil2Pow2_returns {x : UInt64} (hlo : 1 ≤ x.toNat) (hhi : x.toNat ≤ 2 ^ 63) :
    ∃ y, Returns (ceil2Pow2 x) y ∧ y.toNat = 2 ^ (x.toNat - 1).size := by
  have hpred : (x - 1).toNat = x.toNat - 1 := UInt64.toNat_sub_of_le x 1 hlo
  have hones := (smeared_ceil (x - 1)).ones (x - 1).toNat_lt
  have hsize : (x.toNat - 1).size ≤ 63 := Nat.size_le.mpr (by omega)
  have hle : 2 ^ (x.toNat - 1).size ≤ 2 ^ 63 := Nat.pow_le_pow_right (by decide) hsize
  have hpos : 0 < 2 ^ (x.toNat - 1).size := Nat.two_pow_pos _
  refine ⟨_, (ceilLoop_returns _).bind (.pure _), ?_⟩
  rw [UInt64.toNat_add, hones, hpred, show (1 : UInt64).toNat = 1 from rfl,
    Nat.sub_add_cancel hpos, Nat.mod_eq_of_lt (by omega)]

/-- **The least power of two.** From 1 to `2 ^ 63` the function gives a power of two that is not below
`x`, and half of it is. -/
theorem ceil2Pow2_least (x : UInt64) (hlo : 1 ≤ x.toNat) (hhi : x.toNat ≤ 2 ^ 63) :
    ∃ y, Returns (ceil2Pow2 x) y ∧ (∃ k, y.toNat = 2 ^ k) ∧ x.toNat ≤ y.toNat ∧
      y.toNat < 2 * x.toNat := by
  obtain ⟨y, hy, hval⟩ := ceil2Pow2_returns hlo hhi
  refine ⟨y, hy, ⟨_, hval⟩, ?_, ?_⟩
  · have hlt := Nat.lt_size_self (x.toNat - 1)
    omega
  · rw [hval]
    cases hsize : (x.toNat - 1).size with
    | zero =>
      rw [Nat.pow_zero]
      omega
    | succ k =>
      have hle : 2 ^ k ≤ x.toNat - 1 := Nat.lt_size.mp (by omega)
      rw [Nat.pow_succ]
      omega

/-- 5 goes up to 8. -/
theorem ceil2Pow2_least_five : ∃ y, Returns (ceil2Pow2 5) y ∧ (∃ k, y.toNat = 2 ^ k) ∧
    (5 : UInt64).toNat ≤ y.toNat ∧ y.toNat < 2 * (5 : UInt64).toNat :=
  ceil2Pow2_least 5 (by decide) (by decide)

end Utils
end Huicpp
