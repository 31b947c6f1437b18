import Mathlib
import Huicpp.Cxx.Memory

/-!
# Cxx.Bytes

Memory as a function of the address, counted from the start of a block, and the conversions of an
`int` on its way to it: to `size_t`, where a negative number becomes a huge one, and to a distance
between pointers. An `int` is an `Int32`, whose operations wrap around as the machine's do.
-/

namespace Cxx

/-- The conversion of an `int` to `size_t`. -/
def toSizeT (n : Int32) : Nat := (n.toInt % 2 ^ 64).toNat

theorem toSizeT_of_nonneg {n : Int32} (h : 0 ≤ n.toInt) : (toSizeT n : Int) = n.toInt := by
  have hlt := n.toInt_lt
  rw [toSizeT]
  omega

theorem toSizeT_of_neg {n : Int32} (h : n.toInt < 0) : 2 ^ 63 ≤ toSizeT n := by
  have hle := n.le_toInt
  rw [toSizeT]
  omega

theorem nonneg_of_toSizeT_lt {n : Int32} (h : toSizeT n < 2 ^ 63) : 0 ≤ n.toInt := by
  by_contra hneg
  have hhuge := toSizeT_of_neg (n := n) (by omega)
  omega

theorem toSizeT_ofNat_sub {n : Nat} (hn : n < 2 ^ 31) {k : Int32} (hk : 0 ≤ k.toInt)
    (hkn : k.toInt ≤ n) : (toSizeT (Int32.ofNat n - k) : Int) = n - k.toInt := by
  have hval : (Int32.ofNat n - k).toInt = n - k.toInt := by
    rw [Int32.toInt_sub, Int32.toInt_ofNat_of_lt hn]
    exact Int.bmod_eq_of_le (by omega) (by omega)
  rw [toSizeT_of_nonneg (by omega), hval]

section Arithmetic

variable {a b : Int32}

theorem toInt_mul_of_lt (hlo : -2 ^ 31 ≤ a.toInt * b.toInt) (hhi : a.toInt * b.toInt < 2 ^ 31) :
    (a * b).toInt = a.toInt * b.toInt := by
  rw [Int32.toInt_mul]
  exact Int.bmod_eq_of_le hlo hhi

theorem toInt_add_of_lt (hlo : -2 ^ 31 ≤ a.toInt + b.toInt) (hhi : a.toInt + b.toInt < 2 ^ 31) :
    (a + b).toInt = a.toInt + b.toInt := by
  rw [Int32.toInt_add]
  exact Int.bmod_eq_of_le hlo hhi

end Arithmetic

/-- `malloc`: no object is larger than half of the address space, and `available` decides about the
others. -/
def malloc (available : Nat → Bool) (size : Nat) : Option Nat :=
  if size < 2 ^ 63 ∧ available size then some size else none

theorem malloc_ok {available : Nat → Bool} {size : Nat} (hsize : size < 2 ^ 63)
    (hmem : available size) : malloc available size = some size :=
  if_pos ⟨hsize, hmem⟩

theorem malloc_none {available : Nat → Bool} {size : Nat} (hmem : ¬ available size) :
    malloc available size = none :=
  if_neg fun h => hmem h.2

theorem malloc_eq_some {available : Nat → Bool} {size n : Nat} (h : malloc available size = some n) :
    n = size ∧ size < 2 ^ 63 ∧ available size := by
  rw [malloc] at h
  split at h
  · rename_i hsize
    exact ⟨(Option.some.inj h).symm, hsize⟩
  · cases h

/-- `memcpy` of `n` bytes to the address `dst`. -/
def memcpy (mem : Int → Byte) (dst : Int) (src : Nat → Byte) (n : Nat) : Int → Byte :=
  fun a => if dst ≤ a ∧ a < dst + n then src (a - dst).toNat else mem a

section Memcpy

variable {mem : Int → Byte} {dst : Int} {src : Nat → Byte} {n : Nat}

theorem memcpy_outside {a : Int} (h : a ∉ Set.Ico dst (dst + n)) : memcpy mem dst src n a = mem a :=
  if_neg h

theorem memcpy_at {k : Nat} (h : k < n) : memcpy mem dst src n (dst + k) = src k := by
  rw [memcpy, if_pos (by omega), add_sub_cancel_left, Int.toNat_natCast]

end Memcpy

end Cxx
