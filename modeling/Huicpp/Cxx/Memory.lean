import Mathlib
import Huicpp.Cxx.Prog

/-!
# Cxx.Memory

Bytes and blocks of objects.

* `storeAt`: checked stores into a block.
* `leBytes k n`: the `k`-byte object representation of `n` on a little-endian machine, least
  significant byte first; `leNat` reads it back.
* `charByte`: character constants. A `char` and an `unsigned char` are both a `Byte`, read as a
  signed number by `BitVec.toInt` and as an unsigned one by `BitVec.toNat`.
* `toHN`: conversion to the 32-bit `int`; `checkedHN`: the result of a calculation in `int`.
-/

namespace Cxx

abbrev Byte := BitVec 8

/-- The one that `c ∈ s` is decided with. -/
instance : LawfulBEq Byte := inferInstance

def charByte (c : Char) : Byte := BitVec.ofNat 8 c.toNat

/-- `static_cast<int>(n)` of a `size_t`. -/
def toHN (n : Nat) : Int := (n + 2 ^ 31) % 2 ^ 32 - 2 ^ 31

theorem toHN_of_lt {n : Nat} (h : n < 2 ^ 31) : toHN n = n := by
  rw [toHN]
  omega

/-- An `int` that a calculation may give. -/
def checkedHN (n : Int) : Outcome Int :=
  if -2 ^ 31 ≤ n ∧ n < 2 ^ 31 then .ok n else .undef .overflow

theorem checkedHN_ok {n : Int} (hlo : -2 ^ 31 ≤ n) (hhi : n < 2 ^ 31) : checkedHN n = .ok n :=
  if_pos ⟨hlo, hhi⟩

theorem checkedHN_eq_ok {n m : Int} (h : checkedHN n = .ok m) : m = n ∧ -2 ^ 31 ≤ n ∧ n < 2 ^ 31 := by
  rw [checkedHN] at h
  split at h
  · rename_i hrange
    exact ⟨(Outcome.ok.inj h).symm, hrange⟩
  · cases h

/-- Stores `xs` into `v[i]`, `v[i + 1]`, ... -/
def storeAt {α : Type} (v : List α) (i : Nat) (xs : List α) : Outcome (List α) :=
  if i + xs.length ≤ v.length then .ok (v.take i ++ xs ++ v.drop (i + xs.length))
  else .undef .outOfBounds

theorem storeAt_cons {α : Type} {pre post : List α} {i : Nat} (hi : pre.length = i) (x y : α) :
    storeAt (pre ++ y :: post) i [x] = .ok (pre ++ x :: post) := by
  subst hi
  rw [storeAt, if_pos (by simp), List.take_left, List.drop_length_add_append, List.append_assoc]
  rfl

/-- The `k` low bytes of `n`, least significant first. -/
def leBytes : Nat → Nat → List Byte
  | 0, _ => []
  | k + 1, n => BitVec.ofNat 8 n :: leBytes k (n / 256)

/-- The number a little-endian byte sequence stands for. -/
def leNat : List Byte → Nat
  | [] => 0
  | b :: bs => b.toNat + 256 * leNat bs

@[simp] theorem leBytes_length (k n : Nat) : (leBytes k n).length = k := by
  induction k generalizing n with
  | zero => rfl
  | succ k ih => simp [leBytes, ih]

theorem leNat_leBytes (k n : Nat) : leNat (leBytes k n) = n % 256 ^ k := by
  induction k generalizing n with
  | zero => simp [leBytes, leNat, Nat.mod_one]
  | succ k ih =>
    rw [leBytes, leNat, ih, BitVec.toNat_ofNat]
    show n % 256 + 256 * (n / 256 % 256 ^ k) = n % 256 ^ (k + 1)
    rw [Nat.pow_succ', Nat.mod_mul]

end Cxx
