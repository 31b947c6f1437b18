import Mathlib
import Huicpp.Cxx.BijectiveBase
import Huicpp.Cxx.Memory

/-!
# Serialize.VarIntFormat

The format of variable-length integers, without any machine integer in sight: base-128 digits, most
significant first, bit 7 set on all bytes but the last, and one subtracted from every digit but the
last. The digits above the last one are thus the bijective base-128 digits of `n / 128`.

* `denote_encode`, `encode_denote`: every number has exactly one complete byte sequence.
* `encode_length_eq`: how long it is.
-/

namespace Huicpp
namespace Serialize

open Cxx

/-- The seven payload bits. -/
def payload (b : Byte) : Nat := b.toNat % 128

/-- Bit 7: another digit follows. -/
def Continues (b : Byte) : Prop := 128 ≤ b.toNat

instance (b : Byte) : Decidable (Continues b) := inferInstanceAs (Decidable (_ ≤ _))

/-- The byte of a digit that another digit follows. -/
def contByte (d : Nat) : Byte := BitVec.ofNat 8 (128 + d)

/-- The encoding of `n`. -/
def encode (n : Nat) : List Byte :=
  ((bijDigits 128 (n / 128)).map contByte).reverse ++ [BitVec.ofNat 8 (n % 128)]

/-- The number the continuing bytes in front of the last one stand for. -/
def prefixVal (init : List Byte) : Nat := init.foldl (fun a b => a * 128 + payload b + 1) 0

/-- The number a byte sequence encodes:
`(a[len-1] & 0x7F) + sum(i=1..len-1, 128^i*((a[len-i-1] & 0x7F)+1))`. -/
def denote (a : List Byte) : Nat := prefixVal a.dropLast * 128 + payload (a.getLastD 0)

/-- All bytes but the last have bit 7 set. -/
def Complete (a : List Byte) : Prop :=
  ∃ init last, a = init ++ [last] ∧ (∀ b ∈ init, Continues b) ∧ ¬ Continues last

theorem prefixVal_append (init : List Byte) (b : Byte) :
    prefixVal (init ++ [b]) = prefixVal init * 128 + payload b + 1 := by
  simp [prefixVal]

theorem denote_append (init : List Byte) (last : Byte) :
    denote (init ++ [last]) = prefixVal init * 128 + payload last := by
  simp [denote]

theorem prefixVal_eq (init : List Byte) :
    prefixVal init = bijVal 128 (init.reverse.map payload) := by
  induction init using List.reverseRecOn with
  | nil => rfl
  | append_singleton init b ih =>
    rw [prefixVal_append, List.reverse_append, List.reverse_singleton, List.singleton_append,
      List.map_cons, bijVal, ih]
    omega

/-- `denote` is the sum of the format description. -/
theorem denote_eq_sum (init : List Byte) (last : Byte) :
    denote (init ++ [last]) = payload last +
      ∑ i ∈ Finset.range init.length, 128 ^ (i + 1) * (payload (init.reverse.getD i 0) + 1) := by
  rw [denote_append]
  induction init using List.reverseRecOn with
  | nil => simp [prefixVal]
  | append_singleton init b ih =>
    rw [prefixVal_append, List.length_append, List.length_singleton, Finset.sum_range_succ']
    simp only [List.reverse_append, List.reverse_singleton, List.singleton_append,
      List.getD_cons_succ, List.getD_cons_zero]
    have h : ∑ i ∈ Finset.range init.length,
        128 ^ (i + 1 + 1) * (payload (init.reverse.getD i 0) + 1) =
        128 * ∑ i ∈ Finset.range init.length,
          128 ^ (i + 1) * (payload (init.reverse.getD i 0) + 1) := by
      rw [Finset.mul_sum]
      refine Finset.sum_congr rfl fun i _ => ?_
      rw [Nat.pow_succ' (m := 128) (n := i + 1), Nat.mul_assoc]
    rw [h]
    omega

theorem continues_contByte {d : Nat} (h : d < 128) : Continues (contByte d) := by
  simp only [Continues, contByte, BitVec.toNat_ofNat]
  omega

theorem payload_contByte {d : Nat} (h : d < 128) : payload (contByte d) = d := by
  simp only [payload, contByte, BitVec.toNat_ofNat]
  omega

theorem contByte_payload {b : Byte} (h : Continues b) : contByte (payload b) = b := by
  apply BitVec.eq_of_toNat_eq
  have hb := b.isLt
  simp only [Continues, payload, contByte, BitVec.toNat_ofNat] at h ⊢
  omega

theorem payload_lt (b : Byte) : payload b < 128 := Nat.mod_lt _ (by decide)

theorem digits_lt (n : Nat) : ∀ d ∈ bijDigits 128 n, d < 128 := bijDigits_lt (by decide) n

theorem complete_encode (n : Nat) : Complete (encode n) := by
  refine ⟨_, _, rfl, ?_, ?_⟩
  · intro b hb
    rw [List.mem_reverse, List.mem_map] at hb
    obtain ⟨d, hd, rfl⟩ := hb
    exact continues_contByte (digits_lt _ d hd)
  · simp only [Continues, BitVec.toNat_ofNat]
    omega

theorem map_payload_contByte {ds : List Nat} (h : ∀ d ∈ ds, d < 128) :
    (ds.map contByte).map payload = ds := by
  rw [List.map_map]
  exact (List.map_congr_left fun d hd => payload_contByte (h d hd)).trans (List.map_id ds)

theorem map_contByte_payload {bs : List Byte} (h : ∀ b ∈ bs, Continues b) :
    (bs.map payload).map contByte = bs := by
  rw [List.map_map]
  exact (List.map_congr_left fun b hb => contByte_payload (h b hb)).trans (List.map_id bs)

theorem denote_encode (n : Nat) : denote (encode n) = n := by
  rw [encode, denote_append, prefixVal_eq, List.reverse_reverse,
    map_payload_contByte (digits_lt _), bijVal_bijDigits, payload, BitVec.toNat_ofNat]
  omega

/-- A complete sequence is the encoding of the number it denotes. -/
theorem encode_denote {a : List Byte} (h : Complete a) : encode (denote a) = a := by
  obtain ⟨init, last, rfl, hinit, hlast⟩ := h
  have hp := payload_lt last
  rw [denote_append, encode, show (prefixVal init * 128 + payload last) / 128 = prefixVal init by
    omega, show (prefixVal init * 128 + payload last) % 128 = payload last by omega, prefixVal_eq,
    bijDigits_bijVal (by simp only [List.mem_map]; rintro _ ⟨b, _, rfl⟩; exact payload_lt b),
    map_contByte_payload (fun b hb => hinit b (List.mem_reverse.mp hb)), List.reverse_reverse]
  congr 2
  apply BitVec.eq_of_toNat_eq
  simp only [Continues, payload, BitVec.toNat_ofNat] at hlast ⊢
  omega

theorem complete_denote_inj {a b : List Byte} (ha : Complete a) (hb : Complete b)
    (h : denote a = denote b) : a = b := by
  rw [← encode_denote ha, h, encode_denote hb]

theorem encode_length (n : Nat) : (encode n).length = (bijDigits 128 (n / 128)).length + 1 := by
  simp [encode]

theorem encode_length_eq (n k : Nat) : (encode n).length = k ↔
    ∑ i ∈ Finset.Icc 1 (k - 1), 128 ^ i ≤ n ∧ n < ∑ i ∈ Finset.Icc 1 k, 128 ^ i := by
  rw [encode_length]
  cases k with
  | zero => simp
  | succ k =>
    rw [Nat.add_right_cancel_iff, bijDigits_length (by decide), Nat.add_sub_cancel, ← repunit_mul,
      ← repunit_mul, Nat.le_div_iff_mul_le (by decide), Nat.div_lt_iff_lt_mul (by decide),
      Nat.mul_comm, Nat.mul_comm (repunit 128 (k + 1))]

theorem encode_length_le {n w : Nat} (h : n < 2 ^ w) (hw : 0 < w) :
    (encode n).length ≤ (w + 6) / 7 := by
  rw [encode_length]
  cases hk : (bijDigits 128 (n / 128)).length with
  | zero => omega
  | succ k =>
    have h1 := ((bijDigits_length (by decide) _ _).mp hk).1
    rw [Nat.le_div_iff_mul_le (by decide), repunit, Finset.sum_range_succ, Nat.add_mul] at h1
    have h2 : 2 ^ (7 * (k + 1)) < 2 ^ w := by
      have e : 2 ^ (7 * (k + 1)) = 128 ^ k * 128 := by
        rw [Nat.pow_mul, ← Nat.pow_succ]
      omega
    have h3 := (Nat.pow_lt_pow_iff_right (by decide)).mp h2
    omega

end Serialize
end Huicpp
