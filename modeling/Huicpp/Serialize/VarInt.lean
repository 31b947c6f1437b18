import Mathlib
import Huicpp.Serialize.Stream
import Huicpp.Serialize.VarIntFormat

/-!
# Serialize.VarInt

`WriteVarInt`, `ReadVarInt` and `GetSizeOfVarInt`, on an unsigned type of `w` bits. Narrow types
are promoted to `int` before every shift and cut back on assignment, which is arithmetic modulo
`2 ^ w` as well.

* `writeVarInt_returns`, `sizeOfVarInt_returns`: the writer emits `encode n`, within its array.
* `readVarInt_returns`: the reader returns `denote a` modulo `2 ^ w`.
-/

namespace Huicpp
namespace Serialize

open Cxx Prog

/-- The unsigned integer types a varint is instantiated with. -/
inductive UIntTy where
  | u8
  | u16
  | u32
  | u64
  deriving DecidableEq, Repr

def UIntTy.bits : UIntTy → Nat
  | .u8 => 8
  | .u16 => 16
  | .u32 => 32
  | .u64 => 64

theorem UIntTy.le_bits (t : UIntTy) : 8 ≤ t.bits := by cases t <;> decide

/-! ## The code -/

section Code

variable {w : Nat} {σ : Type} [Stream σ]

/-- One pass of the loop of `GetSizeOfVarInt`. -/
def countDigit : BitVec w × Nat → Prog (Ctl (BitVec w × Nat) Nat)
  | (n, nRet) =>
    if n ≤ 0x7F then pure (.exit (nRet + 1)) else pure (.again ((n >>> 7) - 1, nRet + 1))

def sizeOfVarInt (n : BitVec w) : Prog Nat := loop countDigit (n, 0)

/-- One pass of the loop that fills `tmp`. -/
def fillTmp : BitVec w × Nat × List Byte → Prog (Ctl (BitVec w × Nat × List Byte) (Nat × List Byte))
  | (n, len, tmp) =>
    if len < tmp.length then
      let tmp := tmp.set len ((n &&& 0x7F).setWidth 8 ||| (if len = 0 then 0 else 0x80))
      if n ≤ 0x7F then pure (.exit (len, tmp))
      else pure (.again ((n >>> 7) - 1, len + 1, tmp))
    else liftM (Outcome.undef .outOfBounds)

/-- `do { WRITEDATA(os, tmp[len]); } while (len--);`. -/
def drainTmp (os : σ) (tmp : List Byte) : Nat → Outcome σ
  | 0 =>
    match tmp[0]? with
    | some b => .ok (Stream.write os [b])
    | none => .undef .outOfBounds
  | len + 1 =>
    match tmp[len + 1]? with
    | some b => drainTmp (Stream.write os [b]) tmp len
    | none => .undef .outOfBounds

def writeVarInt (os : σ) (n : BitVec w) : Prog σ := do
  let (len, tmp) ← loop fillTmp (n, 0, List.replicate ((w + 6) / 7) 0)
  liftM (drainTmp os tmp len)

/-- One pass of the reader's loop. -/
def readDigit : BitVec w × σ → Prog (Ctl (BitVec w × σ) (BitVec w × σ))
  | (n, is) => do
    let (ch, is) ← liftM (Stream.read is 1)
    let chData : Byte := BitVec.ofNat 8 (leNat ch)
    let n := (n <<< 7) ||| (chData &&& 0x7F).setWidth w
    if chData &&& 0x80 ≠ 0 then pure (.again (n + 1, is)) else pure (.exit (n, is))

def readVarInt (w : Nat) (is : σ) : Prog (BitVec w × σ) := loop readDigit (0, is)

end Code

/-! ## The code implements the format -/

section Bits

variable {w : Nat}

theorem toNat_0x7F (hw : 8 ≤ w) : (0x7F : BitVec w).toNat = 127 := by
  have h : 2 ^ 8 ≤ 2 ^ w := Nat.pow_le_pow_right (by decide) hw
  show 127 % 2 ^ w = 127
  exact Nat.mod_eq_of_lt (by omega)

theorem le_0x7F_iff (hw : 8 ≤ w) (n : BitVec w) : n ≤ 0x7F ↔ n.toNat / 128 = 0 := by
  rw [BitVec.le_def, toNat_0x7F hw]
  omega

theorem toNat_and_0x7F (hw : 8 ≤ w) (n : BitVec w) : (n &&& 0x7F).toNat = n.toNat % 128 := by
  rw [BitVec.toNat_and, toNat_0x7F hw]
  exact Nat.and_two_pow_sub_one_eq_mod n.toNat 7

theorem toNat_shift_sub_one (hw : 8 ≤ w) {n : BitVec w} (h : ¬ n ≤ 0x7F) :
    ((n >>> 7) - 1).toNat = n.toNat / 128 - 1 := by
  have hpos : 2 ^ 8 ≤ 2 ^ w := Nat.pow_le_pow_right (by decide) hw
  have h1 : (1 : BitVec w).toNat = 1 := by
    show 1 % 2 ^ w = 1
    exact Nat.mod_eq_of_lt (by omega)
  rw [le_0x7F_iff hw] at h
  have hs : (n >>> 7).toNat = n.toNat / 128 := by
    rw [BitVec.toNat_ushiftRight, Nat.shiftRight_eq_div_pow]
  rw [BitVec.toNat_sub_of_le (by rw [BitVec.le_def, hs, h1]; omega), hs, h1]

theorem digit_byte (hw : 8 ≤ w) (n : BitVec w) (len : Nat) :
    ((n &&& 0x7F).setWidth 8 ||| (if len = 0 then 0 else 0x80) : Byte) =
      if len = 0 then BitVec.ofNat 8 (n.toNat % 128) else contByte (n.toNat % 128) := by
  apply BitVec.eq_of_toNat_eq
  have hd : ((n &&& 0x7F).setWidth 8).toNat = n.toNat % 128 := by
    rw [BitVec.toNat_setWidth, toNat_and_0x7F hw]
    omega
  rw [BitVec.toNat_or, hd]
  split
  · simp only [BitVec.toNat_ofNat]
    show n.toNat % 128 ||| 0 = _
    rw [Nat.or_zero]
    omega
  · simp only [contByte, BitVec.toNat_ofNat]
    show n.toNat % 128 ||| 128 = _
    have h : 128 + n.toNat % 128 = 128 ||| n.toNat % 128 :=
      Nat.two_pow_add_eq_or_of_lt (i := 7) (Nat.mod_lt n.toNat (by decide)) 1
    rw [Nat.or_comm, ← h]
    omega

/-- The reader's accumulator step, modulo the width. -/
theorem digit_shift (hw : 8 ≤ w) (acc : Nat) (b : Byte) :
    (BitVec.ofNat w acc <<< 7) ||| (b &&& 0x7F).setWidth w =
      BitVec.ofNat w (acc * 128 + payload b) := by
  apply BitVec.eq_of_toNat_eq
  have hpow : 2 ^ w = 128 * 2 ^ (w - 7) := by
    rw [show w = 7 + (w - 7) by omega, Nat.pow_add, Nat.add_sub_cancel_left]
  have hb : ((b &&& 0x7F).setWidth w).toNat = payload b := by
    rw [BitVec.toNat_setWidth, toNat_and_0x7F (Nat.le_refl 8), payload]
    refine Nat.mod_eq_of_lt ?_
    have : 2 ^ 8 ≤ 2 ^ w := Nat.pow_le_pow_right (by decide) hw
    omega
  have hs : (BitVec.ofNat w acc <<< 7).toNat = 2 ^ 7 * (acc % 2 ^ (w - 7)) := by
    rw [BitVec.toNat_shiftLeft, BitVec.toNat_ofNat, Nat.shiftLeft_eq, Nat.mod_mul_mod, hpow,
      Nat.mul_comm, Nat.mul_mod_mul_left]
  have hp := payload_lt b
  rw [BitVec.toNat_or, hs, hb, ← Nat.two_pow_add_eq_or_of_lt hp, BitVec.toNat_ofNat]
  have hm : (acc * 128 + payload b) % 2 ^ w = 128 * (acc % 2 ^ (w - 7)) + payload b := by
    rw [hpow, Nat.mul_comm acc, Nat.mod_mul, Nat.mul_add_div (by decide), Nat.div_eq_of_lt hp,
      Nat.add_zero, Nat.mul_add_mod, Nat.mod_eq_of_lt hp]
    omega
  rw [hm]

theorem continues_iff (b : Byte) : b &&& 0x80 ≠ 0 ↔ Continues b := by
  have h : ∀ k : Fin 256, (BitVec.ofFin k : Byte) &&& 0x80 ≠ 0 ↔ 128 ≤ k.val := by decide +kernel
  exact h b.toFin

end Bits

section Writer

variable {w : Nat} {σ : Type} [Stream σ]

/-- What the loop that fills `tmp` still has to store when it stands at `len` with value `n`. -/
def pending (len n : Nat) : List Byte :=
  (if len = 0 then BitVec.ofNat 8 (n % 128) else contByte (n % 128)) ::
    (bijDigits 128 (n / 128)).map contByte

theorem pending_zero (n : Nat) : (pending 0 n).reverse = encode n := by
  simp [pending, encode]

theorem pending_succ {n : Nat} (len : Nat) (h : n / 128 ≠ 0) :
    pending len n = (if len = 0 then BitVec.ofNat 8 (n % 128) else contByte (n % 128)) ::
      pending (len + 1) (n / 128 - 1) := by
  obtain ⟨m, hm⟩ : ∃ m, n / 128 = m + 1 := ⟨n / 128 - 1, by omega⟩
  rw [pending, pending, hm, bijDigits_succ, if_neg (Nat.succ_ne_zero len)]
  rfl

theorem take_set_succ {tmp : List Byte} {len : Nat} (h : len < tmp.length) (b : Byte) :
    (tmp.set len b).take (len + 1) = tmp.take len ++ [b] := by
  rw [List.take_succ_eq_append_getElem (by simpa using h), List.getElem_set_self,
    List.take_set_of_le (Nat.le_refl len)]

/-- The loop fills `tmp` with the remaining bytes, by induction on the value left. -/
theorem fillTmp_returns (hw : 8 ≤ w) :
    ∀ (v : Nat) (n : BitVec w) (len : Nat) (tmp : List Byte), n.toNat = v →
      len + (pending len v).length ≤ tmp.length →
      ∃ len' tmp', Returns (loop fillTmp (n, len, tmp)) (len', tmp') ∧ len' < tmp'.length ∧
        tmp'.take (len' + 1) = tmp.take len ++ pending len v := by
  intro v
  induction v using Nat.strongRecOn with
  | ind v ih =>
    intro n len tmp hv hroom
    have hlen : len < tmp.length := by
      rw [pending, List.length_cons] at hroom
      omega
    by_cases hn : n ≤ 0x7F
    · have hv0 : v / 128 = 0 := hv ▸ (le_0x7F_iff hw n).mp hn
      refine ⟨len, tmp.set len ((n &&& 0x7F).setWidth 8 ||| (if len = 0 then 0 else 0x80)),
        .loop_exit ?_, ?_, ?_⟩
      · rw [fillTmp, if_pos hlen, if_pos hn]
        exact .pure _
      · simpa using hlen
      · rw [take_set_succ hlen, digit_byte hw, hv, pending, hv0, bijDigits_zero, List.map_nil]
    · have hv0 : v / 128 ≠ 0 := fun h => hn ((le_0x7F_iff hw n).mpr (hv ▸ h))
      have hnext := toNat_shift_sub_one hw hn
      rw [hv] at hnext
      rw [pending_succ len hv0, List.length_cons] at hroom
      obtain ⟨len', tmp', hr, hl, ht⟩ := ih (v / 128 - 1) (by omega) ((n >>> 7) - 1) (len + 1)
        (tmp.set len ((n &&& 0x7F).setWidth 8 ||| (if len = 0 then 0 else 0x80))) hnext
        (by rw [List.length_set]; omega)
      refine ⟨len', tmp', .loop_again ?_ hr, hl, ?_⟩
      · rw [fillTmp, if_pos hlen, if_neg hn]
        exact .pure _
      · rw [ht, take_set_succ hlen, digit_byte hw, hv, pending_succ len hv0, List.append_assoc,
          List.singleton_append]

theorem sizeOfVarInt_loop (hw : 8 ≤ w) :
    ∀ (v : Nat) (n : BitVec w) (nRet : Nat), n.toNat = v →
      Returns (loop countDigit (n, nRet)) (nRet + (encode v).length) := by
  intro v
  induction v using Nat.strongRecOn with
  | ind v ih =>
    intro n nRet hv
    by_cases hn : n ≤ 0x7F
    · have hv0 : v / 128 = 0 := hv ▸ (le_0x7F_iff hw n).mp hn
      rw [encode_length, hv0, bijDigits_zero]
      exact .loop_exit (by rw [countDigit, if_pos hn]; exact .pure _)
    · have hv0 : v / 128 ≠ 0 := fun h => hn ((le_0x7F_iff hw n).mpr (hv ▸ h))
      have hnext := toNat_shift_sub_one hw hn
      rw [hv] at hnext
      have hrec := ih (v / 128 - 1) (by omega) ((n >>> 7) - 1) (nRet + 1) hnext
      have hlen : nRet + (encode v).length = nRet + 1 + (encode (v / 128 - 1)).length := by
        obtain ⟨m, hm⟩ : ∃ m, v / 128 = m + 1 := ⟨v / 128 - 1, by omega⟩
        rw [encode_length, encode_length, hm, bijDigits_succ, List.length_cons,
          Nat.add_sub_cancel]
        omega
      rw [hlen]
      exact .loop_again (by rw [countDigit, if_neg hn]; exact .pure _) hrec

theorem sizeOfVarInt_returns (hw : 8 ≤ w) (n : BitVec w) :
    Returns (sizeOfVarInt n) (encode n.toNat).length := by
  have h := sizeOfVarInt_loop hw n.toNat n 0 rfl
  rwa [Nat.zero_add] at h

variable [LawfulStream σ]

theorem drainTmp_eq (tmp : List Byte) :
    ∀ (len : Nat) (os : σ), len < tmp.length →
      drainTmp os tmp len = .ok (Stream.write os (tmp.take (len + 1)).reverse) := by
  intro len
  induction len with
  | zero =>
    intro os h
    rw [drainTmp, List.getElem?_eq_getElem h, List.take_succ_eq_append_getElem h]
    simp
  | succ len ih =>
    intro os h
    rw [drainTmp, List.getElem?_eq_getElem h]
    simp only []
    rw [ih _ (by omega), LawfulStream.write_append,
      List.take_succ_eq_append_getElem h, List.reverse_append, List.reverse_singleton]

/-- `WriteVarInt` writes the encoding and stays inside its array. -/
theorem writeVarInt_returns (hw : 8 ≤ w) (os : σ) (n : BitVec w) :
    Returns (writeVarInt os n) (Stream.write os (encode n.toNat)) := by
  have hroom : 0 + (pending 0 n.toNat).length ≤
      (List.replicate ((w + 6) / 7) (0 : Byte)).length := by
    have h := encode_length_le n.isLt (by omega)
    rw [← pending_zero, List.length_reverse] at h
    rwa [Nat.zero_add, List.length_replicate]
  obtain ⟨len, tmp, hr, hl, ht⟩ := fillTmp_returns hw n.toNat n 0 _ rfl hroom
  refine hr.bind (.lift ?_)
  rw [drainTmp_eq tmp len os hl, ht, List.take_zero, List.nil_append, pending_zero]

end Writer

section Reader

variable {w : Nat} {σ : Type} [Stream σ]

theorem readDigit_read (hw : 8 ≤ w) {is is' : σ} {b : Byte} (acc : Nat)
    (h : Stream.read is 1 = .ok ([b], is')) : Returns (readDigit (BitVec.ofNat w acc, is))
      (if Continues b then .again (BitVec.ofNat w (acc * 128 + payload b + 1), is')
        else .exit (BitVec.ofNat w (acc * 128 + payload b), is')) := by
  refine Returns.bind (.lift h) ?_
  have hb : BitVec.ofNat 8 (leNat [b]) = b := by simp [leNat]
  simp only [hb, digit_shift hw, continues_iff]
  split
  · rw [show BitVec.ofNat w (acc * 128 + payload b) + 1 =
      BitVec.ofNat w (acc * 128 + payload b + 1) from (BitVec.ofNat_add _ _).symm]
    exact .pure _
  · exact .pure _

variable [LawfulStream σ]

theorem readDigit_returns (hw : 8 ≤ w) {is : σ} {b : Byte} {r : List Byte} (acc : Nat)
    (h : LawfulStream.Holds is (b :: r)) :
    ∃ is', LawfulStream.Holds is' r ∧ Returns (readDigit (BitVec.ofNat w acc, is))
      (if Continues b then .again (BitVec.ofNat w (acc * 128 + payload b + 1), is')
        else .exit (BitVec.ofNat w (acc * 128 + payload b), is')) := by
  obtain ⟨is', h1, h2⟩ := read_exact (a := [b]) rfl h
  exact ⟨is', h2, readDigit_read hw acc h1⟩

theorem readDigits_returns (hw : 8 ≤ w) {last : Byte} {r : List Byte} (hlast : ¬ Continues last)
    (init : List Byte) :
    ∀ (acc : Nat) (is : σ), (∀ b ∈ init, Continues b) →
      LawfulStream.Holds is (init ++ [last] ++ r) →
      ∃ is', LawfulStream.Holds is' r ∧ Returns (loop readDigit (BitVec.ofNat w acc, is))
        (BitVec.ofNat w (init.foldl (fun a b => a * 128 + payload b + 1) acc * 128 +
          payload last), is') := by
  induction init with
  | nil =>
    intro acc is _ h
    obtain ⟨is', h', hr⟩ := readDigit_returns hw acc h
    rw [if_neg hlast] at hr
    exact ⟨is', h', .loop_exit hr⟩
  | cons b init ih =>
    intro acc is hinit h
    obtain ⟨is1, h1, hr1⟩ := readDigit_returns hw acc h
    rw [if_pos (hinit b (by simp))] at hr1
    obtain ⟨is', h', hr⟩ := ih _ is1 (fun c hc => hinit c (by simp [hc])) h1
    exact ⟨is', h', .loop_again hr1 hr⟩

/-- `ReadVarInt` consumes a complete sequence and returns what it denotes, modulo the width. -/
theorem readVarInt_returns (hw : 8 ≤ w) {is : σ} {a r : List Byte} (ha : Complete a)
    (h : LawfulStream.Holds is (a ++ r)) :
    ∃ is', Returns (readVarInt w is) (BitVec.ofNat w (denote a), is') ∧
      LawfulStream.Holds is' r := by
  obtain ⟨init, last, rfl, hinit, hlast⟩ := ha
  obtain ⟨is', h', hr⟩ := readDigits_returns hw hlast init 0 is hinit h
  rw [denote_append]
  exact ⟨is', hr, h'⟩

end Reader

end Serialize
end Huicpp
