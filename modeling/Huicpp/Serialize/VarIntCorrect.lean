import Mathlib
import Huicpp.Serialize.VarInt

/-!
# Serialize.VarIntCorrect

What the format description promises of variable-length integers, for the code on every stream.

* `varInt_lossless`: writing and reading back, for every unsigned type and every value.
* `varInt_canonical_iff`: a sequence the reader accepts is the one the writer emits exactly when
  the number it denotes fits the type; the reader does not check that, and wraps.
-/

namespace Huicpp
namespace Serialize

open Cxx Prog

theorem varInt_lossless (t : UIntTy) (n : BitVec t.bits) :
    ∃ bs : List Byte,
      bs.length ≤ (t.bits + 6) / 7 ∧
      Returns (sizeOfVarInt n) bs.length ∧
      (∀ k, bs.length = k ↔ ∑ i ∈ Finset.Icc 1 (k - 1), 128 ^ i ≤ n.toNat ∧
        n.toNat < ∑ i ∈ Finset.Icc 1 k, 128 ^ i) ∧
      (∀ b ∈ bs.dropLast, Continues b) ∧
      (∀ (u : UIntTy) (m : BitVec u.bits), m.toNat = n.toNat →
        ∀ (σ : Type) [Stream σ] [LawfulStream σ] (os : σ),
          Returns (writeVarInt os m) (Stream.write os bs)) ∧
      (∀ (σ : Type) [Stream σ] [LawfulStream σ] (is : σ) (r : List Byte),
        LawfulStream.Holds is (bs ++ r) →
          ∃ is', Returns (readVarInt t.bits is) (n, is') ∧ LawfulStream.Holds is' r) := by
  have hw := t.le_bits
  refine ⟨encode n.toNat, encode_length_le n.isLt (by omega), sizeOfVarInt_returns hw n,
    encode_length_eq n.toNat, ?_, ?_, ?_⟩
  · obtain ⟨init, last, h, hinit, _⟩ := complete_encode n.toNat
    rw [h, List.dropLast_concat]
    exact hinit
  · intro u m hm σ _ _ os
    rw [← hm]
    exact writeVarInt_returns u.le_bits os m
  · intro σ _ _ is r h
    have hr := readVarInt_returns hw (complete_encode n.toNat) h
    rwa [denote_encode, BitVec.ofNat_toNat, BitVec.setWidth_eq] at hr

/-- `ReadVarInt` consumes `a` to its last byte and returns `v`, whatever the stream. -/
def Decodes (w : Nat) (a : List Byte) (v : BitVec w) : Prop :=
  ∀ (σ : Type) [Stream σ] [LawfulStream σ] (is : σ), LawfulStream.Holds is a →
    ∃ is', Returns (readVarInt w is) (v, is') ∧ LawfulStream.Holds is' []

theorem decodes_iff {w : Nat} (hw : 8 ≤ w) {a : List Byte} (ha : Complete a) (v : BitVec w) :
    Decodes w a v ↔ v = BitVec.ofNat w (denote a) := by
  constructor
  · intro h
    obtain ⟨is₁, h₁, _⟩ := h (List Byte) a rfl
    obtain ⟨is₂, h₂, _⟩ := readVarInt_returns hw (r := []) ha
      (show LawfulStream.Holds a (a ++ []) from (List.append_nil a).symm)
    exact congrArg Prod.fst (h₁.unique h₂)
  · rintro rfl σ _ _ is h
    exact readVarInt_returns hw ha (by rwa [List.append_nil])

theorem writes_iff {w : Nat} (hw : 8 ≤ w) (a : List Byte) (v : BitVec w) :
    Returns (writeVarInt ([] : List Byte) v) a ↔ a = encode v.toNat := by
  have h := writeVarInt_returns hw ([] : List Byte) v
  rw [write_list, List.nil_append] at h
  exact ⟨fun h' => h'.unique h, fun h' => h' ▸ h⟩

theorem canonical_iff {w : Nat} (hw : 8 ≤ w) {a : List Byte} (ha : Complete a) :
    (∃ v, Decodes w a v ∧ Returns (writeVarInt ([] : List Byte) v) a) ↔ denote a < 2 ^ w := by
  simp only [decodes_iff hw ha, exists_eq_left, writes_iff hw, BitVec.toNat_ofNat]
  constructor
  · intro h
    have hd := congrArg denote h
    rw [denote_encode] at hd
    rw [hd]
    exact Nat.mod_lt _ (by positivity)
  · intro h
    rw [Nat.mod_eq_of_lt h, encode_denote ha]

/-- **One encoding per integer.** The reader accepts the writer's sequence and no other for the
value it returns, and no two accepted sequences share a value, exactly as long as what the
sequence denotes fits the type. -/
theorem varInt_canonical_iff (t : UIntTy) (a : List Byte) (ha : Complete a) :
    ((∃ v, Decodes t.bits a v ∧ Returns (writeVarInt ([] : List Byte) v) a) ↔
      denote a < 2 ^ t.bits) ∧
    ((∀ b, Complete b → denote b < 2 ^ t.bits →
      ∀ v, Decodes t.bits a v → Decodes t.bits b v → a = b) ↔ denote a < 2 ^ t.bits) := by
  have hw := t.le_bits
  refine ⟨canonical_iff hw ha, fun h => ?_, fun h b hb hlt v hav hbv => ?_⟩
  · -- the writer's sequence for the returned value is another one if `a` does not fit
    have hmod : denote a % 2 ^ t.bits < 2 ^ t.bits := Nat.mod_lt _ (by positivity)
    have hb := complete_encode (denote a % 2 ^ t.bits)
    have hab := h _ hb (by rwa [denote_encode]) _ ((decodes_iff hw ha _).mpr rfl)
      ((decodes_iff hw hb _).mpr (by
        rw [denote_encode]
        apply BitVec.eq_of_toNat_eq
        rw [BitVec.toNat_ofNat, BitVec.toNat_ofNat, Nat.mod_mod]))
    rw [hab, denote_encode]
    exact hmod
  · have hv := ((decodes_iff hw ha v).mp hav).symm.trans ((decodes_iff hw hb v).mp hbv)
    have hn := congrArg BitVec.toNat hv
    rw [BitVec.toNat_ofNat, BitVec.toNat_ofNat, Nat.mod_eq_of_lt h, Nat.mod_eq_of_lt hlt] at hn
    exact complete_denote_inj ha hb hn

theorem complete_128 : Complete [0x80, 0x00] := ⟨[0x80], 0x00, rfl, by decide, by decide⟩

theorem complete_384 : Complete [0x82, 0x00] := ⟨[0x82], 0x00, rfl, by decide, by decide⟩

/-- An instance: as a byte, 128 is read from its own encoding only. -/
theorem varInt_canonical_iff_128 :
    (∃ v, Decodes UIntTy.u8.bits [0x80, 0x00] v ∧
      Returns (writeVarInt ([] : List Byte) v) [0x80, 0x00]) :=
  (varInt_canonical_iff .u8 [0x80, 0x00] complete_128).1.mpr (by decide)

/-- The encodings of 128 and of 384 are both read as the byte 128. -/
theorem varInt_ambiguous :
    Complete [0x80, 0x00] ∧ Complete [0x82, 0x00] ∧
      Decodes UIntTy.u8.bits [0x80, 0x00] 128 ∧ Decodes UIntTy.u8.bits [0x82, 0x00] 128 ∧
      ([0x80, 0x00] : List Byte) ≠ [0x82, 0x00] :=
  ⟨complete_128, complete_384, (decodes_iff (by decide) complete_128 _).mpr (by decide),
    (decodes_iff (by decide) complete_384 _).mpr (by decide), by decide⟩

end Serialize
end Huicpp
