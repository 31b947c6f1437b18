import Mathlib
import Huicpp.Crypto.Cryptor

/-!
# Crypto.Transport

Encoding for transport and back.

* `base64Decode_encode`, `decryptMem_encryptStr`: each layer has an inverse.
* `des3Base64UrlEncode_ok_iff`: which plaintexts are encoded, and to what.
* `transport_iff`: `Des3Base64UrlDecode` encrypts once more instead of decrypting, so it gives back
  no plaintext that was encoded.
-/

namespace Huicpp
namespace Crypto

open Cxx

section Layers

variable {ssl : OpenSsl}

theorem base64Encode_eq {indata : List Byte} (hne : indata ≠ []) (hlen : indata.length < 2 ^ 31) :
    base64Encode ssl indata = .ok (.ok, ssl.base64 indata) := by
  have h : indata.isEmpty = false := List.isEmpty_eq_false_iff.mpr hne
  rw [base64Encode, h, if_neg (by decide), toHN_of_lt hlen, Int.toNat_natCast, List.take_length]
  rfl

/-- Up to 2^30 bytes the text is short enough for an `int`. -/
theorem base64Decode_encode {indata : List Byte} (hne : indata ≠ []) (hlen : indata.length ≤ 2 ^ 30) :
    base64Decode ssl (ssl.base64 indata) = .ok (.ok, indata) := by
  have hl := ssl.base64_length indata
  have hpos : 0 < indata.length := List.length_pos_iff.mpr hne
  have htext : (ssl.base64 indata).isEmpty = false := by
    rw [List.isEmpty_eq_false_iff, ← List.length_pos_iff, hl]
    omega
  have hHN : toHN (ssl.base64 indata).length = (ssl.base64 indata).length := by
    rw [hl]
    exact toHN_of_lt (by omega)
  rw [base64Decode, htext, if_neg (by decide), memBuf, hHN, if_neg (by omega), Int.toNat_natCast,
    List.take_length, ssl.base64Read_base64 _ _ hne (by rw [hl]; omega)]
  show (if (indata.length : Int) < 0 then _ else _) = _
  rw [if_neg (by omega), Int.toNat_natCast, List.take_length]

/-- The number of bytes that survive the conversion of the length to `int`. -/
def shortLength (src : List Byte) : Nat := src.length % 2 ^ 32

/-- The lengths `des3_encrypt` handles: the output block of twice the input must hold the padding,
and its size must fit an `int`. -/
def Encryptable (src : List Byte) : Prop := 4 ≤ shortLength src ∧ shortLength src < 2 ^ 30

instance (src : List Byte) : Decidable (Encryptable src) := inferInstanceAs (Decidable (_ ∧ _))

/-- The ciphertext. -/
def cipherText (ssl : OpenSsl) (src password : List Byte) : List Byte :=
  BlockCipher.encrypt (ssl.des3 (ssl.bytesToKey password)) (src.take (shortLength src))

theorem take_shortLength (src : List Byte) :
    (src.take (shortLength src)).length = shortLength src := by
  have hle : shortLength src ≤ src.length := Nat.mod_le _ _
  rw [List.length_take, Nat.min_eq_left hle]

theorem cipherText_length (ssl : OpenSsl) (src password : List Byte) :
    (cipherText ssl src password).length = 8 * (shortLength src / 8 + 1) := by
  rw [cipherText, BlockCipher.encrypt_length, take_shortLength]

theorem des3Encrypt_ok_iff (src password out : List Byte) :
    des3Encrypt ssl src (toHN src.length) (mallocSize (toHN (src.length * 2))) password =
        .ok (.ok, out) ↔
      Encryptable src ∧ out = cipherText ssl src password := by
  have hm : shortLength src = src.length % 2 ^ 32 := rfl
  have htake := take_shortLength src
  rw [des3Encrypt, Encryptable]
  by_cases h31 : shortLength src < 2 ^ 31
  · have hlen : toHN src.length = shortLength src := by
      rw [toHN]
      omega
    rw [if_neg (by omega), hlen, Int.toNat_natCast]
    dsimp only
    rw [htake]
    by_cases h30 : shortLength src < 2 ^ 30
    · have hsize : toHN (src.length * 2) = (2 * shortLength src : Nat) := by
        rw [toHN]
        omega
      rw [hsize, mallocSize_natCast, writeBlock_some, if_pos (by omega), Outcome.ok_bind, writeBlock_some]
      by_cases h4 : 4 ≤ shortLength src
      · rw [if_pos (by omega), Outcome.ok_bind, Outcome.pure_eq]
        constructor
        · intro h
          exact ⟨⟨h4, h30⟩, (congrArg Prod.snd (Outcome.ok.inj h)).symm⟩
        · rintro ⟨_, rfl⟩
          rfl
      · -- the padding does not fit into the output block
        rw [if_neg (by omega)]
        constructor
        · intro h
          cases h
        · intro h
          exact absurd h.1.1 h4
    · -- twice the length is a negative `int`
      have hsize : toHN (src.length * 2) < 0 := by
        rw [toHN]
        omega
      rw [mallocSize_neg hsize, writeBlock_none, if_neg (by omega)]
      constructor
      · intro h
        cases h
      · intro h
        exact absurd h.1.2 h30
  · have hneg : toHN src.length < 0 := by
      rw [toHN]
      omega
    rw [if_pos hneg]
    constructor
    · intro h
      cases h
    · intro h
      omega

theorem encryptStr_ok_iff (src password out : List Byte) :
    encryptStr ssl src password = .ok (.ok, out) ↔
      Encryptable src ∧ out = cipherText ssl src password := by
  rw [← des3Encrypt_ok_iff, encryptStr]
  constructor
  · intro h
    obtain ⟨out', h1, h2⟩ := hnotokReturn_eq_ok h
    cases h2
    exact h1
  · intro h
    rw [h]
    rfl

theorem encryptMem_length {src password out : List Byte}
    (h : encryptMem ssl src password = .ok (.ok, out)) :
    out.length = 8 * (shortLength src / 8 + 1) := by
  obtain ⟨_, _, h⟩ := Outcome.bind_eq_ok.mp h
  obtain ⟨out', h1, h2⟩ := hnotokReturn_eq_ok h
  cases h2
  obtain ⟨_, rfl⟩ := (des3Encrypt_ok_iff src password out).mp h1
  exact cipherText_length ssl src password

theorem decryptMem_encryptStr {src password out : List Byte} (hlen : src.length < 2 ^ 30 - 8)
    (h : encryptStr ssl src password = .ok (.ok, out)) :
    decryptMem ssl out password = .ok (.ok, src) := by
  obtain ⟨_, rfl⟩ := (encryptStr_ok_iff src password out).mp h
  have hs : shortLength src = src.length := Nat.mod_eq_of_lt (by omega)
  have hcl := cipherText_length ssl src password
  rw [hs] at hcl
  have hne : (cipherText ssl src password).isEmpty = false := by
    rw [List.isEmpty_eq_false_iff, ← List.length_pos_iff]
    omega
  have hHN : toHN (cipherText ssl src password).length = (cipherText ssl src password).length :=
    toHN_of_lt (by omega)
  have hsize : mallocSize (toHN ((cipherText ssl src password).length * 2)) =
      some ((cipherText ssl src password).length * 2) := by
    rw [toHN_of_lt (by omega), mallocSize_natCast]
  have hdec : BlockCipher.decrypt (ssl.des3 (ssl.bytesToKey password)).symm
      (cipherText ssl src password) = some src := by
    rw [cipherText, hs, List.take_length]
    exact BlockCipher.decrypt_encrypt _ _
  rw [decryptMem, frontAddress, hne, if_neg (by decide), Outcome.ok_bind, des3Decrypt, hHN,
    if_neg (by omega), Int.toNat_natCast, List.take_length, hsize]
  dsimp only
  rw [writeBlock_some, if_pos (by omega), Outcome.ok_bind, hdec]
  dsimp only
  rw [writeBlock_some, if_pos (by omega)]
  rfl

end Layers

/-! ## The pair -/

section Pair

variable (ssl : OpenSsl) (ndebug : Bool) (s p : List Byte)

/-- What `Des3Base64UrlEncode` produces. -/
def transportText : List Byte := (ssl.base64 (cipherText ssl s p)).flatMap (encodeChar [])

theorem cipherText_bounds (h : Encryptable s) :
    cipherText ssl s p ≠ [] ∧ (cipherText ssl s p).length ≤ 2 ^ 30 := by
  obtain ⟨_, h30⟩ := h
  have hl := cipherText_length ssl s p
  exact ⟨List.length_pos_iff.mp (by omega), by omega⟩

theorem des3Base64UrlEncode_ok_iff (out : List Byte) :
    des3Base64UrlEncode ssl s p = .ok (.ok, out) ↔ Encryptable s ∧ out = transportText ssl s p := by
  constructor
  · intro h
    obtain ⟨cipher, h1, h2⟩ := hnotokReturn_eq_ok h
    obtain ⟨hs, rfl⟩ := (encryptStr_ok_iff s p cipher).mp h1
    obtain ⟨hne, hlen⟩ := cipherText_bounds ssl s p hs
    rw [base64Encode_eq hne (by omega)] at h2
    cases h2
    exact ⟨hs, rfl⟩
  · rintro ⟨hs, rfl⟩
    obtain ⟨hne, hlen⟩ := cipherText_bounds ssl s p hs
    rw [des3Base64UrlEncode, (encryptStr_ok_iff s p _).mpr ⟨hs, rfl⟩, hnotokReturn_ok,
      base64Encode_eq hne (by omega), hnotokReturn_ok]
    rfl

/-- The outer two layers are undone, the third is applied once more. -/
theorem des3Base64UrlDecode_eq (h : Encryptable s) :
    des3Base64UrlDecode ssl ndebug (transportText ssl s p) p =
      hnotokReturn (encryptMem ssl (cipherText ssl s p) p) [] fun des3Src =>
        return (.ok, des3Src) := by
  obtain ⟨hne, hlen⟩ := cipherText_bounds ssl s p h
  rw [des3Base64UrlDecode, transportText, urlDecode_encode, hnotokReturn_ok,
    base64Decode_encode hne hlen, hnotokReturn_ok]

theorem des3Base64UrlDecode_ne (h : Encryptable s) :
    des3Base64UrlDecode ssl ndebug (transportText ssl s p) p ≠ .ok (.ok, s) := by
  intro hdec
  rw [des3Base64UrlDecode_eq ssl ndebug s p h] at hdec
  obtain ⟨des3Src, h1, h2⟩ := hnotokReturn_eq_ok hdec
  cases h2
  -- one block longer than the ciphertext, which is already longer than the plaintext
  have hlen := encryptMem_length h1
  have hcl := cipherText_length ssl s p
  have hm : shortLength s = s.length % 2 ^ 32 := rfl
  have hc : shortLength (cipherText ssl s p) = (cipherText ssl s p).length % 2 ^ 32 := rfl
  obtain ⟨_, h30⟩ := h
  omega

/-- **Encrypted transport.** The round trip holds only where encoding does not return OK. -/
theorem transport_iff :
    (∀ out, des3Base64UrlEncode ssl s p = .ok (.ok, out) →
      des3Base64UrlDecode ssl ndebug out p = .ok (.ok, s)) ↔ ¬ Encryptable s := by
  constructor
  · intro h hs
    exact des3Base64UrlDecode_ne ssl ndebug s p hs
      (h _ ((des3Base64UrlEncode_ok_iff ssl s p _).mpr ⟨hs, rfl⟩))
  · intro hs out henc
    exact absurd ((des3Base64UrlEncode_ok_iff ssl s p out).mp henc).1 hs

end Pair

/-- The plaintext `abcd`, with base64 as it is and the identity as the cipher. -/
theorem transport_abcd :
    ∃ out, des3Base64UrlEncode .identity (['a', 'b', 'c', 'd'].map charByte) [] = .ok (.ok, out) ∧
      des3Base64UrlDecode .identity false out [] ≠ .ok (.ok, ['a', 'b', 'c', 'd'].map charByte) :=
  have h : Encryptable (['a', 'b', 'c', 'd'].map charByte) := by decide
  ⟨_, (des3Base64UrlEncode_ok_iff .identity _ [] _).mpr ⟨h, rfl⟩,
    des3Base64UrlDecode_ne .identity false _ [] h⟩

end Crypto
end Huicpp
