import Mathlib
import Huicpp.Cxx.Memory
import Huicpp.HRet

/-!
# Crypto.UrlEncode

Percent encoding with `+` for blanks. Encoding never fails; decoding asserts that two hex digits
follow every `%`. `ndebug` says whether the asserts are compiled out, in which case a missing digit
is an uninitialised value.

`decode_encode`: decoding undoes encoding for every byte string, with no characters declared safe.
-/

namespace Huicpp
namespace Crypto

open Cxx

/-- `assert(c)`. -/
def assertion (ndebug c : Bool) : Outcome Unit :=
  if ndebug || c then .ok () else .undef .assertFailed

def toHex (x : Nat) : Byte := BitVec.ofNat 8 (if x > 9 then x + 55 else x + 48)

def fromHex (ndebug : Bool) (x : Byte) : Outcome Byte :=
  if charByte 'A' ≤ x ∧ x ≤ charByte 'Z' then .ok (x - charByte 'A' + 10)
  else if charByte 'a' ≤ x ∧ x ≤ charByte 'z' then .ok (x - charByte 'a' + 10)
  else if charByte '0' ≤ x ∧ x ≤ charByte '9' then .ok (x - charByte '0')
  else do
    assertion ndebug false
    .undef .uninitialised

/-- `isalnum` of the C locale. -/
def isalnum (uc : Byte) : Bool :=
  (charByte '0' ≤ uc && uc ≤ charByte '9') || (charByte 'A' ≤ uc && uc ≤ charByte 'Z') ||
    (charByte 'a' ≤ uc && uc ≤ charByte 'z')

/-- What `Encode` appends for one character. -/
def encodeChar (safes : List Byte) (c : Byte) : List Byte :=
  if isalnum c || c = charByte '-' || c = charByte '_' || c = charByte '.' || c = charByte '~' ||
      safes.contains c then [c]
  else if c = charByte ' ' then [charByte '+']
  else [charByte '%', toHex (c.toNat / 16), toHex (c.toNat % 16)]

def urlEncode (str safes : List Byte) : Outcome (HRet × List Byte) :=
  return (.ok, str.flatMap (encodeChar safes))

/-- The loop of `Decode`: what it appends to `dst`. Reading `str[length]` gives the terminating
zero, which is no hex digit. -/
def decodeChars (ndebug : Bool) : List Byte → Outcome (List Byte)
  | [] => return []
  | c :: cs =>
    if c = charByte '+' then do
      let dst ← decodeChars ndebug cs
      return charByte ' ' :: dst
    else if c = charByte '%' then
      match cs with
      | x :: y :: cs => do
        let high ← fromHex ndebug x
        let low ← fromHex ndebug y
        let dst ← decodeChars ndebug cs
        return (high * 16 + low) :: dst
      | x :: [] => do
        assertion ndebug false
        let _ ← fromHex ndebug x
        let _ ← fromHex ndebug 0
        return []
      | [] => do
        assertion ndebug false
        let _ ← fromHex ndebug 0
        return []
    else do
      let dst ← decodeChars ndebug cs
      return c :: dst

def urlDecode (ndebug : Bool) (str : List Byte) : Outcome (HRet × List Byte) := do
  let dst ← decodeChars ndebug str
  return (.ok, dst)

/-! ## Round trip -/

theorem fromHex_toHex (ndebug : Bool) : ∀ x < 16, fromHex ndebug (toHex x) = .ok (BitVec.ofNat 8 x) := by
  cases ndebug <;> decide

/-- The characters that stand for themselves. -/
def Plain (c : Byte) : Prop := c ≠ charByte '+' ∧ c ≠ charByte '%'

theorem decodeChars_plain {ndebug : Bool} {c : Byte} (hc : Plain c) (cs : List Byte) :
    decodeChars ndebug (c :: cs) = (do
      let dst ← decodeChars ndebug cs
      return c :: dst) := by
  rw [decodeChars.eq_def]
  simp only [hc.1, hc.2, if_false]

theorem decodeChars_plus (ndebug : Bool) (cs : List Byte) :
    decodeChars ndebug (charByte '+' :: cs) = (do
      let dst ← decodeChars ndebug cs
      return charByte ' ' :: dst) := by
  rw [decodeChars.eq_def]
  simp only [if_true]

theorem decodeChars_escape (ndebug : Bool) (c : Byte) (cs : List Byte) :
    decodeChars ndebug (charByte '%' :: toHex (c.toNat / 16) :: toHex (c.toNat % 16) :: cs) = (do
      let dst ← decodeChars ndebug cs
      return c :: dst) := by
  have hc := c.isLt
  have hval : BitVec.ofNat 8 (c.toNat / 16) * 16 + BitVec.ofNat 8 (c.toNat % 16) = c := by
    have h16 : (16 : Byte).toNat = 16 := rfl
    apply BitVec.eq_of_toNat_eq
    simp only [BitVec.toNat_add, BitVec.toNat_mul, BitVec.toNat_ofNat, h16]
    omega
  have hne : charByte '%' ≠ charByte '+' := by decide
  rw [decodeChars.eq_def]
  simp only [hne, if_false, if_true, fromHex_toHex ndebug _ (show c.toNat / 16 < 16 by omega),
    fromHex_toHex ndebug _ (show c.toNat % 16 < 16 by omega), Outcome.ok_bind, hval]

theorem isalnum_plain {c : Byte} (h : isalnum c = true) : Plain c := by
  constructor
  · rintro rfl
    exact absurd h (by decide)
  · rintro rfl
    exact absurd h (by decide)

section Safes

variable {safes : List Byte}

theorem decodeChars_encodeChar (hsafes : ∀ c ∈ safes, Plain c) (ndebug : Bool) (c : Byte)
    (cs : List Byte) :
    decodeChars ndebug (encodeChar safes c ++ cs) = (do
      let dst ← decodeChars ndebug cs
      return c :: dst) := by
  rw [encodeChar]
  split
  · rename_i h
    have hc : Plain c := by
      simp only [Bool.or_eq_true, decide_eq_true_eq, List.contains_iff_mem] at h
      rcases h with ((((h | rfl) | rfl) | rfl) | rfl) | h
      · exact isalnum_plain h
      · exact ⟨by decide, by decide⟩
      · exact ⟨by decide, by decide⟩
      · exact ⟨by decide, by decide⟩
      · exact ⟨by decide, by decide⟩
      · exact hsafes c h
    exact decodeChars_plain hc cs
  · split
    · rename_i h
      rw [h]
      exact decodeChars_plus ndebug cs
    · exact decodeChars_escape ndebug c cs

theorem decodeChars_encode (hsafes : ∀ c ∈ safes, Plain c) (ndebug : Bool) (str : List Byte) :
    decodeChars ndebug (str.flatMap (encodeChar safes)) = .ok str := by
  induction str with
  | nil => rfl
  | cons c cs ih =>
    rw [List.flatMap_cons, decodeChars_encodeChar hsafes, ih]
    rfl

end Safes

theorem urlDecode_encode (ndebug : Bool) (str : List Byte) :
    urlDecode ndebug (str.flatMap (encodeChar [])) = .ok (.ok, str) := by
  rw [urlDecode, decodeChars_encode (List.forall_mem_nil _)]
  rfl

end Crypto
end Huicpp
