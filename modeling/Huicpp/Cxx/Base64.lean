import Mathlib
import Huicpp.Cxx.Memory

/-!
# Cxx.Base64

Base64 on one line: three bytes become four characters, a shorter last group is padded with `=`.
-/

namespace Cxx
namespace Base64

/-- The character for a number below 64. -/
def sextetChar (n : Nat) : Byte :=
  if n < 26 then BitVec.ofNat 8 (65 + n)
  else if n < 52 then BitVec.ofNat 8 (71 + n)
  else if n < 62 then BitVec.ofNat 8 (n - 4)
  else if n = 62 then charByte '+' else charByte '/'

def charSextet (c : Byte) : Nat :=
  if charByte 'A' ≤ c ∧ c ≤ charByte 'Z' then c.toNat - 65
  else if charByte 'a' ≤ c ∧ c ≤ charByte 'z' then c.toNat - 71
  else if charByte '0' ≤ c ∧ c ≤ charByte '9' then c.toNat + 4
  else if c = charByte '+' then 62 else 63

def padChar : Byte := charByte '='

def encode : List Byte → List Byte
  | a :: b :: c :: bs =>
    sextetChar (a.toNat / 4) :: sextetChar (a.toNat % 4 * 16 + b.toNat / 16) ::
      sextetChar (b.toNat % 16 * 4 + c.toNat / 64) :: sextetChar (c.toNat % 64) :: encode bs
  | [a, b] =>
    [sextetChar (a.toNat / 4), sextetChar (a.toNat % 4 * 16 + b.toNat / 16),
      sextetChar (b.toNat % 16 * 4), padChar]
  | [a] => [sextetChar (a.toNat / 4), sextetChar (a.toNat % 4 * 16), padChar, padChar]
  | [] => []

def decode : List Byte → List Byte
  | w :: x :: y :: z :: cs =>
    let a := BitVec.ofNat 8 (charSextet w * 4 + charSextet x / 16)
    let b := BitVec.ofNat 8 (charSextet x % 16 * 16 + charSextet y / 4)
    let c := BitVec.ofNat 8 (charSextet y % 4 * 64 + charSextet z)
    if y = padChar then [a] else if z = padChar then [a, b] else a :: b :: c :: decode cs
  | _ => []

theorem charSextet_sextetChar : ∀ n < 64, charSextet (sextetChar n) = n := by decide

theorem sextetChar_ne_pad : ∀ n < 64, sextetChar n ≠ padChar := by decide

theorem ofNat_eq {a : Byte} {n : Nat} (h : n = a.toNat) : BitVec.ofNat 8 n = a := by
  rw [h, BitVec.ofNat_toNat, BitVec.setWidth_eq]

theorem decode_encode (bs : List Byte) : decode (encode bs) = bs := by
  induction bs using encode.induct with
  | case1 a b c bs ih =>
    have ha := a.isLt
    have hb := b.isLt
    have hc := c.isLt
    rw [encode, decode]
    simp only [charSextet_sextetChar (a.toNat / 4) (by omega),
      charSextet_sextetChar (a.toNat % 4 * 16 + b.toNat / 16) (by omega),
      charSextet_sextetChar (b.toNat % 16 * 4 + c.toNat / 64) (by omega),
      charSextet_sextetChar (c.toNat % 64) (by omega)]
    rw [if_neg (sextetChar_ne_pad _ (by omega)), if_neg (sextetChar_ne_pad _ (by omega)), ih,
      @ofNat_eq a _ (by omega), @ofNat_eq b _ (by omega), @ofNat_eq c _ (by omega)]
  | case2 a b =>
    have ha := a.isLt
    have hb := b.isLt
    rw [encode, decode]
    simp only [charSextet_sextetChar (a.toNat / 4) (by omega),
      charSextet_sextetChar (a.toNat % 4 * 16 + b.toNat / 16) (by omega),
      charSextet_sextetChar (b.toNat % 16 * 4) (by omega), if_true]
    rw [if_neg (sextetChar_ne_pad _ (by omega)), @ofNat_eq a _ (by omega),
      @ofNat_eq b _ (by omega)]
  | case3 a =>
    have ha := a.isLt
    rw [encode, decode]
    simp only [charSextet_sextetChar (a.toNat / 4) (by omega),
      charSextet_sextetChar (a.toNat % 4 * 16) (by omega), if_true]
    rw [@ofNat_eq a _ (by omega)]
  | case4 => simp [encode, decode]

theorem encode_length (bs : List Byte) : (encode bs).length = 4 * ((bs.length + 2) / 3) := by
  induction bs using encode.induct with
  | case1 a b c bs ih =>
    simp only [encode, List.length_cons, ih]
    omega
  | case2 a b => simp [encode]
  | case3 a => simp [encode]
  | case4 => simp [encode]

end Base64
end Cxx
