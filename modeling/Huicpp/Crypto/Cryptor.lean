import Mathlib
import Huicpp.Cxx.Base64
import Huicpp.Cxx.BlockCipher
import Huicpp.Crypto.UrlEncode

/-!
# Crypto.Cryptor

`Base64`, `Des3` and the combined encodings of `Cryptor`, over what they use of OpenSSL.

Initialising a context with a cipher turns padding on, so the call that turns it off before the
initialisation in `des3_encrypt` has no effect.
-/

namespace Huicpp
namespace Crypto

open Cxx

/-- The part of OpenSSL behind these classes.

* `bytesToKey`: `EVP_BytesToKey` for `EVP_des_ede3_ecb`, MD5, no salt, one round.
* `des3`: 3DES on one block.
* `base64`: what `BIO_write` and `BIO_flush` leave in the memory BIO.
* `base64Read text len`: what `BIO_read` of at most `len` bytes returns and delivers. -/
structure OpenSsl where
  Key : Type
  bytesToKey : List Byte → Key
  des3 : Key → Equiv.Perm Block
  base64 : List Byte → List Byte
  base64Read : List Byte → Nat → Int × List Byte
  base64_length : ∀ bs, (base64 bs).length = 4 * ((bs.length + 2) / 3)
  base64Read_base64 : ∀ bs len, bs ≠ [] → bs.length ≤ len →
    base64Read (base64 bs) len = ((bs.length : Int), bs)

/-- Base64 as it is, and a cipher that changes nothing. -/
def OpenSsl.identity : OpenSsl where
  Key := Unit
  bytesToKey _ := ()
  des3 _ := Equiv.refl Block
  base64 := Base64.encode
  base64Read text len := ((Base64.decode text).length, (Base64.decode text).take len)
  base64_length := Base64.encode_length
  base64Read_base64 bs len _ h := by rw [Base64.decode_encode, List.take_of_length_le h]

/-- `&src[0]`, which a vector has only if it is not empty. -/
def frontAddress (src : List Byte) : Outcome Unit :=
  if src.isEmpty then .undef .outOfBounds else .ok ()

/-- The size of the block `malloc(n)`. A negative `int` becomes a `size_t` no block can have. -/
def mallocSize (n : Int) : Option Nat := if n < 0 then none else some n.toNat

/-- Writes the first `n` bytes of a block. -/
def writeBlock : Option Nat → Nat → Outcome Unit
  | none, n => if n = 0 then .ok () else .undef .nullAccess
  | some size, n => if n ≤ size then .ok () else .undef .outOfBounds

@[simp] theorem mallocSize_natCast (n : Nat) : mallocSize n = some n := by
  rw [mallocSize, if_neg (by omega), Int.toNat_natCast]

theorem mallocSize_neg {n : Int} (h : n < 0) : mallocSize n = none := if_pos h

theorem writeBlock_some {size n : Nat} : writeBlock (some size) n =
    if n ≤ size then .ok () else .undef .outOfBounds := rfl

theorem writeBlock_none {n : Nat} : writeBlock none n =
    if n = 0 then .ok () else .undef .nullAccess := rfl

section Code

variable (ssl : OpenSsl)

/-! ## Base64 -/

/-- `Base64::Encode`. The length is passed to `BIO_write` as an `int`. -/
def base64Encode (indata : List Byte) : Outcome (HRet × List Byte) :=
  if indata.isEmpty then return (.ok, [])
  else return (.ok, ssl.base64 (indata.take (toHN indata.length).toNat))

/-- `BIO_new_mem_buf(buf, len)`: a negative length means up to the terminating zero. -/
def memBuf (indata : List Byte) : List Byte :=
  if toHN indata.length < 0 then indata.takeWhile (· ≠ 0)
  else indata.take (toHN indata.length).toNat

/-- `Base64::Decode`. A negative result of `BIO_read` becomes a huge `size_t`. -/
def base64Decode (indata : List Byte) : Outcome (HRet × List Byte) :=
  if indata.isEmpty then return (.ok, [])
  else
    let (r, bytes) := ssl.base64Read (memBuf indata) (toHN indata.length).toNat
    if r < 0 then .throws .lengthError else .ok (.ok, bytes.take r.toNat)

/-! ## Des3 -/

/-- `des3_encrypt`: the content of `out` up to the final `outlen`. `EVP_EncryptUpdate` refuses a
negative length, and writes the full blocks; `EVP_EncryptFinal_ex` writes the padded one. -/
def des3Encrypt (inp : List Byte) (inlen : Int) (out : Option Nat) (password : List Byte) :
    Outcome (HRet × List Byte) :=
  let key := ssl.bytesToKey password
  if inlen < 0 then return (.depError, [])
  else do
    let msg := inp.take inlen.toNat
    writeBlock out (8 * (msg.length / 8))
    writeBlock out (8 * (msg.length / 8) + 8)
    return (.ok, BlockCipher.encrypt (ssl.des3 key) msg)

/-- `des3_decrypt`. `EVP_DecryptUpdate` holds back the last block, and `EVP_DecryptFinal_ex` fails
if it is missing or not padded. -/
def des3Decrypt (inp : List Byte) (inlen : Int) (out : Option Nat) (password : List Byte) :
    Outcome (HRet × List Byte) :=
  let key := ssl.bytesToKey password
  if inlen < 0 then return (.depError, [])
  else do
    let cipher := inp.take inlen.toNat
    writeBlock out (8 * ((cipher.length - 1) / 8))
    match BlockCipher.decrypt (ssl.des3 key).symm cipher with
    | none => return (.depError, [])
    | some msg => do
      writeBlock out msg.length
      return (.ok, msg)

/-- `Des3::Encrypt(HCSTRR, ..)`. -/
def encryptStr (src passwd : List Byte) : Outcome (HRet × List Byte) :=
  let outlen := toHN (src.length * 2)
  hnotokReturn (des3Encrypt ssl src (toHN src.length) (mallocSize outlen) passwd) [] fun out =>
    return (.ok, out)

/-- `Des3::Encrypt(HMEMR, ..)`. -/
def encryptMem (src passwd : List Byte) : Outcome (HRet × List Byte) := do
  let outlen := toHN (src.length * 2)
  frontAddress src
  hnotokReturn (des3Encrypt ssl src (toHN src.length) (mallocSize outlen) passwd) [] fun out =>
    return (.ok, out)

/-- `Des3::Decrypt`. -/
def decryptMem (src passwd : List Byte) : Outcome (HRet × List Byte) := do
  let outlen := toHN (src.length * 2)
  frontAddress src
  hnotokReturn (des3Decrypt ssl src (toHN src.length) (mallocSize outlen) passwd) [] fun out =>
    return (.ok, out)

/-! ## Cryptor -/

def base64UrlEncode (strin : List Byte) : Outcome (HRet × List Byte) :=
  hnotokReturn (base64Encode ssl strin) [] fun src64 =>
    hnotokReturn (urlEncode src64 []) [] fun strout => return (.ok, strout)

def base64UrlDecode (ndebug : Bool) (strIn : List Byte) : Outcome (HRet × List Byte) :=
  hnotokReturn (urlDecode ndebug strIn) [] fun urlSrc =>
    hnotokReturn (base64Decode ssl urlSrc) [] fun mem => return (.ok, mem)

def des3Base64UrlEncode (strin strPassword : List Byte) : Outcome (HRet × List Byte) :=
  hnotokReturn (encryptStr ssl strin strPassword) [] fun des3Dst =>
    hnotokReturn (base64Encode ssl des3Dst) [] fun str64 =>
      hnotokReturn (urlEncode str64 []) [] fun strout => return (.ok, strout)

/-- The last step calls `Des3::Encrypt`, as the source does. -/
def des3Base64UrlDecode (ndebug : Bool) (strin strPassword : List Byte) :
    Outcome (HRet × List Byte) :=
  hnotokReturn (urlDecode ndebug strin) [] fun str64 =>
    hnotokReturn (base64Decode ssl str64) [] fun mem =>
      hnotokReturn (encryptMem ssl mem strPassword) [] fun des3Src => return (.ok, des3Src)

end Code

end Crypto
end Huicpp
