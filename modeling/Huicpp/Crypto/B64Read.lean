import Mathlib
import Huicpp.Cxx.Memory

/-!
# Crypto.B64Read

`BIO_read` through a base64 filter without newlines, over a memory buffer, as the OpenSSL that comes
with the repository does it. A buffer of 1024 characters is filled, its groups of four are decoded
together, and what is left over stays for the next round. A block that cannot be decoded ends the
reading with what there was before it: `b64_read` never answers with a negative number here.
-/

namespace Huicpp
namespace Crypto

open Cxx

def B64_BLOCK_SIZE : Nat := 1024
def B64_EOLN : Nat := 0xF0
def B64_CR : Nat := 0xF1
def B64_EOF : Nat := 0xF2
def B64_WS : Nat := 0xE0
def B64_ERROR : Nat := 0xFF

/-- `data_ascii2bin` -/
def convAscii2bin (a : Byte) : Nat :=
  if charByte 'A' ≤ a ∧ a ≤ charByte 'Z' then a.toNat - 65
  else if charByte 'a' ≤ a ∧ a ≤ charByte 'z' then a.toNat - 71
  else if charByte '0' ≤ a ∧ a ≤ charByte '9' then a.toNat + 4
  else if a = charByte '+' then 62
  else if a = charByte '/' then 63
  else if a = charByte '=' then 0
  else if a = charByte ' ' ∨ a = charByte '\t' then B64_WS
  else if a = charByte '\n' then B64_EOLN
  else if a = charByte '\r' then B64_CR
  else if a = charByte '-' then B64_EOF
  else B64_ERROR

/-- `B64_NOT_BASE64` -/
def notBase64 (v : Nat) : Bool := v ||| 0x13 == 0xF3

/-- White space and line ends are stripped from the end, down to three characters. The characters
come last one first. -/
def stripEnd : List Byte → List Byte
  | [] => []
  | c :: cs => if 3 < cs.length + 1 ∧ notBase64 (convAscii2bin c) then stripEnd cs else c :: cs

def decodeGroups : List Byte → Option (List Byte)
  | w :: x :: y :: z :: f =>
    let a := convAscii2bin w
    let b := convAscii2bin x
    let c := convAscii2bin y
    let d := convAscii2bin z
    if a.testBit 7 || b.testBit 7 || c.testBit 7 || d.testBit 7 then none
    else
      let l := a <<< 18 ||| b <<< 12 ||| c <<< 6 ||| d
      (decodeGroups f).map fun t =>
        BitVec.ofNat 8 (l >>> 16) :: BitVec.ofNat 8 (l >>> 8) :: BitVec.ofNat 8 l :: t
  | _ => some []

def evpDecodeBlock (f : List Byte) : Option (List Byte) :=
  let f := f.dropWhile fun c => convAscii2bin c == B64_WS
  let f := (stripEnd f.reverse).reverse
  if f.length % 4 ≠ 0 then none else decodeGroups f

/-- `i & ~3` -/
def wholeGroups (i : Nat) : Nat := i - i % 4

/-- The `=` at the end of a block, two at most. -/
def padding (tmp : List Byte) : Nat :=
  if 2 < tmp.length ∧ tmp.reverse[0]? = some (charByte '=') then
    if tmp.reverse[1]? = some (charByte '=') then 2 else 1
  else 0

/-- The bytes that the whole groups in the buffer stand for, or that there is an error. -/
def decodeTmp (tmp : List Byte) : Option (List Byte) :=
  let jj := wholeGroups tmp.length
  (evpDecodeBlock (tmp.take jj)).map fun buf => buf.take (buf.length - padding (tmp.take jj))

theorem decodeTmp_pos {tmp buf : List Byte} (h : decodeTmp tmp = some buf) (hne : buf ≠ []) :
    0 < wholeGroups tmp.length := by
  by_contra hzero
  have hjj : wholeGroups tmp.length = 0 := by omega
  have hnil : decodeTmp tmp = some [] := by
    rw [decodeTmp, hjj, List.take_zero]
    rfl
  exact hne (Option.some.inj (h.symm.trans hnil))

/-- A round that delivers something leaves less to read. -/
theorem round_consumes {tmp rest buf : List Byte} {n : Nat}
    (h : decodeTmp (tmp ++ rest.take n) = some buf) (hne : buf ≠ []) :
    ((tmp ++ rest.take n).drop (wholeGroups (tmp ++ rest.take n).length)).length +
      (rest.drop n).length < tmp.length + rest.length := by
  have hpos := decodeTmp_pos h hne
  have hle : wholeGroups (tmp ++ rest.take n).length ≤ (tmp ++ rest.take n).length :=
    Nat.sub_le _ _
  rw [List.length_drop, List.length_drop]
  rw [List.length_append, List.length_take] at *
  omega

/-- The loop of `b64_read`, with room for `outl` bytes. `tmp` was left over, `rest` is still in the
memory buffer, and what cannot be decoded ends the loop. -/
def b64Loop (outl : Nat) (tmp rest : List Byte) : List Byte :=
  if outl = 0 then []
  else
    let n := B64_BLOCK_SIZE - tmp.length
    match _h : decodeTmp (tmp ++ rest.take n) with
    | none => []
    | some buf =>
      if _hne : buf = [] then []
      else
        buf.take outl ++ b64Loop (outl - buf.length)
          ((tmp ++ rest.take n).drop (wholeGroups (tmp ++ rest.take n).length)) (rest.drop n)
termination_by tmp.length + rest.length
decreasing_by exact round_consumes _h _hne

/-- `b64_read`: the bytes stored, whose number is returned. -/
def b64Read (text : List Byte) (outl : Nat) : List Byte := b64Loop outl [] text

theorem b64Loop_round {outl : Nat} {tmp rest buf : List Byte} (hpos : outl ≠ 0)
    (h : decodeTmp (tmp ++ rest.take (B64_BLOCK_SIZE - tmp.length)) = some buf) (hne : buf ≠ []) :
    b64Loop outl tmp rest = buf.take outl ++ b64Loop (outl - buf.length)
      ((tmp ++ rest.take (B64_BLOCK_SIZE - tmp.length)).drop
        (wholeGroups (tmp ++ rest.take (B64_BLOCK_SIZE - tmp.length)).length))
      (rest.drop (B64_BLOCK_SIZE - tmp.length)) := by
  rw [b64Loop, if_neg hpos]
  dsimp only
  split
  · next hnone => exact absurd (h.symm.trans hnone) (Option.some_ne_none buf)
  · next buf' hbuf =>
    obtain rfl : buf = buf' := Option.some.inj (h.symm.trans hbuf)
    exact dif_neg hne

theorem b64Loop_nil (outl : Nat) : b64Loop outl [] [] = [] := by
  rw [b64Loop]
  split
  · rfl
  · rfl

theorem b64Loop_length (outl : Nat) (tmp rest : List Byte) :
    (b64Loop outl tmp rest).length ≤ outl := by
  fun_induction b64Loop outl tmp rest with
  | case1 => exact Nat.zero_le _
  | case2 => exact Nat.zero_le _
  | case3 => exact Nat.zero_le _
  | case4 outl tmp rest hpos n buf h hne ih =>
    rw [List.length_append, List.length_take]
    omega

theorem b64Read_length (text : List Byte) (outl : Nat) : (b64Read text outl).length ≤ outl :=
  b64Loop_length outl [] text

end Crypto
end Huicpp
