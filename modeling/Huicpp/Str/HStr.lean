import Mathlib
import Huicpp.Cxx.Decimal
import Huicpp.Cxx.Text
import Huicpp.HRet

/-!
# Str.HStr

`HStr::Split` and `HStr::V2Str`, and what tells and reads numbers.
-/

namespace Huicpp
namespace Str

open Cxx Cxx.Text

/-- The body of the loop in `Split`: the piece before the next `key`. The state is `beg` and `res`,
and the loop is left with the last `pos` too. -/
def splitStep (s key : List Byte) :
    Nat × List (List Byte) → Prog (Ctl (Nat × List (List Byte)) (Pos × Nat × List (List Byte)))
  | (beg, res) =>
    match find s key beg with
    | none => return .exit (npos, beg, res)
    | some pos => do
      let piece ← substr s beg (some (pos - beg))
      return .again (pos + key.length, res ++ [piece])

/-- `HStr::Split`. The result has the final `res`. -/
def split (s key : List Byte) (res : List (List Byte)) (beg : Nat) :
    Prog (HRet × List (List Byte)) := do
  if ¬ (¬ s.isEmpty ∧ ¬ key.isEmpty) then return (.invlPara, res)
  let (pos, beg, res) ← Prog.loop (splitStep s key) (beg, res)
  if pos ≠ Pos.pred s.length then
    let piece ← substr s beg npos
    return (.ok, res ++ [piece])
  return (.ok, res)

/-- The loop in `V2Str`. -/
def appendEach (l : List Byte) (strs : List (List Byte)) (res : List Byte) : List Byte :=
  strs.foldl (fun res str => res ++ str ++ l) res

/-- `HStr::V2Str` -/
def v2Str (strs : List (List Byte)) (l : List Byte) : Outcome (List Byte) := do
  let res := appendEach l strs []
  if ¬ l.isEmpty then
    let res ← substr res 0 (Pos.pred res.length)
    return res
  return res

/-- `"1234567890"` -/
def digits : List Byte := [49, 50, 51, 52, 53, 54, 55, 56, 57, 48]

/-- `HStr::IsAllDigit` -/
def isAllDigit (str : List Byte) : Bool := findFirstNotOf str digits == npos

/-- `HStr::ToN` -/
def toN (this : List Byte) : Outcome Int := stoi this

theorem mem_digits {b : Byte} : b ∈ digits ↔ isDigit b = true := by
  revert b
  decide

/-- That holds of the empty string too. -/
theorem isAllDigit_iff {str : List Byte} :
    isAllDigit str = true ↔ ∀ b ∈ str, isDigit b = true := by
  rw [isAllDigit, beq_iff_eq, findFirstNotOf_eq_npos]
  exact forall₂_congr fun b _ => mem_digits

end Str
end Huicpp
