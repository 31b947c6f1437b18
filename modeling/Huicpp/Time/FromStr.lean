import Mathlib
import Huicpp.Cxx.CString
import Huicpp.Cxx.LoopRuns

/-!
# Time.FromStr

`time_basic::FromStr`. One pointer goes through the format and one through the data. A character of the
format that is no conversion takes the data a character further, whatever stands there; a conversion
looks at the data.

`parse` is the loop: the fields that were read, or none if the data was found not to be valid.
-/

namespace Huicpp
namespace Time

open Cxx Prog

/-- The fields of a `struct tm` that are read; the others stay zero. -/
structure Tm where
  tm_sec : Int
  tm_min : Int
  tm_hour : Int
  tm_mday : Int
  tm_mon : Int
  tm_year : Int
  deriving DecidableEq, Repr

def Tm.zero : Tm := ⟨0, 0, 0, 0, 0, 0⟩

def formatMark : Byte := charByte '%'

/-- A tab or a space -/
def isTabOrSpace (c : Byte) : Bool := c = charByte '\t' || c = charByte ' '

/-- `atoi` of digits. Of a number that is no `int` it is undefined. -/
def atoi (ds : List Byte) : Outcome Int :=
  if number ds < 2 ^ 31 then .ok (number ds) else .undef .overflow

/-- Blanks of the data are skipped. -/
def skipBlanks : CPtr → Outcome CPtr
  | [] => .undef .outOfBounds
  | c :: p => if isTabOrSpace c && c ≠ 0 then skipBlanks p else .ok (c :: p)

/-- The inner loop over characters that are no conversion, up to a `%` or the end of the format. -/
def literals : CPtr → CPtr → Outcome (CPtr × CPtr)
  | [], _ => .undef .outOfBounds
  | [ch], pDataPart =>
    if ch = formatMark ∨ ch = 0 then .ok ([ch], pDataPart) else .undef .outOfBounds
  | ch :: ch2 :: p, pDataPart =>
    if ch = formatMark ∨ ch = 0 then .ok (ch :: ch2 :: p, pDataPart)
    else if isTabOrSpace ch && !isTabOrSpace ch2 then do
      let q ← skipBlanks pDataPart.tail
      literals (ch2 :: p) q
    else if 0x80 < ch.toNat then literals p pDataPart.tail.tail
    else literals (ch2 :: p) pDataPart.tail

/-- The digits of a width. -/
def readWidth : CPtr → Outcome (List Byte × CPtr)
  | [] => .undef .outOfBounds
  | c :: p =>
    if isDigit c then do
      let (ds, q) ← readWidth p
      return (c :: ds, q)
    else .ok ([], c :: p)

/-- The digits of a number, behind `n` of them. -/
def readNumber (width : Int) (n : Nat) : CPtr → Outcome (List Byte × CPtr)
  | [] => .undef .outOfBounds
  | c :: p =>
    if isDigit c && (width = -1 || n < width) && c ≠ 0 then do
      let (ds, q) ← readNumber width (n + 1) p
      return (c :: ds, q)
    else .ok ([], c :: p)

/-- The `switch`: a flag that it does not know makes the data invalid. -/
def setField (flag : Byte) (val : Int) (atm : Tm) : Outcome (Option Tm) :=
  if flag = charByte 'y' then do
    let year ← checkedHN (val + 100)
    return some { atm with tm_year := year }
  else if flag = charByte 'Y' then do
    let year ← checkedHN (val - 1900)
    return some { atm with tm_year := year }
  else if flag = charByte 'm' then do
    let mon ← checkedHN (val - 1)
    return some { atm with tm_mon := mon }
  else if flag = charByte 'd' then .ok (some { atm with tm_mday := val })
  else if flag = charByte 'H' then .ok (some { atm with tm_hour := val })
  else if flag = charByte 'M' then .ok (some { atm with tm_min := val })
  else if flag = charByte 'S' then .ok (some { atm with tm_sec := val })
  else .ok none

structure ParseState where
  pFormatTag : CPtr
  pDataPart : CPtr
  bValidData : Bool
  atm : Tm

/-- A conversion, from behind its `%` on. -/
def conversion (pFormatTag pDataPart : CPtr) (atm : Tm) : Outcome ParseState := do
  let (strTemp, p) ← readWidth pFormatTag
  let width ← if strTemp = [] then .ok (-1) else atoi strTemp
  let flag ← deref p
  if flag = formatMark then do
    let c ← deref pDataPart
    return ⟨p.tail, pDataPart.tail, c = formatMark, atm⟩
  else do
    let (strTemp, q) ← readNumber width 0 pDataPart
    if strTemp = [] then return ⟨p.tail, q, false, atm⟩
    else do
      let val ← atoi strTemp
      let atm' ← setField flag val atm
      return ⟨p.tail, q, atm'.isSome, atm'.getD atm⟩

/-- An iteration of the outer loop. -/
def parseStep (s : ParseState) : Outcome (Ctl ParseState (Option Tm)) := do
  let c ← deref s.pFormatTag
  if c ≠ 0 ∧ s.bValidData then do
    let (p, q) ← literals s.pFormatTag s.pDataPart
    let c ← deref p
    if c = 0 then return .exit (if s.bValidData then some s.atm else none)
    else do
      let s' ← conversion p.tail q s.atm
      return .again s'
  else return .exit (if s.bValidData then some s.atm else none)

/-- What the time is set from. Empty data leaves it alone. -/
def parse (szFormat : CPtr) (strTime : List Byte) : Prog (Option Tm) :=
  if strTime = [] then pure none
  else loopOf parseStep ⟨szFormat, terminated strTime, true, .zero⟩

/-- `time_basic::FromStr`, for a format that is not the null pointer. `makeMe` is `mktime`. -/
def fromStr (makeMe : Tm → Int) (m_time : Int) (strTime : List Byte) (szFormat : CPtr) : Prog Int := do
  let atm ← parse szFormat strTime
  return (atm.map makeMe).getD m_time

end Time
end Huicpp
