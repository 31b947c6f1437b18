import Mathlib
import Huicpp.Cxx.CString
import Huicpp.Cxx.Decimal
import Huicpp.Cxx.Text

/-!
# Str.Format

`HStr::Format` and `HStr::AppendFormat`. The formats that the library uses are texts with `%s` and
`%d` in them.

* `vFormat_buffer`: the buffer on the stack takes a text that is shorter than it is.
* `vFormat_vasprintf`: the other branch of the `#ifdef` takes every text.
-/

namespace Huicpp
namespace Str

open Cxx Cxx.Text

/-- A part of a format, with the argument that a conversion takes. -/
inductive Piece where
  | text (t : List Byte)
  | s (str : List Byte)
  | d (n : Int)
  deriving DecidableEq, Repr

/-- What `printf` writes for it. A string is passed as `str.c_str()`. -/
def Piece.bytes : Piece → List Byte
  | .text t => t
  | .s str => cStr str
  | .d n => decimalInt n

def expand (fmt : List Piece) : List Byte := fmt.flatMap Piece.bytes

def hwordLen : Nat := 128

/-- The size of an `HSTRING_BUF` -/
def hstringLen : Nat := hwordLen * 16

/-- `vsprintf(buf, fmt, ap)` -/
def vsprintf (buf : List Byte) (fmt : List Piece) : Outcome (List Byte) :=
  storeAt buf 0 (expand fmt ++ [0])

/-- `vasprintf(&buf, fmt, ap)` makes a buffer that is large enough. -/
def vasprintf (fmt : List Piece) : Outcome (List Byte) := .ok (expand fmt ++ [0])

/-- `HStr::vFormat`, with `_GUN_SOURCE` defined or not -/
def vFormat (gunSource : Bool) (fmt : List Piece) : Outcome (List Byte) := do
  if gunSource then
    let buf ← vasprintf fmt
    return cStr buf
  else
    let buf ← vsprintf (List.replicate hstringLen 0) fmt
    return cStr buf

/-- The macro that glibc knows is `_GNU_SOURCE`. Nothing defines this one. -/
def gunSource : Bool := false

/-- `HStr::Format` -/
def format (fmt : List Piece) : Outcome (List Byte) := vFormat gunSource fmt

/-- `HStr::AppendFormat` -/
def appendFormat (str : List Byte) (fmt : List Piece) : Outcome (List Byte) := do
  let newstr ← vFormat gunSource fmt
  return str ++ newstr

variable {fmt : List Piece}

theorem vFormat_buffer (hfmt : 0 ∉ expand fmt) :
    vFormat false fmt =
      if (expand fmt).length < hstringLen then .ok (expand fmt) else .undef .outOfBounds := by
  show sprintf hstringLen (expand fmt) = _
  exact sprintf_eq hfmt

theorem vFormat_vasprintf (hfmt : 0 ∉ expand fmt) : vFormat true fmt = .ok (expand fmt) := by
  show (vasprintf fmt >>= fun buf => pure (cStr buf)) = _
  rw [vasprintf, Outcome.ok_bind, cStr_append_zero hfmt]
  rfl

theorem format_eq (hfmt : 0 ∉ expand fmt) :
    format fmt =
      if (expand fmt).length < hstringLen then .ok (expand fmt) else .undef .outOfBounds :=
  vFormat_buffer hfmt

theorem appendFormat_eq (hfmt : 0 ∉ expand fmt) (str : List Byte) :
    appendFormat str fmt =
      if (expand fmt).length < hstringLen then .ok (str ++ expand fmt) else .undef .outOfBounds := by
  rw [appendFormat, gunSource, vFormat_buffer hfmt]
  split
  · rfl
  · rfl

theorem ok_iff_fits {t r : List Byte} :
    (if t.length < hstringLen then Outcome.ok r else .undef .outOfBounds) = .ok r ↔
      t.length < hstringLen := by
  constructor
  · intro h
    by_contra hlong
    rw [if_neg hlong] at h
    cases h
  · intro hfits
    rw [if_pos hfits]

theorem expand_s {s : List Byte} (h : 0 ∉ s) : expand [.s s] = s := by
  rw [expand, List.flatMap_singleton, Piece.bytes, cStr_eq_self h]

end Str
end Huicpp
