import Mathlib
import Huicpp.Cxx.Text

/-!
# Str.Trim

`HStr::Trim` takes blanks off both ends.
-/

namespace Huicpp
namespace Str

open Cxx Cxx.Text

/-- `s_tr_str`, which is `" \n\r\t"` -/
def trStr : List Byte := [charByte ' ', 10, 13, 9]

/-- `HStr::Ltrim(nullptr)` -/
def ltrim (this : List Byte) : Outcome (List Byte) :=
  match findFirstNotOf this trStr with
  | none => return []
  | some pos => if pos ≠ 0 then substr this pos npos else return this

/-- `HStr::Rtrim(nullptr)` -/
def rtrim (this : List Byte) : Outcome (List Byte) :=
  substr this 0 (some (Pos.succ (findLastNotOf this trStr)))

/-- `HStr::Trim(nullptr)` -/
def trim (this : List Byte) : Outcome (List Byte) := do
  let this ← ltrim this
  rtrim this

/-- A text without the blanks at its ends. -/
def strip (s : List Byte) : List Byte := (s.dropWhile (· ∈ trStr)).rdropWhile (· ∈ trStr)

variable {s : List Byte} {c : Byte}

theorem ltrim_eq (s : List Byte) : ltrim s = .ok (s.dropWhile (· ∈ trStr)) := by
  rw [ltrim]
  cases hfind : findFirstNotOf s trStr with
  | none =>
    rw [dropWhile_eq_nil hfind]
    rfl
  | some pos =>
    obtain ⟨hlt, hdrop⟩ := drop_findFirstNotOf hfind
    by_cases hpos : pos = 0
    · subst hpos
      simp only [ne_eq, not_true_eq_false, if_false, ← hdrop, List.drop_zero]
      rfl
    · simp only [ne_eq, hpos, not_false_eq_true, if_true]
      rw [substr_rest hlt.le, hdrop]

theorem rtrim_eq (s : List Byte) : rtrim s = .ok (s.rdropWhile (· ∈ trStr)) := by
  rw [rtrim, substr, if_pos (Nat.zero_le _), ← take_findLastNotOf]
  rfl

theorem trim_eq (s : List Byte) : trim s = .ok (strip s) := by
  rw [trim, ltrim_eq, Outcome.ok_bind, rtrim_eq, strip]

theorem mem_dropWhile (hc : c ∉ trStr) : c ∈ s.dropWhile (· ∈ trStr) ↔ c ∈ s := by
  refine ⟨fun h => (List.dropWhile_suffix _).subset h, fun h => ?_⟩
  rw [← List.takeWhile_append_dropWhile (p := (· ∈ trStr)) (l := s), List.mem_append] at h
  rcases h with hblank | hrest
  · have hmem := List.mem_takeWhile_imp hblank
    rw [decide_eq_true_eq] at hmem
    exact absurd hmem hc
  · exact hrest

theorem mem_strip (hc : c ∉ trStr) : c ∈ strip s ↔ c ∈ s := by
  rw [strip, List.rdropWhile, List.mem_reverse, mem_dropWhile hc, List.mem_reverse, mem_dropWhile hc]

end Str
end Huicpp
