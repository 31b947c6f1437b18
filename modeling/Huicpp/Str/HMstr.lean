import Mathlib
import Huicpp.Cxx.Memory
import Huicpp.Cxx.OrdTree
import Huicpp.Str.HStr

/-!
# Str.HMstr

`HMstr`, a `std::map` from strings to strings.
-/

namespace Huicpp
namespace Str

open Cxx Cxx.Text

/-- Strings are compared by their characters as unsigned numbers. -/
def order (e : List Byte × List Byte) : List Nat := e.1.map BitVec.toNat

abbrev HMstr := OrdTree order

namespace HMstr

/-- `find(key)`, and the value there -/
def find (m : HMstr) (key : List Byte) : Option (List Byte) :=
  (m.elems.find? (·.1 = key)).map Prod.snd

/-- `fit->second = val` -/
def assign (m : HMstr) (key val : List Byte) : HMstr where
  elems := m.elems.map fun e => if e.1 = key then (e.1, val) else e
  sorted := by
    refine List.pairwise_map.mpr (m.sorted.imp fun {e f} hlt => ?_)
    have hkept : ∀ e : List Byte × List Byte, order (if e.1 = key then (e.1, val) else e) = order e := by
      intro e
      split
      · rfl
      · rfl
    rw [hkept, hkept]
    exact hlt

/-- `HMstr::SetValue` -/
def setValue (m : HMstr) (key val : List Byte) : HMstr :=
  if (m.find key).isSome then m.assign key val else m.insert (key, val)

/-- `HMstr::GetValue` -/
def getValue (m : HMstr) (key : List Byte) : List Byte := (m.find key).getD []

/-- The loop in `ToJson` -/
def members (es : List (List Byte × List Byte)) (ss : List Byte) : List Byte :=
  es.foldl (fun ss e => ss ++ ([123, 34] ++ e.1 ++ [34, 58, 34] ++ e.2 ++ [34, 125, 44])) ss

end HMstr

/-- `HStr::RemoveRight(str, len)` -/
def removeRight (str : List Byte) (len : Nat) : Outcome (List Byte) :=
  if len ≥ str.length then return [] else substr str 0 (some (str.length - len))

theorem removeRight_one (str : List Byte) : removeRight str 1 = .ok str.dropLast := by
  rw [removeRight, List.dropLast_eq_take]
  by_cases hlen : 1 ≥ str.length
  · rw [if_pos hlen, Nat.sub_eq_zero_of_le hlen]
    rfl
  · rw [if_neg hlen, substr, if_pos (Nat.zero_le _)]
    rfl

namespace HMstr

/-- `HMstr::ToJson`. The literals are `{ `, `{"`, `":"`, `"},` and `}`. -/
def toJson (m : HMstr) : Outcome (List Byte) := do
  let res ← removeRight (members m.elems [123, 32]) 1
  return res ++ [125]

variable {m : HMstr} {key k : List Byte}

theorem order_injective {e f : List Byte × List Byte} (h : order e = order f) : e.1 = f.1 :=
  List.map_injective_iff.mpr (fun _ _ => BitVec.eq_of_toNat_eq) h

theorem find_assign (m : HMstr) (key val k : List Byte) :
    (m.assign key val).find k = if k = key then (m.find k).map fun _ => val else m.find k := by
  have hkept : ((fun e : List Byte × List Byte => decide (e.1 = k)) ∘
      fun e => if e.1 = key then (e.1, val) else e) = fun e => decide (e.1 = k) := by
    funext e
    simp only [Function.comp_apply]
    split
    · rfl
    · rfl
  rw [find, find, assign, List.find?_map, hkept]
  cases hfind : m.elems.find? (fun e => decide (e.1 = k)) with
  | none => simp
  | some e =>
    have he := List.find?_some hfind
    rw [decide_eq_true_eq] at he
    subst he
    simp only [Option.map_some]
    split
    · rfl
    · rfl

theorem find_insert {val : List Byte} (hkey : m.find key = none) (k : List Byte) :
    find (m.insert (key, val)) k = if k = key then some val else m.find k := by
  have hnone : ∀ e ∈ m.elems, e.1 ≠ key := by
    intro e he heq
    have hfind := List.find?_eq_none.mp (Option.map_eq_none_iff.mp hkey) e he
    exact hfind (decide_eq_true heq)
  show ((insertNode order (key, val) m.elems).find? _).map Prod.snd = _
  rw [find?_insertNode, apply_ite (Option.map Prod.snd)]
  · by_cases hk : k = key
    · rw [if_pos hk, if_pos (decide_eq_true hk.symm)]
      rfl
    · rw [if_neg hk, if_neg (by simpa using fun h => hk h.symm)]
      rfl
  · intro e he heq
    exact hnone e he (order_injective heq)
  · intro hx e he
    have hk : key = k := of_decide_eq_true hx
    exact decide_eq_false (hk ▸ hnone e he)

theorem find_setValue (m : HMstr) (key val k : List Byte) :
    (m.setValue key val).find k = if k = key then some val else m.find k := by
  rw [setValue]
  cases hkey : m.find key with
  | none => exact find_insert hkey k
  | some v =>
    rw [if_pos Option.isSome_some, find_assign]
    split
    · rename_i hk
      rw [hk, hkey]
      rfl
    · rfl

end HMstr

end Str
end Huicpp
