import Mathlib
import Huicpp.Cxx.Bytes
import Huicpp.Crypto.UrlEncode

/-!
# Crypto.EscapeScan

`IsUrlEncode` looks at every `%`, and at the two characters behind it.

* `EscapesIn p s`: behind every `%` stand two characters of the class `p`.
* `isUrlEncodeOf_eq`: `IsUrlEncode` tells whether that holds for its own class. It reads nothing from
  the end of the string on.
-/

namespace Huicpp
namespace Crypto

open Cxx

def goodChar (c : Byte) : Bool :=
  (charByte 'A' ≤ c && c ≤ charByte 'Z') || (charByte '0' ≤ c && c ≤ charByte '9')

/-- Every `%` is followed by two characters of a class. -/
def EscapesIn (p : Byte → Bool) (s : List Byte) : Prop :=
  ∀ i, s[i]? = some (charByte '%') →
    ∃ x y, s[i + 1]? = some x ∧ s[i + 2]? = some y ∧ p x = true ∧ p y = true

section Code

variable (str : Nat → Outcome Byte) (length : Nat)

/-- The loop of `IsUrlEncode`, reading characters with `str`. -/
def isUrlEncodeLoopOf (i : Nat) : Outcome Bool :=
  if i < length then do
    let c ← str i
    if c = charByte '%' then do
      let x ← str (i + 1)
      if !goodChar x then return false
      else do
        let y ← str (i + 2)
        if !goodChar y then return false else isUrlEncodeLoopOf (i + 1)
    else isUrlEncodeLoopOf (i + 1)
  else return true
termination_by length - i

def isUrlEncodeOf : Outcome Bool := do
  let len := Int32.ofNat length
  let c ← str (toSizeT (len - 2))
  if c = charByte '%' then return false
  else do
    let c ← str (toSizeT (len - 1))
    if c = charByte '%' then return false else isUrlEncodeLoopOf str length 0

end Code

/-- Below the end of `s` it is `s` that is read. -/
def ReadsInside (str : Nat → Outcome Byte) (s : List Byte) : Prop :=
  ∀ i c, s[i]? = some c → str i = .ok c

section Scan

variable {p : Byte → Bool} {c x y : Byte} {s : List Byte}

theorem escapesIn_cons : EscapesIn p (c :: s) ↔
    (c = charByte '%' → ∃ x y, s[0]? = some x ∧ s[1]? = some y ∧ p x = true ∧ p y = true) ∧
      EscapesIn p s := by
  constructor
  · intro h
    exact ⟨fun hc => h 0 (congrArg some hc), fun i hi => h (i + 1) hi⟩
  · rintro ⟨hfirst, h⟩ i hi
    cases i with
    | zero => exact hfirst (Option.some.inj hi)
    | succ i => exact h i hi

theorem EscapesIn.char (hc : c ≠ charByte '%') (h : EscapesIn p s) : EscapesIn p (c :: s) :=
  escapesIn_cons.mpr ⟨fun heq => absurd heq hc, h⟩

theorem EscapesIn.tail (h : EscapesIn p (c :: s)) : EscapesIn p s := (escapesIn_cons.mp h).2

theorem EscapesIn.triple (hp : p (charByte '%') = false) (hx : p x = true) (hy : p y = true)
    (h : EscapesIn p s) : EscapesIn p (charByte '%' :: x :: y :: s) := by
  have hne : ∀ {c : Byte}, p c = true → c ≠ charByte '%' := by
    rintro c hc rfl
    exact absurd hc (by rw [hp]; exact Bool.false_ne_true)
  exact escapesIn_cons.mpr ⟨fun _ => ⟨x, y, rfl, rfl, hx, hy⟩, (h.char (hne hy)).char (hne hx)⟩

theorem escapesIn_percent {i : Nat} (hdrop : s.drop i = charByte '%' :: s.drop (i + 1))
    (hx : s[i + 1]? = some x) (hy : s[i + 2]? = some y) : EscapesIn p (s.drop i) ↔
      (p x = true ∧ p y = true) ∧ EscapesIn p (s.drop (i + 1)) := by
  have hx' : (s.drop (i + 1))[0]? = some x := List.getElem?_drop.trans hx
  have hy' : (s.drop (i + 1))[1]? = some y := List.getElem?_drop.trans hy
  rw [hdrop, escapesIn_cons, hx', hy']
  refine and_congr_left fun _ => ?_
  constructor
  · intro h
    obtain ⟨x', y', hx', hy', hclass⟩ := h rfl
    cases hx'
    cases hy'
    exact hclass
  · exact fun hclass _ => ⟨_, _, rfl, rfl, hclass⟩

/-- No two characters follow one of the last two. -/
theorem EscapesIn.ne_percent (h : EscapesIn p s) {i : Nat} (hlast : s.length ≤ i + 2) :
    s[i]? ≠ some (charByte '%') := by
  intro hget
  obtain ⟨x, y, -, hy, -, -⟩ := h i hget
  obtain ⟨hlt, -⟩ := List.getElem?_eq_some_iff.mp hy
  omega

end Scan

/-! ## IsUrlEncode -/

section Reader

variable {str : Nat → Outcome Byte} {s : List Byte}

theorem isUrlEncodeLoopOf_eq (hread : ReadsInside str s)
    (hlast : ∀ i, s.length ≤ i + 2 → s[i]? ≠ some (charByte '%')) (i : Nat) :
    ∃ b, isUrlEncodeLoopOf str s.length i = .ok b ∧
      (b = true ↔ EscapesIn goodChar (s.drop i)) := by
  induction hn : s.length - i using Nat.strong_induction_on generalizing i with
  | _ n ih =>
    subst hn
    rw [isUrlEncodeLoopOf]
    by_cases hi : i < s.length
    · have hget : s[i]? = some s[i] := List.getElem?_eq_getElem hi
      have hdrop : s.drop i = s[i] :: s.drop (i + 1) := List.drop_eq_getElem_cons hi
      obtain ⟨b, hb, hbiff⟩ := ih (s.length - (i + 1)) (by omega) (i + 1) rfl
      rw [if_pos hi, hread _ _ hget, Outcome.ok_bind]
      generalize s[i] = c at hget hdrop
      by_cases hpercent : c = charByte '%'
      · subst hpercent
        have h2 : i + 2 < s.length := by
          by_contra hend
          exact hlast i (by omega) hget
        obtain ⟨x, hx⟩ : ∃ x, s[i + 1]? = some x := ⟨_, List.getElem?_eq_getElem (by omega)⟩
        obtain ⟨y, hy⟩ : ∃ y, s[i + 2]? = some y := ⟨_, List.getElem?_eq_getElem h2⟩
        have htail := @escapesIn_percent goodChar _ _ _ _ hdrop hx hy
        rw [if_pos rfl, hread _ _ hx, hread _ _ hy, Outcome.ok_bind, Outcome.ok_bind]
        cases hgx : goodChar x with
        | false =>
          refine ⟨false, rfl, iff_of_false Bool.false_ne_true fun h => ?_⟩
          exact absurd (hgx.symm.trans (htail.mp h).1.1) Bool.false_ne_true
        | true =>
          cases hgy : goodChar y with
          | false =>
            refine ⟨false, rfl, iff_of_false Bool.false_ne_true fun h => ?_⟩
            exact absurd (hgy.symm.trans (htail.mp h).1.2) Bool.false_ne_true
          | true =>
            refine ⟨b, hb, hbiff.trans ?_⟩
            rw [htail, hgx, hgy]
            simp only [true_and]
      · rw [if_neg hpercent]
        refine ⟨b, hb, hbiff.trans ⟨fun h => ?_, fun h => ?_⟩⟩
        · rw [hdrop]
          exact h.char hpercent
        · rw [hdrop] at h
          exact h.tail
    · rw [if_neg hi, List.drop_eq_nil_of_le (by omega)]
      refine ⟨true, rfl, iff_of_true rfl ?_⟩
      intro j hj
      cases hj

/-- A string of at least two characters is read below its end, and accepted if every `%` is followed
by two characters of the class. -/
theorem isUrlEncodeOf_eq (hread : ReadsInside str s) (htwo : 2 ≤ s.length)
    (hlen : s.length < 2 ^ 31) :
    ∃ b, isUrlEncodeOf str s.length = .ok b ∧ (b = true ↔ EscapesIn goodChar s) := by
  have hone : (1 : Int32).toInt = 1 := rfl
  have htwo' : (2 : Int32).toInt = 2 := rfl
  have h1 := toSizeT_ofNat_sub hlen (by omega : 0 ≤ (1 : Int32).toInt) (by omega)
  have h2 := toSizeT_ofNat_sub hlen (by omega : 0 ≤ (2 : Int32).toInt) (by omega)
  have hget1 : s[toSizeT (Int32.ofNat s.length - 1)]? = some s[s.length - 1] := by
    rw [show toSizeT (Int32.ofNat s.length - 1) = s.length - 1 by omega]
    exact List.getElem?_eq_getElem _
  have hget2 : s[toSizeT (Int32.ofNat s.length - 2)]? = some s[s.length - 2] := by
    rw [show toSizeT (Int32.ofNat s.length - 2) = s.length - 2 by omega]
    exact List.getElem?_eq_getElem _
  simp only [isUrlEncodeOf, hread _ _ hget1, hread _ _ hget2, Outcome.ok_bind]
  by_cases hp2 : s[s.length - 2] = charByte '%'
  · rw [if_pos hp2]
    exact ⟨false, rfl, iff_of_false Bool.false_ne_true fun h =>
      h.ne_percent (by omega) (hget2.trans (congrArg some hp2))⟩
  · rw [if_neg hp2]
    by_cases hp1 : s[s.length - 1] = charByte '%'
    · rw [if_pos hp1]
      exact ⟨false, rfl, iff_of_false Bool.false_ne_true fun h =>
        h.ne_percent (by omega) (hget1.trans (congrArg some hp1))⟩
    · rw [if_neg hp1]
      refine isUrlEncodeLoopOf_eq hread (fun i hi hget => ?_) 0
      obtain ⟨hlt, hget⟩ := List.getElem?_eq_some_iff.mp hget
      rcases Nat.lt_or_ge (i + 1) s.length with hi' | hi'
      · obtain rfl : i = s.length - 2 := by omega
        exact hp2 hget
      · obtain rfl : i = s.length - 1 := by omega
        exact hp1 hget

end Reader

end Crypto
end Huicpp
