import Mathlib
import Huicpp.Str.Split

/-!
# Net.Ip4Str

`HIp4Addr::IsIp4Str`. The pieces between dots go through `IsAllDigit`, which lets the empty piece
pass, and then through `ToN`, which throws at it, as it does at a number that is no `int`.

* `allNumbers_cases`: the loop over the pieces, up to the first one that it stops at.
* `isIp4Str_right_iff`: the answer is right unless the loop comes to a piece that throws.
-/

namespace Huicpp
namespace Net

open Cxx Cxx.Text Str

def dot : Byte := charByte '.'

/-- The lambda in `IsIp4Str` -/
def ipNum (n : Int) : Bool := decide (n ≥ 0) && decide (n ≤ 255)

/-- The loop over `ncs` -/
def allNumbers : List (List Byte) → Outcome Bool
  | [] => return true
  | strnum :: ncs => do
    if ¬ isAllDigit strnum then return false
    let n ← toN strnum
    if ¬ ipNum n then return false
    allNumbers ncs

/-- `HIp4Addr::IsIp4Str` -/
def isIp4Str (strIp : List Byte) : Prog Bool := do
  if strIp.length > 15 then return false
  let (ret, ncs) ← split strIp [dot] [] 0
  if ret ≠ .ok then return false
  if ncs.length ≠ 4 then return false
  allNumbers ncs

/-- The digits of a number from 0 to 255. -/
structure Octet (d : List Byte) : Prop where
  ne_nil : d ≠ []
  digits : ∀ b ∈ d, isDigit b = true
  le : number d ≤ 255

/-- What the function is to tell. -/
def IsIp4 (s : List Byte) : Prop :=
  s.length ≤ 15 ∧ ∃ d1 d2 d3 d4, s = d1 ++ dot :: (d2 ++ dot :: (d3 ++ dot :: d4)) ∧
    Octet d1 ∧ Octet d2 ∧ Octet d3 ∧ Octet d4

/-- Pieces that pass `IsAllDigit`, and at which `ToN` throws. -/
def Throwing (d : List Byte) : Prop :=
  (∀ b ∈ d, isDigit b = true) ∧ (d = [] ∨ 2 ^ 31 ≤ number d)

/-- Such a piece comes before any other that is no number from 0 to 255. -/
inductive FirstThrowing : List (List Byte) → Prop where
  | here {d : List Byte} {ncs : List (List Byte)} : Throwing d → FirstThrowing (d :: ncs)
  | behind {d : List Byte} {ncs : List (List Byte)} : Octet d → FirstThrowing ncs →
      FirstThrowing (d :: ncs)

variable {s d : List Byte} {ncs : List (List Byte)}

theorem Octet.not_throwing (h : Octet d) : ¬ Throwing d := by
  rintro ⟨_, hnil | hhuge⟩
  · exact h.ne_nil hnil
  · have hle := h.le
    omega

theorem toN_of_digits (hd : ∀ b ∈ d, isDigit b = true) :
    (Throwing d ∧ ∃ e, toN d = .throws e) ∨
      (¬ Throwing d ∧ d ≠ [] ∧ toN d = .ok (number d : Int)) := by
  by_cases hnil : d = []
  · subst hnil
    exact .inl ⟨⟨hd, .inl rfl⟩, .invalidArgument, stoi_nil⟩
  · have hvalue := stoi_digits hnil hd
    by_cases hlt : number d < 2 ^ 31
    · rw [if_pos hlt] at hvalue
      refine .inr ⟨?_, hnil, hvalue⟩
      rintro ⟨_, hnil' | hhuge⟩
      · exact hnil hnil'
      · omega
    · rw [if_neg hlt] at hvalue
      exact .inl ⟨⟨hd, .inr (not_lt.mp hlt)⟩, .outOfRange, hvalue⟩

theorem allNumbers_cons (d : List Byte) (ncs : List (List Byte)) :
    (Octet d ∧ allNumbers (d :: ncs) = allNumbers ncs) ∨
    (¬ Octet d ∧ ¬ Throwing d ∧ allNumbers (d :: ncs) = .ok false) ∨
    (Throwing d ∧ ∃ e, allNumbers (d :: ncs) = .throws e) := by
  by_cases hd : ∀ b ∈ d, isDigit b = true
  · have hdigits : ¬ ¬ isAllDigit d = true := not_not.mpr (isAllDigit_iff.mpr hd)
    rcases toN_of_digits hd with ⟨hthrowing, e, htoN⟩ | ⟨hthrowing, hnil, htoN⟩
    · refine .inr (.inr ⟨hthrowing, e, ?_⟩)
      rw [allNumbers, if_neg hdigits, htoN]
      rfl
    · by_cases hle : number d ≤ 255
      · refine .inl ⟨⟨hnil, hd, hle⟩, ?_⟩
        have hnum : ¬ ¬ ipNum (number d) = true := by
          rw [not_not, ipNum, Bool.and_eq_true, decide_eq_true_eq, decide_eq_true_eq]
          omega
        rw [allNumbers, if_neg hdigits, htoN]
        show (if _ then _ else _) = _
        rw [if_neg hnum]
      · refine .inr (.inl ⟨fun h => hle h.le, hthrowing, ?_⟩)
        have hnum : ¬ ipNum (number d) = true := by
          rw [ipNum, Bool.and_eq_true, decide_eq_true_eq, decide_eq_true_eq]
          omega
        rw [allNumbers, if_neg hdigits, htoN]
        show (if _ then _ else _) = _
        rw [if_pos hnum]
        rfl
  · refine .inr (.inl ⟨fun h => hd h.digits, fun h => hd h.1, ?_⟩)
    rw [allNumbers, if_pos fun h => hd (isAllDigit_iff.mp h)]
    rfl

/-- The loop says whether all pieces are numbers from 0 to 255, unless it comes to one that throws. -/
theorem allNumbers_cases (ncs : List (List Byte)) :
    (¬ FirstThrowing ncs ∧ ∃ b, allNumbers ncs = .ok b ∧ (b = true ↔ ∀ d ∈ ncs, Octet d)) ∨
    (FirstThrowing ncs ∧ ∃ e, allNumbers ncs = .throws e) := by
  induction ncs with
  | nil => exact .inl ⟨fun h => (by cases h), true, rfl, by simp⟩
  | cons d ncs ih =>
    rcases allNumbers_cons d ncs with ⟨hd, hrun⟩ | ⟨hd, hthrowing, hrun⟩ | ⟨hthrowing, e, hrun⟩
    · rw [hrun]
      rcases ih with ⟨hfirst, b, hb, hiff⟩ | ⟨hfirst, e, he⟩
      · refine .inl ⟨fun h => ?_, b, hb, ?_⟩
        · cases h with
          | here hthrowing => exact hd.not_throwing hthrowing
          | behind _ hbehind => exact hfirst hbehind
        · rw [hiff, List.forall_mem_cons, and_iff_right hd]
      · exact .inr ⟨.behind hd hfirst, e, he⟩
    · refine .inl ⟨fun h => ?_, false, hrun, ?_⟩
      · cases h with
        | here hthrowing' => exact hthrowing hthrowing'
        | behind hd' _ => exact hd hd'
      · exact iff_of_false (fun h => by cases h) fun h => hd (h d (List.mem_cons_self ..))
    · exact .inr ⟨.here hthrowing, e, hrun⟩

theorem Octet.dot_not_mem (h : Octet d) : dot ∉ d := by
  intro hdot
  exact absurd (h.digits dot hdot) (by decide)

theorem isIp4_iff (hs : Splits [dot] s ncs) :
    IsIp4 s ↔ s.length ≤ 15 ∧ ncs.length = 4 ∧ ∀ d ∈ ncs, Octet d := by
  refine and_congr_right fun _ => ?_
  constructor
  · rintro ⟨d1, d2, d3, d4, hjoined, h1, h2, h3, h4⟩
    have hall : ∀ d ∈ [d1, d2, d3, d4], Octet d := by simp [h1, h2, h3, h4]
    have hsplits : Splits [dot] s [d1, d2, d3, d4] := by
      refine Splits.singleton_iff.mpr ⟨List.cons_ne_nil _ _, ?_, fun d hd => (hall d hd).dot_not_mem⟩
      rw [hjoined]
      simp [List.intercalate_cons_of_ne_nil]
    rw [hs.deterministic hsplits]
    exact ⟨rfl, hall⟩
  · rintro ⟨hlen, hall⟩
    obtain ⟨d1, d2, d3, d4, rfl⟩ := List.length_eq_four.mp hlen
    refine ⟨d1, d2, d3, d4, ?_, ?_⟩
    · rw [← hs.intercalate]
      simp [List.intercalate_cons_of_ne_nil]
    · simpa using hall

/-- The four pieces of a text that is not too long, one of which throws. -/
def Trips (s : List Byte) : Prop :=
  s.length ≤ 15 ∧ ∃ ncs, Splits [dot] s ncs ∧ ncs.length = 4 ∧ FirstThrowing ncs

theorem isIp4Str_long (hlong : s.length > 15) : Prog.Returns (isIp4Str s) false := by
  rw [isIp4Str, if_pos hlong]
  exact .pure false

theorem isIp4Str_nil : Prog.Returns (isIp4Str []) false := by
  have hsplit : Prog.Returns (split [] [dot] [] 0) (.invlPara, []) := .pure _
  rw [isIp4Str, if_neg (by decide)]
  refine hsplit.bind ?_
  exact .pure false

section Pieces

variable (hlen : s.length ≤ 15) (hne : s ≠ []) (hs : Splits [dot] s ncs)

include hlen hne hs

theorem isIp4Str_count (hcount : ncs.length ≠ 4) : Prog.Returns (isIp4Str s) false := by
  have hsplit := split_returns hne (List.cons_ne_nil dot []) (Nat.zero_le _) hs []
  rw [isIp4Str, if_neg (not_lt.mpr hlen)]
  refine hsplit.bind ?_
  simp only [List.nil_append, ne_eq, not_true_eq_false, if_false, if_pos hcount]
  exact .pure false

theorem isIp4Str_returns (hcount : ncs.length = 4) {b : Bool} (hrun : allNumbers ncs = .ok b) :
    Prog.Returns (isIp4Str s) b := by
  have hsplit := split_returns hne (List.cons_ne_nil dot []) (Nat.zero_le _) hs []
  rw [isIp4Str, if_neg (not_lt.mpr hlen)]
  refine hsplit.bind ?_
  simp only [List.nil_append, ne_eq, not_true_eq_false, if_false, if_neg (not_not.mpr hcount)]
  exact .lift hrun

theorem isIp4Str_throws (hcount : ncs.length = 4) {e : Exn} (hrun : allNumbers ncs = .throws e) :
    Prog.Throws (isIp4Str s) e := by
  have hsplit := split_returns hne (List.cons_ne_nil dot []) (Nat.zero_le _) hs []
  rw [isIp4Str, if_neg (not_lt.mpr hlen)]
  refine hsplit.bind_throws ?_
  simp only [List.nil_append, ne_eq, not_true_eq_false, if_false, if_neg (not_not.mpr hcount)]
  exact .lift hrun

end Pieces

theorem not_isIp4_nil : ¬ IsIp4 [] := by
  rintro ⟨_, d1, d2, d3, d4, hjoined, _⟩
  simp at hjoined

theorem not_trips_nil : ¬ Trips [] := by
  rintro ⟨_, ncs, hs, hcount, _⟩
  cases hs.deterministic (.last (by simp))
  cases hcount

/-- **Telling addresses.** The function returns, and tells the addresses from everything else, unless
the text comes apart into four pieces of which the first that is no number from 0 to 255 is empty or
a number beyond `INT_MAX`. -/
theorem isIp4Str_right_iff (s : List Byte) :
    (∃ b, Prog.Returns (isIp4Str s) b ∧ (b = true ↔ IsIp4 s)) ↔ ¬ Trips s := by
  by_cases hlen : s.length ≤ 15
  · by_cases hne : s = []
    · subst hne
      exact iff_of_true ⟨false, isIp4Str_nil, by simp [not_isIp4_nil]⟩ not_trips_nil
    · obtain ⟨ncs, hs⟩ := Splits.exists_pieces (List.cons_ne_nil dot []) s
      have htrips : Trips s ↔ ncs.length = 4 ∧ FirstThrowing ncs := by
        refine ⟨fun ⟨_, ncs', hs', hcount, hfirst⟩ => ?_, fun ⟨hcount, hfirst⟩ =>
          ⟨hlen, ncs, hs, hcount, hfirst⟩⟩
        rw [hs.deterministic hs']
        exact ⟨hcount, hfirst⟩
      rw [isIp4_iff hs, and_iff_right hlen, htrips]
      by_cases hcount : ncs.length = 4
      · rw [and_iff_right hcount, and_iff_right hcount]
        rcases allNumbers_cases ncs with ⟨hfirst, b, hrun, hiff⟩ | ⟨hfirst, e, hrun⟩
        · exact iff_of_true ⟨b, isIp4Str_returns hlen hne hs hcount hrun, hiff⟩ hfirst
        · refine iff_of_false ?_ (not_not.mpr hfirst)
          rintro ⟨b, hreturns, _⟩
          exact (isIp4Str_throws hlen hne hs hcount hrun).not_returns b hreturns
      · refine iff_of_true ⟨false, isIp4Str_count hlen hne hs hcount, ?_⟩ fun h => hcount h.1
        exact iff_of_false (fun h => by cases h) fun h => hcount h.1
  · refine iff_of_true ⟨false, isIp4Str_long (not_le.mp hlen), ?_⟩ fun h => hlen h.1
    exact iff_of_false (fun h => by cases h) fun h => hlen h.1

/-- `...` has four empty pieces. -/
theorem isIp4Str_dots : ¬ ∀ s : List Byte,
    ∃ b, Prog.Returns (isIp4Str s) b ∧ (b = true ↔ IsIp4 s) := by
  intro hall
  obtain ⟨b, hreturns, _⟩ := hall [dot, dot, dot]
  have hs : Splits [dot] [dot, dot, dot] [[], [], [], []] :=
    Splits.singleton_iff.mpr ⟨List.cons_ne_nil _ _, rfl, by simp⟩
  exact (isIp4Str_throws (by decide) (List.cons_ne_nil _ _) hs rfl rfl).not_returns b hreturns

end Net
end Huicpp
