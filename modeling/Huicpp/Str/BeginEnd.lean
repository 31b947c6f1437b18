import Mathlib
import Huicpp.Str.HStr

/-!
# Str.BeginEnd

`HStr::IsBeginWith` and `HStr::IsEndWith`. Both look for the first occurrence of the key.

* `isBeginWith_iff`: that is at 0 exactly when the string begins with the key.
* `isEndWith_iff`: `IsEndWith` compares it with one less than the place where the key would end the
  string. For strings of equal length this is `npos`.
* `beginEnd_iff`: the strings for which that is the right answer.
-/

namespace Huicpp
namespace Str

open Cxx Cxx.Text

/-- A `std::string`, which is no longer than `max_size()`. -/
structure StdString where
  chars : List Byte
  length_lt : chars.length < 2 ^ 63

/-- A result of arithmetic in `size_t` -/
def sizeT (n : Int) : Int := n % 2 ^ 64

/-- What `find` returns is `(size_t)-1` for `npos`. -/
def posSizeT : Pos → Int
  | none => sizeT (-1)
  | some pos => pos

/-- `HStr::IsBeginWith` -/
def isBeginWith (src key : List Byte) : Bool := posSizeT (find src key 0) == 0

/-- `HStr::IsEndWith` -/
def isEndWith (src key : List Byte) : Bool :=
  posSizeT (find src key 0) == sizeT (src.length - key.length - 1)

theorem find_cases (src key : List Byte) :
    (find src key 0 = none ∧ ¬ key <:+: src) ∨ ∃ i, find src key 0 = some i ∧ FirstAt key src i := by
  by_cases hoccurs : key <:+: src
  · cases hleft : leftmost key src with
    | none => exact absurd hoccurs (leftmost_eq_none.mp hleft)
    | some i =>
      have hfirst := leftmost_eq_some.mp hleft
      refine .inr ⟨i, ?_, hfirst⟩
      rw [find, if_pos (Nat.zero_le _), List.drop_zero, hleft, Option.map_some, Nat.zero_add]
  · exact .inl ⟨find_npos (Nat.zero_le _) hoccurs, hoccurs⟩

theorem isBeginWith_iff (src key : List Byte) : isBeginWith src key = true ↔ key <+: src := by
  rw [isBeginWith, beq_iff_eq]
  rcases find_cases src key with ⟨hfind, hnone⟩ | ⟨i, hfind, hfirst⟩
  · rw [hfind]
    refine iff_of_false (by decide) fun hpre => hnone hpre.isInfix
  · rw [hfind, ← firstAt_zero]
    constructor
    · intro hzero
      have hi : i = 0 := Int.ofNat_eq_zero.mp hzero
      exact hi ▸ hfirst
    · intro hfirst'
      rw [hfirst.unique hfirst']
      rfl

/-- One character follows the first `key`. -/
def OneBehind (src key : List Byte) : Prop :=
  ∃ r c, src = r ++ key ++ [c] ∧ FirstAt key src r.length

variable {src key : List Byte}

theorem oneBehind_iff {i : Nat} (hfirst : FirstAt key src i) :
    OneBehind src key ↔ i + key.length + 1 = src.length := by
  constructor
  · rintro ⟨r, c, hsrc, hfirst'⟩
    rw [hfirst.unique hfirst', hsrc]
    simp only [List.length_append, List.length_singleton]
  · intro hlen
    obtain ⟨r, rest, hsrc, hr⟩ := hfirst.1.eq_append
    have hrest : rest.length = 1 := by
      have hlens := congrArg List.length hsrc
      rw [List.length_append, List.length_append] at hlens
      omega
    obtain ⟨c, rfl⟩ := List.length_eq_one_iff.mp hrest
    exact ⟨r, c, hsrc, hr ▸ hfirst⟩

theorem isEndWith_iff (hsrc : src.length < 2 ^ 63) (hkey : key.length < 2 ^ 63) :
    isEndWith src key = true ↔ OneBehind src key ∨ (src.length = key.length ∧ src ≠ key) := by
  rw [isEndWith, beq_iff_eq]
  rcases find_cases src key with ⟨hfind, hnone⟩ | ⟨i, hfind, hfirst⟩
  · have hbehind : ¬ OneBehind src key := by
      rintro ⟨r, c, hsame, _⟩
      exact hnone (hsame ▸ List.infix_append r key [c])
    have hne : src ≠ key := by
      rintro rfl
      exact hnone (List.infix_refl src)
    have hwrap : sizeT (-1) = sizeT (src.length - key.length - 1) ↔ src.length = key.length := by
      simp only [sizeT]
      omega
    rw [hfind, posSizeT, hwrap]
    exact ⟨fun heq => .inr ⟨heq, hne⟩, fun h => (h.resolve_left hbehind).1⟩
  · have hle := hfirst.1.length_le
    have hwrap : (i : Int) = sizeT (src.length - key.length - 1) ↔
        i + key.length + 1 = src.length := by
      simp only [sizeT]
      omega
    have hsame : ¬ (src.length = key.length ∧ src ≠ key) := by
      rintro ⟨heq, hne⟩
      obtain ⟨p, rest, hsrc', -⟩ := hfirst.1.eq_append
      exact hne (List.IsInfix.eq_of_length ⟨p, rest, hsrc'.symm⟩ heq.symm).symm
    rw [hfind, posSizeT, hwrap, ← oneBehind_iff hfirst]
    exact ⟨.inl, fun h => h.resolve_right hsame⟩

/-- A list that begins and ends alike, one place on, has one element over and over. -/
theorem eq_replicate_of_shift {x c : Byte} (h : x :: key = key ++ [c]) :
    x = c ∧ key = List.replicate key.length c := by
  induction key generalizing x with
  | nil => exact ⟨(List.cons_eq_cons.mp h).1, rfl⟩
  | cons k key ih =>
    obtain ⟨rfl, htail⟩ := List.cons_eq_cons.mp h
    obtain ⟨rfl, hkey⟩ := ih htail
    refine ⟨rfl, ?_⟩
    rw [List.length_cons, List.replicate_succ, ← hkey]

/-- The strings for which `IsEndWith` is right. -/
inductive EndsApart (src key : List Byte) : Prop where
  | longer : src.length < key.length → EndsApart src key
  | apart : key.length < src.length → ¬ key <:+ src → ¬ OneBehind src key → EndsApart src key
  | run (c : Byte) (m : Nat) (r : List Byte) : key = List.replicate m c →
      src = r ++ List.replicate (m + 1) c → FirstAt key src r.length → EndsApart src key

theorem run_of_suffix (hbehind : OneBehind src key) (hsuffix : key <:+ src) : EndsApart src key := by
  obtain ⟨r, c, hsrc, hfirst⟩ := hbehind
  obtain ⟨t, ht⟩ := hsuffix
  have hlen : t.length = r.length + 1 := by
    have hlens := congrArg List.length (ht.trans hsrc)
    simp only [List.length_append, List.length_singleton] at hlens
    omega
  obtain ⟨r', x, rfl⟩ : ∃ r' x, t = r' ++ [x] := by
    have hne : t ≠ [] := List.ne_nil_of_length_pos (by omega)
    exact ⟨_, _, (List.dropLast_append_getLast hne).symm⟩
  rw [hsrc, List.append_assoc, List.append_assoc] at ht
  rw [List.length_append, List.length_singleton, Nat.add_right_cancel_iff] at hlen
  obtain ⟨rfl, hends⟩ := List.append_inj ht hlen
  have hshift : x :: key = key ++ [c] := hends
  obtain ⟨rfl, hkey⟩ := eq_replicate_of_shift hshift
  refine .run x key.length r' hkey ?_ hfirst
  rw [hsrc, List.append_assoc, ← hshift, List.replicate_succ, ← hkey]

theorem EndsApart.suffix_iff (h : EndsApart src key) (hlt : key.length < src.length) :
    key <:+ src ↔ OneBehind src key := by
  cases h with
  | longer hlonger => omega
  | apart _ hsuffix hbehind => exact iff_of_false hsuffix hbehind
  | run c m r hkey hsrc hfirst =>
    refine iff_of_true ?_ ⟨r, c, ?_, hfirst⟩
    · rw [hkey, hsrc, List.replicate_succ]
      exact ⟨r ++ [c], by simp⟩
    · rw [hkey, List.append_assoc, ← List.replicate_succ', hsrc]

theorem right_of_longer (hlonger : src.length < key.length) :
    OneBehind src key ∨ (src.length = key.length ∧ src ≠ key) ↔ key <:+ src := by
  refine iff_of_false ?_ fun hsuffix => ?_
  · rintro (⟨r, c, hsrc, _⟩ | ⟨heq, _⟩)
    · rw [hsrc] at hlonger
      simp only [List.length_append] at hlonger
      omega
    · omega
  · have hle := hsuffix.length_le
    omega

/-- With equal lengths the answer is always wrong. -/
theorem wrong_of_same_length (heq : src.length = key.length) :
    ¬ (OneBehind src key ∨ (src.length = key.length ∧ src ≠ key) ↔ key <:+ src) := by
  intro hright
  by_cases hsame : src = key
  · subst hsame
    rcases hright.mpr (List.suffix_refl src) with ⟨r, c, hsrc, _⟩ | ⟨_, hne⟩
    · have hlens := congrArg List.length hsrc
      simp only [List.length_append, List.length_singleton] at hlens
      omega
    · exact hne rfl
  · have hsuffix := hright.mp (.inr ⟨heq, hsame⟩)
    exact hsame (hsuffix.eq_of_length heq.symm).symm

theorem right_iff_of_shorter (hshorter : key.length < src.length) :
    (OneBehind src key ∨ (src.length = key.length ∧ src ≠ key) ↔ key <:+ src) ↔
      EndsApart src key := by
  have hne : ¬ (src.length = key.length ∧ src ≠ key) := by
    rintro ⟨heq, _⟩
    omega
  rw [or_iff_left hne]
  refine ⟨fun hright => ?_, fun h => (h.suffix_iff hshorter).symm⟩
  by_cases hsuffix : key <:+ src
  · exact run_of_suffix (hright.mpr hsuffix) hsuffix
  · exact .apart hshorter hsuffix fun hbehind => hsuffix (hright.mp hbehind)

theorem EndsApart.length_ne (h : EndsApart src key) : src.length ≠ key.length := by
  cases h with
  | longer hlonger => omega
  | apart hshorter _ _ => omega
  | run c m r hkey hsrc _ =>
    rw [hkey, hsrc]
    simp only [List.length_append, List.length_replicate]
    omega

/-- **Beginning and end of a string.** The first is told right. The second is told right when the key
is longer; when it is shorter, does not end the string and is not found first with one character
behind it; and when both are so, for then the key is one character over and over. -/
theorem beginEnd_iff (src key : StdString) :
    (isBeginWith src.chars key.chars = true ↔ ∃ r, src.chars = key.chars ++ r) ∧
    ((isEndWith src.chars key.chars = true ↔ ∃ r, src.chars = r ++ key.chars) ↔
      EndsApart src.chars key.chars) := by
  obtain ⟨src, hsrc⟩ := src
  obtain ⟨key, hkey⟩ := key
  constructor
  · rw [isBeginWith_iff]
    exact exists_congr fun r => eq_comm
  · have hends : (∃ r, src = r ++ key) ↔ key <:+ src := exists_congr fun r => eq_comm
    rw [hends, isEndWith_iff hsrc hkey]
    rcases Nat.lt_trichotomy src.length key.length with hlonger | heq | hshorter
    · exact iff_of_true (right_of_longer hlonger) (.longer hlonger)
    · exact iff_of_false (wrong_of_same_length heq) fun h => h.length_ne heq
    · exact right_iff_of_shorter hshorter

/-- `aab` ends with `b`, which is not found where it is looked for. -/
theorem isEndWith_misses : ¬ ∀ src key : StdString,
    (isEndWith src.chars key.chars = true ↔ ∃ r, src.chars = r ++ key.chars) := by
  intro hall
  have hends := (hall ⟨[97, 97, 98], by decide⟩ ⟨[98], by decide⟩).mpr ⟨[97, 97], rfl⟩
  have hmisses : isEndWith [97, 97, 98] [98] = false := by decide
  rw [hmisses] at hends
  cases hends

end Str
end Huicpp
