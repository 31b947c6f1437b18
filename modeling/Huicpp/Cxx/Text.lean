import Mathlib
import Huicpp.Cxx.Occurrence
import Huicpp.Cxx.Memory

/-!
# Cxx.Text

`std::string`, as the list of its characters. What a `size_t` can say about a string is a position
in it or `npos`, the largest value, which no position reaches.
-/

namespace Cxx

/-- A position, or `npos`. -/
abbrev Pos := Option Nat

def npos : Pos := none

/-- `n - 1`. Below zero this is `npos`. -/
def Pos.pred : Nat → Pos
  | 0 => npos
  | n + 1 => some n

/-- `pos + 1`, which is zero for `npos`. -/
def Pos.succ : Pos → Nat
  | none => 0
  | some n => n + 1

namespace Text

variable {α : Type} {s key p t rest : List α} {pos : Nat}

/-- `s.substr(pos, n)` -/
def substr (s : List α) (pos : Nat) (n : Pos) : Outcome (List α) :=
  if pos ≤ s.length then
    match n with
    | none => .ok (s.drop pos)
    | some n => .ok ((s.drop pos).take n)
  else .throws .outOfRange

theorem substr_rest (hpos : pos ≤ s.length) : substr s pos npos = .ok (s.drop pos) := if_pos hpos

theorem substr_piece (hpos : pos ≤ s.length) (hdrop : s.drop pos = p ++ t) :
    substr s pos (some p.length) = .ok p := by
  calc substr s pos (some p.length)
      = .ok ((s.drop pos).take p.length) := if_pos hpos
    _ = .ok p := by rw [hdrop, List.take_left]

/-- `s.replace(pos, len, str)` -/
def replace (s : List α) (pos len : Nat) (str : List α) : Outcome (List α) :=
  if pos ≤ s.length then .ok (s.take pos ++ str ++ s.drop (pos + len)) else .throws .outOfRange

/-- `s.erase(pos, len)` -/
def erase (s : List α) (pos len : Nat) : Outcome (List α) :=
  if pos ≤ s.length then .ok (s.take pos ++ s.drop (pos + len)) else .throws .outOfRange

theorem replace_at (p key rest str : List α) :
    replace (p ++ key ++ rest) p.length key.length str = .ok (p ++ str ++ rest) := by
  have hpos : p.length ≤ (p ++ key ++ rest).length := by
    simp only [List.length_append]
    omega
  have htail : (p ++ key ++ rest).drop (p.length + key.length) = rest := by
    rw [← List.length_append, List.drop_left]
  have hhead : (p ++ key ++ rest).take p.length = p := by
    rw [List.append_assoc, List.take_left]
  rw [replace, if_pos hpos, htail, hhead]

theorem erase_at (p key rest : List α) :
    erase (p ++ key ++ rest) p.length key.length = .ok (p ++ rest) := by
  have hreplace := replace_at p key rest []
  rw [replace, List.append_nil, List.append_nil] at hreplace
  rw [erase, hreplace]

/-- The characters that a pointer to the first one leads to: those before the first zero. -/
def cStr (s : List Byte) : List Byte := s.takeWhile (· ≠ 0)

theorem not_mem_cStr (s : List Byte) : 0 ∉ cStr s := by
  intro hmem
  have hne := List.mem_takeWhile_imp hmem
  exact of_decide_eq_true hne rfl

theorem cStr_eq_self {s : List Byte} (h : 0 ∉ s) : cStr s = s := by
  rw [cStr, List.takeWhile_eq_self_iff]
  intro b hb
  exact decide_eq_true fun hzero => h (hzero ▸ hb)

theorem cStr_append_zero {s : List Byte} (h : 0 ∉ s) (t : List Byte) : cStr (s ++ 0 :: t) = s := by
  rw [cStr, List.takeWhile_append_of_pos, List.takeWhile_cons_of_neg (by simp), List.append_nil]
  intro b hb
  exact decide_eq_true fun hzero => h (hzero ▸ hb)

/-- `strchr(s, c)`, as a distance from `s` -/
def strchr (s : List Byte) (c : Byte) : Option Nat := (cStr s).findIdx? (· = c)

/-- `strrchr(s, c)` -/
def strrchr (s : List Byte) (c : Byte) : Option Nat :=
  ((cStr s).reverse.findIdx? (· = c)).map ((cStr s).length - 1 - ·)

section Chr

variable {a b s : List Byte} {c : Byte}

theorem findIdx?_cut (ha : c ∉ a) (b : List Byte) :
    (a ++ c :: b).findIdx? (· = c) = some a.length := by
  have hnone : a.findIdx? (fun x => decide (x = c)) = none := by
    rw [List.findIdx?_eq_none_iff]
    intro x hx
    exact decide_eq_false fun heq => ha (heq ▸ hx)
  rw [List.findIdx?_append, hnone, List.findIdx?_cons]
  simp

theorem strchr_cut (hs : 0 ∉ a ++ c :: b) (ha : c ∉ a) : strchr (a ++ c :: b) c = some a.length := by
  rw [strchr, cStr_eq_self hs, findIdx?_cut ha]

theorem strchr_none (hs : 0 ∉ s) (hc : c ∉ s) : strchr s c = none := by
  rw [strchr, cStr_eq_self hs, List.findIdx?_eq_none_iff]
  intro x hx
  exact decide_eq_false fun heq => hc (heq ▸ hx)

theorem strrchr_cut (hs : 0 ∉ a ++ c :: b) (hb : c ∉ b) :
    strrchr (a ++ c :: b) c = some a.length := by
  have hreverse : (a ++ c :: b).reverse = b.reverse ++ c :: a.reverse := by simp
  have hb' : c ∉ b.reverse := fun h => hb (List.mem_reverse.mp h)
  rw [strrchr, cStr_eq_self hs, hreverse, findIdx?_cut hb', Option.map_some, List.length_append,
    List.length_cons, List.length_reverse]
  congr 1
  omega

theorem strrchr_none (hs : 0 ∉ s) (hc : c ∉ s) : strrchr s c = none := by
  rw [strrchr, cStr_eq_self hs, Option.map_eq_none_iff, List.findIdx?_eq_none_iff]
  intro x hx
  exact decide_eq_false fun heq => hc (heq ▸ List.mem_reverse.mp hx)

theorem exists_last_cut (hc : c ∈ s) : ∃ a b, s = a ++ c :: b ∧ c ∉ b := by
  obtain ⟨b, a, hs, hb⟩ := List.eq_append_cons_of_mem (List.mem_reverse.mpr hc)
  refine ⟨a.reverse, b.reverse, ?_, fun h => hb (List.mem_reverse.mp h)⟩
  rw [← List.reverse_reverse s, hs]
  simp

end Chr

section Find

variable [DecidableEq α]

/-- `s.find(key, pos)` -/
def find (s key : List α) (pos : Nat) : Pos :=
  if pos ≤ s.length then (leftmost key (s.drop pos)).map (pos + ·) else npos

theorem find_npos (hpos : pos ≤ s.length) (h : ¬ key <:+: s.drop pos) : find s key pos = npos := by
  rw [find, if_pos hpos, leftmost_eq_none.mpr h]
  rfl

theorem find_first (hpos : pos ≤ s.length) (hdrop : s.drop pos = p ++ key ++ rest)
    (hfirst : FirstAt key (p ++ key ++ rest) p.length) : find s key pos = some (pos + p.length) := by
  rw [find, if_pos hpos, hdrop, leftmost_eq_some.mpr hfirst]
  rfl

/-- `s.find_first_not_of(set)` -/
def findFirstNotOf (s set : List α) : Pos := s.findIdx? (fun c => c ∉ set)

theorem findFirstNotOf_eq_npos {set : List α} : findFirstNotOf s set = npos ↔ ∀ c ∈ s, c ∈ set := by
  rw [findFirstNotOf, npos, List.findIdx?_eq_none_iff]
  exact forall₂_congr fun c _ => by simp

/-- `s.find_last_not_of(set)` -/
def findLastNotOf (s set : List α) : Pos := (findFirstNotOf s.reverse set).map (s.length - 1 - ·)

theorem drop_findFirstNotOf {set : List α} (h : findFirstNotOf s set = some pos) :
    pos < s.length ∧ s.drop pos = s.dropWhile (· ∈ set) := by
  obtain ⟨hlt, hpos⟩ := List.findIdx?_eq_some_iff_findIdx_eq.mp h
  refine ⟨hlt, ?_⟩
  rw [List.dropWhile_eq_drop_findIdx_not, ← hpos]
  congr 2
  funext c
  rw [decide_not]

theorem dropWhile_eq_nil {set : List α} (h : findFirstNotOf s set = npos) :
    s.dropWhile (· ∈ set) = [] := by
  rw [List.dropWhile_eq_nil_iff]
  intro c hc
  exact decide_eq_true (findFirstNotOf_eq_npos.mp h c hc)

theorem take_findLastNotOf (s set : List α) :
    s.take (Pos.succ (findLastNotOf s set)) = s.rdropWhile (· ∈ set) := by
  rw [List.rdropWhile, findLastNotOf]
  cases hfind : findFirstNotOf s.reverse set with
  | none =>
    rw [dropWhile_eq_nil hfind]
    rfl
  | some pos =>
    obtain ⟨hlt, hdrop⟩ := drop_findFirstNotOf hfind
    rw [List.length_reverse] at hlt
    have hsucc : s.length - 1 - pos + 1 = s.length - pos := by omega
    rw [← hdrop, List.drop_reverse, List.reverse_reverse, Option.map_some, Pos.succ, hsucc]

end Find

end Text

end Cxx
