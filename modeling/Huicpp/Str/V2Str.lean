import Mathlib
import Huicpp.Str.Split

/-!
# Str.V2Str

`HStr::V2Str` against `HStr::Split`. `V2Str` puts the separator behind every string and takes one
character off the end, so that all but one character of the last separator stay.

* `v2Str_eq`: the strings joined, and what is left of the separator.
* `v2Str_pieces`: how that is split again, when the strings have no character of the separator.
* `v2Str_inverts_iff`: the two functions are inverse exactly for separators of one character.
-/

namespace Huicpp
namespace Str

open Cxx Cxx.Text

variable {s key l : List Byte} {strs ps : List (List Byte)}

theorem appendEach_eq (l : List Byte) (strs : List (List Byte)) (res : List Byte) :
    appendEach l strs res = res ++ strs.flatMap (· ++ l) := by
  induction strs generalizing res with
  | nil => exact (List.append_nil res).symm
  | cons str strs ih =>
    calc appendEach l (str :: strs) res
        = appendEach l strs (res ++ str ++ l) := rfl
      _ = res ++ (str :: strs).flatMap (· ++ l) := by simp [ih]

theorem substr_pred (s : List Byte) : substr s 0 (Pos.pred s.length) = .ok s.dropLast := by
  cases s with
  | nil => rfl
  | cons c cs => rw [List.dropLast_eq_take]; rfl

theorem v2Str_eq (hl : l ≠ []) : v2Str strs l = .ok (strs.flatMap (· ++ l)).dropLast := by
  have hempty : ¬ l.isEmpty := by
    rw [List.isEmpty_iff]
    exact hl
  rw [v2Str, appendEach_eq, List.nil_append, if_pos hempty, substr_pred]

theorem v2Str_nil (l : List Byte) : v2Str [] l = .ok [] := by
  cases l with
  | nil => rfl
  | cons c cs => rfl

/-- What was split comes back, with all but one character of a separator behind it. -/
theorem v2Str_of_splits (hkey : key ≠ []) (h : Splits key s ps) :
    v2Str ps key = .ok (s ++ key.dropLast) := by
  rw [v2Str_eq hkey, h.flatMap_append, List.dropLast_append_of_ne_nil hkey]

theorem dropLast_eq_nil_iff (hkey : key ≠ []) : key.dropLast = [] ↔ key.length = 1 := by
  have hpos : 0 < key.length := List.length_pos_iff.mpr hkey
  rw [← List.length_eq_zero_iff, List.length_dropLast]
  omega

theorem not_infix_append_dropLast {p : List Byte} (hkey : key ≠ []) (hp : p.Disjoint key) :
    ¬ key <:+: p ++ key.dropLast := by
  intro hinfix
  obtain ⟨i, hi⟩ := infix_iff_occursAt.mp hinfix
  have hlen := hi.length_le
  have hpos : 0 < key.length := List.length_pos_iff.mpr hkey
  rw [List.length_append, List.length_dropLast] at hlen
  have hfirst := firstAt_of_disjoint hkey hp []
  rw [List.append_nil] at hfirst
  refine hfirst.2 i (by omega) ?_
  have hwhole := hi.append_right (key.getLast hkey :: [])
  rwa [List.append_assoc, List.dropLast_append_getLast] at hwhole

/-- The last piece has what is left of the separator. -/
theorem v2Str_pieces {p : List Byte} (hkey : key ≠ []) (hstrs : ∀ q ∈ strs ++ [p], q.Disjoint key) :
    ∃ t, v2Str (strs ++ [p]) key = .ok t ∧ Splits key t (strs ++ [p ++ key.dropLast]) := by
  have hp : p.Disjoint key := hstrs p (List.mem_append_right _ (List.mem_singleton_self p))
  refine ⟨_, v2Str_eq hkey, ?_⟩
  rw [List.flatMap_append, List.flatMap_singleton, List.dropLast_append_of_ne_nil
    (List.append_ne_nil_of_right_ne_nil p hkey), List.dropLast_append_of_ne_nil hkey]
  exact .of_disjoint hkey (not_infix_append_dropLast hkey hp)
    fun q hq => hstrs q (List.mem_append_left _ hq)

theorem v2Str_split_iff (hs : s ≠ []) (hkey : key ≠ [])
    (hsplit : Prog.Returns (split s key [] 0) (.ok, strs)) :
    v2Str strs key = .ok s ↔ key.length = 1 := by
  obtain ⟨ps, hps⟩ := Splits.exists_pieces hkey s
  have hpieces := split_returns hs hkey (Nat.zero_le _) hps []
  cases hsplit.unique hpieces
  rw [List.nil_append, v2Str_of_splits hkey hps, Outcome.ok.injEq, List.append_right_eq_self]
  exact dropLast_eq_nil_iff hkey

theorem split_v2Str_iff (hstrs : strs ≠ []) (hkey : key ≠ []) (hapart : ∀ p ∈ strs, p.Disjoint key)
    (hjoin : v2Str strs key = .ok s) (hs : s ≠ []) :
    Prog.Returns (split s key [] 0) (.ok, strs) ↔ key.length = 1 := by
  obtain ⟨pre, p, rfl⟩ : ∃ pre p, strs = pre ++ [p] :=
    ⟨_, _, (List.dropLast_append_getLast hstrs).symm⟩
  obtain ⟨t, ht, hsplits⟩ := v2Str_pieces hkey hapart
  cases Outcome.ok.inj (hjoin.symm.trans ht)
  have hreturns := split_returns hs hkey (Nat.zero_le _) hsplits []
  rw [← dropLast_eq_nil_iff hkey]
  constructor
  · intro hsame
    have heq := congrArg Prod.snd (hsame.unique hreturns)
    rw [List.nil_append, List.append_cancel_left_eq, List.singleton_inj] at heq
    exact List.append_right_eq_self.mp heq.symm
  · intro hnil
    rw [hnil, List.append_nil] at hreturns
    exact hreturns

/-- **Joining and splitting.** A separator of one character, and no other, comes apart as it was put
together; without strings there is nothing to join. -/
theorem v2Str_inverts_iff (hkey : key ≠ []) :
    (∀ s ≠ [], ∀ v, Prog.Returns (split s key [] 0) (.ok, v) →
      (v2Str v key = .ok s ↔ key.length = 1)) ∧
    (∀ v ≠ [], (∀ p ∈ v, p.Disjoint key) → ∀ t ≠ [], v2Str v key = .ok t →
      (Prog.Returns (split t key [] 0) (.ok, v) ↔ key.length = 1)) ∧
    ∀ l, v2Str [] l = .ok [] := by
  refine ⟨fun s hs v hsplit => ?_, fun v hv hapart t ht hjoin => ?_, v2Str_nil⟩
  · exact v2Str_split_iff hs hkey hsplit
  · exact split_v2Str_iff hv hkey hapart hjoin ht

/-- `a,b` -/
theorem v2Str_inverts_iff_comma :
    Prog.Returns (split [97, 44, 98] [44] [] 0) (.ok, [[97], [98]]) ∧
      v2Str [[97], [98]] [44] = .ok [97, 44, 98] := by
  have hboth := @v2Str_inverts_iff [44] (List.cons_ne_nil _ _)
  have hsplit := (hboth.2.1 [[97], [98]] (List.cons_ne_nil _ _) (by simp) [97, 44, 98]
    (List.cons_ne_nil _ _) rfl).mpr rfl
  exact ⟨hsplit, (hboth.1 [97, 44, 98] (List.cons_ne_nil _ _) _ hsplit).mpr rfl⟩

/-- `a` at `--` is one piece, which becomes `a-`. -/
theorem v2Str_keeps_separator : ¬ ∀ s key : List Byte, s ≠ [] → key ≠ [] → ∀ v,
    Prog.Returns (split s key [] 0) (.ok, v) → v2Str v key = .ok s := by
  intro hall
  have hpieces := @split_returns [97] [45, 45] 0 [[97]] (List.cons_ne_nil _ _)
    (List.cons_ne_nil _ _) (Nat.zero_le _) (.last (by decide)) []
  have hsame := hall [97] [45, 45] (List.cons_ne_nil _ _) (List.cons_ne_nil _ _) _ hpieces
  cases hsame

end Str
end Huicpp
