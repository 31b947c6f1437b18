import Mathlib
import Huicpp.Str.HStr

/-!
# Str.Split

`HStr::Split` cuts a string at its separators.

* `splitLoop_returns`: the loop keeps, in `res`, the pieces before `beg`. It ends where the rest of the
  string has no separator, and that rest is the last piece.
* `split_returns`: what `Split` appends for a given way of cutting the string.
* `split_exact`: the pieces of a string, and what is known about them.
-/

namespace Huicpp
namespace Str

open Cxx Cxx.Text

variable {s key t : List Byte} {beg : Nat} {ps : List (List Byte)}

/-- The pieces `ps` of `s`: as many as there are separators, and one more. -/
structure ExactPieces (key s : List Byte) (ps : List (List Byte)) : Prop where
  joined : key.intercalate ps = s
  separated : ∀ p ∈ ps, ¬ key <:+: p
  leftmost : ∀ i (_ : i + 1 < ps.length),
    FirstAt key (ps[i] ++ key ++ key.intercalate (ps.drop (i + 1))) ps[i].length
  counted : ps.length = occurrences key s + 1

theorem exactPieces_of_splits (hkey : key ≠ []) (h : Splits key s ps) : ExactPieces key s ps where
  joined := h.intercalate
  separated := h.separated hkey
  leftmost := h.firstAt
  counted := h.length_eq hkey

theorem splitLoop_returns (h : Splits key t ps) (hbeg : beg ≤ s.length) (ht : s.drop beg = t)
    (res : List (List Byte)) :
    ∃ beg' pre, beg' ≤ s.length ∧ ps = pre ++ [s.drop beg'] ∧
      Prog.Returns (Prog.loop (splitStep s key) (beg, res)) (npos, beg', res ++ pre) := by
  induction h generalizing beg res with
  | last hinfix =>
    have hfind : find s key beg = npos := find_npos hbeg (ht ▸ hinfix)
    refine ⟨beg, [], hbeg, by rw [ht]; rfl, .loop_exit ?_⟩
    rw [splitStep, hfind, List.append_nil]
    exact .pure _
  | @cut p rest ps hfirst hrest ih =>
    have hfind : find s key beg = some (beg + p.length) := find_first hbeg ht hfirst
    have hpiece : substr s beg (some (beg + p.length - beg)) = .ok p := by
      rw [Nat.add_sub_cancel_left]
      exact substr_piece hbeg (by rw [ht, List.append_assoc])
    have hlen := congrArg List.length ht
    rw [List.length_drop, List.length_append, List.length_append] at hlen
    have hnext : s.drop (beg + p.length + key.length) = rest := by
      rw [Nat.add_assoc, ← List.drop_drop, ht, ← List.length_append, List.drop_left]
    have hbody : Prog.Returns (splitStep s key (beg, res))
        (.again (beg + p.length + key.length, res ++ [p])) := by
      rw [splitStep, hfind]
      exact (Prog.Returns.lift hpiece).bind (.pure _)
    obtain ⟨beg', pre, hbeg', hps, hloop⟩ := ih (by omega) hnext (res ++ [p])
    rw [List.append_assoc] at hloop
    exact ⟨beg', p :: pre, hbeg', by rw [hps]; rfl, hbody.loop_again hloop⟩

/-- `Split` appends the pieces of what follows `beg`. -/
theorem split_returns (hs : s ≠ []) (hkey : key ≠ []) (hbeg : beg ≤ s.length)
    (h : Splits key (s.drop beg) ps) (res : List (List Byte)) :
    Prog.Returns (split s key res beg) (.ok, res ++ ps) := by
  obtain ⟨beg', pre, hbeg', hps, hloop⟩ := splitLoop_returns h hbeg rfl res
  have hguard : ¬ s.isEmpty ∧ ¬ key.isEmpty := by
    rw [List.isEmpty_iff, List.isEmpty_iff]
    exact ⟨hs, hkey⟩
  obtain ⟨c, cs, rfl⟩ := List.exists_cons_of_ne_nil hs
  have hpos : npos ≠ Pos.pred (c :: cs).length := by
    intro heq
    cases heq
  rw [split, if_neg (not_not.mpr hguard)]
  refine hloop.bind ?_
  simp only [if_pos hpos]
  rw [hps, ← List.append_assoc]
  exact (Prog.Returns.lift (substr_rest hbeg')).bind (.pure _)

/-- **Splitting is exact.** -/
theorem split_exact (hs : s ≠ []) (hkey : key ≠ []) :
    ∃ ps, ExactPieces key s ps ∧
      ∀ res, Prog.Returns (split s key res 0) (.ok, res ++ ps) := by
  obtain ⟨ps, hps⟩ := Splits.exists_pieces hkey s
  exact ⟨ps, exactPieces_of_splits hkey hps, split_returns hs hkey (Nat.zero_le _) hps⟩

/-- `aaa` at `aa` -/
theorem split_exact_overlap : ∃ ps, ExactPieces [97, 97] [97, 97, 97] ps ∧
    ∀ res, Prog.Returns (split [97, 97, 97] [97, 97] res 0) (.ok, res ++ ps) :=
  split_exact (List.cons_ne_nil _ _) (List.cons_ne_nil _ _)

end Str
end Huicpp
