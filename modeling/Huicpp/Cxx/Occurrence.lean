import Mathlib

/-!
# Cxx.Occurrence

Occurrences of one list in another, and the text between them.

* `OccursAt key s i`, `FirstAt key s i`: `key` is found in `s` at `i`, and not before.
* `leftmost`: the search, proved to give the first occurrence.
* `occurrences`: how many there are from left to right, when none shares an element with another.
* `Splits key s ps`: the pieces of `s` when it is cut at its leftmost occurrence of `key`, and so on
  with what follows. The pieces are determined by `s`, and joined they are `s` again.
-/

namespace Cxx

variable {α : Type} {key s t rest p : List α} {c : α} {i j : Nat} {ps qs : List (List α)}

/-- `key` is in `s` at position `i`. -/
def OccursAt (key s : List α) (i : Nat) : Prop := i ≤ s.length ∧ key <+: s.drop i

/-- `i` is the smallest position of `key` in `s`. -/
def FirstAt (key s : List α) (i : Nat) : Prop := OccursAt key s i ∧ ∀ j < i, ¬ OccursAt key s j

instance [DecidableEq α] (key s : List α) (i : Nat) : Decidable (OccursAt key s i) :=
  inferInstanceAs (Decidable (_ ∧ _))

theorem occursAt_zero : OccursAt key s 0 ↔ key <+: s := by
  rw [OccursAt, List.drop_zero]
  exact and_iff_right (Nat.zero_le _)

theorem occursAt_succ : OccursAt key (c :: s) (i + 1) ↔ OccursAt key s i := by
  rw [OccursAt, OccursAt, List.drop_succ_cons, List.length_cons, Nat.succ_le_succ_iff]

theorem occursAt_length (key p rest : List α) : OccursAt key (p ++ key ++ rest) p.length := by
  constructor
  · rw [List.append_assoc, List.length_append]
    exact Nat.le_add_right _ _
  · rw [List.append_assoc, List.drop_left]
    exact List.prefix_append key rest

theorem OccursAt.eq_append (h : OccursAt key s i) :
    ∃ p rest, s = p ++ key ++ rest ∧ p.length = i := by
  obtain ⟨hle, rest, hrest⟩ := h
  refine ⟨s.take i, rest, ?_, List.length_take_of_le hle⟩
  rw [List.append_assoc, hrest, List.take_append_drop]

theorem OccursAt.length_le (h : OccursAt key s i) : i + key.length ≤ s.length := by
  obtain ⟨p, rest, rfl, rfl⟩ := h.eq_append
  rw [List.length_append, List.length_append]
  exact Nat.le_add_right _ _

theorem OccursAt.append_right (h : OccursAt key s i) (t : List α) : OccursAt key (s ++ t) i := by
  obtain ⟨p, rest, rfl, rfl⟩ := h.eq_append
  rw [List.append_assoc]
  exact occursAt_length key p (rest ++ t)

theorem infix_iff_occursAt : key <:+: s ↔ ∃ i, OccursAt key s i := by
  constructor
  · rintro ⟨p, rest, rfl⟩
    exact ⟨p.length, occursAt_length key p rest⟩
  · rintro ⟨i, hi⟩
    obtain ⟨p, rest, rfl, -⟩ := hi.eq_append
    exact List.infix_append p key rest

theorem firstAt_zero : FirstAt key s 0 ↔ key <+: s := by
  rw [FirstAt, occursAt_zero]
  exact and_iff_left fun j hj => absurd hj (Nat.not_lt_zero j)

theorem firstAt_succ : FirstAt key (c :: s) (i + 1) ↔ ¬ key <+: c :: s ∧ FirstAt key s i := by
  constructor
  · rintro ⟨hi, hbefore⟩
    refine ⟨fun hpre => hbefore 0 (Nat.succ_pos i) (occursAt_zero.mpr hpre), occursAt_succ.mp hi, ?_⟩
    intro j hj hoccurs
    exact hbefore (j + 1) (Nat.succ_lt_succ hj) (occursAt_succ.mpr hoccurs)
  · rintro ⟨hpre, hi, hbefore⟩
    refine ⟨occursAt_succ.mpr hi, fun j hj hoccurs => ?_⟩
    cases j with
    | zero => exact hpre (occursAt_zero.mp hoccurs)
    | succ j => exact hbefore j (Nat.lt_of_succ_lt_succ hj) (occursAt_succ.mp hoccurs)

theorem FirstAt.unique (hi : FirstAt key s i) (hj : FirstAt key s j) : i = j := by
  rcases Nat.lt_trichotomy i j with hlt | heq | hgt
  · exact absurd hi.1 (hj.2 i hlt)
  · exact heq
  · exact absurd hj.1 (hi.2 j hgt)

/-- Nothing of `key` is in `p`, so it cannot begin there. -/
theorem firstAt_of_disjoint (hkey : key ≠ []) (hdisjoint : p.Disjoint key) (rest : List α) :
    FirstAt key (p ++ key ++ rest) p.length := by
  induction p with
  | nil => exact firstAt_zero.mpr (List.prefix_append key rest)
  | cons c p ih =>
    refine firstAt_succ.mpr ⟨fun hpre => ?_, ih (List.disjoint_of_disjoint_cons_left hdisjoint)⟩
    obtain ⟨k, ks, rfl⟩ := List.exists_cons_of_ne_nil hkey
    have hhead : k = c := (List.cons_prefix_cons.mp hpre).1
    exact hdisjoint (List.mem_cons_self ..) (hhead ▸ List.mem_cons_self ..)

theorem cut_inj {t' rest' : List α} (ht : c ∉ t) (ht' : c ∉ t') (h : t ++ c :: rest = t' ++ c :: rest') :
    t = t' ∧ rest = rest' := by
  induction t generalizing t' with
  | nil =>
    cases t' with
    | nil => exact ⟨rfl, (List.cons_eq_cons.mp h).2⟩
    | cons b t' => exact absurd (List.mem_cons.mpr (.inl (List.cons_eq_cons.mp h).1)) ht'
  | cons b t ih =>
    cases t' with
    | nil => exact absurd (List.mem_cons.mpr (.inl (List.cons_eq_cons.mp h).1.symm)) ht
    | cons b' t' =>
      obtain ⟨rfl, htail⟩ := List.cons_eq_cons.mp h
      obtain ⟨rfl, rfl⟩ := ih (List.not_mem_of_not_mem_cons ht) (List.not_mem_of_not_mem_cons ht') htail
      exact ⟨rfl, rfl⟩

theorem some_zero_iff_firstAt (hpre : key <+: s) : some 0 = some i ↔ FirstAt key s i := by
  have hfirst := firstAt_zero.mpr hpre
  exact ⟨fun h => Option.some.inj h ▸ hfirst, fun h => congrArg some (hfirst.unique h)⟩

section Search

variable [DecidableEq α]

/-- The position of the leftmost occurrence. -/
def leftmost (key : List α) : List α → Option Nat
  | [] => if key <+: [] then some 0 else none
  | c :: s => if key <+: c :: s then some 0 else (leftmost key s).map (· + 1)

theorem leftmost_eq_some : leftmost key s = some i ↔ FirstAt key s i := by
  induction s generalizing i with
  | nil =>
    rw [leftmost]
    split
    · rename_i hpre
      exact some_zero_iff_firstAt hpre
    · rename_i hpre
      refine iff_of_false (by simp) fun h => hpre ?_
      have hi : i = 0 := Nat.le_zero.mp h.1.1
      exact firstAt_zero.mp (hi ▸ h)
  | cons c s ih =>
    rw [leftmost]
    split
    · rename_i hpre
      exact some_zero_iff_firstAt hpre
    · rename_i hpre
      cases i with
      | zero => exact iff_of_false (by simp) fun h => hpre (firstAt_zero.mp h)
      | succ i =>
        rw [firstAt_succ, ← ih]
        simp [hpre]

theorem leftmost_eq_none : leftmost key s = none ↔ ¬ key <:+: s := by
  induction s with
  | nil => simp [leftmost]
  | cons c s ih =>
    rw [leftmost, List.infix_cons_iff, not_or]
    split
    · rename_i hpre
      simp [hpre]
    · rename_i hpre
      rw [Option.map_eq_none_iff, ih]
      exact (and_iff_right hpre).symm

/-- How often `key` occurs from left to right, after `skip` elements. An occurrence is passed over
before the next one is looked for. -/
def occurrencesFrom (key : List α) : Nat → List α → Nat
  | _, [] => 0
  | skip + 1, _ :: s => occurrencesFrom key skip s
  | 0, c :: s =>
    if key <+: c :: s then occurrencesFrom key (key.length - 1) s + 1 else occurrencesFrom key 0 s

/-- How often `key` occurs in `s`. -/
def occurrences (key s : List α) : Nat := occurrencesFrom key 0 s

theorem occurrencesFrom_drop (key : List α) (skip : Nat) (s : List α) :
    occurrencesFrom key skip s = occurrences key (s.drop skip) := by
  induction s generalizing skip with
  | nil => simp [occurrences, occurrencesFrom]
  | cons c s ih =>
    cases skip with
    | zero => rfl
    | succ skip => rw [occurrencesFrom, ih, List.drop_succ_cons]

theorem occurrences_eq_zero (h : ¬ key <:+: s) : occurrences key s = 0 := by
  induction s with
  | nil => rfl
  | cons c s ih =>
    rw [List.infix_cons_iff, not_or] at h
    rw [occurrences, occurrencesFrom, if_neg h.1]
    exact ih h.2

theorem occurrences_of_firstAt (hkey : key ≠ []) (h : FirstAt key (p ++ key ++ rest) p.length) :
    occurrences key (p ++ key ++ rest) = occurrences key rest + 1 := by
  induction p with
  | nil =>
    obtain ⟨k, ks, rfl⟩ := List.exists_cons_of_ne_nil hkey
    have hpre : k :: ks <+: k :: (ks ++ rest) := List.prefix_append (k :: ks) rest
    rw [List.nil_append, List.cons_append, occurrences, occurrencesFrom, if_pos hpre,
      occurrencesFrom_drop, List.length_cons, Nat.add_sub_cancel, List.drop_left]
  | cons c p ih =>
    obtain ⟨hpre, hfirst⟩ := firstAt_succ.mp h
    calc occurrences key (c :: (p ++ key ++ rest))
        = occurrences key (p ++ key ++ rest) := if_neg hpre
      _ = occurrences key rest + 1 := ih hfirst

end Search

/-- Cutting `s` at the occurrences of `key`, the leftmost one first. -/
inductive Splits (key : List α) : List α → List (List α) → Prop where
  | last {s : List α} : ¬ key <:+: s → Splits key s [s]
  | cut {p rest : List α} {ps : List (List α)} : FirstAt key (p ++ key ++ rest) p.length →
      Splits key rest ps → Splits key (p ++ key ++ rest) (p :: ps)

namespace Splits

theorem ne_nil (h : Splits key s ps) : ps ≠ [] := by
  cases h with
  | last _ => exact List.cons_ne_nil _ _
  | cut _ _ => exact List.cons_ne_nil _ _

theorem intercalate (h : Splits key s ps) : key.intercalate ps = s := by
  induction h with
  | last _ => exact List.intercalate_singleton
  | cut _ hrest ih => rw [List.intercalate_cons_of_ne_nil hrest.ne_nil, ih]

theorem flatMap_append (h : Splits key s ps) : ps.flatMap (· ++ key) = s ++ key := by
  induction h with
  | last _ => exact List.append_nil _
  | cut _ _ ih => rw [List.flatMap_cons, ih, ← List.append_assoc]

/-- An occurrence in a piece would have been found before the one that ends it. -/
theorem separated (hkey : key ≠ []) (h : Splits key s ps) : ∀ p ∈ ps, ¬ key <:+: p := by
  induction h with
  | last hs =>
    intro p hp
    rw [List.mem_singleton.mp hp]
    exact hs
  | @cut p rest ps hfirst _ ih =>
    intro q hq
    rcases List.mem_cons.mp hq with rfl | hq
    · intro hinfix
      obtain ⟨i, hi⟩ := infix_iff_occursAt.mp hinfix
      have hlen := hi.length_le
      have hpos : 0 < key.length := List.length_pos_iff.mpr hkey
      refine hfirst.2 i (by omega) ?_
      rw [List.append_assoc]
      exact hi.append_right (key ++ rest)
    · exact ih q hq

theorem firstAt (h : Splits key s ps) (i : Nat) (hi : i + 1 < ps.length) :
    FirstAt key (ps[i] ++ key ++ key.intercalate (ps.drop (i + 1))) ps[i].length := by
  induction h generalizing i with
  | last _ => exact absurd hi (by simp)
  | @cut p rest ps hfirst hrest ih =>
    cases i with
    | zero =>
      rw [List.drop_one, List.tail_cons, hrest.intercalate]
      exact hfirst
    | succ i => exact ih i (Nat.lt_of_succ_lt_succ hi)

theorem length_eq [DecidableEq α] (hkey : key ≠ []) (h : Splits key s ps) :
    ps.length = occurrences key s + 1 := by
  induction h with
  | last hs => rw [occurrences_eq_zero hs, List.length_singleton]
  | cut hfirst _ ih => rw [occurrences_of_firstAt hkey hfirst, List.length_cons, ih]

theorem deterministic (h : Splits key s ps) (h' : Splits key s qs) : ps = qs := by
  induction h generalizing qs with
  | last hs =>
    cases h' with
    | last _ => rfl
    | cut _ _ => exact absurd (List.infix_append ..) hs
  | @cut p rest ps hfirst _ ih =>
    generalize hs : p ++ key ++ rest = s at h'
    cases h' with
    | last hinfix => exact absurd (hs ▸ List.infix_append p key rest) hinfix
    | @cut q rest' qs hfirst' hrest' =>
      have hlen : p.length = q.length := hfirst.unique (hs ▸ hfirst')
      rw [List.append_assoc, List.append_assoc] at hs
      obtain ⟨rfl, htail⟩ := List.append_inj hs hlen
      rw [ih (List.append_cancel_left htail ▸ hrest')]

theorem exists_pieces [DecidableEq α] (hkey : key ≠ []) (s : List α) : ∃ ps, Splits key s ps := by
  induction hn : s.length using Nat.strongRecOn generalizing s with
  | ind n ih =>
    cases hfind : leftmost key s with
    | none => exact ⟨[s], .last (leftmost_eq_none.mp hfind)⟩
    | some i =>
      have hfirst := leftmost_eq_some.mp hfind
      obtain ⟨p, rest, rfl, rfl⟩ := hfirst.1.eq_append
      have hpos : 0 < key.length := List.length_pos_iff.mpr hkey
      have hless : rest.length < n := by
        rw [← hn, List.length_append, List.length_append]
        omega
      obtain ⟨ps, hps⟩ := ih rest.length hless rest rfl
      exact ⟨p :: ps, .cut hfirst hps⟩

theorem of_disjoint (hkey : key ≠ []) (hlast : ¬ key <:+: t) (hps : ∀ p ∈ ps, p.Disjoint key) :
    Splits key (ps.flatMap (· ++ key) ++ t) (ps ++ [t]) := by
  induction ps with
  | nil => exact .last hlast
  | cons p ps ih =>
    have hp := hps p (List.mem_cons_self ..)
    have hrest := ih fun q hq => hps q (List.mem_cons_of_mem p hq)
    rw [List.flatMap_cons, List.append_assoc]
    exact .cut (firstAt_of_disjoint hkey hp _) hrest

theorem singleton_iff : Splits [c] s ps ↔ ps ≠ [] ∧ [c].intercalate ps = s ∧ ∀ p ∈ ps, c ∉ p := by
  constructor
  · intro h
    refine ⟨h.ne_nil, h.intercalate, fun p hp hc => ?_⟩
    obtain ⟨a, b, rfl⟩ := List.append_of_mem hc
    exact h.separated (List.cons_ne_nil _ _) _ hp ⟨a, b, by simp⟩
  · rintro ⟨hne, rfl, hps⟩
    obtain ⟨pre, t, rfl⟩ : ∃ pre t, ps = pre ++ [t] := ⟨_, _, (List.dropLast_append_getLast hne).symm⟩
    have ht : ¬ [c] <:+: t := fun hoccurs =>
      hps t (List.mem_append_right _ (List.mem_singleton_self t)) (hoccurs.subset (List.mem_singleton_self c))
    have hpre : ∀ p ∈ pre, p.Disjoint [c] := by
      intro p hp
      rw [List.disjoint_singleton]
      exact hps p (List.mem_append_left _ hp)
    have hsplits := of_disjoint (List.cons_ne_nil c []) ht hpre
    rwa [hsplits.intercalate]

end Splits

end Cxx
