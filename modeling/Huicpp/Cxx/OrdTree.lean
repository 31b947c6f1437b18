import Mathlib

/-!
# Cxx.OrdTree

The ordered unique-key containers of the standard library. `std::map` and `std::set` are both a
search tree whose nodes hold values of type `α` ordered by `key : α → κ`: the first component for
a map, the value itself for a set. Only the order of iteration is observable, so a tree is the
list of its nodes in that order, strictly sorted by key.

* `insert`: a node with an equivalent key stays as it is.
* `insertHint`: insertion with a position to try first. `insertHint_fst`: whatever the hint is,
  the content is that of `insert`.
-/

namespace Cxx

variable {α κ : Type} [LinearOrder κ]

/-- Insertion into a sorted node list, from the left. -/
def insertNode (key : α → κ) (x : α) : List α → List α
  | [] => [x]
  | y :: ys =>
    if key x < key y then x :: y :: ys
    else if key y < key x then y :: insertNode key x ys
    else y :: ys

theorem mem_insertNode {key : α → κ} {x y : α} {l : List α} (h : y ∈ insertNode key x l) :
    y = x ∨ y ∈ l := by
  induction l with
  | nil => simpa [insertNode] using h
  | cons z zs ih =>
    rw [insertNode] at h
    split at h
    · simpa using h
    · split at h
      · rcases List.mem_cons.mp h with rfl | h
        · simp
        · rcases ih h with rfl | h
          · simp
          · simp [h]
      · exact .inr h

theorem insertNode_sorted {key : α → κ} {x : α} {l : List α}
    (h : l.Pairwise fun a b => key a < key b) :
    (insertNode key x l).Pairwise fun a b => key a < key b := by
  induction l with
  | nil => simp [insertNode]
  | cons z zs ih =>
    obtain ⟨hz, hzs⟩ := List.pairwise_cons.mp h
    rw [insertNode]
    split
    · rename_i hxz
      refine List.pairwise_cons.mpr ⟨fun y hy => ?_, h⟩
      rcases List.mem_cons.mp hy with rfl | hy
      · exact hxz
      · exact hxz.trans (hz y hy)
    · split
      · rename_i hzx
        refine List.pairwise_cons.mpr ⟨fun y hy => ?_, ih hzs⟩
        rcases mem_insertNode hy with rfl | hy
        · exact hzx
        · exact hz y hy
      · exact h

theorem insertNode_between {key : α → κ} {x : α} {l₁ l₂ : List α}
    (h₁ : ∀ y ∈ l₁, key y < key x) (h₂ : ∀ y ∈ l₂, key x < key y) :
    insertNode key x (l₁ ++ l₂) = l₁ ++ x :: l₂ := by
  induction l₁ with
  | nil =>
    cases l₂ with
    | nil => rfl
    | cons z zs => simp [insertNode, h₂ z (by simp)]
  | cons y ys ih =>
    have hy : key y < key x := h₁ y (by simp)
    rw [List.cons_append, insertNode, if_neg (not_lt_of_gt hy), if_pos hy,
      ih fun z hz => h₁ z (by simp [hz]), List.cons_append]

theorem find?_insertNode {key : α → κ} {p : α → Bool} {x : α} {l : List α}
    (hkey : ∀ y ∈ l, key y ≠ key x) (hp : p x = true → ∀ y ∈ l, p y = false) :
    (insertNode key x l).find? p = if p x then some x else l.find? p := by
  induction l with
  | nil =>
    rw [insertNode, List.find?_singleton]
    rfl
  | cons z zs ih =>
    have hzs := ih (fun y hy => hkey y (List.mem_cons_of_mem z hy))
      fun hx y hy => hp hx y (List.mem_cons_of_mem z hy)
    have hz := hkey z (List.mem_cons_self ..)
    rw [insertNode]
    split
    · rw [List.find?_cons]
      cases p x with
      | true => rfl
      | false => rfl
    · rename_i hxz
      rw [if_pos (lt_of_le_of_ne (not_lt.mp hxz) hz), List.find?_cons, List.find?_cons, hzs]
      cases hpz : p z with
      | false => rfl
      | true =>
        have hpx : p x = false := by
          by_contra hpx
          rw [hp (by simpa using hpx) z (List.mem_cons_self ..)] at hpz
          cases hpz
        rw [hpx]
        rfl

/-- The nodes of a tree in iteration order. -/
structure OrdTree (key : α → κ) where
  elems : List α
  sorted : elems.Pairwise fun a b => key a < key b

namespace OrdTree

variable {key : α → κ}

@[ext] theorem ext {t u : OrdTree key} (h : t.elems = u.elems) : t = u := by
  cases t; cases u; cases h; rfl

def empty : OrdTree key := ⟨[], .nil⟩

def size (t : OrdTree key) : Nat := t.elems.length

def insert (t : OrdTree key) (x : α) : OrdTree key :=
  ⟨insertNode key x t.elems, insertNode_sorted t.sorted⟩

/-- `x` fits right before position `hint`. -/
def Fits (t : OrdTree key) (hint : Nat) (x : α) : Prop :=
  (∀ y ∈ (t.elems.take hint).getLast?, key y < key x) ∧
    (∀ y ∈ (t.elems.drop hint).head?, key x < key y)

instance (t : OrdTree key) (hint : Nat) (x : α) : Decidable (t.Fits hint x) :=
  inferInstanceAs (Decidable (_ ∧ _))

theorem Fits.left {t : OrdTree key} {hint : Nat} {x : α} (h : t.Fits hint x) :
    ∀ y ∈ t.elems.take hint, key y < key x := by
  intro y hy
  have hs : (t.elems.take hint).Pairwise fun a b => key a < key b := t.sorted.sublist
    (List.take_sublist _ _)
  rcases List.eq_nil_or_concat (t.elems.take hint) with hl | ⟨l, z, hl⟩
  · rw [hl] at hy; cases hy
  · have hz : key z < key x := h.1 z (by simp [hl])
    rw [hl, List.concat_eq_append] at hy hs
    rcases List.mem_append.mp hy with hy | hy
    · exact ((List.pairwise_append.mp hs).2.2 y hy z (by simp)).trans hz
    · rwa [List.mem_singleton.mp hy]

theorem Fits.right {t : OrdTree key} {hint : Nat} {x : α} (h : t.Fits hint x) :
    ∀ y ∈ t.elems.drop hint, key x < key y := by
  intro y hy
  have hs : (t.elems.drop hint).Pairwise fun a b => key a < key b := t.sorted.sublist
    (List.drop_sublist _ _)
  cases hl : t.elems.drop hint with
  | nil => rw [hl] at hy; cases hy
  | cons z zs =>
    have hz : key x < key z := h.2 z (by simp [hl])
    rw [hl] at hy hs
    rcases List.mem_cons.mp hy with rfl | hy
    · exact hz
    · exact hz.trans (List.rel_of_pairwise_cons hs hy)

/-- The nodes after an insertion that looks at position `hint` first. -/
def hintedNodes (t : OrdTree key) (hint : Nat) (x : α) : List α :=
  if t.Fits hint x then t.elems.take hint ++ x :: t.elems.drop hint
  else insertNode key x t.elems

theorem hintedNodes_eq (t : OrdTree key) (hint : Nat) (x : α) :
    t.hintedNodes hint x = insertNode key x t.elems := by
  rw [hintedNodes]
  split
  · rename_i h
    conv_rhs => rw [← List.take_append_drop hint t.elems]
    rw [insertNode_between h.left h.right]
  · rfl

/-- `insert(hint, x)`: the tree, and the position of the node whose key is that of `x`. -/
def insertHint (t : OrdTree key) (hint : Nat) (x : α) : OrdTree key × Nat :=
  (⟨t.hintedNodes hint x, by rw [hintedNodes_eq]; exact insertNode_sorted t.sorted⟩,
    (t.hintedNodes hint x).findIdx fun y => key y = key x)

/-- The hint never changes the content. -/
theorem insertHint_fst (t : OrdTree key) (hint : Nat) (x : α) :
    (t.insertHint hint x).1 = t.insert x := ext (hintedNodes_eq t hint x)

theorem insert_last {t : OrdTree key} {x : α} (h : ∀ y ∈ t.elems, key y < key x) :
    (t.insert x).elems = t.elems ++ [x] := by
  have hb : insertNode key x (t.elems ++ []) = t.elems ++ [x] :=
    insertNode_between h fun y hy => absurd hy List.not_mem_nil
  rwa [List.append_nil] at hb

end OrdTree
end Cxx
