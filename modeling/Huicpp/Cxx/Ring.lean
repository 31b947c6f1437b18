import Mathlib

/-!
# Cxx.Ring

Circular doubly linked lists through a sentinel, over any type of pointers. `next` and `prev` are
the two link fields of all nodes. `IsRing next prev s l` says that the links lead from the sentinel
`s` through the nodes of `l` and back, in both directions. Linking a node in before another one and
unlinking it are insertion into `l` and removal from it.
-/

namespace Cxx

variable {ι : Type}

/-- `y` follows `x`, and knows it. -/
def Linked (next prev : ι → Option ι) (x y : ι) : Prop := next x = some y ∧ prev y = some x

structure IsRing (next prev : ι → Option ι) (s : ι) (l : List ι) : Prop where
  nodup : (s :: l).Nodup
  chain : List.IsChain (Linked next prev) (s :: (l ++ [s]))

variable {next prev next' prev' : ι → Option ι} {s e p c : ι} {l l₁ l₂ a b : List ι}

theorem isChain_congr {L : List ι} (hn : ∀ x ∈ L.dropLast, next' x = next x)
    (hp : ∀ y ∈ L.tail, prev' y = prev y) (h : List.IsChain (Linked next prev) L) :
    List.IsChain (Linked next' prev') L := by
  induction L with
  | nil => exact .nil
  | cons x L ih =>
    cases L with
    | nil => exact .singleton x
    | cons y L =>
      rw [List.isChain_cons_cons] at h ⊢
      refine ⟨⟨?_, ?_⟩, ih ?_ ?_ h.2⟩
      · rw [hn x (by simp)]
        exact h.1.1
      · rw [hp y (by simp)]
        exact h.1.2
      · intro z hz
        exact hn z (by rw [List.dropLast_cons_cons]; exact List.mem_cons_of_mem _ hz)
      · intro z hz
        exact hp z (List.mem_of_mem_tail hz)

theorem next_of_isChain {x : ι} (h : List.IsChain (Linked next prev) (x :: (l₁ ++ c :: l₂))) :
    next x = some (l₁.headD c) := by
  cases l₁ with
  | nil => exact (List.isChain_cons_cons.mp h).1.1
  | cons y l₁ => exact (List.isChain_cons_cons.mp h).1.1

theorem split_sentinel (h : l ++ [s] = l₁ ++ c :: b) : ∃ l₂, l = l₁ ++ l₂ ∧ l₂ ++ [s] = c :: b := by
  rcases List.eq_nil_or_concat (c :: b) with hb | ⟨l₂, y, hb⟩
  · cases hb
  · rw [List.concat_eq_append] at hb
    rw [hb, ← List.append_assoc] at h
    obtain ⟨h1, h2⟩ := List.append_inj' h rfl
    cases h2
    exact ⟨l₂, h1, hb.symm⟩

namespace IsRing

theorem empty (hn : next s = some s) (hp : prev s = some s) : IsRing next prev s [] where
  nodup := List.nodup_singleton s
  chain := List.isChain_cons_cons.mpr ⟨⟨hn, hp⟩, .singleton s⟩

theorem linked (h : IsRing next prev s l) (hab : s :: (l ++ [s]) = a ++ p :: c :: b) :
    Linked next prev p c := by
  have hc := h.chain
  rw [hab] at hc
  exact (List.isChain_cons_cons.mp hc.right_of_append).1

theorem exists_prev (h : IsRing next prev s l) (hl : l ++ [s] = l₁ ++ c :: b) :
    ∃ a p, s :: l₁ = a ++ [p] ∧ prev c = some p := by
  rcases List.eq_nil_or_concat (s :: l₁) with hb | ⟨a, p, hb⟩
  · cases hb
  · rw [List.concat_eq_append] at hb
    refine ⟨a, p, hb, (h.linked (a := a) (b := b) ?_).2⟩
    rw [hl, ← List.cons_append, hb, List.append_assoc, List.singleton_append]

theorem exists_next (h : IsRing next prev s (l₁ ++ e :: l₂)) :
    ∃ c b, l₂ ++ [s] = c :: b ∧ next e = some c := by
  obtain ⟨c, b, hc⟩ : ∃ c b, l₂ ++ [s] = c :: b := by
    cases l₂ with
    | nil => exact ⟨s, [], rfl⟩
    | cons x l₂ => exact ⟨x, l₂ ++ [s], rfl⟩
  refine ⟨c, b, hc, (h.linked (a := s :: l₁) (b := b) ?_).1⟩
  rw [List.append_assoc, List.cons_append, hc, List.cons_append]

theorem neighbours (h : IsRing next prev s (l₁ ++ e :: l₂)) :
    ∃ a p c b, s :: l₁ = a ++ [p] ∧ l₂ ++ [s] = c :: b ∧ prev e = some p ∧ next e = some c ∧
      p ≠ e ∧ c ≠ e := by
  obtain ⟨c, b, hc, hnext⟩ := h.exists_next
  have hl : (l₁ ++ e :: l₂) ++ [s] = l₁ ++ e :: c :: b := by
    rw [List.append_assoc, List.cons_append, hc]
  obtain ⟨a, p, hp, hprev⟩ := h.exists_prev hl
  have hnd := h.nodup
  have hpm : p ∈ s :: l₁ := hp ▸ by simp
  have hcm : c ∈ l₂ ++ [s] := hc ▸ by simp
  exact ⟨a, p, c, b, hp, hc, hprev, hnext, by grind, by grind⟩

theorem congr (hn : ∀ x ∈ s :: l, next' x = next x) (hp : ∀ y ∈ s :: l, prev' y = prev y)
    (h : IsRing next prev s l) : IsRing next' prev' s l where
  nodup := h.nodup
  chain := by
    refine isChain_congr ?_ ?_ h.chain
    · intro x hx
      rw [← List.cons_append, List.dropLast_concat] at hx
      exact hn x hx
    · intro y hy
      exact hp y (by simpa [or_comm] using hy)

/-- The nodes on the two sides of a place in the ring, which ends the first part `s :: l₁` with `p`
and begins the second part `l₂ ++ [s]` with `c`. -/
theorem sides (hnd : (s :: (l₁ ++ l₂)).Nodup) (hp : s :: l₁ = a ++ [p]) (hc : l₂ ++ [s] = c :: b) :
    (∀ x ∈ (s :: l₁).dropLast, x ≠ p) ∧ (∀ y ∈ l₁, y ≠ c) ∧
      (∀ x ∈ l₂, x ≠ p) ∧ ∀ y ∈ (l₂ ++ [s]).tail, y ≠ c := by
  have hnd₁ : (a ++ [p]).Nodup := by
    rw [← hp]
    exact hnd.sublist (by simp)
  have hnd₂ : (c :: b).Nodup := by
    rw [← hc, List.nodup_append]
    simp only [List.nodup_cons, List.mem_append, List.nodup_append] at hnd
    exact ⟨hnd.2.2.1, List.nodup_singleton s, by grind⟩
  have hpm : p ∈ s :: l₁ := hp ▸ by simp
  have hcm : c ∈ l₂ ++ [s] := hc ▸ by simp
  refine ⟨?_, ?_, ?_, ?_⟩
  · rw [hp, List.dropLast_concat]
    grind
  · grind
  · grind
  · rw [hc, List.tail_cons]
    grind

variable [DecidableEq ι]

theorem insert (h : IsRing next prev s (l₁ ++ l₂)) (hes : e ≠ s) (he : e ∉ l₁ ++ l₂)
    (hp : s :: l₁ = a ++ [p]) (hc : l₂ ++ [s] = c :: b) :
    IsRing (Function.update (Function.update next e (some c)) p (some e))
      (Function.update (Function.update prev e (some p)) c (some e)) s (l₁ ++ e :: l₂) := by
  obtain ⟨h1, h2, h3, h4⟩ := sides h.nodup hp hc
  have hpm : p ∈ s :: l₁ := hp ▸ by simp
  have hcm : c ∈ l₂ ++ [s] := hc ▸ by simp
  have hep : e ≠ p := by grind
  have hec : e ≠ c := by grind
  have hchain := h.chain
  rw [List.append_assoc, ← List.cons_append, List.isChain_append] at hchain
  obtain ⟨hch₁, hch₂, -⟩ := hchain
  refine ⟨?_, ?_⟩
  · have := h.nodup
    grind
  · rw [List.append_assoc, ← List.cons_append, List.isChain_append]
    refine ⟨isChain_congr ?_ ?_ hch₁, ?_, ?_⟩
    · intro x hx
      have hxe : x ≠ e := fun hxe => he (by have := List.mem_of_mem_dropLast hx; grind)
      rw [Function.update_of_ne (h1 x hx), Function.update_of_ne hxe]
    · intro y hy
      have hye : y ≠ e := by grind
      rw [Function.update_of_ne (h2 y hy), Function.update_of_ne hye]
    · show List.IsChain _ (e :: (l₂ ++ [s]))
      rw [hc, List.isChain_cons_cons, ← hc]
      refine ⟨⟨?_, Function.update_self _ _ _⟩, isChain_congr ?_ ?_ hch₂⟩
      · rw [Function.update_of_ne hep, Function.update_self]
      · intro x hx
        rw [List.dropLast_concat] at hx
        have hxe : x ≠ e := by grind
        rw [Function.update_of_ne (h3 x hx), Function.update_of_ne hxe]
      · intro y hy
        have hye : y ≠ e := fun hye => he (by have := List.mem_of_mem_tail hy; grind)
        rw [Function.update_of_ne (h4 y hy), Function.update_of_ne hye]
    · intro x hx y hy
      rw [hp, List.getLast?_concat] at hx
      cases hx
      cases hy
      exact ⟨Function.update_self _ _ _, by rw [Function.update_of_ne hec, Function.update_self]⟩

theorem unlink (h : IsRing next prev s (l₁ ++ e :: l₂)) (hp : s :: l₁ = a ++ [p])
    (hc : l₂ ++ [s] = c :: b) (v w : Option ι) :
    IsRing (Function.update (Function.update next p (some c)) e v)
      (Function.update (Function.update prev c (some p)) e w) s (l₁ ++ l₂) := by
  have hnd : (s :: (l₁ ++ l₂)).Nodup := h.nodup.sublist (by simp)
  have hes : e ≠ s := by
    have := h.nodup
    grind
  have he : e ∉ l₁ ++ l₂ := by
    have := h.nodup
    grind
  obtain ⟨h1, h2, h3, h4⟩ := sides hnd hp hc
  have hchain := h.chain
  rw [List.append_assoc, ← List.cons_append, List.isChain_append] at hchain
  obtain ⟨hch₁, hch₂, -⟩ := hchain
  have hpm : p ∈ s :: l₁ := hp ▸ by simp
  have hcm : c ∈ l₂ ++ [s] := hc ▸ by simp
  refine ⟨hnd, ?_⟩
  rw [List.append_assoc, ← List.cons_append, List.isChain_append]
  refine ⟨isChain_congr ?_ ?_ hch₁, isChain_congr ?_ ?_ hch₂.tail, ?_⟩
  · intro x hx
    have hxe : x ≠ e := fun hxe => he (by have := List.mem_of_mem_dropLast hx; grind)
    rw [Function.update_of_ne hxe, Function.update_of_ne (h1 x hx)]
  · intro y hy
    have hye : y ≠ e := by grind
    rw [Function.update_of_ne hye, Function.update_of_ne (h2 y hy)]
  · intro x hx
    rw [List.dropLast_concat] at hx
    have hxe : x ≠ e := by grind
    rw [Function.update_of_ne hxe, Function.update_of_ne (h3 x hx)]
  · intro y hy
    have hye : y ≠ e := fun hye => he (by have := List.mem_of_mem_tail hy; grind)
    rw [Function.update_of_ne hye, Function.update_of_ne (h4 y hy)]
  · intro x hx y hy
    rw [hp, List.getLast?_concat] at hx
    rw [hc, List.head?_cons] at hy
    cases hx
    cases hy
    have hpe : p ≠ e := by grind
    have hce : c ≠ e := by grind
    constructor
    · rw [Function.update_of_ne hpe, Function.update_self]
    · rw [Function.update_of_ne hce, Function.update_self]

end IsRing
end Cxx
