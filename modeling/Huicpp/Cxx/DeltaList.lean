import Mathlib

/-!
# Cxx.DeltaList

A list of times stored as differences: each element keeps only what its time adds to the time
before it. `Stored δ τ t l` says that `δ` stores the times `τ` along `l` after the time `t`.

* `Stored.sum`: the sum of the differences up to an element is its time.
* `Stored.insert`, `Stored.remove`: only the differences of the element and of the one after it
  change.
* `Stored.sweep`: when an amount of time passes, the elements it covers are set to zero, and what
  is left of it is taken from the first one that remains.
-/

namespace Cxx

variable {ι G : Type}

/-- The time of the last element of a list, or `t` if there is none. -/
def endTime (τ : ι → G) : G → List ι → G
  | t, [] => t
  | _, x :: l => endTime τ (τ x) l

section EndTime

variable {τ τ' : ι → G} {t d : G} {l : List ι}

theorem endTime_congr (hτ : ∀ x ∈ l, τ' x = τ x) : endTime τ' t l = endTime τ t l := by
  induction l generalizing t with
  | nil => rfl
  | cons x l ih =>
    rw [endTime, endTime, hτ x (by simp)]
    exact ih fun y hy => hτ y (by simp [hy])

theorem endTime_const (hτ : ∀ x ∈ l, τ x = t) : endTime τ t l = t := by
  induction l with
  | nil => rfl
  | cons x l ih =>
    rw [endTime, hτ x (by simp)]
    exact ih fun y hy => hτ y (by simp [hy])

theorem exists_later [LinearOrder G] (τ : ι → G) {x : ι} (hx : x ∈ l) (hd : d < τ x) :
    ∃ l₁ c l₂, l = l₁ ++ c :: l₂ ∧ (∀ y ∈ l₁, τ y ≤ d) ∧ d < τ c := by
  induction l with
  | nil => cases hx
  | cons y l ih =>
    rcases lt_or_ge d (τ y) with hy | hy
    · exact ⟨[], y, l, rfl, fun z hz => (List.not_mem_nil hz).elim, hy⟩
    · rcases List.mem_cons.mp hx with rfl | hx
      · exact absurd hd (not_lt.mpr hy)
      · obtain ⟨l₁, c, l₂, rfl, h₁, hc⟩ := ih hx
        refine ⟨y :: l₁, c, l₂, rfl, ?_, hc⟩
        intro z hz
        rcases List.mem_cons.mp hz with rfl | hz
        · exact hy
        · exact h₁ z hz

end EndTime

section Stored

variable [AddCommGroup G]

def Stored (δ τ : ι → G) : G → List ι → Prop
  | _, [] => True
  | t, x :: l => δ x = τ x - t ∧ Stored δ τ (τ x) l

variable {δ δ' τ τ' : ι → G} {t d : G} {l l₁ l₂ : List ι} {e c x : ι}

theorem stored_append :
    Stored δ τ t (l₁ ++ l₂) ↔ Stored δ τ t l₁ ∧ Stored δ τ (endTime τ t l₁) l₂ := by
  induction l₁ generalizing t with
  | nil => exact ⟨fun h => ⟨trivial, h⟩, fun h => h.2⟩
  | cons x l₁ ih => rw [List.cons_append, Stored, Stored, endTime, ih, and_assoc]

theorem Stored.congr (hδ : ∀ x ∈ l, δ' x = δ x) (hτ : ∀ x ∈ l, τ' x = τ x)
    (h : Stored δ τ t l) : Stored δ' τ' t l := by
  induction l generalizing t with
  | nil => trivial
  | cons x l ih =>
    refine ⟨?_, ?_⟩
    · rw [hδ x (by simp), hτ x (by simp)]
      exact h.1
    · rw [hτ x (by simp)]
      exact ih (fun y hy => hδ y (by simp [hy])) (fun y hy => hτ y (by simp [hy])) h.2

/-- The differences up to `x` add up to its time. -/
theorem Stored.sum (h : Stored δ τ t (l ++ [x])) : ((l ++ [x]).map δ).sum = τ x - t := by
  induction l generalizing t with
  | nil =>
    obtain ⟨h, -⟩ := h
    simp [h]
  | cons y l ih =>
    obtain ⟨hy, h⟩ := h
    rw [List.cons_append, List.map_cons, List.sum_cons, ih h, hy]
    abel

theorem Stored.insert (he : δ' e = d - endTime τ t l₁) (hc : δ' c = δ c - δ' e)
    (hδ₁ : ∀ x ∈ l₁, δ' x = δ x) (hδ₂ : ∀ x ∈ l₂, δ' x = δ x) (hτe : τ' e = d)
    (hτ : ∀ x ∈ l₁ ++ c :: l₂, τ' x = τ x) (h : Stored δ τ t (l₁ ++ c :: l₂)) :
    Stored δ' τ' t (l₁ ++ e :: c :: l₂) := by
  rw [stored_append] at h ⊢
  obtain ⟨h₁, hcs, h₂⟩ := h
  have hτ₁ : ∀ x ∈ l₁, τ' x = τ x := fun x hx => hτ x (by simp [hx])
  have hτc : τ' c = τ c := hτ c (by simp)
  refine ⟨h₁.congr hδ₁ hτ₁, ?_, ?_, ?_⟩
  · rw [endTime_congr hτ₁, he, hτe]
  · rw [hc, hcs, he, hτe, hτc]
    abel
  · rw [hτc]
    exact h₂.congr hδ₂ fun x hx => hτ x (by simp [hx])

/-- The element `e` is taken out, and its difference is left to the one after it. -/
theorem Stored.remove (hc : δ' c = δ c + δ e) (hδ₁ : ∀ x ∈ l₁, δ' x = δ x)
    (hδ₂ : ∀ x ∈ l₂, δ' x = δ x) (h : Stored δ τ t (l₁ ++ e :: c :: l₂)) :
    Stored δ' τ t (l₁ ++ c :: l₂) := by
  rw [stored_append] at h ⊢
  obtain ⟨h₁, he, hcs, h₂⟩ := h
  refine ⟨h₁.congr hδ₁ fun _ _ => rfl, ?_, h₂.congr hδ₂ fun _ _ => rfl⟩
  rw [hc, he, hcs]
  abel

theorem Stored.shift (hτ : ∀ x ∈ l, τ' x = τ x - d) (h : Stored δ τ t l) :
    Stored δ τ' (t - d) l := by
  induction l generalizing t with
  | nil => trivial
  | cons x l ih =>
    obtain ⟨hx, h⟩ := h
    have hτx := hτ x (by simp)
    refine ⟨?_, ?_⟩
    · rw [hx, hτx]
      abel
    · rw [hτx]
      exact ih (fun y hy => hτ y (by simp [hy])) h

theorem Stored.zero (hδ : ∀ x ∈ l, δ x = 0) (hτ : ∀ x ∈ l, τ x = t) : Stored δ τ t l := by
  induction l with
  | nil => trivial
  | cons x l ih =>
    have hτx := hτ x (by simp)
    refine ⟨?_, ?_⟩
    · rw [hδ x (by simp), hτx, sub_self]
    · rw [hτx]
      exact ih (fun y hy => hδ y (by simp [hy])) fun y hy => hτ y (by simp [hy])

variable [LinearOrder G] [IsOrderedAddMonoid G]

theorem Stored.le (h0 : ∀ x ∈ l, 0 ≤ δ x) (h : Stored δ τ t l) : ∀ x ∈ l, t ≤ τ x := by
  induction l generalizing t with
  | nil =>
    intro x hx
    cases hx
  | cons y l ih =>
    obtain ⟨hy, h⟩ := h
    have hty : t ≤ τ y := by
      rw [← sub_nonneg, ← hy]
      exact h0 y (by simp)
    intro x hx
    rcases List.mem_cons.mp hx with rfl | hx
    · exact hty
    · exact hty.trans (ih (fun z hz => h0 z (by simp [hz])) h x hx)

theorem Stored.le_endTime (h0 : ∀ x ∈ l, 0 ≤ δ x) (h : Stored δ τ t l) : t ≤ endTime τ t l := by
  induction l generalizing t with
  | nil => exact le_rfl
  | cons x l ih =>
    obtain ⟨hx, h⟩ := h
    have htx : t ≤ τ x := by
      rw [← sub_nonneg, ← hx]
      exact h0 x (by simp)
    exact htx.trans (ih (fun y hy => h0 y (by simp [hy])) h)

/-- The time `d` passes. It covers the elements of `l₁`, and does not reach the time of `c`. -/
theorem Stored.sweep (h0 : ∀ x ∈ l₂, 0 ≤ δ x) (h₁ : ∀ x ∈ l₁, τ x ≤ d) (hcd : d < τ c)
    (hz : ∀ x ∈ l₁, δ' x = 0) (hc : δ' c = δ c - (d - endTime τ t l₁))
    (hδ : ∀ x ∈ l₂, δ' x = δ x) (hτ : ∀ x ∈ l₁ ++ c :: l₂, τ' x = max 0 (τ x - d))
    (h : Stored δ τ t (l₁ ++ c :: l₂)) : Stored δ' τ' 0 (l₁ ++ c :: l₂) := by
  have hτ₁ : ∀ x ∈ l₁, τ' x = 0 := by
    intro x hx
    rw [hτ x (by simp [hx])]
    exact max_eq_left (sub_nonpos.mpr (h₁ x hx))
  have hτc : τ' c = τ c - d := by
    rw [hτ c (by simp)]
    exact max_eq_right (sub_nonneg.mpr hcd.le)
  rw [stored_append] at h ⊢
  obtain ⟨-, hcs, h₂⟩ := h
  refine ⟨.zero hz hτ₁, ?_, ?_⟩
  · rw [endTime_const hτ₁, hτc, hc, hcs]
    abel
  · -- everything from `c` on comes closer by `d`
    rw [hτc]
    refine (h₂.shift ?_).congr hδ fun _ _ => rfl
    intro x hx
    have hle : τ c ≤ τ x := h₂.le h0 x hx
    rw [hτ x (by simp [hx])]
    exact max_eq_right (sub_nonneg.mpr (hcd.le.trans hle))

end Stored
end Cxx
