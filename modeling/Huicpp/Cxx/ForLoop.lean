import Mathlib
import Huicpp.Cxx.Prog

/-!
# Cxx.ForLoop

Counting loops, `for (i = 0; i < n; i++)`, over a state, with the rules for them: an invariant that
each iteration keeps (`forRange_inv`), the same where each iteration also has to end well
(`forRange_ok`), and that a loop which ends well has had every iteration (`forRange_iteration`).
-/

namespace Cxx

variable {σ : Type}

/-- The iterations `0`, ..., `n - 1`. -/
def forRange (body : Nat → σ → Outcome σ) : Nat → σ → Outcome σ
  | 0, s => .ok s
  | n + 1, s => do
    let s' ← forRange body n s
    body n s'

variable {body : Nat → σ → Outcome σ} {n : Nat} {s s' : σ}

theorem forRange_three : forRange body 3 s = (do
    let s ← body 0 s
    let s ← body 1 s
    body 2 s) := by
  simp only [forRange, Outcome.ok_bind, Outcome.bind_assoc]

theorem forRange_inv (P : Nat → σ → Prop) (h : forRange body n s = .ok s') (h0 : P 0 s)
    (hstep : ∀ i t t', i < n → P i t → body i t = .ok t' → P (i + 1) t') : P n s' := by
  induction n generalizing s' with
  | zero =>
    cases h
    exact h0
  | succ n ih =>
    obtain ⟨t, ht, hbody⟩ := Outcome.bind_eq_ok.mp h
    have hP := ih ht fun i t t' hi => hstep i t t' (hi.trans (Nat.lt_succ_self n))
    exact hstep n t s' (Nat.lt_succ_self n) hP hbody

theorem forRange_ok (P : Nat → σ → Prop) (h0 : P 0 s)
    (hstep : ∀ i t, i < n → P i t → ∃ t', body i t = .ok t' ∧ P (i + 1) t') :
    ∃ s', forRange body n s = .ok s' ∧ P n s' := by
  induction n with
  | zero => exact ⟨s, rfl, h0⟩
  | succ n ih =>
    obtain ⟨t, ht, hP⟩ := ih fun i t hi => hstep i t (hi.trans (Nat.lt_succ_self n))
    obtain ⟨t', ht', hP'⟩ := hstep n t (Nat.lt_succ_self n) hP
    exact ⟨t', by rw [forRange, ht, Outcome.ok_bind, ht'], hP'⟩

theorem forRange_iteration (h : forRange body n s = .ok s') {i : Nat} (hi : i < n) :
    ∃ t t', body i t = .ok t' := by
  induction n generalizing s' with
  | zero => exact absurd hi (Nat.not_lt_zero i)
  | succ n ih =>
    obtain ⟨t, ht, hbody⟩ := Outcome.bind_eq_ok.mp h
    rcases Nat.lt_succ_iff_lt_or_eq.mp hi with hlt | rfl
    · exact ih ht hlt
    · exact ⟨t, s', hbody⟩

theorem forRange_id (h : ∀ i < n, ∀ t, body i t = .ok t) : forRange body n s = .ok s := by
  induction n with
  | zero => rfl
  | succ n ih =>
    rw [forRange, ih fun i hi => h i (hi.trans (Nat.lt_succ_self n)), Outcome.ok_bind]
    exact h n (Nat.lt_succ_self n) s

section Rows

variable {body : Nat → Nat → σ → Outcome σ} {w : Nat}

/-- Rows of `w` iterations, for an invariant that counts the iterations of all rows. -/
theorem forRange_rows (P : Nat → σ → Prop) (h0 : P 0 s)
    (hstep : ∀ i j t, i < n → j < w → P (i * w + j) t →
      ∃ t', body i j t = .ok t' ∧ P (i * w + j + 1) t') :
    ∃ s', forRange (fun i => forRange (body i) w) n s = .ok s' ∧ P (n * w) s' := by
  refine forRange_ok (fun i => P (i * w)) (by rwa [Nat.zero_mul]) fun i t hi ht => ?_
  obtain ⟨t', ht', hP⟩ := forRange_ok (fun j => P (i * w + j)) ht fun j t hj =>
    hstep i j t hi hj
  exact ⟨t', ht', by rwa [Nat.succ_mul]⟩

theorem forRange_rows_inv (P : σ → Prop)
    (h : forRange (fun i => forRange (body i) w) n s = .ok s') (h0 : P s)
    (hstep : ∀ i j t t', j < w → P t → body i j t = .ok t' → P t') : P s' :=
  forRange_inv (fun _ => P) h h0 fun i _ _ _ ht hrow =>
    forRange_inv (fun _ => P) hrow ht fun j t t' => hstep i j t t'

theorem forRange_rows_iteration (h : forRange (fun i => forRange (body i) w) n s = .ok s')
    {i j : Nat} (hi : i < n) (hj : j < w) : ∃ t t', body i j t = .ok t' := by
  obtain ⟨t, t', hrow⟩ := forRange_iteration h hi
  exact forRange_iteration hrow hj

end Rows

end Cxx
