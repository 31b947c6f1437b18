import Mathlib
import Huicpp.Cxx.Prog

/-!
# Cxx.Iterations

The run of a `while` loop, with the states at which its body starts.

`Iterations c body s l t`: from `s` the loop starts its body at the states of `l`, in that order,
and leaves at `t`. What holds throughout a loop is said of the states of `l`; `Iterations.returns`
says that such a run is what `whileDo` computes.
-/

namespace Cxx
namespace Prog

variable {σ : Type}

inductive Iterations (c : σ → Bool) (body : σ → Prog σ) : σ → List σ → σ → Prop where
  | done {s : σ} : c s = false → Iterations c body s [] s
  | step {s s' t : σ} {l : List σ} : c s = true → Returns (body s) s' →
      Iterations c body s' l t → Iterations c body s (s :: l) t

namespace Iterations

variable {c : σ → Bool} {body : σ → Prog σ} {s t : σ} {l : List σ}

theorem returns (h : Iterations c body s l t) : Returns (whileDo c body s) t := by
  induction h with
  | done hc => exact .while_done hc
  | step hc hb _ ih => exact .while_step hc hb ih

theorem test_false (h : Iterations c body s l t) : c t = false := by
  induction h with
  | done hc => exact hc
  | step _ _ _ ih => exact ih

/-- What the body preserves holds at every state of the run. -/
theorem inv (P : σ → Prop) (hstep : ∀ s s', P s → c s = true → Returns (body s) s' → P s')
    (h : Iterations c body s l t) (hs : P s) : (∀ x ∈ l, P x) ∧ P t := by
  induction h with
  | done _ =>
    refine ⟨?_, hs⟩
    intro x hx
    cases hx
  | @step s _ _ _ hc hb _ ih =>
    obtain ⟨hl, ht⟩ := ih (hstep _ _ hs hc hb)
    refine ⟨?_, ht⟩
    intro x hx
    rcases List.mem_cons.mp hx with rfl | hx
    · exact hs
    · exact hl x hx

theorem head_mem (h : Iterations c body s l t) (hc : c s = true) : s ∈ l := by
  cases h with
  | done hc' =>
    rw [hc] at hc'
    cases hc'
  | step _ _ _ => exact List.mem_cons_self

theorem states_eq (h : Iterations c body s l t) : ∃ r, l ++ [t] = s :: r := by
  cases h with
  | done _ => exact ⟨[], rfl⟩
  | step _ _ _ => exact ⟨_, rfl⟩

theorem chain (P : σ → Prop) (R : σ → σ → Prop)
    (hstep : ∀ s s', P s → c s = true → Returns (body s) s' → P s' ∧ R s s')
    (h : Iterations c body s l t) (hs : P s) : List.IsChain R (l ++ [t]) := by
  induction h with
  | done _ => exact .singleton _
  | step hc hb hrun ih =>
    obtain ⟨hs', hr⟩ := hstep _ _ hs hc hb
    obtain ⟨r, heq⟩ := hrun.states_eq
    have hrest := ih hs'
    rw [heq] at hrest
    rw [List.cons_append, heq]
    exact .cons_cons hr hrest

/-- A run exists where the body keeps an invariant and a variant goes down, and it is no longer
than the variant. -/
theorem of_inv (c : σ → Bool) (body : σ → Prog σ) (inv : σ → Prop) (v : σ → Nat)
    (hstep : ∀ s, inv s → c s = true → ∃ s', Returns (body s) s' ∧ inv s' ∧ v s' < v s) :
    ∀ s, inv s → ∃ l t, Iterations c body s l t ∧ (∀ x ∈ l, inv x) ∧ inv t ∧ l.length ≤ v s := by
  intro s
  induction h : v s using Nat.strongRecOn generalizing s with
  | ind k ih =>
    intro hs
    cases hc : c s with
    | false => exact ⟨[], s, .done hc, List.forall_mem_nil _, hs, Nat.zero_le _⟩
    | true =>
      obtain ⟨s', hb, hs', hv⟩ := hstep s hs hc
      obtain ⟨l, t, hl, hinv, ht, hlen⟩ := ih (v s') (by omega) s' rfl hs'
      refine ⟨s :: l, t, .step hc hb hl, List.forall_mem_cons.mpr ⟨hs, hinv⟩, ht, ?_⟩
      rw [List.length_cons]
      omega

/-- Where the variant cannot go down by more than `k`, a run has at least its share of steps. -/
theorem le_length (v : σ → Nat) (k : Nat)
    (hstep : ∀ s s', c s = true → Returns (body s) s' → v s ≤ v s' + k)
    (h : Iterations c body s l t) : v s ≤ v t + l.length * k := by
  induction h with
  | done _ => exact Nat.le_add_right _ _
  | step hc hb _ ih =>
    have hs := hstep _ _ hc hb
    rw [List.length_cons, Nat.succ_mul]
    omega

end Iterations

end Prog
end Cxx
