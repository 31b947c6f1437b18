import Mathlib

/-!
# Cxx.TransitionSystem

Runs of a system that makes one step after the other, with a label for what each step shows.
`Run.invariant` is the induction over a run, stated once. Of many parties one moves at a time
(`update_apply_eq_iff`).
-/

namespace Cxx

structure TransitionSystem (σ l : Type) where
  init : σ → Prop
  step : σ → l → σ → Prop

namespace TransitionSystem

variable {σ l : Type} {S : TransitionSystem σ l}

/-- `Run S tr s`: some run shows the labels `tr`, in order, and ends in `s`. -/
inductive Run (S : TransitionSystem σ l) : List l → σ → Prop where
  | init {s : σ} : S.init s → Run S [] s
  | step {tr : List l} {s s' : σ} {a : l} : Run S tr s → S.step s a s' → Run S (tr ++ [a]) s'

def Reachable (S : TransitionSystem σ l) (s : σ) : Prop := ∃ tr, Run S tr s

theorem Run.invariant (inv : List l → σ → Prop) (hinit : ∀ s, S.init s → inv [] s)
    (hstep : ∀ tr s a s', inv tr s → S.step s a s' → inv (tr ++ [a]) s') {tr : List l} {s : σ}
    (h : Run S tr s) : inv tr s := by
  induction h with
  | init h => exact hinit _ h
  | step _ h ih => exact hstep _ _ _ _ ih h

theorem Reachable.invariant (inv : σ → Prop) (hinit : ∀ s, S.init s → inv s)
    (hstep : ∀ s a s', inv s → S.step s a s' → inv s') {s : σ} (h : S.Reachable s) : inv s := by
  obtain ⟨tr, h⟩ := h
  exact h.invariant (fun _ s => inv s) hinit fun _ s a s' => hstep s a s'

theorem Reachable.of_init {s : σ} (h : S.init s) : S.Reachable s := ⟨[], .init h⟩

theorem Reachable.next {s s' : σ} {a : l} (h : S.Reachable s) (hs : S.step s a s') :
    S.Reachable s' := by
  obtain ⟨tr, h⟩ := h
  exact ⟨tr ++ [a], .step h hs⟩

/-- The runs of `S` whose steps all meet `P`. -/
def restrict (S : TransitionSystem σ l) (P : σ → l → σ → Prop) : TransitionSystem σ l where
  init := S.init
  step s a s' := S.step s a s' ∧ P s a s'

theorem Run.of_restrict {P : σ → l → σ → Prop} {tr : List l} {s : σ}
    (h : (S.restrict P).Run tr s) : S.Run tr s := by
  induction h with
  | init h => exact .init h
  | step _ h ih => exact .step ih h.1

theorem Run.restrict_mono {P Q : σ → l → σ → Prop} {tr : List l} {s : σ}
    (hPQ : ∀ s a s', S.step s a s' → P s a s' → Q s a s') (h : (S.restrict P).Run tr s) :
    (S.restrict Q).Run tr s := by
  induction h with
  | init h => exact .init h
  | step _ h ih => exact .step ih ⟨h.1, hPQ _ _ _ h.1 h.2⟩

/-- A component of a larger system: every step either leaves it alone or is a step of its own, and
`view` tells which. -/
theorem Run.project {τ k : Type} {C : TransitionSystem τ k} (part : σ → τ) (view : l → Option k)
    (hinit : ∀ s, S.init s → C.init (part s))
    (hquiet : ∀ s a s', S.step s a s' → view a = none → part s' = part s)
    (hmove : ∀ s a s' b, S.step s a s' → view a = some b → C.step (part s) b (part s'))
    {tr : List l} {s : σ} (h : S.Run tr s) : C.Run (tr.filterMap view) (part s) := by
  induction h with
  | init h => exact .init (hinit _ h)
  | @step tr s s' a _ h ih =>
    rw [List.filterMap_append]
    cases hv : view a with
    | none =>
      rw [hquiet s a s' h hv]
      simpa [hv] using ih
    | some b =>
      rw [List.filterMap_cons_some hv]
      exact .step ih (hmove s a s' b h hv)

/-- The same for the states alone. What is known of reachable states may be used in the step. -/
theorem Reachable.project {τ k : Type} {C : TransitionSystem τ k} (part : σ → τ)
    (hinit : ∀ s, S.init s → C.init (part s))
    (hstep : ∀ s a s', S.Reachable s → S.step s a s' →
      part s' = part s ∨ ∃ b, C.step (part s) b (part s'))
    {s : σ} (h : S.Reachable s) : C.Reachable (part s) := by
  obtain ⟨tr, h⟩ := h
  induction h with
  | init h => exact .of_init (hinit _ h)
  | @step tr s s' a hrun h ih =>
    rcases hstep s a s' ⟨tr, hrun⟩ h with hsame | ⟨b, hb⟩
    · rw [hsame]
      exact ih
    · exact ih.next hb

end TransitionSystem

/-! ## Systems of many parties -/

section

variable {ι τ : Type} [DecidableEq ι] {parties : ι → τ} {i j : ι} {t u : τ}

theorem update_apply_eq_iff :
    Function.update parties i t j = u ↔ j = i ∧ t = u ∨ j ≠ i ∧ parties j = u := by
  by_cases hji : j = i
  · subst hji
    rw [Function.update_self]
    constructor
    · exact fun h => .inl ⟨rfl, h⟩
    · rintro (⟨-, h⟩ | ⟨hne, -⟩)
      · exact h
      · exact absurd rfl hne
  · rw [Function.update_of_ne hji]
    constructor
    · exact fun h => .inr ⟨hji, h⟩
    · rintro (⟨hj, -⟩ | ⟨-, h⟩)
      · exact absurd hj hji
      · exact h

theorem update_apply_eq_iff_of_ne (h : t ≠ u) :
    Function.update parties i t j = u ↔ j ≠ i ∧ parties j = u :=
  update_apply_eq_iff.trans (or_iff_right fun hj => h hj.2)

end

end Cxx
