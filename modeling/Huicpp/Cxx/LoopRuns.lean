import Mathlib
import Huicpp.Cxx.Prog

/-!
# Cxx.LoopRuns

A loop whose body is a step without loops of its own, and leaves with a value.

`Passes step s t`: the loop from `s` starts an iteration at `t`. What the steps keep holds there
(`Passes.inv`), and a loop each of whose steps goes down ends (`Returns.loop_ends`).

`EndsIn body s k a`: the loop over any body, from `s`, leaves with `a` in its `k`-th iteration.
-/

namespace Cxx
namespace Prog

variable {σ α : Type} {step : σ → Outcome (Ctl σ α)}

/-- The loop over `step`. -/
def loopOf (step : σ → Outcome (Ctl σ α)) (s : σ) : Prog α := loop (fun s => liftM (step s)) s

inductive Passes (step : σ → Outcome (Ctl σ α)) (s : σ) : σ → Prop where
  | start : Passes step s s
  | again {t t' : σ} : Passes step s t → step t = .ok (.again t') → Passes step s t'

theorem Passes.inv (P : σ → Prop) (hstep : ∀ t t', P t → step t = .ok (.again t') → P t') {s t : σ}
    (h : Passes step s t) (hs : P s) : P t := by
  induction h with
  | start => exact hs
  | again _ hagain ih => exact hstep _ _ ih hagain

theorem loopOf_congr {s s' : σ} (h : step s = step s') : loopOf step s = loopOf step s' := by
  funext n
  cases n with
  | zero => rfl
  | succ n =>
    show ((liftM (step s) : Prog (Ctl σ α)) n >>= _) = ((liftM (step s') : Prog (Ctl σ α)) n >>= _)
    rw [h]

theorem Faults.loop_step {s : σ} {u : Ub} (h : step s = .undef u) : Faults (loopOf step s) u := by
  refine Faults.loop_body ?_
  rw [h]
  exact .lift u

/-- A loop ends where an invariant and a variant say so, and the value is one that an exit gives. -/
theorem Returns.loop_ends (P : σ → Prop) (Q : α → Prop) (v : σ → Nat)
    (hstep : ∀ s, P s → (∃ s', step s = .ok (.again s') ∧ P s' ∧ v s' < v s) ∨
      ∃ a, step s = .ok (.exit a) ∧ Q a) :
    ∀ s, P s → ∃ a, Returns (loopOf step s) a ∧ Q a := by
  intro s
  induction h : v s using Nat.strongRecOn generalizing s with
  | ind k ih =>
    intro hs
    rcases hstep s hs with ⟨s', hagain, hs', hv⟩ | ⟨a, hexit, ha⟩
    · obtain ⟨a, hrun, ha⟩ := ih (v s') (by omega) s' rfl hs'
      exact ⟨a, .loop_again (.lift hagain) hrun, ha⟩
    · exact ⟨a, .loop_exit (.lift hexit), ha⟩

inductive EndsIn (body : σ → Prog (Ctl σ α)) : σ → Nat → α → Prop where
  | exit {s : σ} {a : α} : Returns (body s) (.exit a) → EndsIn body s 1 a
  | again {s s' : σ} {k : Nat} {a : α} : Returns (body s) (.again s') → EndsIn body s' k a →
      EndsIn body s (k + 1) a

theorem EndsIn.returns {body : σ → Prog (Ctl σ α)} {s : σ} {k : Nat} {a : α}
    (h : EndsIn body s k a) : Returns (loop body s) a := by
  induction h with
  | exit hb => exact .loop_exit hb
  | again hb _ ih => exact .loop_again hb ih

end Prog
end Cxx
