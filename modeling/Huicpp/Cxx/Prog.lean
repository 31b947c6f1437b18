import Mathlib

/-!
# Cxx.Prog

What a fragment of C++ computes.

* `Outcome α`: one finished or interrupted run: a value, a thrown exception, undefined behaviour,
  or `timeout` when the bound on loop iterations was used up.
* `Prog α`: a computation as a function of that bound. Only `loop` consumes it.
* `Returns p a`: every large enough bound gives the value `a`. This is termination with a result.
* `Hangs p`: every large enough bound times out.
* `Faults p u`: every large enough bound runs into the undefined behaviour `u`.
* `Throws p e`: every large enough bound ends with the exception `e`.

`Returns`, `Hangs`, `Faults` and `Throws` compose along `bind` and along the iterations of a `loop`,
so that a proof about a program follows its text and never mentions a bound.
-/

namespace Cxx

/-- The undefined behaviours a model distinguishes. -/
inductive Ub where
  | outOfBounds
  | nullAccess
  | overflow
  | assertFailed
  | uninitialised
  | useAfterFree
  deriving DecidableEq, Repr

/-- The exceptions a model distinguishes. -/
inductive Exn where
  | lengthError
  | badAlloc
  | outOfRange
  | invalidArgument
  deriving DecidableEq, Repr

inductive Outcome (α : Type) where
  | ok (a : α)
  | throws (e : Exn)
  | undef (u : Ub)
  | timeout
  deriving DecidableEq, Repr

namespace Outcome

variable {α β γ : Type}

/-- Continue with `f` after a value; keep every other outcome. -/
def bind (o : Outcome α) (f : α → Outcome β) : Outcome β :=
  match o with
  | .ok a => f a
  | .throws e => .throws e
  | .undef u => .undef u
  | .timeout => .timeout

instance : Monad Outcome where
  pure := .ok
  bind := bind

@[simp] theorem pure_eq (a : α) : (pure a : Outcome α) = .ok a := rfl
@[simp] theorem ok_bind (a : α) (f : α → Outcome β) : (Outcome.ok a >>= f) = f a := rfl
@[simp] theorem throws_bind (e : Exn) (f : α → Outcome β) :
    (Outcome.throws e >>= f) = .throws e := rfl
@[simp] theorem undef_bind (u : Ub) (f : α → Outcome β) : (Outcome.undef u >>= f) = .undef u := rfl
@[simp] theorem timeout_bind (f : α → Outcome β) : (Outcome.timeout >>= f) = .timeout := rfl

theorem bind_assoc (o : Outcome α) (f : α → Outcome β)
    (g : β → Outcome γ) : (o >>= f >>= g) = o >>= fun a => f a >>= g := by
  cases o with
  | ok a => rfl
  | throws e => rfl
  | undef u => rfl
  | timeout => rfl

theorem bind_eq_ok {o : Outcome α} {f : α → Outcome β} {b : β} :
    (o >>= f) = .ok b ↔ ∃ a, o = .ok a ∧ f a = .ok b := by
  cases o with
  | ok a => simp
  | throws e => simp
  | undef u => simp
  | timeout => simp

/-- `P` holds of the value, if there is one. -/
def Ensures (o : Outcome α) (P : α → Prop) : Prop := ∀ a, o = .ok a → P a

instance (P : α → Prop) [DecidablePred P] : (o : Outcome α) → Decidable (o.Ensures P)
  | .ok a => decidable_of_iff (P a) ⟨fun h _ e => Outcome.ok.inj e ▸ h, fun h => h a rfl⟩
  | .throws _ => isTrue fun _ e => nomatch e
  | .undef _ => isTrue fun _ e => nomatch e
  | .timeout => isTrue fun _ e => nomatch e

end Outcome

/-- A computation, given a bound on the iterations of its loops. -/
def Prog (α : Type) : Type := Nat → Outcome α

/-- What a loop body decides: another iteration, or the end of the loop. -/
inductive Ctl (σ α : Type) where
  | again (s : σ)
  | exit (a : α)
  deriving DecidableEq, Repr

namespace Prog

variable {σ α β : Type}

instance : Monad Prog where
  pure a := fun _ => .ok a
  bind p f := fun n => p n >>= fun a => f a n

instance : MonadLift Outcome Prog := ⟨fun o _ => o⟩

/-- `loopN body n s` runs `body` from `s` until it exits, at most `n` times. -/
def loopN (body : σ → Prog (Ctl σ α)) : Nat → σ → Outcome α
  | 0, _ => .timeout
  | n + 1, s => body s n >>= fun
    | .again s' => loopN body n s'
    | .exit a => .ok a

/-- `while (true) body`, where `body` may leave the loop with a value. -/
def loop (body : σ → Prog (Ctl σ α)) (s : σ) : Prog α := fun n => loopN body n s

/-- `while (c) body`. -/
def whileDo (c : σ → Bool) (body : σ → Prog σ) (s : σ) : Prog σ :=
  loop (fun s => if c s then Ctl.again <$> body s else pure (Ctl.exit s)) s

/-- `for (; i < i + k; i++) body`: `k` iterations with the counter going up from `i`. -/
def forUp (body : Nat → σ → Prog σ) : Nat → Nat → σ → Prog σ
  | _, 0, s => pure s
  | i, k + 1, s => body i s >>= forUp body (i + 1) k

/-- `p` terminates with value `a`. -/
def Returns (p : Prog α) (a : α) : Prop := ∃ n, ∀ m, n ≤ m → p m = .ok a

/-- `p` runs for ever. -/
def Hangs (p : Prog α) : Prop := ∃ n, ∀ m, n ≤ m → p m = .timeout

/-- `p` ends in the undefined behaviour `u`. -/
def Faults (p : Prog α) (u : Ub) : Prop := ∃ n, ∀ m, n ≤ m → p m = .undef u

/-- `p` throws the exception `e`. -/
def Throws (p : Prog α) (e : Exn) : Prop := ∃ n, ∀ m, n ≤ m → p m = .throws e

/-! ## Composition rules -/

theorem Returns.pure (a : α) : Returns (pure a : Prog α) a := ⟨0, fun _ _ => rfl⟩

theorem Returns.lift {o : Outcome α} {a : α} (h : o = .ok a) :
    Returns (liftM o : Prog α) a := ⟨0, fun _ _ => h⟩

/-- With a bound that is large enough for both parts, the whole has the outcome of the second one. -/
theorem eventually_bind {p : Prog α} {f : α → Prog β} {c : Outcome α} {o : Outcome β}
    (hp : ∃ n, ∀ m, n ≤ m → p m = c) (ho : ∃ k, ∀ m, k ≤ m → (c >>= fun a => f a m) = o) :
    ∃ n, ∀ m, n ≤ m → (p >>= f) m = o := by
  obtain ⟨n, hn⟩ := hp
  obtain ⟨k, hk⟩ := ho
  refine ⟨max n k, fun m hm => ?_⟩
  show (p m >>= fun a => f a m) = _
  rw [hn m (by omega), hk m (by omega)]

theorem eventually_unique {p : Prog α} {o o' : Outcome α} (h : ∃ n, ∀ m, n ≤ m → p m = o)
    (h' : ∃ n, ∀ m, n ≤ m → p m = o') : o = o' := by
  obtain ⟨n, hn⟩ := h
  obtain ⟨k, hk⟩ := h'
  exact (hn (max n k) (by omega)).symm.trans (hk (max n k) (by omega))

theorem Returns.bind {p : Prog α} {f : α → Prog β} {a : α} {b : β} (hp : Returns p a)
    (hf : Returns (f a) b) : Returns (p >>= f) b := eventually_bind hp hf

theorem Returns.map {p : Prog α} {f : α → β} {a : α} (hp : Returns p a) :
    Returns (f <$> p) (f a) := hp.bind (.pure (f a))

theorem Returns.of_map {p : Prog α} {f : α → β} {a : α} (hf : Function.Injective f)
    (h : Returns (f <$> p) (f a)) : Returns p a := by
  obtain ⟨n, hn⟩ := h
  refine ⟨n, fun m hm => ?_⟩
  obtain ⟨b, hb, hfb⟩ := Outcome.bind_eq_ok.mp (hn m hm)
  rw [hb, hf (Outcome.ok.inj hfb)]

theorem Hangs.bind {p : Prog α} {f : α → Prog β} (hp : Hangs p) : Hangs (p >>= f) :=
  eventually_bind hp ⟨0, fun _ _ => Outcome.timeout_bind _⟩

theorem Returns.bind_hangs {p : Prog α} {f : α → Prog β} {a : α} (hp : Returns p a)
    (hf : Hangs (f a)) : Hangs (p >>= f) := eventually_bind hp hf

theorem Faults.lift (u : Ub) : Faults (liftM (Outcome.undef u : Outcome α) : Prog α) u :=
  ⟨0, fun _ _ => rfl⟩

theorem Faults.bind {p : Prog α} {f : α → Prog β} {u : Ub} (hp : Faults p u) :
    Faults (p >>= f) u := eventually_bind hp ⟨0, fun _ _ => Outcome.undef_bind _ _⟩

theorem Returns.bind_faults {p : Prog α} {f : α → Prog β} {a : α} {u : Ub} (hp : Returns p a)
    (hf : Faults (f a) u) : Faults (p >>= f) u := eventually_bind hp hf

theorem Throws.lift {o : Outcome α} {e : Exn} (h : o = .throws e) :
    Throws (liftM o : Prog α) e := ⟨0, fun _ _ => h⟩

theorem Throws.bind {p : Prog α} {f : α → Prog β} {e : Exn} (hp : Throws p e) :
    Throws (p >>= f) e := eventually_bind hp ⟨0, fun _ _ => Outcome.throws_bind _ _⟩

theorem Returns.bind_throws {p : Prog α} {f : α → Prog β} {a : α} {e : Exn} (hp : Returns p a)
    (hf : Throws (f a) e) : Throws (p >>= f) e := eventually_bind hp hf

theorem Returns.unique {p : Prog α} {a b : α} (ha : Returns p a) (hb : Returns p b) : a = b :=
  Outcome.ok.inj (eventually_unique ha hb)

theorem Returns.of_bind {p : Prog α} {f : α → Prog β} {a : α} {b : β} (hp : Returns p a)
    (h : Returns (p >>= f) b) : Returns (f a) b := by
  obtain ⟨n, hn⟩ := hp
  obtain ⟨k, hk⟩ := h
  refine ⟨max n k, fun m hm => ?_⟩
  have hm' : (p m >>= fun a => f a m) = .ok b := hk m (by omega)
  rwa [hn m (by omega), Outcome.ok_bind] at hm'

theorem Hangs.not_returns {p : Prog α} (h : Hangs p) (a : α) : ¬ Returns p a := by
  intro ha
  cases eventually_unique h ha

theorem Throws.not_returns {p : Prog α} {e : Exn} (h : Throws p e) (a : α) : ¬ Returns p a := by
  intro ha
  cases eventually_unique h ha

theorem Faults.not_returns {p : Prog α} {u : Ub} (h : Faults p u) (a : α) : ¬ Returns p a := by
  intro ha
  cases eventually_unique h ha

/-! ## Loop rules -/

theorem eventually_loop {body : σ → Prog (Ctl σ α)} {s : σ} {c : Outcome (Ctl σ α)} {o : Outcome α}
    (hb : ∃ n, ∀ m, n ≤ m → body s m = c)
    (ho : ∃ k, ∀ m, k ≤ m → (c >>= fun
      | .again s' => loop body s' m
      | .exit a => .ok a) = o) : ∃ n, ∀ m, n ≤ m → loop body s m = o := by
  obtain ⟨n, hn⟩ := hb
  obtain ⟨k, hk⟩ := ho
  refine ⟨max n k + 1, fun m hm => ?_⟩
  obtain ⟨m, rfl⟩ : ∃ j, m = j + 1 := ⟨m - 1, by omega⟩
  show (body s m >>= _) = _
  rw [hn m (by omega)]
  exact hk m (by omega)

theorem Returns.loop_again {body : σ → Prog (Ctl σ α)} {s s' : σ} {a : α}
    (hb : Returns (body s) (.again s')) (hl : Returns (loop body s') a) :
    Returns (loop body s) a := eventually_loop hb hl

theorem Returns.loop_exit {body : σ → Prog (Ctl σ α)} {s : σ} {a : α}
    (hb : Returns (body s) (.exit a)) : Returns (loop body s) a :=
  eventually_loop hb ⟨0, fun _ _ => Outcome.ok_bind _ _⟩

theorem Hangs.loop_again {body : σ → Prog (Ctl σ α)} {s s' : σ}
    (hb : Returns (body s) (.again s')) (hl : Hangs (loop body s')) : Hangs (loop body s) :=
  eventually_loop hb hl

theorem Hangs.loop_body {body : σ → Prog (Ctl σ α)} {s : σ} (hb : Hangs (body s)) :
    Hangs (loop body s) := eventually_loop hb ⟨0, fun _ _ => Outcome.timeout_bind _⟩

theorem Faults.loop_again {body : σ → Prog (Ctl σ α)} {s s' : σ} {u : Ub}
    (hb : Returns (body s) (.again s')) (hl : Faults (loop body s') u) :
    Faults (loop body s) u := eventually_loop hb hl

theorem Faults.loop_body {body : σ → Prog (Ctl σ α)} {s : σ} {u : Ub} (hb : Faults (body s) u) :
    Faults (loop body s) u := eventually_loop hb ⟨0, fun _ _ => Outcome.undef_bind _ _⟩

/-- A body that leaves the state as it is and asks for another iteration never ends. -/
theorem Hangs.loop_stuck {body : σ → Prog (Ctl σ α)} {s : σ}
    (hb : ∀ m, body s m = .ok (.again s)) : Hangs (loop body s) := by
  have h : ∀ m, loopN body m s = .timeout := by
    intro m
    induction m with
    | zero => rfl
    | succ m ih => rw [loopN, hb m, Outcome.ok_bind]; exact ih
  exact ⟨0, fun m _ => h m⟩

/-- What a loop returned, it got by finitely many iterations: a relation between states and results
that every iteration hands back holds of the whole loop. -/
theorem Returns.loop_run {body : σ → Prog (Ctl σ α)} {step : σ → Ctl σ α} {P : σ → α → Prop}
    (hbody : ∀ s m, body s m = .ok (step s)) (hexit : ∀ s a, step s = .exit a → P s a)
    (hagain : ∀ s s' a, step s = .again s' → P s' a → P s a) {s : σ} {a : α}
    (h : Returns (loop body s) a) : P s a := by
  obtain ⟨n, hn⟩ := h
  have hrun : loopN body n s = .ok a := hn n (Nat.le_refl n)
  clear hn
  induction n generalizing s with
  | zero => cases hrun
  | succ n ih =>
    rw [loopN, hbody, Outcome.ok_bind] at hrun
    cases hstep : step s with
    | again s' =>
      rw [hstep] at hrun
      exact hagain s s' a hstep (ih hrun)
    | exit b =>
      rw [hstep] at hrun
      cases hrun
      exact hexit s _ hstep

theorem Returns.while_step {c : σ → Bool} {body : σ → Prog σ} {s s' t : σ} (hc : c s = true)
    (hb : Returns (body s) s') (hl : Returns (whileDo c body s') t) :
    Returns (whileDo c body s) t :=
  Returns.loop_again (by rw [if_pos hc]; exact hb.map) hl

theorem Returns.while_done {c : σ → Bool} {body : σ → Prog σ} {s : σ} (hc : c s = false) :
    Returns (whileDo c body s) s :=
  Returns.loop_exit (by rw [hc]; exact .pure _)

theorem Hangs.while_step {c : σ → Bool} {body : σ → Prog σ} {s s' : σ} (hc : c s = true)
    (hb : Returns (body s) s') (hl : Hangs (whileDo c body s')) : Hangs (whileDo c body s) :=
  Hangs.loop_again (by rw [if_pos hc]; exact hb.map) hl

theorem Hangs.while_body {c : σ → Bool} {body : σ → Prog σ} {s : σ} (hc : c s = true)
    (hb : Hangs (body s)) : Hangs (whileDo c body s) :=
  Hangs.loop_body (by rw [if_pos hc]; exact hb.bind)

theorem Hangs.while_stuck {c : σ → Bool} {body : σ → Prog σ} {s : σ} (hc : c s = true)
    (hb : ∀ m, body s m = .ok s) : Hangs (whileDo c body s) := by
  refine Hangs.loop_stuck fun m => ?_
  rw [if_pos hc]
  show (body s m >>= _) = _
  rw [hb m]; rfl

/-- Total correctness of `while`: an invariant kept by the body, and a variant that goes down. -/
theorem Returns.while_inv (c : σ → Bool) (body : σ → Prog σ) (inv : σ → Prop) (v : σ → Nat)
    (hstep : ∀ s, inv s → c s = true → ∃ s', Returns (body s) s' ∧ inv s' ∧ v s' < v s) :
    ∀ s, inv s → ∃ t, Returns (whileDo c body s) t ∧ inv t ∧ c t = false := by
  intro s
  induction h : v s using Nat.strongRecOn generalizing s with
  | ind k ih =>
    intro hs
    cases hc : c s with
    | false => exact ⟨s, .while_done hc, hs, hc⟩
    | true =>
      obtain ⟨s', hb, hs', hv⟩ := hstep s hs hc
      obtain ⟨t, ht, hti, htc⟩ := ih (v s') (by omega) s' rfl hs'
      exact ⟨t, .while_step hc hb ht, hti, htc⟩

/-- Total correctness of a counted loop: `inv i` holds before iteration `i`. -/
theorem Returns.forUp_inv (body : Nat → σ → Prog σ) (inv : Nat → σ → Prop) :
    ∀ (k i : Nat) (s : σ),
      (∀ j s, i ≤ j → j < i + k → inv j s → ∃ s', Returns (body j s) s' ∧ inv (j + 1) s') →
      inv i s → ∃ t, Returns (forUp body i k s) t ∧ inv (i + k) t := by
  intro k
  induction k with
  | zero => intro i s _ hs; exact ⟨s, .pure s, hs⟩
  | succ k ih =>
    intro i s hstep hs
    obtain ⟨s', hb, hs'⟩ := hstep i s (Nat.le_refl i) (by omega) hs
    obtain ⟨t, ht, hti⟩ := ih (i + 1) s' (fun j s h1 h2 => hstep j s (by omega) (by omega)) hs'
    exact ⟨t, hb.bind ht, by rwa [show i + (k + 1) = i + 1 + k by omega]⟩

/-- A `while` loop hangs if every state it passes satisfies the test, and the body hangs after
finitely many iterations. -/
theorem Hangs.while_inv {c : σ → Bool} {body : σ → Prog σ} (inv : σ → Prop) (v : σ → Nat)
    (hc : ∀ s, inv s → c s = true)
    (hstep : ∀ s, inv s →
      Hangs (body s) ∨ ∃ s', Returns (body s) s' ∧ inv s' ∧ v s' < v s) :
    ∀ s, inv s → Hangs (whileDo c body s) := by
  intro s
  induction h : v s using Nat.strongRecOn generalizing s with
  | ind k ih =>
    intro hs
    rcases hstep s hs with hb | ⟨s', hb, hs', hv⟩
    · exact .while_body (hc s hs) hb
    · exact .while_step (hc s hs) hb (ih (v s') (by omega) s' rfl hs')

theorem Hangs.forUp_inv {body : Nat → σ → Prog σ} (inv : Nat → σ → Prop) {j : Nat}
    (hbad : ∀ s, inv j s → Hangs (body j s)) :
    ∀ (k i : Nat) (s : σ), i ≤ j → j < i + k →
      (∀ l s, i ≤ l → l < j → inv l s → ∃ s', Returns (body l s) s' ∧ inv (l + 1) s') →
      inv i s → Hangs (forUp body i k s) := by
  intro k
  induction k with
  | zero => intro i s h1 h2; omega
  | succ k ih =>
    intro i s h1 h2 hstep hs
    by_cases hij : i = j
    · subst hij
      exact (hbad s hs).bind
    · obtain ⟨s', hb, hs'⟩ := hstep i s (Nat.le_refl i) (by omega) hs
      exact hb.bind_hangs
        (ih (i + 1) s' (by omega) (by omega) (fun l s h3 h4 => hstep l s (by omega) h4) hs')

end Prog
end Cxx
