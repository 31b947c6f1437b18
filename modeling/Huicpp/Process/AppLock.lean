import Mathlib
import Huicpp.Cxx.TransitionSystem

/-!
# Process.AppLock

`HAppLock` in processes that open one lock file. A step is one `lockf`; `LockApp` is an `F_TEST` and, if
it finds no other holder, an `F_LOCK`.

* `Careful`: no process finds the lock free while another one is between its `F_TEST` and its `F_LOCK`.
* `one_instance`: one process holds the lock at most. In runs of careful steps nobody waits, and a
  `LockApp` during another one's gives an error; after another step two processes can go on so that
  one of them waits.
-/

namespace Huicpp
namespace Process
namespace AppLock

open Cxx

inductive RET_T where
  | OK
  | INVL_PARA
  | SYS_FAILED
  deriving DecidableEq, Repr

/-- Where a process is. `contended`: when it called `LockApp`, another process held the lock or was
acquiring it. -/
inductive Pc where
  /-- It has no object. -/
  | closed
  | idle
  | tested (contended : Bool)
  /-- It waits in `F_LOCK`. -/
  | waiting (contended : Bool)
  deriving DecidableEq, Repr

/-- A `LockApp` that has returned. -/
structure Returned where
  contended : Bool
  ret : RET_T
  deriving DecidableEq, Repr

structure State (ι : Type) where
  holds : ι → Bool
  pc : ι → Pc
  returned : List Returned

inductive Event (ι : Type) where
  | construct (i : ι)
  /-- `lockf(Fd(), F_TEST, 0)` -/
  | test (i : ι)
  /-- `lockf(Fd(), F_LOCK, 0)` -/
  | lock (i : ι)
  | granted (i : ι)
  /-- `F_LOCK` fails, because of a signal for example. -/
  | fails (i : ι)
  /-- `UnlockApp`, that is `lockf(Fd(), F_UNLCK, 0)` -/
  | unlock (i : ι)
  | destroy (i : ι)
  /-- The process ends; its lock goes with it. -/
  | exit (i : ι)

namespace State

variable {ι : Type}

/-- No other process holds the lock. -/
def Free (s : State ι) (i : ι) : Prop := ∀ j, j ≠ i → s.holds j = false

/-- Between its `F_TEST` and the end of its `F_LOCK` -/
def Acquiring (s : State ι) (i : ι) : Prop := ∃ b, s.pc i = .tested b ∨ s.pc i = .waiting b

/-- Another process holds the lock or is acquiring it. -/
def Contended (s : State ι) (i : ι) : Prop := ∃ j, j ≠ i ∧ (s.holds j = true ∨ s.Acquiring j)

variable [DecidableEq ι]

instance [Fintype ι] (s : State ι) (i : ι) : Decidable (s.Free i) :=
  inferInstanceAs (Decidable (∀ j, j ≠ i → s.holds j = false))

def put (s : State ι) (i : ι) (held : Bool) (pc : Pc) (r : List Returned) : State ι :=
  ⟨Function.update s.holds i held, Function.update s.pc i pc, s.returned ++ r⟩

inductive Step : State ι → Event ι → State ι → Prop where
  | construct (s : State ι) (i : ι) : s.pc i = .closed →
      Step s (.construct i) (s.put i (s.holds i) .idle [])
  | testFails (s : State ι) (i : ι) : s.pc i = .idle → ¬ s.Free i →
      Step s (.test i) (s.put i (s.holds i) .idle [⟨true, .INVL_PARA⟩])
  | test (s : State ι) (i : ι) (contended : Bool) : s.pc i = .idle → s.Free i →
      (contended = true ↔ s.Contended i) →
      Step s (.test i) (s.put i (s.holds i) (.tested contended) [])
  | lock (s : State ι) (i : ι) (contended : Bool) : s.pc i = .tested contended → s.Free i →
      Step s (.lock i) (s.put i true .idle [⟨contended, .OK⟩])
  | wait (s : State ι) (i : ι) (contended : Bool) : s.pc i = .tested contended → ¬ s.Free i →
      Step s (.lock i) (s.put i (s.holds i) (.waiting contended) [])
  | granted (s : State ι) (i : ι) (contended : Bool) : s.pc i = .waiting contended → s.Free i →
      Step s (.granted i) (s.put i true .idle [⟨contended, .OK⟩])
  | fails (s : State ι) (i : ι) (contended : Bool) :
      s.pc i = .tested contended ∨ s.pc i = .waiting contended →
      Step s (.fails i) (s.put i (s.holds i) .idle [⟨contended, .SYS_FAILED⟩])
  | unlock (s : State ι) (i : ι) : s.pc i = .idle → Step s (.unlock i) (s.put i false .idle [])
  | destroy (s : State ι) (i : ι) : s.pc i = .idle → Step s (.destroy i) (s.put i false .closed [])
  | exit (s : State ι) (i : ι) : Step s (.exit i) (s.put i false .closed [])

/-- The condition on a step: where the test finds the lock free, nobody else is acquiring it. -/
def Careful (s : State ι) (e : Event ι) (_ : State ι) : Prop :=
  match e with
  | .test i => s.Free i → ∀ j, j ≠ i → ¬ s.Acquiring j
  | _ => True

end State

/-- Any number of processes, from before any of them has an object. -/
def instances (ι : Type) [DecidableEq ι] : TransitionSystem (State ι) (Event ι) where
  init s := s = ⟨fun _ => false, fun _ => .closed, []⟩
  step := State.Step

/-- One process holds the lock at most. -/
def OneHolder {ι : Type} (s : State ι) : Prop :=
  ∀ i j, s.holds i = true → s.holds j = true → i = j

/-- Nobody waits, no `LockApp` that met another one goes on, and those that did have returned an error. -/
structure TurnsAway {ι : Type} (s : State ι) : Prop where
  quiet : ∀ i b, s.pc i ≠ .waiting b
  pending : ∀ i b, s.pc i = .tested b → b = false
  turned : ∀ r ∈ s.returned, r.contended = true → r.ret ≠ .OK

variable {ι : Type} {s s' : State ι} {e : Event ι} {i j : ι} {held : Bool} {pc : Pc}
  {r : List Returned}

/-! ## One holder -/

theorem OneHolder.free (h : OneHolder s) (hi : s.holds i = true) : s.Free i :=
  fun j hj => Bool.eq_false_of_not_eq_true fun hh => hj (h j i hh hi)

variable [DecidableEq ι]

theorem State.put_cases (s : State ι) (i : ι) (held : Bool) (pc : Pc) (r : List Returned) (j : ι) :
    j = i ∧ (s.put i held pc r).holds j = held ∧ (s.put i held pc r).pc j = pc ∨
      j ≠ i ∧ (s.put i held pc r).holds j = s.holds j ∧ (s.put i held pc r).pc j = s.pc j := by
  by_cases hj : j = i
  · rw [hj]
    exact .inl ⟨rfl, Function.update_self .., Function.update_self ..⟩
  · exact .inr ⟨hj, Function.update_of_ne hj .., Function.update_of_ne hj ..⟩

theorem OneHolder.put (h : OneHolder s) (hheld : held = true → s.Free i) :
    OneHolder (s.put i held pc r) := by
  -- a holder that is not `i` was one before
  have hother : ∀ j, j ≠ i → (s.put i held pc r).holds j = true → held = false := by
    intro j hj hh
    rcases s.put_cases i held pc r j with ⟨rfl, -⟩ | ⟨-, hold, -⟩
    · exact absurd rfl hj
    · cases held with
      | false => rfl
      | true =>
        rw [hold, hheld rfl j hj] at hh
        cases hh
  intro j k hj hk
  rcases s.put_cases i held pc r j with ⟨rfl, hj', -⟩ | ⟨hji, hj', -⟩
  · by_contra hne
    have hfalse := hother k (Ne.symm hne) hk
    rw [hj', hfalse] at hj
    cases hj
  · rcases s.put_cases i held pc r k with ⟨rfl, hk', -⟩ | ⟨-, hk', -⟩
    · have hfalse := hother j hji hj
      rw [hk', hfalse] at hk
      cases hk
    · rw [hj'] at hj
      rw [hk'] at hk
      exact h j k hj hk

theorem State.Step.oneHolder (h : Step s e s') (ho : OneHolder s) : OneHolder s' := by
  cases h with
  | construct i _ => exact ho.put ho.free
  | testFails i _ _ => exact ho.put ho.free
  | test i _ _ _ _ => exact ho.put ho.free
  | lock i _ _ hfree => exact ho.put fun _ => hfree
  | wait i _ _ _ => exact ho.put ho.free
  | granted i _ _ hfree => exact ho.put fun _ => hfree
  | fails i _ _ => exact ho.put ho.free
  | unlock i _ => exact ho.put Bool.noConfusion
  | destroy i _ => exact ho.put Bool.noConfusion
  | exit i => exact ho.put Bool.noConfusion

theorem oneHolder (h : (instances ι).Reachable s) : OneHolder s := by
  refine h.invariant OneHolder ?_ ?_
  · rintro s rfl i j hi
    cases hi
  · intro s e s' ho hstep
    exact State.Step.oneHolder hstep ho

/-! ## Careful runs -/

/-- Nobody else holds the lock or is acquiring it. -/
def Alone {ι : Type} (s : State ι) (i : ι) : Prop := s.Free i ∧ ∀ j, j ≠ i → ¬ s.Acquiring j

/-- Who has found the lock free is alone with it. -/
structure Inv {ι : Type} (s : State ι) : Prop where
  one : OneHolder s
  away : TurnsAway s
  alone : ∀ i b, s.pc i = .tested b → Alone s i

namespace Inv

omit [DecidableEq ι] in
theorem tested_of_acquiring (h : Inv s) (ha : s.Acquiring j) : ∃ b, s.pc j = .tested b := by
  obtain ⟨b, hb | hb⟩ := ha
  · exact ⟨b, hb⟩
  · exact absurd hb (h.away.quiet j b)

omit [DecidableEq ι] in
theorem alone_of_holds (h : Inv s) (hi : s.holds i = true) : Alone s i := by
  refine ⟨h.one.free hi, fun j hj ha => ?_⟩
  obtain ⟨b, hb⟩ := h.tested_of_acquiring ha
  have hfalse := (h.alone j b hb).1 i hj.symm
  rw [hi] at hfalse
  cases hfalse

theorem put (h : Inv s) (hheld : held = true → Alone s i)
    (hpc : ∀ b, pc = .tested b → b = false ∧ Alone s i) (hwait : ∀ b, pc ≠ .waiting b)
    (hr : ∀ x ∈ r, x.contended = true → x.ret ≠ .OK) : Inv (s.put i held pc r) := by
  have hacquiring : ∀ j, j ≠ i → (s.put i held pc r).Acquiring j → s.Acquiring j := by
    rintro j hj ⟨b, hb⟩
    rcases s.put_cases i held pc r j with ⟨hji, -⟩ | ⟨-, -, hpc'⟩
    · exact absurd hji hj
    · rw [hpc'] at hb
      exact ⟨b, hb⟩
  refine ⟨h.one.put fun hh => (hheld hh).1, ⟨fun j b hb => ?_, fun j b hb => ?_, fun x hx => ?_⟩,
    fun j b hb => ?_⟩
  · rcases s.put_cases i held pc r j with ⟨-, -, hpc'⟩ | ⟨-, -, hpc'⟩
    · exact hwait b (hpc'.symm.trans hb)
    · exact h.away.quiet j b (hpc'.symm.trans hb)
  · rcases s.put_cases i held pc r j with ⟨-, -, hpc'⟩ | ⟨-, -, hpc'⟩
    · exact (hpc b (hpc'.symm.trans hb)).1
    · exact h.away.pending j b (hpc'.symm.trans hb)
  · rcases List.mem_append.mp hx with hx | hx
    · exact h.away.turned x hx
    · exact hr x hx
  · rcases s.put_cases i held pc r j with ⟨hji, -, hpc'⟩ | ⟨hji, -, hpc'⟩
    · -- `i` itself has found the lock free
      obtain ⟨hfree, hothers⟩ := (hpc b (hpc'.symm.trans hb)).2
      rw [hji]
      refine ⟨fun k hk => ?_, fun k hk ha => hothers k hk (hacquiring k hk ha)⟩
      rcases s.put_cases i held pc r k with ⟨hki, -⟩ | ⟨-, hold, -⟩
      · exact absurd hki hk
      · exact hold.trans (hfree k hk)
    · -- another one has: then `i` neither holds the lock nor acquires it
      have hj : s.pc j = .tested b := hpc'.symm.trans hb
      have hacq : s.Acquiring j := ⟨b, .inl hj⟩
      obtain ⟨hfree, hothers⟩ := h.alone j b hj
      refine ⟨fun k hk => ?_, fun k hk ha => ?_⟩
      · rcases s.put_cases i held pc r k with ⟨-, hold, -⟩ | ⟨-, hold, -⟩
        · rw [hold]
          exact Bool.eq_false_of_not_eq_true fun hh => (hheld hh).2 j hji hacq
        · exact hold.trans (hfree k hk)
      · by_cases hki : k = i
        · obtain ⟨b', hb'⟩ := ha
          rcases s.put_cases i held pc r k with ⟨-, -, hpck⟩ | ⟨hne, -⟩
          · rw [hpck] at hb'
            rcases hb' with hb' | hb'
            · exact (hpc b' hb').2.2 j hji hacq
            · exact hwait b' hb'
          · exact hne hki
        · exact hothers k hk (hacquiring k hki ha)

theorem put_outside (h : Inv s) (hheld : held = true → Alone s i) (hpc : pc = .idle ∨ pc = .closed)
    (hr : ∀ x ∈ r, x.contended = true → x.ret ≠ .OK) : Inv (s.put i held pc r) := by
  refine h.put hheld (fun b hb => ?_) (fun b hb => ?_) hr
  · rcases hpc with rfl | rfl
    · cases hb
    · cases hb
  · rcases hpc with rfl | rfl
    · cases hb
    · cases hb

end Inv

theorem State.Step.inv (h : Step s e s') (hc : Careful s e s') (hi : Inv s) : Inv s' := by
  have hnone : ∀ x ∈ ([] : List Returned), x.contended = true → x.ret ≠ .OK := by
    intro x hx
    cases hx
  cases h with
  | construct i _ => exact hi.put_outside hi.alone_of_holds (.inl rfl) hnone
  | testFails i _ _ =>
    refine hi.put_outside hi.alone_of_holds (.inl rfl) ?_
    intro x hx _
    rw [List.mem_singleton.mp hx]
    decide
  | test i b _ hfree hb =>
    have halone : Alone s i := ⟨hfree, hc hfree⟩
    refine hi.put hi.alone_of_holds ?_ (fun b hb => nomatch hb) hnone
    intro b' hbb
    obtain rfl : b = b' := Pc.tested.inj hbb
    refine ⟨Bool.eq_false_of_not_eq_true fun htrue => ?_, halone⟩
    obtain ⟨j, hj, hholds | hacq⟩ := hb.mp htrue
    · rw [halone.1 j hj] at hholds
      cases hholds
    · exact halone.2 j hj hacq
  | lock i b hb _ =>
    refine hi.put_outside (fun _ => hi.alone i b hb) (.inl rfl) ?_
    intro x hx hcontended
    rw [List.mem_singleton.mp hx, hi.away.pending i b hb] at hcontended
    cases hcontended
  | wait i b hb hfree => exact absurd (hi.alone i b hb).1 hfree
  | granted i b hb _ => exact absurd hb (hi.away.quiet i b)
  | fails i b _ =>
    refine hi.put_outside hi.alone_of_holds (.inl rfl) ?_
    intro x hx _
    rw [List.mem_singleton.mp hx]
    exact RET_T.noConfusion
  | unlock i _ => exact hi.put_outside Bool.noConfusion (.inl rfl) hnone
  | destroy i _ => exact hi.put_outside Bool.noConfusion (.inr rfl) hnone
  | exit i => exact hi.put_outside Bool.noConfusion (.inr rfl) hnone

/-- Two processes have found the lock free: the first one gets it, and the second one waits. -/
theorem State.Step.waits (h : Step s e s') (hc : ¬ Careful s e s') (hi : Inv s) :
    ∃ i j s₁ s₂ b, Step s' (.lock j) s₁ ∧ Step s₁ (.lock i) s₂ ∧ s₂.pc i = .waiting b := by
  cases h with
  | construct | lock | wait | granted | fails | unlock | destroy | exit => exact absurd trivial hc
  | testFails i _ hfree => exact absurd (fun hf => absurd hf hfree) hc
  | test i b _ hfree _ =>
    obtain ⟨-, hbad⟩ := Classical.not_imp.mp hc
    obtain ⟨j, hbad⟩ := not_forall.mp hbad
    obtain ⟨hj, hacq⟩ := Classical.not_imp.mp hbad
    obtain ⟨b', hb'⟩ := hi.tested_of_acquiring (not_not.mp hacq)
    let t := s.put i (s.holds i) (.tested b) []
    have htj : t.pc j = .tested b' := (Function.update_of_ne hj ..).trans hb'
    have htfree : t.Free j := by
      intro k hk
      rcases s.put_cases i (s.holds i) (.tested b) [] k with ⟨rfl, hold, -⟩ | ⟨-, hold, -⟩
      · exact hold.trans ((hi.alone j b' hb').1 k hk)
      · exact hold.trans ((hi.alone j b' hb').1 k hk)
    let u := t.put j true .idle [⟨b', .OK⟩]
    have hui : u.pc i = .tested b := (Function.update_of_ne hj.symm ..).trans (Function.update_self ..)
    have hufree : ¬ u.Free i := by
      intro hf
      have hheld : u.holds j = true := Function.update_self ..
      rw [hf j hj] at hheld
      cases hheld
    exact ⟨i, j, u, u.put i (u.holds i) (.waiting b) [], b, .lock t j b' htj htfree,
      .wait u i b hui hufree, Function.update_self ..⟩

/-- **One instance.** At most one process holds the lock, in every run. In a run of careful steps nobody
waits in `LockApp`, and where another process holds the lock or is acquiring it an error is returned.
After a step that is not careful one process can get the lock and another one wait for it. -/
theorem one_instance (h : ((instances ι).restrict State.Careful).Reachable s) :
    (∀ t : State ι, (instances ι).Reachable t → OneHolder t) ∧ TurnsAway s ∧
      ∀ e s', State.Step s e s' → ¬ State.Careful s e s' →
        ∃ i j s₁ s₂ b, State.Step s' (.lock j) s₁ ∧ State.Step s₁ (.lock i) s₂ ∧
          s₂.pc i = .waiting b := by
  have hi : Inv s := by
    refine h.invariant Inv ?_ ?_
    · rintro s rfl
      refine ⟨fun i j hi => (by cases hi), ⟨fun i b hb => (by cases hb), fun i b hb => (by cases hb), ?_⟩,
        fun i b hb => (by cases hb)⟩
      intro x hx
      cases hx
    · rintro s e s' hi ⟨hstep, hc⟩
      exact State.Step.inv hstep hc hi
  exact ⟨fun t ht => oneHolder ht, hi.away, fun e s' hstep hc => hstep.waits hc hi⟩

/-- Two processes that have no object. -/
def twoClosed : State (Fin 2) := ⟨fun _ => false, fun _ => .closed, []⟩

/-- Both have constructed one. -/
def twoIdle : State (Fin 2) := (twoClosed.put 0 false .idle []).put 1 false .idle []

theorem twoIdle_free (i : Fin 2) : twoIdle.Free i := by
  intro j _
  have hall : ∀ j, twoIdle.holds j = false := by decide
  exact hall j

theorem twoIdle_not_acquiring (j : Fin 2) : ¬ twoIdle.Acquiring j := by
  have hquiet : ∀ j, twoIdle.pc j = .idle := by decide
  rintro ⟨b, hb | hb⟩
  · rw [hquiet j] at hb
    cases hb
  · rw [hquiet j] at hb
    cases hb

/-- The first one has found the lock free. -/
def oneTested : State (Fin 2) := twoIdle.put 0 false (.tested false) []

theorem step_oneTested : State.Step twoIdle (.test 0) oneTested := by
  refine .test twoIdle 0 false rfl (twoIdle_free 0) (iff_of_false Bool.false_ne_true ?_)
  rintro ⟨j, hj, hholds | hacq⟩
  · rw [twoIdle_free 0 j hj] at hholds
    cases hholds
  · exact twoIdle_not_acquiring j hacq

/-- The first one holds the lock, and the second one was turned away. -/
def turnedAway : State (Fin 2) :=
  (oneTested.put 0 true .idle [⟨false, .OK⟩]).put 1 false .idle [⟨true, .INVL_PARA⟩]

theorem one_instance_turnedAway :
    (∀ t : State (Fin 2), (instances (Fin 2)).Reachable t → OneHolder t) ∧ TurnsAway turnedAway ∧
      ∀ e s', State.Step turnedAway e s' → ¬ State.Careful turnedAway e s' →
        ∃ i j s₁ s₂ b, State.Step s' (.lock j) s₁ ∧ State.Step s₁ (.lock i) s₂ ∧
          s₂.pc i = .waiting b := by
  let locked := oneTested.put 0 true .idle [⟨false, .OK⟩]
  have hclosed : ((instances (Fin 2)).restrict State.Careful).Reachable twoClosed := .of_init rfl
  have hone : State.Step twoClosed (.construct 0) (twoClosed.put 0 false .idle []) :=
    .construct twoClosed 0 rfl
  have htwo : State.Step (twoClosed.put 0 false .idle []) (.construct 1) twoIdle :=
    .construct _ 1 rfl
  have hlocked : State.Step oneTested (.lock 0) locked := .lock oneTested 0 false rfl (by decide)
  have hheld : ¬ locked.Free 1 := by decide
  have haway : State.Step locked (.test 1) turnedAway := .testFails locked 1 rfl hheld
  exact one_instance (((((hclosed.next ⟨hone, trivial⟩).next ⟨htwo, trivial⟩).next
    ⟨step_oneTested, fun _ j _ => twoIdle_not_acquiring j⟩).next ⟨hlocked, trivial⟩).next
    ⟨haway, fun hfree => absurd hfree hheld⟩)

/-- Both find the lock free; the first one gets it, and the second one waits. -/
theorem second_instance_waits :
    ¬ ∀ s : State (Fin 2), (instances (Fin 2)).Reachable s → TurnsAway s := by
  intro hall
  have hclosed : (instances (Fin 2)).Reachable twoClosed := .of_init rfl
  have hone : State.Step twoClosed (.construct 0) (twoClosed.put 0 false .idle []) :=
    .construct twoClosed 0 rfl
  have htwo : State.Step (twoClosed.put 0 false .idle []) (.construct 1) twoIdle :=
    .construct _ 1 rfl
  have hidle : (instances (Fin 2)).Reachable twoIdle := (hclosed.next hone).next htwo
  let second := oneTested.put 1 (oneTested.holds 1) (.tested true) []
  have hsecond : State.Step oneTested (.test 1) second :=
    .test oneTested 1 true rfl (by decide) (iff_of_true rfl ⟨0, by decide, .inr ⟨false, .inl rfl⟩⟩)
  let locked := second.put 0 true .idle [⟨false, .OK⟩]
  have hlocked : State.Step second (.lock 0) locked := .lock second 0 false rfl (by decide)
  have hwaits : State.Step locked (.lock 1) _ := .wait locked 1 true rfl (by decide)
  have haway := hall _ ((((hidle.next step_oneTested).next hsecond).next hlocked).next hwaits)
  exact haway.quiet 1 true rfl

end AppLock
end Process
end Huicpp
