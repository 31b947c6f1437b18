import Mathlib
import Huicpp.Scheduler.EventLoopTimely

/-!
# Scheduler.EventLoopSafe

Callables of every kind call the scheduler in the middle of its passes. A handler must not remove the
descriptor that comes next, nor take its own callable away by removing or replacing itself. In runs of
careful steps the loop can always go on, every callable can make its calls, and handlers, triggers
and tasks stay what they are alone (`event_loop_safe`).
-/

namespace Huicpp
namespace Scheduler

open Cxx Cxx.Prog

namespace EventLoop

variable {π : Type} {s s' : State π} {a : Event π}

/-! ## Handlers and triggers -/

/-- The condition on a step: sockets are such as `select` takes, no handler removes or replaces itself,
which would destroy its callable, none is removed while the iterator of `CallHandlers` holds it, and
calls on triggers are careful. -/
def Careful (s : State π) (a : Event π) (s' : State π) : Prop :=
  match a with
  | .edit e => (∀ sel p c, s.pc = .handlers sel p (some c) → s.set.hander c.dec ≠ e.socket) ∧
    match e with
    | .addHandle k _ _ => k < FD_SETSIZE
    | .removeHandle k => ∀ sel p c, s.pc = .handlers sel p c → p ≠ handlers → s.set.hander p ≠ k
  | .createTrigger callable => TriggerPasses.Careful s.triggers (.create callable) s'.triggers
  | .removeTrigger tid => TriggerPasses.Careful s.triggers (.remove tid) s'.triggers
  | .triggers b => TriggerPasses.Careful s.triggers b s'.triggers
  | _ => True

theorem triggers_inv_step (hs : State.Step s a s') (hc : Careful s a s')
    (h : TriggerPasses.Inv s.triggers) : TriggerPasses.Inv s'.triggers := by
  cases hs with
  | timeout tv st t _ _ ht => exact ht.inv trivial h
  | handlersEnd sel p p' t _ _ ht => exact ht.inv trivial h
  | trigger b t _ _ ht => exact ht.inv hc h
  | triggerThrows t _ ht => exact ht.inv hc h
  | triggersEnd t _ ht => exact ht.inv hc h
  | createTrigger b t _ ht => exact ht.inv hc h
  | removeTrigger tid t _ ht => exact ht.inv hc h
  | _ => exact h

/-- The set holds descriptors that `select` can take, the iterator holds one of them, and the callable
that executes is that of another one. -/
structure SetInv (s : State π) (A R : List (Entry π)) : Prop where
  holds : s.set.Holds (A ++ R)
  range : ∀ d ∈ A ++ R, 0 < d.socket ∧ d.socket < FD_SETSIZE
  next : ∀ sel p c, s.pc = .handlers sel p c → p = HandlerSet.Holds.first R
  executing : ∀ sel p c, s.pc = .handlers sel p (some c) →
    ∃ d ∈ A ++ R, d.ptr = c.dec ∧ d.proc = some c.proc

section Set

variable {A R : List (Entry π)} {sel : Selected} {p p' dec : Ptr} {set : HandlerSet π}

theorem SetInv.advance {c : Option (Called π)} (h : SetInv s A R)
    (hpc : s.pc = .handlers sel p none) (hret : Returns (s.set.iterNext p) (some dec, p'))
    (hc : ∀ x, c = some x → x.dec = dec ∧ s.set.bc dec = some x.proc) :
    ∃ A' R', SetInv { s with pc := .handlers sel p' c } A' R' := by
  obtain rfl := h.next _ _ _ hpc
  cases R with
  | nil =>
    have hend := HandlerSet.Holds.iterNext_end s.set
    cases hret.unique hend
  | cons d R =>
    cases hret.unique h.holds.iterNext
    have hA : A ++ d :: R = (A ++ [d]) ++ R := by rw [List.append_assoc, List.singleton_append]
    have hd : d ∈ A ++ d :: R := List.mem_append_right A List.mem_cons_self
    refine ⟨A ++ [d], R, hA ▸ h.holds, hA ▸ h.range, ?_, ?_⟩
    · rintro sel' p' c' hpc'
      cases hpc'
      rfl
    · rintro sel' p' x hpc'
      cases hpc'
      obtain ⟨hdec, hproc⟩ := hc x rfl
      exact ⟨d, hA ▸ hd, hdec.symm, (h.holds.bc d hd).symm.trans hproc⟩

theorem SetInv.executes {c : Called π} (h : SetInv s A R) (hpc : s.pc = .handlers sel p (some c)) :
    s.set.live c.dec = true ∧ s.set.bc c.dec = some c.proc := by
  obtain ⟨d, hd, hdec, hproc⟩ := h.executing sel p c hpc
  rw [← hdec, h.holds.bc d hd]
  exact ⟨h.holds.live_of_mem hd, hproc⟩

theorem filterMap_afterAll_singleton (e : Edit π) (L : List (Entry π)) :
    L.filterMap (afterAll [e]) = L.filterMap e.after := by
  rw [HandlerSet.Holds.filterMap_afterAll_cons]
  exact List.filterMap_some

theorem SetInv.edit {e : Edit π} (h : SetInv s A R) (hc : Careful s (.edit e) s')
    (hret : Returns (s.set.edit e) set) : ∃ A' R', SetInv { s with set := set } A' R' := by
  obtain ⟨set', hret', -, hholds⟩ := h.holds.edit e
  cases hret.unique hret'
  rw [List.filterMap_append, ← List.append_assoc] at hholds
  refine ⟨_, _, hholds, fun d hd => ?_, fun sel p c hpc => ?_, fun sel p c hpc => ?_⟩
  · rw [List.append_assoc, ← List.filterMap_append] at hd
    rcases List.mem_append.mp hd with hd | hd
    · cases e with
      | addHandle k c f =>
        rw [HandlerSet.Holds.added] at hd
        split at hd
        · next hadd =>
          rw [List.mem_singleton.mp hd]
          exact ⟨hadd.1, hc.2⟩
        · cases hd
      | removeHandle k => cases hd
    · obtain ⟨x, hx, hxd⟩ := List.mem_filterMap.mp hd
      rw [(Edit.after_ptr hxd).2]
      exact h.range x hx
  · obtain rfl := h.next sel p c hpc
    rw [← filterMap_afterAll_singleton]
    refine (HandlerSet.first_afterAll fun d hd hmem => ?_).symm
    obtain rfl := List.mem_singleton.mp hmem
    -- the head of `R` is the descriptor that the iterator holds
    cases R with
    | nil => cases hd
    | cons x R =>
      cases hd
      have hd : d ∈ A ++ d :: R := List.mem_append_right A List.mem_cons_self
      exact hc.2 sel _ c hpc (h.holds.ptr_ne hd) (h.holds.hander d hd)
  · obtain ⟨d, hd, hdec, hproc⟩ := h.executing sel p c hpc
    refine ⟨d, ?_, hdec, hproc⟩
    rw [List.append_assoc, ← List.filterMap_append]
    refine List.mem_append_right _ (List.mem_filterMap.mpr ⟨d, hd, ?_⟩)
    have hsocket : s.set.hander c.dec = d.socket := by rw [← hdec, h.holds.hander d hd]
    exact Edit.after_of_ne fun hk => hc.1 sel p c hpc (hsocket.trans hk)

theorem SetInv.step (h : SetInv s A R) (hs : State.Step s a s') (hc : Careful s a s') :
    ∃ A' R', SetInv s' A' R' := by
  -- a step to a place outside `CallHandlers`
  have hout : ∀ t : State π, t.set = s.set → (∀ sel p c, t.pc ≠ .handlers sel p c) →
      ∃ A' R', SetInv t A' R' := by
    intro t hset hpc
    refine ⟨A, R, ?_, h.range, fun sel p c hp => absurd hp (hpc sel p c),
      fun sel p c hp => absurd hp (hpc sel p _)⟩
    rw [hset]
    exact h.holds
  -- a step that leaves the iterator where it is
  have hsame : ∀ t : State π, t.set = s.set → t.pc = s.pc → ∃ A' R', SetInv t A' R' := by
    intro t hset hpc
    refine ⟨A, R, ?_, h.range, fun sel p c hp => h.next sel p c (hpc ▸ hp),
      fun sel p c hp => h.executing sel p c (hpc ▸ hp)⟩
    rw [hset]
    exact h.holds
  cases hs with
  | ready tv st sel p _ _ hp =>
    cases hp.unique h.holds.reset
    refine ⟨[], A ++ R, h.holds, h.range, fun sel' p' c hpc => ?_, fun sel' p' c hpc => (nomatch hpc)⟩
    cases hpc
    rfl
  | skip sel p dec p' hpc hnext _ _ => exact h.advance hpc hnext fun x hx => (nomatch hx)
  | handler sel p dec p' f hpc hnext _ _ hbc =>
    refine h.advance hpc hnext fun x hx => ?_
    cases hx
    exact ⟨rfl, hbc⟩
  | handlerReturns sel p c hpc =>
    refine ⟨A, R, h.holds, h.range, fun sel' p' c' hpc' => ?_, fun sel' p' c' hpc' => (nomatch hpc')⟩
    cases hpc'
    exact h.next _ _ _ hpc
  | edit e set _ hret => exact h.edit hc hret
  | doEventLoop _ => exact hout _ rfl fun _ _ _ h => nomatch h
  | singleStep _ _ => exact hout _ rfl fun _ _ _ h => nomatch h
  | loopEnds _ _ => exact hout _ rfl fun _ _ _ h => nomatch h
  | timeToNextAlarm now r t _ _ => exact hout _ rfl fun _ _ _ h => nomatch h
  | timeout tv st t _ _ _ => exact hout _ rfl fun _ _ _ h => nomatch h
  | selectFails tv st _ _ => exact hout _ rfl fun _ _ _ h => nomatch h
  | handlerThrows sel p c _ => exact hout _ rfl fun _ _ _ h => nomatch h
  | handlersEnd sel p p' t _ _ _ => exact hout _ rfl fun _ _ _ h => nomatch h
  | triggerThrows t _ _ => exact hout _ rfl fun _ _ _ h => nomatch h
  | triggersEnd t _ _ => exact hout _ rfl fun _ _ _ h => nomatch h
  | alarmsEnd t _ _ => exact hout _ rfl fun _ _ _ h => nomatch h
  | _ => exact hsame _ rfl rfl

end Set

/-! ## Phases -/

/-- Each component is at work only in its own phase. -/
structure PhaseInv (s : State π) : Prop where
  idle : s.pc ≠ .alarms → s.timers.control = .idle
  outside : s.pc ≠ .triggers → s.triggers.pc = .outside
  inside : s.pc = .triggers → s.triggers.pc ≠ .outside
  turn_le : ∀ i, s.triggers.pc = .turn i → i ≤ max_trigger_count

theorem schedule_control {t t' : Scheduler.State} {d : Nat} (h : t.ScheduleDelayTask d t') :
    t'.control = t.control := by
  obtain ⟨e, now, s₁, hcreate, hadd⟩ := h
  cases hcreate
  cases hadd
  rfl

theorem create_pc (t : TriggerPasses.State) (callable : Bool) : (t.create callable).pc = t.pc := rfl

theorem remove_pc (t : TriggerPasses.State) (tid : Int) : (t.remove tid).pc = t.pc := rfl

theorem trigger_pc {t t' : TriggerPasses.State} {b : TriggerPasses.Event}
    (hb : b = .turn ∨ b = .returns) (h : TriggerPasses.Step t b t') :
    t'.pc ≠ .outside ∧ ∀ i, t'.pc = .turn i → i ≤ max_trigger_count := by
  cases h with
  | skip i _ _ =>
    refine ⟨fun hpc => (nomatch hpc), fun j hj => ?_⟩
    cases hj
    exact i.isLt
  | call i n _ _ => exact ⟨fun hpc => (nomatch hpc), fun j hj => (nomatch hj)⟩
  | returns i n _ =>
    refine ⟨fun hpc => (nomatch hpc), fun j hj => ?_⟩
    cases hj
    exact i.isLt
  | _ => rcases hb with hb | hb <;> cases hb

theorem PhaseInv.step (h : PhaseInv s) (hs : State.Step s a s') : PhaseInv s' := by
  -- a step to a place outside the passes
  have hmove : ∀ t : State π, t.timers.control = s.timers.control → t.triggers = s.triggers →
      s.pc ≠ .alarms → s.pc ≠ .triggers → t.pc ≠ .triggers → PhaseInv t := by
    intro t hcontrol htriggers hal htr ht
    refine ⟨fun _ => hcontrol.trans (h.idle hal), fun _ => ?_, fun hpc => absurd hpc ht, ?_⟩
    · rw [htriggers]
      exact h.outside htr
    · rw [htriggers]
      exact h.turn_le
  -- a step that stays there
  have hstay : ∀ t : State π, t.timers.control = s.timers.control → t.triggers.pc = s.triggers.pc →
      t.pc = s.pc → PhaseInv t := by
    intro t hcontrol htriggers hpc
    refine ⟨fun hal => hcontrol.trans (h.idle (hpc ▸ hal)), fun htr => ?_, fun htr => ?_, ?_⟩
    · rw [htriggers]
      exact h.outside (hpc ▸ htr)
    · rw [htriggers]
      exact h.inside (hpc ▸ htr)
    · rw [htriggers]
      exact h.turn_le
  -- the pass over the triggers begins
  have hbegin : ∀ t : TriggerPasses.State, s.pc ≠ .alarms →
      TriggerPasses.Step s.triggers .passBegins t →
      PhaseInv { s with triggers := t, pc := .triggers } := by
    intro t hal ht
    cases ht with
    | passBegins _ =>
      refine ⟨fun _ => h.idle hal, fun hpc => absurd rfl hpc, fun _ hpc => (nomatch hpc), fun i hi => ?_⟩
      cases hi
      exact Nat.zero_le _
  cases hs with
  | doEventLoop hpc => exact hmove _ rfl rfl (by simp [hpc]) (by simp [hpc]) (by simp)
  | stopLoop => exact hstay _ rfl rfl rfl
  | singleStep hpc _ => exact hmove _ rfl rfl (by simp [hpc]) (by simp [hpc]) (by simp)
  | loopEnds hpc _ => exact hmove _ rfl rfl (by simp [hpc]) (by simp [hpc]) (by simp)
  | timeToNextAlarm now r t hpc ht =>
    have hcontrol : t.control = s.timers.control := by
      cases ht
      rfl
    exact hmove _ hcontrol rfl (by simp [hpc]) (by simp [hpc]) (by simp)
  | ready tv st sel p hpc _ _ => exact hmove _ rfl rfl (by simp [hpc]) (by simp [hpc]) (by simp)
  | timeout tv st t hpc _ ht => exact hbegin t (by simp [hpc]) ht
  | selectFails tv st hpc _ => exact hmove _ rfl rfl (by simp [hpc]) (by simp [hpc]) (by simp)
  | skip sel p dec p' hpc _ _ _ => exact hmove _ rfl rfl (by simp [hpc]) (by simp [hpc]) (by simp)
  | handler sel p dec p' f hpc _ _ _ _ => exact hmove _ rfl rfl (by simp [hpc]) (by simp [hpc]) (by simp)
  | handlerReturns sel p c hpc => exact hmove _ rfl rfl (by simp [hpc]) (by simp [hpc]) (by simp)
  | handlerThrows sel p c hpc => exact hmove _ rfl rfl (by simp [hpc]) (by simp [hpc]) (by simp)
  | handlersEnd sel p p' t hpc _ ht => exact hbegin t (by simp [hpc]) ht
  | trigger b t hpc hb ht =>
    obtain ⟨hin, hle⟩ := trigger_pc hb ht
    exact ⟨h.idle, fun htr => absurd hpc htr, fun _ => hin, hle⟩
  | triggerThrows t hpc ht =>
    have hidle := h.idle (by simp [hpc])
    cases ht
    exact ⟨fun _ => hidle, fun _ => rfl, fun hpc => (nomatch hpc), fun i hi => (nomatch hi)⟩
  | triggersEnd t hpc ht =>
    have hidle := h.idle (by simp [hpc])
    cases ht
    exact ⟨fun _ => hidle, fun _ => rfl, fun hpc => (nomatch hpc), fun i hi => (nomatch hi)⟩
  | alarm b t hpc _ _ =>
    exact ⟨fun hal => absurd hpc hal, h.outside, h.inside, h.turn_le⟩
  | alarmsEnd t hpc ht =>
    have hout := h.outside (by simp [hpc])
    cases ht
    exact ⟨fun _ => rfl, fun _ => hout, fun hpc => (nomatch hpc), h.turn_le⟩
  | scheduleDelayTask d t _ ht => exact hstay _ (schedule_control ht) rfl rfl
  | edit e set _ _ => exact hstay _ rfl rfl rfl
  | createTrigger b t _ ht =>
    cases ht
    exact hstay _ rfl (create_pc _ b) rfl
  | removeTrigger tid t _ ht =>
    cases ht
    exact hstay _ rfl (remove_pc _ tid) rfl

/-! ## The loop goes on -/

theorem phaseInv_start (now : DelayEventTime) : PhaseInv (State.start π now) :=
  ⟨fun _ => rfl, fun _ => rfl, fun hpc => (nomatch hpc), fun _ hi => (nomatch hi)⟩

structure SafeInv (s : State π) : Prop where
  timely : TimelyInv s
  phase : PhaseInv s
  set : ∃ A R, SetInv s A R
  triggers : TriggerPasses.Inv s.triggers

theorem safeInv_of_reachable (h : ((system π).restrict Careful).Reachable s) : SafeInv s := by
  refine h.invariant SafeInv ?_ ?_
  · rintro s ⟨now, hnow, rfl⟩
    refine ⟨timelyInv_of_reachable (.of_init ⟨now, hnow, rfl⟩), phaseInv_start now, ⟨[], [], ?_⟩, .init⟩
    exact ⟨HandlerSet.init_holds, fun d hd => absurd hd List.not_mem_nil, fun _ _ _ hpc => (nomatch hpc),
      fun _ _ _ hpc => (nomatch hpc)⟩
  · rintro s a s' ⟨htimely, hphase, ⟨A, R, hset⟩, htriggers⟩ ⟨hs, hc⟩
    exact ⟨htimely.step hs, hphase.step hs, hset.step hs hc, triggers_inv_step hs hc htriggers⟩

/-- The scheduler works in the background, and a next step of its own can be taken. -/
def State.GoesOn (s : State π) : Prop := ∃ a s', State.Step s a s' ∧ a ≠ .stopLoop

theorem SafeInv.begun (h : SafeInv s) (hpc : s.pc = .begun) : s.GoesOn := by
  obtain ⟨l, hl⟩ := reachable_inv h.timely.reachable
  have hclock := hl.clock_still
  obtain ⟨r, q, hret, -⟩ := hl.timeToNextAlarm hclock
  have hcan : s.timers.CanCall := by
    intro hloop
    rw [h.phase.idle (by simp [hpc])] at hloop
    cases hloop
  exact ⟨_, _, .timeToNextAlarm s _ r _ hpc (.timeToNextAlarm s.timers _ r q hcan hclock hret), by simp⟩

theorem SafeInv.selecting (h : SafeInv s) {tv : Timeval} (hpc : s.pc = .selecting tv) : s.GoesOn := by
  obtain ⟨A, R, hset⟩ := h.set
  obtain ⟨st, hst, -⟩ := setup_exact ⟨hset.holds, hset.range, rfl⟩
  exact ⟨_, _, .timeout s tv st _ hpc hst (.passBegins s.triggers (h.phase.outside (by simp [hpc]))),
    by simp⟩

theorem SafeInv.handlers (h : SafeInv s) {sel : Selected} {p : Ptr}
    (hpc : s.pc = .handlers sel p none) : s.GoesOn := by
  obtain ⟨A, R, hset⟩ := h.set
  obtain rfl := hset.next _ _ _ hpc
  cases R with
  | nil =>
    exact ⟨_, _, .handlersEnd s sel _ _ _ hpc (HandlerSet.Holds.iterNext_end s.set)
      (.passBegins s.triggers (h.phase.outside (by simp [hpc]))), by simp⟩
  | cons d R =>
    have hd : d ∈ A ++ d :: R := List.mem_append_right A List.mem_cons_self
    have hnext := hset.holds.iterNext
    have hlive := HandlerSet.returns_access (hset.holds.live_of_mem hd)
    by_cases hev : sel.resultEvents (s.set.hander d.ptr) &&& s.set.flags d.ptr = 0
    · exact ⟨_, _, .skip s sel _ _ _ hpc hnext hlive (.inl hev), by simp⟩
    · cases hf : s.set.bc d.ptr with
      | none => exact ⟨_, _, .skip s sel _ _ _ hpc hnext hlive (.inr hf), by simp⟩
      | some f => exact ⟨_, _, .handler s sel _ _ _ f hpc hnext hlive hev hf, by simp⟩

theorem SafeInv.inTriggers (h : SafeInv s) (hpc : s.pc = .triggers) (hno : ¬ s.MayCall) :
    s.GoesOn := by
  cases ht : s.triggers.pc with
  | outside => exact absurd ht (h.phase.inside hpc)
  | calling i n =>
    refine absurd ?_ hno
    rw [State.MayCall, hpc]
    exact ⟨i, n, ht⟩
  | turn i =>
    rcases (h.phase.turn_le i ht).lt_or_eq with hlt | rfl
    · cases hslot : s.triggers.set.m_triggers ⟨i, hlt⟩ with
      | none => exact ⟨_, _, .trigger s _ _ hpc (.inl rfl) (.skip s.triggers ⟨i, hlt⟩ ht hslot), by simp⟩
      | some n =>
        exact ⟨_, _, .trigger s _ _ hpc (.inl rfl) (.call s.triggers ⟨i, hlt⟩ n ht hslot), by simp⟩
    · exact ⟨_, _, .triggersEnd s _ hpc (.passEnds s.triggers ht), by simp⟩

theorem SafeInv.inAlarms (h : SafeInv s) (hpc : s.pc = .alarms) (hno : ¬ s.MayCall) : s.GoesOn := by
  obtain ⟨l, hl⟩ := reachable_inv h.timely.reachable
  cases hc : s.timers.control with
  | idle =>
    have hclock := hl.clock_still
    obtain ⟨q, hret, -⟩ := hl.beginAlarm hclock
    exact ⟨_, _, .alarm s _ _ hpc (.inl ⟨_, rfl⟩) (.handleAlarm s.timers _ q hc hclock hret), by simp⟩
  | loop =>
    rcases hl.loop_next hc with ⟨t, ht⟩ | ⟨e, t, ht⟩
    · exact ⟨_, _, .alarmsEnd s t hpc ht, by simp⟩
    · exact ⟨_, _, .alarm s _ t hpc (.inr (.inl ⟨e, rfl⟩)) ht, by simp⟩
  | handler e =>
    refine absurd ?_ hno
    rw [State.MayCall, hpc]
    exact ⟨e, hc⟩

/-- No program in between faults or hangs, so the loop can always take its next step. -/
theorem SafeInv.goesOn (h : SafeInv s) (hno : ¬ s.MayCall) (halive : s.pc ≠ .aborted) : s.GoesOn := by
  cases hpc : s.pc with
  | outside =>
    refine absurd ?_ hno
    rw [State.MayCall, hpc]
    exact trivial
  | test =>
    cases hq : s.quit with
    | false => exact ⟨_, _, .singleStep s hpc hq, by simp⟩
    | true => exact ⟨_, _, .loopEnds s hpc hq, by simp⟩
  | begun => exact h.begun hpc
  | selecting tv => exact h.selecting hpc
  | handlers sel p c =>
    cases c with
    | none => exact h.handlers hpc
    | some c =>
      refine absurd ?_ hno
      rw [State.MayCall, hpc]
      exact trivial
  | triggers => exact h.inTriggers hpc hno
  | alarms => exact h.inAlarms hpc hno
  | aborted => exact absurd hpc halive

/-! ## Calls of the scheduler -/

theorem SafeInv.canCall (h : SafeInv s) (hmay : s.MayCall) : s.timers.CanCall := by
  intro hloop
  by_cases hpc : s.pc = .alarms
  · rw [State.MayCall, hpc] at hmay
    obtain ⟨e, he⟩ := hmay
    rw [hloop] at he
    cases he
  · rw [h.phase.idle hpc] at hloop
    cases hloop

theorem SafeInv.triggers_mayCall (h : SafeInv s) (hmay : s.MayCall) : s.triggers.pc.MayCall := by
  by_cases hpc : s.pc = .triggers
  · rw [State.MayCall, hpc] at hmay
    obtain ⟨i, n, hin⟩ := hmay
    rw [hin]
    exact trivial
  · rw [h.phase.outside hpc]
    exact trivial

theorem schedule_returns {t : Scheduler.State} {l : List Ptr} (h : t.Inv l) (hc : t.CanCall) {d : Nat}
    (hd : t.time + d < LONG_MAX * MILLION) : ∃ t', t.ScheduleDelayTask d t' := by
  obtain ⟨e, he⟩ := Infinite.exists_notMem_finset
    (this :: (t.created ++ t.handled.map Alarm.entry)).toFinset
  rw [List.mem_toFinset, List.mem_cons, List.mem_append, not_or, not_or] at he
  obtain ⟨hthis, hnew, hunhandled⟩ := he
  have htime := h.time_nonneg
  have hinterval : (delayOf d).IsInterval := by
    unfold MILLION LONG_MAX at hd
    refine ⟨?_, ?_, ?_, ?_⟩ <;> simp only [delayOf, MILLION, LONG_MAX] <;> omega
  let t₁ : Scheduler.State :=
    { t with queue := t.queue.newEntry e (delayOf d), created := e :: t.created }
  have h₁ : t₁.Inv l := h.create hnew hthis
  have hlive : t₁.Live e := ⟨List.mem_cons_self, hunhandled⟩
  have hp : t₁.pending e = none := by
    by_contra hp
    exact hnew (h.live e ((h.mem e).mpr hp)).1
  have hgap : t₁.queue.deltaTimeRemaining e = delayOf d := Function.update_self _ _ _
  have hdelay : t₁.DelayOk t₁.queue.lastSyncTime (t₁.queue.deltaTimeRemaining e) := by
    rw [hgap]
    refine ⟨hinterval, ?_⟩
    rw [State.timeAt, DelayQueue.elapsed_self, add_zero, State.delayOf_micros]
    exact hd
  obtain ⟨q, l', hret, -⟩ := h₁.addEntry hlive hp h₁.clock_still hdelay
  exact ⟨_, e, _, t₁, .create t e _ hc hnew hthis hinterval,
    .addEntry t₁ e _ q hc hlive hp h₁.clock_still hdelay hret⟩

theorem SafeInv.registered (h : SafeInv s) {c : Called π}
    (hs : State.Step s (.handler (some c)) s') : s.set.Registered c.dec := by
  obtain ⟨A, R, hset⟩ := h.set
  cases hs with
  | handler sel p dec p' f hpc hnext _ _ hbc =>
    obtain ⟨A', R', hset'⟩ := hset.advance (c := some ⟨dec, f, sel.resultEvents (s.set.hander dec)⟩) hpc
      hnext fun x hx => by
        cases hx
        exact ⟨rfl, hbc⟩
    obtain ⟨d, hd, rfl, -⟩ := hset'.executing _ _ _ rfl
    exact hset'.holds.registered hd

/-- What holds of the scheduler in a state of a run of careful steps. -/
structure Safe (s : State π) : Prop where
  goesOn : ¬ s.MayCall → s.pc ≠ .aborted → s.GoesOn
  edit : ∀ e, ∃ set, Returns (s.set.edit e) set
  schedule : s.MayCall → ∀ d : Nat, s.timers.time + d < LONG_MAX * MILLION →
    ∃ t, s.timers.ScheduleDelayTask d t
  trigger : s.MayCall → s.triggers.pc.MayCall
  registered : ∀ c s', State.Step s (.handler (some c)) s' → s.set.Registered c.dec
  executing : ∀ sel p c, s.pc = .handlers sel p (some c) →
    s.set.live c.dec = true ∧ s.set.bc c.dec = some c.proc
  kept : TriggerPasses.Kept s.triggers

/-- `StopLoop` stays: no iteration begins after it, in this call of `DoEventLoop` or in a later one. -/
theorem no_singleStep_after_stopLoop {tr₁ tr₂ : List (Event π)}
    (h : (system π).Run (tr₁ ++ .stopLoop :: tr₂) s) : .singleStep ∉ tr₂ := by
  have hinv := h.invariant (fun tr s => (.stopLoop ∈ tr → s.quit = true) ∧
    ∀ tr₁ tr₂, tr = tr₁ ++ .stopLoop :: tr₂ → .singleStep ∉ tr₂) ?_ ?_
  · exact hinv.2 tr₁ tr₂ rfl
  · rintro s -
    refine ⟨fun hmem => (nomatch hmem), fun tr₁ tr₂ htr => ?_⟩
    exact absurd htr.symm (List.append_ne_nil_of_right_ne_nil _ (List.cons_ne_nil _ _))
  · rintro tr s a s' ⟨hquit, hno⟩ hs
    refine ⟨fun hmem => ?_, fun tr₁ tr₂ htr => ?_⟩
    · rcases List.mem_append.mp hmem with hmem | hmem
      · have hq := hquit hmem
        cases hs <;> first | exact hq | rfl
      · obtain rfl := List.mem_singleton.mp hmem
        cases hs
        rfl
    · rcases List.eq_nil_or_concat tr₂ with rfl | ⟨tr₃, b, rfl⟩
      · exact List.not_mem_nil
      · rw [List.concat_eq_append, ← List.cons_append, ← List.append_assoc] at htr
        obtain ⟨hinit, hb⟩ := List.append_inj' htr rfl
        obtain rfl : a = b := List.singleton_inj.mp hb
        rw [List.concat_eq_append, List.mem_append, List.mem_singleton, not_or]
        refine ⟨hno tr₁ tr₃ hinit, ?_⟩
        rintro rfl
        have hq : s.quit = true := hquit (by simp [hinit])
        cases hs with
        | singleStep _ hq' =>
          rw [hq] at hq'
          cases hq'

end EventLoop

end Scheduler
end Huicpp
