import Mathlib
import Huicpp.Scheduler.Timers

/-!
# Scheduler.AlarmLoop

Whether `HandleAlarm` comes to an end. Its loop runs as long as the head is due, handlers add to
the queue meanwhile, and every addition synchronizes it.

A task that is added with a delay is due later than the one whose handler adds it, and no handler
runs before its time. So the dues that are handled spread upwards like the heads of a hydra, and
below the end of time they cannot do so for ever. A task added with no delay may be due at once,
and the loop runs it before it ends.

* `EndsWithin k s`: from `s` the loop ends, whatever the handlers do, if they add at most `k` tasks
  with no delay.
* `handleAlarm_returns`: so it is for every `k`, and no more handlers run than there are entries in
  the queue and tasks that are added.
* `handleAlarm_forever`: a handler that adds a task with no delay each time keeps the loop running,
  and where the virtual time reaches the end of the sentinel `synchronize` itself goes round for
  ever.

Handlers that are slower than the delays of the tasks they add also keep the loop running, until the
end of time.
-/

namespace Huicpp
namespace Scheduler

open Cxx Cxx.Prog

/-- The interval that `ScheduleDelayTask` makes of its microseconds. -/
def delayOf (microseconds : Nat) : DelayInterval :=
  ⟨(microseconds : Int) / MILLION, (microseconds : Int) % MILLION⟩

namespace State

/-- `ScheduleDelayTask(microseconds, proc)`: a new handler is added to the queue. -/
inductive ScheduleDelayTask (s : State) (microseconds : Nat) (s' : State) : Prop where
  | mk (e : Ptr) (now : DelayEventTime) (s₁ : State) :
      Step s (.create e (delayOf microseconds)) s₁ → Step s₁ (.addEntry e now) s' →
      ScheduleDelayTask s microseconds s'

/-- The tasks that one call of a handler schedules, by their delays. -/
inductive Schedules : State → List Nat → State → Prop where
  | nil (s : State) : Schedules s [] s
  | cons {s s₁ s' : State} {d : Nat} {ds : List Nat} : s.ScheduleDelayTask d s₁ →
      Schedules s₁ ds s' → Schedules s (d :: ds) s'

/-- One iteration of the loop: a handler is called, schedules tasks, and returns. -/
inductive Round (s : State) (delays : List Nat) (s' : State) : Prop where
  | mk (e : Ptr) (s₁ s₂ : State) : Step s (.handler e) s₁ → Schedules s₁ delays s₂ →
      Step s₂ .handlerReturns s' → Round s delays s'

/-- Some iterations, with the tasks that each of them adds. -/
inductive Rounds : State → List (List Nat) → State → Prop where
  | nil (s : State) : Rounds s [] s
  | cons {s s₁ s' : State} {ds : List Nat} {dss : List (List Nat)} : s.Round ds s₁ →
      Rounds s₁ dss s' → Rounds s (ds :: dss) s'

/-- At the top of the loop, either `HandleAlarm` returns or a handler is called; and after each
such call the same, until it returns, as long as no more than `k` tasks with no delay are added. -/
inductive EndsWithin : Nat → State → Prop where
  | intro {k : Nat} {s : State} :
      (∃ s', Step s .handleAlarmReturns s') ∨ (∃ e s', Step s (.handler e) s') →
      (∀ delays s', s.Round delays s' → delays.count 0 ≤ k →
        EndsWithin (k - delays.count 0) s') →
      EndsWithin k s

theorem delayOf_micros (d : Nat) : (delayOf d).micros = d := by
  simp only [delayOf, Timeval.micros, MILLION]
  omega

/-! ## Weights -/

/-- How far before the end of time something is due. -/
def weight (due : Int) : Nat := (LONG_MAX * MILLION - due).toNat

def dueOf (s : State) (e : Ptr) : Int :=
  match s.pending e with
  | some t => t.due
  | none => 0

/-- The weights of the entries. -/
def weights (s : State) (l : List Ptr) : Multiset Nat := l.map fun e => weight (s.dueOf e)

section Weights

variable {s s' : State} {l l' : List Ptr} {e : Ptr} {t : Timer}

theorem weight_lt {a b : Int} (h : a < b) (hb : a < LONG_MAX * MILLION) : weight b < weight a := by
  simp only [weight]
  omega

theorem Inv.weights_cons (h : Inv s l) (h' : Inv s' l') (hne : s.pending e = none)
    (he : s'.pending e = some t) (hrest : ∀ x, x ≠ e → s'.pending x = s.pending x) :
    s'.weights l' = weight t.due ::ₘ s.weights l := by
  have hnot : e ∉ l := fun hmem => (h.mem e).mp hmem hne
  have hnd : l.Nodup := (List.nodup_cons.mp h.repr.ring.nodup).2
  have hnd' : l'.Nodup := (List.nodup_cons.mp h'.repr.ring.nodup).2
  have hperm : l'.Perm (e :: l) := by
    rw [List.perm_ext_iff_of_nodup hnd' (List.nodup_cons.mpr ⟨hnot, hnd⟩)]
    intro x
    rw [h'.mem, List.mem_cons, h.mem]
    by_cases hx : x = e
    · rw [hx, he]
      simp
    · rw [hrest x hx]
      simp [hx]
  have hdue : ∀ x ∈ l, weight (s'.dueOf x) = weight (s.dueOf x) := by
    intro x hx
    have hxe : x ≠ e := by
      rintro rfl
      exact hnot hx
    rw [dueOf, dueOf, hrest x hxe]
  have hdue_e : s'.dueOf e = t.due := by
    rw [dueOf, he]
  rw [weights, weights, Multiset.cons_coe, Multiset.coe_eq_coe, ← hdue_e,
    ← List.map_congr_left hdue]
  exact hperm.map _

end Weights

/-! ## One round -/

section Rounds

variable {s s' : State} {l : List Ptr} {e : Ptr}

theorem Inv.handler_weights (h : Inv s l) (hs : Step s (.handler e) s') :
    ∃ l' due, Inv s' l' ∧ due ≤ s'.time ∧ s.weights l = weight due ::ₘ s'.weights l' := by
  obtain ⟨l', h'⟩ := h.step hs
  cases hs with
  | handler e q _ hret =>
    obtain ⟨t, ht, hdue, htime⟩ := h'.handled.due ⟨e, s.pending e, s.time⟩
      (List.mem_append_right _ (List.mem_singleton_self _))
    refine ⟨l', t.due, h', hdue.trans htime, ?_⟩
    exact h'.weights_cons h (cancel_pending_self s e) ht
      fun x hx => (cancel_pending_of_ne s hx).symm

theorem Inv.schedule_weights {d : Nat} (h : Inv s l) (hs : s.ScheduleDelayTask d s') :
    ∃ l' due, Inv s' l' ∧ s.time + d ≤ due ∧ s.time ≤ s'.time ∧
      s'.weights l' = weight due ::ₘ s.weights l := by
  obtain ⟨e, now, s₁, hcreate, hadd⟩ := hs
  obtain ⟨l₁, h₁⟩ := h.step hcreate
  obtain ⟨l', h'⟩ := h₁.step hadd
  cases hcreate with
  | create e delay _ hnew hne hint =>
    cases hadd with
    | addEntry e now q _ he hp hc hd hret =>
      have h0 : 0 ≤ DelayQueue.elapsed (s.queue.newEntry e (delayOf d)).lastSyncTime
          q.lastSyncTime := DelayQueue.elapsed_nonneg _ _
      have hgap : (s.queue.newEntry e (delayOf d)).gap e = d := by
        rw [← delayOf_micros d]
        exact congrArg Timeval.micros (Function.update_self _ _ _)
      refine ⟨l', _, h', ?_, ?_, h.weights_cons h' hp (schedule_pending_self _ _ _)
        fun x hx => schedule_pending_of_ne _ _ hx⟩
      · show s.time + (d : Int) ≤ s.time + DelayQueue.elapsed
          (s.queue.newEntry e (delayOf d)).lastSyncTime q.lastSyncTime +
            (s.queue.newEntry e (delayOf d)).gap e
        rw [hgap]
        omega
      · show s.time ≤ s.time + DelayQueue.elapsed
          (s.queue.newEntry e (delayOf d)).lastSyncTime q.lastSyncTime
        omega

/-- What a handler schedules with delays is lighter than everything that is due. -/
theorem Inv.schedules_weights {ds : List Nat} (hs : Schedules s ds s') :
    ∀ {l}, Inv s l → ∃ l' new, Inv s' l' ∧ s.time ≤ s'.time ∧
      s'.weights l' = s.weights l + new ∧ new.card = ds.length ∧
      (ds.count 0 = 0 → ∀ due ≤ s.time, ∀ w ∈ new, w < weight due) := by
  induction hs with
  | nil s =>
    intro l h
    refine ⟨l, 0, h, le_rfl, (add_zero _).symm, rfl, fun _ _ _ w hw => ?_⟩
    exact absurd hw (Multiset.notMem_zero w)
  | @cons s s₁ s' d ds h1 _ ih =>
    intro l h
    obtain ⟨l₁, due, hl₁, hdue, htime, hw₁⟩ := h.schedule_weights h1
    obtain ⟨l', new, hl', htime', hw', hcard, hnew⟩ := ih hl₁
    refine ⟨l', weight due ::ₘ new, hl', htime.trans htime', ?_, ?_, ?_⟩
    · rw [hw', hw₁, Multiset.cons_add, Multiset.add_cons]
    · rw [Multiset.card_cons, hcard, List.length_cons]
    · intro hzero x hx w hmem
      have hlt := h.time_lt
      obtain ⟨hd, hds⟩ : d ≠ 0 ∧ ds.count 0 = 0 := by
        rw [List.count_cons] at hzero
        by_cases hd : d = 0
        · simp [hd] at hzero
        · exact ⟨hd, by omega⟩
      rcases Multiset.mem_cons.mp hmem with rfl | hmem
      · exact weight_lt (by omega) (by omega)
      · exact hnew hds x (by omega) w hmem

theorem card_weights (s : State) (l : List Ptr) : (s.weights l).card = l.length := by
  rw [weights, Multiset.coe_card, List.length_map]

/-- A round without undelayed tasks replaces a weight by lighter ones, one for each task. -/
theorem Inv.round_weights {ds : List Nat} (h : Inv s l) (hs : s.Round ds s') :
    ∃ l', Inv s' l' ∧ s'.control = .loop ∧ l'.length + 1 = l.length + ds.length ∧
      (ds.count 0 = 0 → Relation.CutExpand (· < ·) (s'.weights l') (s.weights l)) := by
  obtain ⟨e, s₁, s₂, hcall, hsched, hret⟩ := hs
  obtain ⟨l₁, due, h₁, hdue, hw₁⟩ := h.handler_weights hcall
  obtain ⟨l₂, new, h₂, _, hw₂, hcard, hnew⟩ := Inv.schedules_weights hsched h₁
  have hlen : l₂.length + 1 = l.length + ds.length := by
    have hcard₁ := congrArg Multiset.card hw₁
    have hcard₂ := congrArg Multiset.card hw₂
    rw [card_weights, Multiset.card_cons, card_weights] at hcard₁
    rw [card_weights, Multiset.card_add, card_weights, hcard] at hcard₂
    omega
  cases hret with
  | handlerReturns e' _ =>
    refine ⟨l₂, h₂.control .loop, rfl, hlen, fun hzero => ?_⟩
    refine ⟨new, weight due, fun w hw => hnew hzero due hdue w hw, ?_⟩
    show s₂.weights l₂ + {weight due} = s.weights l + new
    rw [hw₂, hw₁, ← Multiset.singleton_add]
    abel

theorem Inv.rounds_length {dss : List (List Nat)} (hs : Rounds s dss s') :
    ∀ {l}, Inv s l → ∃ l', Inv s' l' ∧ l'.length + dss.length = l.length + dss.flatten.length := by
  induction hs with
  | nil s =>
    intro l h
    exact ⟨l, h, rfl⟩
  | @cons s s₁ s' ds dss hround _ ih =>
    intro l h
    obtain ⟨l₁, h₁, _, hlen₁, _⟩ := h.round_weights hround
    obtain ⟨l', h', hlen'⟩ := ih h₁
    refine ⟨l', h', ?_⟩
    rw [List.length_cons, List.flatten_cons, List.length_append]
    omega

theorem Inv.loop_next (h : Inv s l) (hc : s.control = .loop) :
    (∃ s', Step s .handleAlarmReturns s') ∨ ∃ e s', Step s (.handler e) s' := by
  obtain ⟨e, q, hret⟩ := h.exists_nextAlarm
  cases e with
  | none => exact .inl ⟨_, .handleAlarmReturns s q hc hret⟩
  | some e => exact .inr ⟨e, _, .handler s e q hc hret⟩

/-- The loop ends, by induction on the tasks with no delay and then on the weights. -/
theorem Inv.endsWithin (k : Nat) : ∀ {s l}, Inv s l → s.control = .loop → EndsWithin k s := by
  induction k using Nat.strongRecOn with
  | ind k ihk =>
    intro s l h hc
    have hwf := (wellFounded_lt (α := Nat)).cutExpand
    induction hw : s.weights l using hwf.induction generalizing s l with
    | _ w ihw =>
      refine .intro (h.loop_next hc) fun ds s' hround hle => ?_
      obtain ⟨l', h', hc', _, hcut⟩ := h.round_weights hround
      by_cases hzero : ds.count 0 = 0
      · -- the same budget, and a lighter queue
        rw [hzero, Nat.sub_zero]
        exact ihw _ (hw ▸ hcut hzero) h' hc' rfl
      · exact ihk _ (by omega) h' hc'

end Rounds

/-! ## Tasks with no delay -/

/-- The loop is about to call a handler, and the clock stands still. -/
structure HeadDue (s : State) : Prop where
  reachable : alarms.Reachable s
  control : s.control = .loop
  due : ∃ e t, s.pending e = some t ∧ t.due ≤ s.time

section ZeroDelay

variable {s : State} {l : List Ptr}

theorem Inv.clock_still (h : Inv s l) : s.ClockOk s.queue.lastSyncTime := by
  refine ⟨h.isTime, ?_⟩
  rw [timeAt, DelayQueue.elapsed_self, add_zero]
  exact h.time_lt

theorem Inv.schedule_zero (h : Inv s l) (hc : s.CanCall) :
    ∃ s', s.ScheduleDelayTask 0 s' ∧ s'.control = s.control ∧
      ∃ e t, s'.pending e = some t ∧ t.due ≤ s'.time := by
  obtain ⟨e, he⟩ := Infinite.exists_notMem_finset
    (this :: (s.created ++ s.handled.map Alarm.entry)).toFinset
  rw [List.mem_toFinset, List.mem_cons, List.mem_append, not_or, not_or] at he
  obtain ⟨hthis, hnew, hunhandled⟩ := he
  let s₁ : State :=
    { s with queue := s.queue.newEntry e (delayOf 0), created := e :: s.created }
  have hcreate : Step s (.create e (delayOf 0)) s₁ :=
    .create s e _ hc hnew hthis Timeval.isInterval_zero
  have h₁ : Inv s₁ l := h.create hnew hthis
  have hlive : s₁.Live e := ⟨List.mem_cons_self, hunhandled⟩
  have hp : s₁.pending e = none := by
    by_contra hp
    exact hnew (h.live e ((h.mem e).mpr hp)).1
  have hgap : s₁.queue.deltaTimeRemaining e = delayOf 0 := Function.update_self _ _ _
  have hclock := h₁.clock_still
  have hdelay : s₁.DelayOk s₁.queue.lastSyncTime (s₁.queue.deltaTimeRemaining e) := by
    rw [hgap]
    refine ⟨Timeval.isInterval_zero, ?_⟩
    rw [delayOf_micros]
    exact (add_zero (s₁.timeAt s₁.queue.lastSyncTime)).symm ▸ hclock.time_lt
  obtain ⟨q, l', hret, _⟩ := h₁.addEntry hlive hp hclock hdelay
  refine ⟨_, ⟨e, _, s₁, hcreate, .addEntry s₁ e _ q hc hlive hp hclock hdelay hret⟩, rfl, e, _,
    schedule_pending_self _ _ _, ?_⟩
  show (s₁.advance q).time + s₁.queue.gap e ≤ (s₁.advance q).time
  rw [DelayQueue.gap, hgap, delayOf_micros]
  omega

/-- The handler of the head adds such a task, and the loop is where it was. -/
theorem HeadDue.round (h : s.HeadDue) : ∃ s', s.Round [0] s' ∧ s'.HeadDue := by
  obtain ⟨hreach, hc, x, t, hx, hdue⟩ := h
  obtain ⟨l, hl⟩ := reachable_inv hreach
  obtain ⟨e, q, hret⟩ := hl.exists_nextAlarm
  cases e with
  | none =>
    have hlate := (hl.nextAlarm_none hret).2 x t hx
    exact absurd hdue (not_le.mpr hlate)
  | some e =>
    have hcall : Step s (.handler e) ((s.handle e).advance q) := .handler s e q hc hret
    obtain ⟨l₁, h₁⟩ := hl.step hcall
    have hcan : ((s.handle e).advance q).CanCall := by
      intro hloop
      cases hloop
    obtain ⟨s₂, hsched, hcontrol, y, u, hy, hu⟩ := h₁.schedule_zero hcan
    have hreturns : Step s₂ .handlerReturns { s₂ with control := .loop } :=
      .handlerReturns s₂ e hcontrol
    refine ⟨_, ⟨e, _, s₂, hcall, .cons hsched (.nil s₂), hreturns⟩, ?_, rfl, y, u, hy, hu⟩
    obtain ⟨e', now, s₁', hcreate, hadd⟩ := hsched
    exact (((hreach.next hcall).next hcreate).next hadd).next hreturns

theorem exists_headDue :
    ∃ s now s₀, alarms.Reachable s ∧ Step s (.handleAlarm now) s₀ ∧ s₀.HeadDue := by
  have hzero : (⟨0, 0⟩ : DelayEventTime).IsTime := Timeval.isInterval_zero.isTime
  have hstart : alarms.Reachable (State.start ⟨0, 0⟩) := .of_init ⟨_, hzero, rfl⟩
  have hcan : (State.start ⟨0, 0⟩).CanCall := by
    intro hloop
    cases hloop
  obtain ⟨s, ⟨e', now', s₁, hcreate, hadd⟩, hidle, e, t, he, hdue⟩ :=
    (inv_start hzero).schedule_zero hcan
  have hs : alarms.Reachable s := (hstart.next hcreate).next hadd
  obtain ⟨l, hl⟩ := reachable_inv hs
  obtain ⟨q, hret, _⟩ := hl.beginAlarm hl.clock_still
  have hstep := Step.handleAlarm s s.queue.lastSyncTime q hidle hl.clock_still hret
  have htime : s.time ≤ (s.advance q).time := by
    have := DelayQueue.elapsed_nonneg s.queue.lastSyncTime q.lastSyncTime
    show s.time ≤ s.time + _
    omega
  exact ⟨s, _, _, hs, hstep, hs.next hstep, rfl, e, t, he, hdue.trans htime⟩

end ZeroDelay

end State

/-- **`HandleAlarm` returns**, after finitely many handlers, if these add only finitely many tasks
with no delay. No more handlers run than entries were queued and tasks are added. -/
theorem handleAlarm_returns (s : State) (now : DelayEventTime) (h : alarms.Reachable s)
    (hidle : s.control = .idle) (hclock : s.ClockOk now) :
    ∃ s₀, s.Step (.handleAlarm now) s₀ ∧ (∀ k, s₀.EndsWithin k) ∧
      ∃ l, IsRing s.queue.next s.queue.prev this l ∧
        ∀ dss s', s₀.Rounds dss s' → dss.length ≤ l.length + dss.flatten.length := by
  obtain ⟨l, hl⟩ := reachable_inv h
  obtain ⟨q, hret, hinv⟩ := hl.beginAlarm hclock
  have hinv₀ := hinv.control .loop
  refine ⟨_, .handleAlarm s now q hidle hclock hret, fun k => hinv₀.endsWithin k rfl, l,
    hl.repr.ring, fun dss s' hs => ?_⟩
  obtain ⟨l', _, hlen⟩ := hinv₀.rounds_length hs
  omega

theorem handleAlarm_returns_overdue :
    ∃ s₀, oneAdded.Step (.handleAlarm ⟨5, 0⟩) s₀ ∧ (∀ k, s₀.EndsWithin k) ∧
      ∃ l, IsRing oneAdded.queue.next oneAdded.queue.prev this l ∧
        ∀ dss s', s₀.Rounds dss s' → dss.length ≤ l.length + dss.flatten.length :=
  handleAlarm_returns oneAdded ⟨5, 0⟩ reachable_oneAdded rfl
    ⟨⟨by decide, by decide, by decide, by decide⟩, by decide⟩

/-! ## Runs that do not return -/

/-- Handlers that add one task with no delay each keep the loop running for ever. -/
theorem zeroDelay_rounds :
    ∃ (s : State) (now : DelayEventTime) (loop : Nat → State), alarms.Reachable s ∧
      s.Step (.handleAlarm now) (loop 0) ∧ ∀ n, (loop n).Round [0] (loop (n + 1)) := by
  obtain ⟨s, now, s₀, hs, hstep, hdue⟩ := State.exists_headDue
  have hround : ∀ x : { x : State // x.HeadDue }, ∃ y : { x : State // x.HeadDue },
      x.1.Round [0] y.1 := by
    rintro ⟨x, hx⟩
    obtain ⟨y, hxy, hy⟩ := hx.round
    exact ⟨⟨y, hy⟩, hxy⟩
  choose f hf using hround
  refine ⟨s, now, fun n => (f^[n] ⟨s₀, hdue⟩).1, hs, hstep, fun n => ?_⟩
  simp only [Function.iterate_succ_apply']
  exact hf _

/-- The queue after `TimeToNextAlarm` at half of time. -/
def halfQueue : DelayQueue :=
  ({ DelayQueue.new ⟨0, 0⟩ with lastSyncTime := ⟨2 ^ 62, 0⟩ } : DelayQueue).setDelta this
    ⟨LONG_MAX - 2 ^ 62, MILLION - 1⟩

/-- Half of time has passed, and the clock was set back. -/
def halfGone : State :=
  let s := (State.start ⟨0, 0⟩).advance halfQueue
  s.advance { halfQueue with lastSyncTime := ⟨0, 0⟩ }

theorem reachable_halfGone : alarms.Reachable halfGone := by
  have h0 : alarms.Reachable (State.start ⟨0, 0⟩) :=
    .of_init ⟨_, ⟨by decide, by decide, by decide, by decide⟩, rfl⟩
  have h1 : alarms.Reachable ((State.start ⟨0, 0⟩).advance halfQueue) := by
    refine h0.next (.timeToNextAlarm _ ⟨2 ^ 62, 0⟩ ⟨LONG_MAX - 2 ^ 62, MILLION - 1⟩ halfQueue
      (by decide) ⟨⟨by decide, by decide, by decide, by decide⟩, by decide⟩ ?_)
    refine ⟨2, fun m hm => ?_⟩
    obtain ⟨k, rfl⟩ := Nat.exists_eq_add_of_le' hm
    rfl
  refine h1.next (.timeToNextAlarm _ ⟨0, 0⟩ ⟨LONG_MAX - 2 ^ 62, MILLION - 1⟩ _
    (by decide) ⟨⟨by decide, by decide, by decide, by decide⟩, by decide⟩ ?_)
  refine ⟨2, fun m hm => ?_⟩
  obtain ⟨k, rfl⟩ := Nat.exists_eq_add_of_le' hm
  rfl

/-- Once the sentinel has no time left, the loop of `synchronize` has nothing to stop at. -/
theorem DelayQueue.sweep_loop_hangs {q : DelayQueue} {t : DelayInterval}
    (hnext : q.next this = some this) (hzero : q.deltaTimeRemaining this = DELAY_ZERO)
    (hge : t.ge DELAY_ZERO = true) (hsub : t.subAssign DELAY_ZERO = t) :
    Hangs (whileDo sweepTest sweepBody (t, this, q)) := by
  have hself : q.setDelta this DELAY_ZERO = q := by
    rw [setDelta, ← hzero, Function.update_eq_self]
  have htest : sweepTest (t, this, q) = true := by
    rw [sweepTest, hzero, hge]
  refine .while_stuck htest fun m => ?_
  show (deref ((q.setDelta this DELAY_ZERO).next this) m >>= fun curEntry =>
    .ok (t.subAssign (q.deltaTimeRemaining this), curEntry, q.setDelta this DELAY_ZERO)) = _
  rw [hzero, hsub, hself, hnext]
  rfl

theorem halfGone_hangs : Hangs (halfGone.queue.beginAlarm ⟨2 ^ 62, 0⟩) := by
  let q : DelayQueue := { halfGone.queue with lastSyncTime := ⟨2 ^ 62, 0⟩ }
  have hhead : Returns halfGone.queue.head this := returns_deref rfl
  have hhead' : Returns q.head this := returns_deref rfl
  have hloop : Hangs (whileDo DelayQueue.sweepTest DelayQueue.sweepBody (⟨2 ^ 62, 0⟩, this, q)) := by
    -- one time round leaves a microsecond, and no time in the sentinel
    have hbody : Returns (DelayQueue.sweepBody (⟨2 ^ 62, 0⟩, this, q))
        (⟨0, 1⟩, this, q.setDelta this DELAY_ZERO) :=
      Returns.bind (returns_deref rfl) (.pure _)
    refine .while_step (by decide) hbody ?_
    exact DelayQueue.sweep_loop_hangs rfl rfl (by decide) (by decide)
  refine hhead.bind_hangs ?_
  show Hangs (q.sweep ⟨2 ^ 62, 0⟩)
  exact hhead'.bind_hangs hloop.bind

/-- `HandleAlarm` does not always return: with a handler that adds a task with no delay each time,
and on an empty queue when the clock has gone forward `LONG_MAX` seconds. -/
theorem handleAlarm_forever :
    (∃ (s : State) (now : DelayEventTime) (loop : Nat → State), alarms.Reachable s ∧
      s.Step (.handleAlarm now) (loop 0) ∧ ∀ n, (loop n).Round [0] (loop (n + 1))) ∧
    ∃ (s : State) (now : DelayEventTime), alarms.Reachable s ∧ s.control = .idle ∧
      (∀ e, s.pending e = none) ∧ now.IsTime ∧ Hangs (s.queue.beginAlarm now) :=
  ⟨zeroDelay_rounds, halfGone, ⟨2 ^ 62, 0⟩, reachable_halfGone, rfl, fun _ => rfl,
    ⟨by decide, by decide, by decide, by decide⟩, halfGone_hangs⟩

end Scheduler
end Huicpp
