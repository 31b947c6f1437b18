import Mathlib
import Huicpp.Scheduler.Alarms

/-!
# Scheduler.TimerQueue

The queue does what it is for, in every run. The invariant says that the ring holds the pending
entries in the order in which they are due, and that its differences store how long each of them
still has to wait: `max 0 (due - time)`, and for the sentinel what is left of `ETERNITY`.

Every operation is shown to return and to keep the invariant. A handler is called for the head, so
the entries that are handled come in the order of the list, and whatever is added later is due later
than everything handled before.
-/

namespace Huicpp
namespace Scheduler

open Cxx Cxx.Prog

namespace State

/-- How long an entry still has to wait. What is not pending is the sentinel. -/
def remaining (s : State) (x : Ptr) : Int :=
  match s.pending x with
  | some t => max 0 (t.due - s.time)
  | none => ETERNITY.micros - s.time

theorem remaining_some {s : State} {x : Ptr} {t : Timer} (h : s.pending x = some t) :
    s.remaining x = max 0 (t.due - s.time) := by
  rw [remaining, h]

theorem remaining_none {s : State} {x : Ptr} (h : s.pending x = none) :
    s.remaining x = ETERNITY.micros - s.time := by
  rw [remaining, h]

/-- The order of a list of pending entries. -/
def Ordered (s : State) (l : List Ptr) : Prop :=
  l.Pairwise fun x y => ∀ a b, s.pending x = some a → s.pending y = some b → a.Before b

/-- What holds of the handlers called so far. -/
structure HandledInv (s : State) : Prop where
  nodup : (s.handled.map Alarm.entry).Nodup
  due : ∀ a ∈ s.handled, ∃ t, a.timer = some t ∧ t.due ≤ a.time ∧ a.time ≤ s.time
  sorted : s.handled.Pairwise fun a b => ∀ t u, a.timer = some t → b.timer = some u → t.due ≤ u.due
  before : ∀ a ∈ s.handled, ∀ t, a.timer = some t → ∀ x u, s.pending x = some u → t.due ≤ u.due

structure Inv (s : State) (l : List Ptr) : Prop where
  repr : s.queue.Repr l s.remaining
  isTime : s.queue.lastSyncTime.IsTime
  time_nonneg : 0 ≤ s.time
  time_lt : s.time < LONG_MAX * MILLION
  mem : ∀ e, e ∈ l ↔ s.pending e ≠ none
  ordered : s.Ordered l
  number_lt : ∀ e t, s.pending e = some t → t.number < s.inserted
  live : ∀ e ∈ l, s.Live e
  ne_this : ∀ e ∈ s.created, e ≠ this
  unlinked : ∀ e, s.Live e → s.pending e = none → s.queue.Unlinked e
  handled : s.HandledInv

theorem eternity_micros : ETERNITY.micros = LONG_MAX * MILLION + (MILLION - 1) := rfl

namespace Inv

variable {s : State} {l : List Ptr} {q : DelayQueue} {e : Ptr} {now : DelayEventTime}
  {delay : DelayInterval}

theorem not_mem_this (h : Inv s l) : this ∉ l := by
  have := h.repr.ring.nodup
  exact (List.nodup_cons.mp this).1

theorem pending_this (h : Inv s l) : s.pending this = none := by
  by_contra hne
  exact h.not_mem_this ((h.mem this).mpr hne)

theorem remaining_this (h : Inv s l) : s.remaining this = ETERNITY.micros - s.time :=
  remaining_none h.pending_this

theorem not_mem (h : Inv s l) (he : s.Live e) (hp : s.pending e = none) : e ∉ l ++ [this] := by
  intro hmem
  rcases List.mem_append.mp hmem with hmem | hmem
  · exact (h.mem e).mp hmem hp
  · exact h.ne_this e he.1 (List.mem_singleton.mp hmem)

theorem elapsed_lt (h : Inv s l) (hc : s.ClockOk now) :
    DelayQueue.elapsed s.queue.lastSyncTime now < s.remaining this := by
  have hlt := hc.time_lt
  rw [timeAt] at hlt
  rw [h.remaining_this, eternity_micros]
  unfold MILLION at *
  omega

theorem reading (h : Inv s l) (hc : s.ClockOk now) :
    DelayQueue.Reading s.queue.lastSyncTime now := by
  refine ⟨hc.isTime, ?_⟩
  have hlt := hc.time_lt
  have hnn := h.time_nonneg
  rw [timeAt] at hlt
  omega

theorem remaining_this_le (h : Inv s l) : s.remaining this ≤ ETERNITY.micros := by
  have := h.time_nonneg
  rw [h.remaining_this]
  omega

end Inv

theorem inv_start {now : DelayEventTime} (hnow : now.IsTime) : Inv (start now) [] where
  repr := by
    refine ⟨.empty ?_ ?_, ?_, ?_, trivial⟩
    · simp [start, DelayQueue.new, DelayQueue.newEntry]
    · simp [start, DelayQueue.new, DelayQueue.newEntry]
    · intro x hx
      rw [List.mem_singleton.mp hx]
      exact Timeval.isInterval_eternity
    · rfl
  isTime := hnow
  time_nonneg := le_rfl
  time_lt := by
    show (0 : Int) < LONG_MAX * MILLION
    decide
  mem e := by
    constructor
    · intro h
      cases h
    · intro h
      exact absurd rfl h
  ordered := .nil
  number_lt := by
    intro e t h
    cases h
  live := by
    intro e h
    cases h
  ne_this := by
    intro e h
    cases h
  unlinked := by
    intro e h _
    cases h.1
  handled := by
    refine ⟨.nil, ?_, .nil, ?_⟩
    · intro a h
      cases h
    · intro a h
      cases h

/-! ## One step -/

section Steps

variable {s : State} {l : List Ptr} {q : DelayQueue} {e : Ptr} {now : DelayEventTime}
  {delay : DelayInterval}

theorem advance_same (h : q.lastSyncTime = s.queue.lastSyncTime) :
    s.advance q = { s with queue := q } := by
  rw [advance, h, DelayQueue.elapsed_self, add_zero]

theorem remaining_advance (hlt : (s.advance q).time < LONG_MAX * MILLION) (x : Ptr) :
    (s.advance q).remaining x =
      max 0 (s.remaining x - DelayQueue.elapsed s.queue.lastSyncTime q.lastSyncTime) := by
  have h0 := DelayQueue.elapsed_nonneg s.queue.lastSyncTime q.lastSyncTime
  have hlt' : s.time + DelayQueue.elapsed s.queue.lastSyncTime q.lastSyncTime <
      LONG_MAX * MILLION := hlt
  cases hp : s.pending x with
  | some t =>
    rw [remaining_some hp, remaining_some (s := s.advance q) hp]
    simp only [advance]
    omega
  | none =>
    rw [remaining_none hp, remaining_none (s := s.advance q) hp, eternity_micros]
    simp only [advance, MILLION] at *
    omega

theorem time_advance (hsync : q.lastSyncTime = s.queue.lastSyncTime ∨ q.lastSyncTime = now)
    (h : Inv s l) (hc : s.ClockOk now) :
    q.lastSyncTime.IsTime ∧ 0 ≤ (s.advance q).time ∧
      (s.advance q).time < LONG_MAX * MILLION := by
  have h0 := DelayQueue.elapsed_nonneg s.queue.lastSyncTime q.lastSyncTime
  have hpos := h.time_nonneg
  refine ⟨?_, ?_, ?_⟩
  · rcases hsync with hs | hs
    · exact hs ▸ h.isTime
    · exact hs ▸ hc.isTime
  · simp only [advance]
    omega
  · rcases hsync with hs | hs
    · rw [advance_same hs]
      exact h.time_lt
    · simp only [advance, hs]
      exact hc.time_lt

theorem HandledInv.advance (h : s.HandledInv) : (s.advance q).HandledInv where
  nodup := h.nodup
  due a ha := by
    obtain ⟨t, ht, hdue, htime⟩ := h.due a ha
    exact ⟨t, ht, hdue, htime.trans (le_add_of_nonneg_right (DelayQueue.elapsed_nonneg _ _))⟩
  sorted := h.sorted
  before := h.before

theorem unlinked_of_keeps {q' : DelayQueue} (hk : DelayQueue.Keeps q q' e) (h : q.Unlinked e) :
    q'.Unlinked e := by
  rw [DelayQueue.Unlinked, hk.next, hk.prev]
  exact h

theorem Inv.advance (h : Inv s l) (hc : s.ClockOk now)
    (hq : s.queue.Synced q l s.remaining now) : Inv (s.advance q) l := by
  obtain ⟨htime, hnn, hlt⟩ := time_advance hq.clock h hc
  exact {
    repr := hq.repr.congr fun x _ => remaining_advance hlt x
    isTime := htime
    time_nonneg := hnn
    time_lt := hlt
    mem := h.mem
    ordered := h.ordered
    number_lt := h.number_lt
    live := h.live
    ne_this := h.ne_this
    unlinked := fun e he hp =>
      unlinked_of_keeps (hq.keeps e (h.not_mem he hp)) (h.unlinked e he hp)
    handled := h.handled.advance }

theorem Inv.create (h : Inv s l) (hnew : e ∉ s.created) (hne : e ≠ this) :
    Inv { s with queue := s.queue.newEntry e delay, created := e :: s.created } l := by
  have hlive : ∀ x, x ∈ l → x ≠ e := by
    rintro x hx rfl
    exact hnew (h.live x hx).1
  have hkeep : ∀ x, x ≠ e → DelayQueue.Keeps s.queue (s.queue.newEntry e delay) x := by
    intro x hx
    exact ⟨Function.update_of_ne hx _ _, Function.update_of_ne hx _ _,
      Function.update_of_ne hx _ _⟩
  refine { h with repr := h.repr.keep ?_, live := ?_, ne_this := ?_, unlinked := ?_, handled := ?_ }
  · intro x hx
    refine hkeep x ?_
    rcases List.mem_append.mp hx with hx | hx
    · exact hlive x hx
    · rw [List.mem_singleton.mp hx]
      exact hne.symm
  · intro x hx
    obtain ⟨h1, h2⟩ := h.live x hx
    exact ⟨List.mem_cons_of_mem _ h1, h2⟩
  · intro x hx
    rcases List.mem_cons.mp hx with rfl | hx
    · exact hne
    · exact h.ne_this x hx
  · rintro x ⟨hx, hh⟩ hp
    by_cases hxe : x = e
    · subst hxe
      exact .inr ⟨Function.update_self _ _ _, Function.update_self _ _ _⟩
    · refine unlinked_of_keeps (hkeep x hxe) (h.unlinked x ⟨?_, hh⟩ hp)
      exact (List.mem_cons.mp hx).resolve_left hxe
  · obtain ⟨h1, h2, h3, h4⟩ := h.handled
    exact ⟨h1, h2, h3, h4⟩

theorem HandledInv.cancel (h : s.HandledInv) : (s.cancel e).HandledInv where
  nodup := h.nodup
  due := h.due
  sorted := h.sorted
  before a ha t ht x u hx := by
    by_cases hxe : x = e
    · subst hxe
      rw [cancel_pending_self] at hx
      cases hx
    · rw [cancel_pending_of_ne s hxe] at hx
      exact h.before a ha t ht x u hx

theorem Inv.cancel (h : Inv s l) (hes : e ≠ this) (hq : q.Repr (l.erase e) s.remaining)
    (hu : s.Live e → q.Unlinked e) (hsync : q.lastSyncTime = s.queue.lastSyncTime)
    (hkeep : ∀ x, x ∉ l ++ [this] → x ≠ e → DelayQueue.Keeps s.queue q x) :
    Inv ((s.cancel e).advance q) (l.erase e) := by
  have hpend : ∀ x, x ≠ e → (s.cancel e).pending x = s.pending x := fun x hx =>
    cancel_pending_of_ne s hx
  have hpe : (s.cancel e).pending e = none := cancel_pending_self s e
  have hnd : l.Nodup := (List.nodup_cons.mp h.repr.ring.nodup).2
  have hmem : ∀ x, x ∈ l.erase e → x ∈ l ∧ x ≠ e := fun x hx =>
    ⟨List.mem_of_mem_erase hx, fun hxe => (hnd.mem_erase_iff.mp hx).1 hxe⟩
  rw [advance_same (s := s.cancel e) hsync]
  refine { h with
    repr := hq.congr ?_, isTime := ?_, mem := ?_, ordered := ?_, number_lt := ?_, live := ?_,
    unlinked := ?_, handled := ?_ }
  · intro x hx
    have hxe : x ≠ e := by
      rcases List.mem_append.mp hx with hx | hx
      · exact (hmem x hx).2
      · rw [List.mem_singleton.mp hx]
        exact hes.symm
    show remaining _ x = _
    simp only [remaining, hpend x hxe]
    rfl
  · exact hsync ▸ h.isTime
  · intro x
    show x ∈ l.erase e ↔ (s.cancel e).pending x ≠ none
    rw [hnd.mem_erase_iff, h.mem]
    by_cases hxe : x = e
    · subst hxe
      simp
    · simp [hxe, hpend x hxe]
  · refine List.Pairwise.imp_of_mem ?_ (h.ordered.sublist (List.erase_sublist))
    intro x y hx hy hxy a b ha hb
    refine hxy a b ?_ ?_
    · rw [← hpend x (hmem x hx).2]
      exact ha
    · rw [← hpend y (hmem y hy).2]
      exact hb
  · intro x t hx
    by_cases hxe : x = e
    · subst hxe
      rw [hpe] at hx
      cases hx
    · exact h.number_lt x t ((hpend x hxe).symm.trans hx)
  · exact fun x hx => h.live x (hmem x hx).1
  · intro x hx hp
    by_cases hxe : x = e
    · subst hxe
      exact hu hx
    · have hp' : s.pending x = none := (hpend x hxe).symm.trans hp
      exact unlinked_of_keeps (hkeep x (h.not_mem hx hp') hxe) (h.unlinked x hx hp')
  · obtain ⟨h1, h2, h3, h4⟩ := h.handled.cancel (e := e)
    exact ⟨h1, h2, h3, h4⟩

theorem Inv.removeEntry (h : Inv s l) (he : s.Live e) :
    ∃ q, Returns (s.queue.removeEntry (some e)) q ∧
      q.lastSyncTime = s.queue.lastSyncTime ∧ Inv ((s.cancel e).advance q) (l.erase e) := by
  have hes : e ≠ this := h.ne_this e he.1
  have hu : e ∉ l → s.queue.Unlinked e := by
    intro hnot
    refine h.unlinked e he ?_
    by_contra hp
    exact hnot ((h.mem e).mpr hp)
  obtain ⟨q, hret, hq, hnext, hsync, hkeep⟩ :=
    DelayQueue.removeEntry_spec h.repr h.remaining_this_le hes hu
  exact ⟨q, hret, hsync, h.cancel hes hq (fun _ => .inl hnext) hsync hkeep⟩

/-- The delay of an entry that is not in the queue is only looked at when it is added. -/
theorem Inv.setDelta (h : Inv s l) (delay : DelayInterval) (he : s.Live e) (hp : s.pending e = none) :
    Inv { s with queue := s.queue.setDelta e delay } l := by
  refine { h with repr := h.repr.keep ?_, handled := ?_ }
  · intro x hx
    have hxe : x ≠ e := by
      rintro rfl
      exact h.not_mem he hp hx
    exact ⟨rfl, rfl, Function.update_of_ne hxe _ _⟩
  · obtain ⟨h1, h2, h3, h4⟩ := h.handled
    exact ⟨h1, h2, h3, h4⟩

theorem HandledInv.schedule {d : Int} (h : s.HandledInv) (hd : 0 ≤ d) :
    (s.schedule e d).HandledInv where
  nodup := h.nodup
  due := h.due
  sorted := h.sorted
  before a ha t ht x u hx := by
    by_cases hxe : x = e
    · subst hxe
      -- what is added now is due no earlier than now, and was not handled before
      obtain ⟨t', ht', hdue, htime⟩ := h.due a ha
      rw [ht] at ht'
      cases ht'
      rw [schedule_pending_self] at hx
      cases hx
      show t.due ≤ s.time + d
      omega
    · rw [schedule_pending_of_ne s d hxe] at hx
      exact h.before a ha t ht x u hx

theorem Ordered.insert {s' : State} {l₁ l₂ : List Ptr} {t : Timer} (h : s.Ordered (l₁ ++ l₂))
    (hpe : s'.pending e = some t) (hpend : ∀ x ∈ l₁ ++ l₂, s'.pending x = s.pending x)
    (h1 : ∀ x ∈ l₁, ∀ a, s.pending x = some a → a.Before t)
    (h2 : ∀ x ∈ l₂, ∀ b, s.pending x = some b → t.Before b) : s'.Ordered (l₁ ++ e :: l₂) := by
  obtain ⟨hl₁, hl₂, hl⟩ := List.pairwise_append.mp h
  have hp₁ : ∀ x ∈ l₁, s'.pending x = s.pending x := fun x hx =>
    hpend x (List.mem_append_left _ hx)
  have hp₂ : ∀ x ∈ l₂, s'.pending x = s.pending x := fun x hx =>
    hpend x (List.mem_append_right _ hx)
  refine List.pairwise_append.mpr ⟨?_, List.pairwise_cons.mpr ⟨?_, ?_⟩, ?_⟩
  · refine List.Pairwise.imp_of_mem (fun hx hy hxy a b ha hb => ?_) hl₁
    exact hxy a b ((hp₁ _ hx).symm.trans ha) ((hp₁ _ hy).symm.trans hb)
  · intro y hy a b ha hb
    cases hpe.symm.trans ha
    exact h2 y hy b ((hp₂ y hy).symm.trans hb)
  · refine List.Pairwise.imp_of_mem (fun hx hy hxy a b ha hb => ?_) hl₂
    exact hxy a b ((hp₂ _ hx).symm.trans ha) ((hp₂ _ hy).symm.trans hb)
  · intro x hx y hy a b ha hb
    rcases List.mem_cons.mp hy with rfl | hy
    · cases hpe.symm.trans hb
      exact h1 x hx a ((hp₁ x hx).symm.trans ha)
    · exact hl x hx y hy a b ((hp₁ x hx).symm.trans ha) ((hp₂ y hy).symm.trans hb)

theorem Inv.addEntry (h : Inv s l) (he : s.Live e) (hp : s.pending e = none)
    (hc : s.ClockOk now) (hd : s.DelayOk now (s.queue.deltaTimeRemaining e)) :
    ∃ q l', Returns (s.queue.addEntry now e) q ∧
      Inv ((s.advance q).schedule e (s.queue.gap e)) l' := by
  have hend : DelayQueue.elapsed s.queue.lastSyncTime now + s.queue.gap e < s.remaining this := by
    have hlt := hd.due_lt
    rw [timeAt] at hlt
    rw [h.remaining_this, eternity_micros, DelayQueue.gap]
    unfold MILLION at *
    omega
  obtain ⟨q, l₁, l₂, rfl, h1, h2, hret, hq, hsync, hkeep⟩ :=
    DelayQueue.addEntry_spec h.repr h.isTime (h.reading hc) (h.not_mem he hp) hd.interval hend
  refine ⟨q, l₁ ++ e :: l₂, hret, ?_⟩
  obtain ⟨htime, hnn, hlt⟩ := time_advance (.inr hsync) h hc
  have hd0 : 0 ≤ s.queue.gap e := hd.interval.micros_nonneg
  have hnot := h.not_mem he hp
  have hrem : ∀ x, (s.advance q).remaining x =
      max 0 (s.remaining x - DelayQueue.elapsed s.queue.lastSyncTime now) := by
    intro x
    rw [remaining_advance hlt, hsync]
  let s' := (s.advance q).schedule e (s.queue.gap e)
  have hpe : s'.pending e = some ⟨(s.advance q).time + s.queue.gap e, s.inserted⟩ :=
    schedule_pending_self _ _ _
  have hpend : ∀ x, x ≠ e → s'.pending x = s.pending x := fun x hx =>
    schedule_pending_of_ne (s.advance q) _ hx
  have hne : ∀ x, x ∈ l₁ ++ l₂ → x ≠ e := by
    rintro x hx rfl
    exact hnot (List.mem_append_left _ hx)
  have hmem : ∀ x, x ∈ l₁ ++ e :: l₂ ↔ x = e ∨ x ∈ l₁ ++ l₂ := by
    intro x
    simp only [List.mem_append, List.mem_cons]
    tauto
  exact {
    repr := by
      refine hq.congr fun x hx => ?_
      by_cases hxe : x = e
      · subst hxe
        rw [Function.update_self, remaining_some hpe]
        show max 0 ((s.advance q).time + s.queue.gap x - (s.advance q).time) = _
        omega
      · rw [Function.update_of_ne hxe, ← hrem]
        show remaining s' x = _
        simp only [remaining, hpend x hxe]
        rfl
    isTime := htime
    time_nonneg := hnn
    time_lt := hlt
    mem := by
      intro x
      show x ∈ l₁ ++ e :: l₂ ↔ s'.pending x ≠ none
      rw [hmem]
      by_cases hxe : x = e
      · subst hxe
        simp [hpe]
      · rw [hpend x hxe, h.mem x]
        simp [hxe]
    ordered := by
      have htm : (s.advance q).time =
          s.time + DelayQueue.elapsed s.queue.lastSyncTime now := by rw [State.advance, hsync]
      have hel := DelayQueue.elapsed_nonneg s.queue.lastSyncTime now
      refine h.ordered.insert hpe (fun x hx => hpend x (hne x hx)) ?_ ?_
      · intro x hx a ha
        have hle := h1 x hx
        rw [remaining_some ha] at hle
        have hnum := h.number_lt x a ha
        simp only [Timer.Before]
        omega
      · intro x hx b hb
        have hgt := h2 x hx
        rw [remaining_some hb] at hgt
        simp only [Timer.Before]
        omega
    number_lt := by
      intro x t hx
      show t.number < s.inserted + 1
      by_cases hxe : x = e
      · subst hxe
        cases hpe.symm.trans hx
        exact Nat.lt_succ_self _
      · exact Nat.lt_succ_of_lt (h.number_lt x t ((hpend x hxe).symm.trans hx))
    live := by
      intro x hx
      rcases (hmem x).mp hx with rfl | hx
      · exact he
      · exact h.live x hx
    ne_this := h.ne_this
    unlinked := by
      intro x hx hxp
      have hxe : x ≠ e := by
        rintro rfl
        cases hpe.symm.trans hxp
      have hp' : s.pending x = none := (hpend x hxe).symm.trans hxp
      exact unlinked_of_keeps (hkeep x (h.not_mem hx hp') hxe) (h.unlinked x hx hp')
    handled := h.handled.advance.schedule hd0 }

theorem Inv.updateEntry (h : Inv s l) (he : s.Live e) (hc : s.ClockOk now)
    (hd : s.DelayOk now delay) :
    ∃ q l', Returns (s.queue.updateEntry now (some e) delay) q ∧
      Inv (((s.cancel e).advance q).schedule e delay.micros) l' := by
  obtain ⟨q₁, hret₁, hsync₁, hinv₁⟩ := h.removeEntry he
  rw [advance_same (s := s.cancel e) hsync₁] at hinv₁
  have hinv₂ := hinv₁.setDelta delay he (cancel_pending_self s e)
  let s₂ : State := { s.cancel e with queue := q₁.setDelta e delay }
  have hδ : s₂.queue.deltaTimeRemaining e = delay := Function.update_self _ _ _
  have htime : s₂.timeAt now = s.timeAt now := by
    show s.time + DelayQueue.elapsed q₁.lastSyncTime now = _
    rw [hsync₁]
    rfl
  have hc₂ : s₂.ClockOk now := ⟨hc.isTime, htime ▸ hc.time_lt⟩
  have hd₂ : s₂.DelayOk now (s₂.queue.deltaTimeRemaining e) := by
    rw [hδ]
    exact ⟨hd.interval, htime ▸ hd.due_lt⟩
  obtain ⟨q, l', hret, hinv⟩ := hinv₂.addEntry he (cancel_pending_self s e) hc₂ hd₂
  refine ⟨q, l', hret₁.bind hret, ?_⟩
  have hadv : s₂.advance q = (s.cancel e).advance q := by
    show ({ s.cancel e with
      queue := q
      time := s.time + DelayQueue.elapsed q₁.lastSyncTime q.lastSyncTime } : State) = _
    rw [hsync₁]
    rfl
  have hgap : s₂.queue.gap e = delay.micros := congrArg Timeval.micros hδ
  rw [← hadv, ← hgap]
  exact hinv

theorem Inv.timeToNextAlarm (h : Inv s l) (hc : s.ClockOk now) :
    ∃ r q, Returns (s.queue.timeToNextAlarm now) (r, q) ∧ Inv (s.advance q) l ∧
      r.micros = (s.advance q).remaining (l.headD this) := by
  obtain ⟨r, q, hret, hq, hr⟩ :=
    DelayQueue.timeToNextAlarm_spec h.repr h.isTime (h.reading hc) (h.elapsed_lt hc)
  have hinv := h.advance hc hq
  exact ⟨r, q, hret, hinv, hr.trans (remaining_advance hinv.time_lt _).symm⟩

theorem Inv.beginAlarm (h : Inv s l) (hc : s.ClockOk now) :
    ∃ q, Returns (s.queue.beginAlarm now) q ∧ Inv (s.advance q) l := by
  obtain ⟨q, hret, hq⟩ :=
    DelayQueue.beginAlarm_spec h.repr h.isTime (h.reading hc) (h.elapsed_lt hc)
  exact ⟨q, hret, h.advance hc hq⟩

theorem Inv.control (h : Inv s l) (c : Control) : Inv { s with control := c } l := by
  obtain ⟨h1, h2, h3, h4⟩ := h.handled
  exact { h with handled := ⟨h1, h2, h3, h4⟩ }

theorem Inv.head_le (h : Inv s (e :: l)) {t : Timer} (ht : s.pending e = some t) (x : Ptr)
    (u : Timer) (hu : s.pending x = some u) : t.due ≤ u.due := by
  have hx : x ∈ e :: l := by
    rw [h.mem, hu]
    exact Option.some_ne_none u
  rcases List.mem_cons.mp hx with rfl | hx
  · cases ht.symm.trans hu
    exact le_rfl
  · have hb := (List.pairwise_cons.mp h.ordered).1 x hx t u ht hu
    rcases hb with hb | hb
    · exact hb.le
    · exact hb.1.le

theorem Inv.head_pending (h : Inv s (e :: l)) : ∃ t, s.pending e = some t :=
  Option.ne_none_iff_exists'.mp ((h.mem e).mp (by simp))

theorem HandledInv.handle (h : s.HandledInv) {t : Timer} (ht : s.pending e = some t)
    (hnew : e ∉ s.handled.map Alarm.entry) (hdue : t.due ≤ s.time)
    (hle : ∀ x u, s.pending x = some u → t.due ≤ u.due) : (s.handle e).HandledInv where
  nodup := by
    show ((s.handled ++ [_]).map Alarm.entry).Nodup
    rw [List.map_append, List.nodup_append]
    refine ⟨h.nodup, List.nodup_singleton _, ?_⟩
    intro a ha b hb hab
    rw [List.map_singleton, List.mem_singleton] at hb
    subst hb hab
    exact hnew ha
  due a ha := by
    rcases List.mem_append.mp ha with ha | ha
    · exact h.due a ha
    · rw [List.mem_singleton.mp ha]
      exact ⟨t, ht, hdue, le_rfl⟩
  sorted := by
    refine List.pairwise_append.mpr ⟨h.sorted, List.pairwise_singleton _ _, ?_⟩
    intro a ha b hb u v hu hv
    rw [List.mem_singleton.mp hb] at hv
    exact h.before a ha u hu e v hv
  before a ha u hu x v hv := by
    have hv' : s.pending x = some v := by
      by_cases hxe : x = e
      · subst hxe
        cases (cancel_pending_self s x).symm.trans hv
      · exact (cancel_pending_of_ne s hxe).symm.trans hv
    rcases List.mem_append.mp ha with ha | ha
    · exact h.before a ha u hu x v hv'
    · rw [List.mem_singleton.mp ha] at hu
      cases ht.symm.trans hu
      exact hle x v hv'

theorem Inv.remaining_this_pos (h : Inv s l) : 0 < s.remaining this := by
  have hlt := h.time_lt
  rw [h.remaining_this, eternity_micros]
  unfold MILLION at *
  omega

theorem Inv.nextAlarm_none (h : Inv s l) (hret : Returns s.queue.nextAlarm (none, q)) :
    q = s.queue ∧ ∀ x u, s.pending x = some u → s.time < u.due := by
  cases l with
  | nil =>
    have hnone := DelayQueue.nextAlarm_none h.repr h.remaining_this_pos.ne'
    cases hret.unique hnone
    refine ⟨rfl, fun x u hu => ?_⟩
    have hx : x ∈ [] := by
      rw [h.mem, hu]
      exact Option.some_ne_none u
    cases hx
  | cons e l =>
    obtain ⟨t, ht⟩ := h.head_pending
    have hrem := remaining_some ht
    by_cases hz : s.remaining e = 0
    · obtain ⟨q', hsome, -⟩ := DelayQueue.nextAlarm_some h.repr h.remaining_this_le hz
      cases hret.unique hsome
    · have hnone := DelayQueue.nextAlarm_none h.repr hz
      cases hret.unique hnone
      refine ⟨rfl, fun x u hu => ?_⟩
      have hle := h.head_le ht x u hu
      omega

/-- Otherwise the handler of the head is called, which is due. -/
theorem Inv.nextAlarm_some (h : Inv s l) (hret : Returns s.queue.nextAlarm (some e, q)) :
    ∃ l', Inv ((s.handle e).advance q) l' := by
  cases l with
  | nil =>
    have hnone := DelayQueue.nextAlarm_none h.repr h.remaining_this_pos.ne'
    cases hret.unique hnone
  | cons x l =>
    obtain ⟨t, ht⟩ := h.head_pending
    have hrem := remaining_some ht
    by_cases hz : s.remaining x = 0
    · obtain ⟨q', hsome, hq, hnext, hsync, hkeep⟩ :=
        DelayQueue.nextAlarm_some h.repr h.remaining_this_le hz
      cases hret.unique hsome
      obtain ⟨hcreated, hnew⟩ := h.live e (by simp)
      have hnot : e ∉ l := (List.nodup_cons.mp (List.nodup_cons.mp h.repr.ring.nodup).2).1
      have hinv : Inv ((s.cancel e).advance q) l := by
        have herase : (e :: l).erase e = l := List.erase_cons_head e l
        rw [← herase] at hq ⊢
        exact h.cancel (h.ne_this e hcreated) hq (fun _ => .inl hnext) hsync
          fun y hy _ => hkeep y hy
      refine ⟨l, { hinv with live := ?_, unlinked := ?_, handled := ?_ }⟩
      · intro y hy
        obtain ⟨h1, h2⟩ := hinv.live y hy
        refine ⟨h1, ?_⟩
        show y ∉ (s.handled ++ [_]).map Alarm.entry
        rw [List.map_append, List.mem_append]
        rintro (h3 | h3)
        · exact h2 h3
        · rw [List.map_singleton, List.mem_singleton] at h3
          have hye : y = e := h3
          exact hnot (hye ▸ hy)
      · rintro y ⟨h1, h2⟩ hp
        refine hinv.unlinked y ⟨h1, fun h3 => h2 ?_⟩ hp
        show y ∈ (s.handled ++ [_]).map Alarm.entry
        rw [List.map_append]
        exact List.mem_append_left _ h3
      · exact (h.handled.handle ht hnew (by omega) (h.head_le ht)).advance
    · have hnone := DelayQueue.nextAlarm_none h.repr hz
      cases hret.unique hnone

end Steps

theorem Inv.step {s s' : State} {l : List Ptr} {a : Event} (h : Inv s l) (hs : Step s a s') :
    ∃ l', Inv s' l' := by
  cases hs with
  | create e delay _ hnew hne _ => exact ⟨l, h.create hnew hne⟩
  | addEntry e now q _ he hp hc hd hret =>
    obtain ⟨q', l', hret', hinv⟩ := h.addEntry he hp hc hd
    cases hret.unique hret'
    exact ⟨l', hinv⟩
  | updateEntry e delay now q _ he hc hd hret =>
    obtain ⟨q', l', hret', hinv⟩ := h.updateEntry he hc hd
    cases hret.unique hret'
    exact ⟨l', hinv⟩
  | updateNull delay now q _ hc hret =>
    cases hret.unique (.pure s.queue)
    exact ⟨l, h.advance hc (.refl h.repr)⟩
  | removeEntry e q _ he hret =>
    obtain ⟨q', hret', _, hinv⟩ := h.removeEntry he
    cases hret.unique hret'
    exact ⟨_, hinv⟩
  | removeNull q _ hret =>
    cases hret.unique (.pure s.queue)
    rw [advance_same rfl]
    exact ⟨l, h⟩
  | timeToNextAlarm now answer q _ hc hret =>
    obtain ⟨r, q', hret', hinv, _⟩ := h.timeToNextAlarm hc
    cases hret.unique hret'
    exact ⟨l, hinv⟩
  | handleAlarm now q _ hc hret =>
    obtain ⟨q', hret', hinv⟩ := h.beginAlarm hc
    cases hret.unique hret'
    exact ⟨l, hinv.control .loop⟩
  | handler e q _ hret => exact h.nextAlarm_some hret
  | handlerReturns e _ => exact ⟨l, h.control .loop⟩
  | handleAlarmReturns q _ hret =>
    obtain ⟨rfl, _⟩ := h.nextAlarm_none hret
    rw [advance_same rfl]
    exact ⟨l, h.control .idle⟩

end State

theorem reachable_inv {s : State} (h : alarms.Reachable s) : ∃ l, s.Inv l := by
  refine h.invariant (fun s => ∃ l, s.Inv l) ?_ ?_
  · rintro s ⟨now, hnow, rfl⟩
    exact ⟨[], State.inv_start hnow⟩
  · rintro s a s' ⟨l, hl⟩ hs
    exact hl.step hs

end Scheduler
end Huicpp
