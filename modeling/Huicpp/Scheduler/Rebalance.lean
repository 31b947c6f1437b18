import Mathlib
import Huicpp.Cxx.Ring
import Huicpp.Cxx.DeltaList
import Huicpp.Scheduler.DelayQueue

/-!
# Scheduler.Rebalance

What the operations do to the list of entries and their times. `Repr q l τ` says that the ring of
`q` holds the entries `l`, and that the differences in it store the times `τ`, from now, at which
they are due. The sentinel stands at the end of the list, with a time beyond every delay.

Each operation has one total specification: it returns, and the queue it leaves represents the new
list and times. Entries outside the ring keep their fields.
-/

namespace Huicpp
namespace Scheduler

open Cxx Cxx.Prog

namespace DelayQueue

/-- What an entry's time remaining means. -/
def gap (q : DelayQueue) (p : Ptr) : Int := (q.deltaTimeRemaining p).micros

structure Repr (q : DelayQueue) (l : List Ptr) (τ : Ptr → Int) : Prop where
  ring : IsRing q.next q.prev this l
  interval : ∀ x ∈ l ++ [this], (q.deltaTimeRemaining x).IsInterval
  stored : Stored q.gap τ 0 (l ++ [this])

/-- The fields of an entry are the same. -/
structure Keeps (q q' : DelayQueue) (p : Ptr) : Prop where
  next : q'.next p = q.next p
  prev : q'.prev p = q.prev p
  delta : q'.deltaTimeRemaining p = q.deltaTimeRemaining p

theorem Keeps.refl (q : DelayQueue) (p : Ptr) : Keeps q q p := ⟨rfl, rfl, rfl⟩

theorem Keeps.trans {q q' q'' : DelayQueue} {p : Ptr} (h : Keeps q q' p) (h' : Keeps q' q'' p) :
    Keeps q q'' p :=
  ⟨h'.next.trans h.next, h'.prev.trans h.prev, h'.delta.trans h.delta⟩

namespace Repr

variable {q : DelayQueue} {l : List Ptr} {τ τ' : Ptr → Int}

theorem gap_nonneg (h : Repr q l τ) : ∀ x ∈ l ++ [this], 0 ≤ q.gap x := fun x hx =>
  (h.interval x hx).micros_nonneg

theorem nonneg (h : Repr q l τ) : ∀ x ∈ l ++ [this], 0 ≤ τ x := h.stored.le h.gap_nonneg

theorem le_this (h : Repr q l τ) : ∀ x ∈ l ++ [this], τ x ≤ τ this := by
  intro x hx
  rcases List.mem_append.mp hx with hx | hx
  · obtain ⟨l₁, l₂, rfl⟩ := List.append_of_mem hx
    have hs := h.stored
    rw [List.append_assoc, stored_append] at hs
    refine hs.2.2.le (fun y hy => h.gap_nonneg y ?_) this (by simp)
    rw [List.append_assoc]
    exact List.mem_append_right _ (List.mem_cons_of_mem _ hy)
  · rw [List.mem_singleton.mp hx]

theorem congr (hτ : ∀ x ∈ l ++ [this], τ' x = τ x) (h : Repr q l τ) : Repr q l τ' where
  ring := h.ring
  interval := h.interval
  stored := h.stored.congr (fun _ _ => rfl) hτ

theorem nodup (h : Repr q l τ) : (l ++ [this]).Nodup := by
  have hnd := h.ring.nodup
  rw [List.nodup_cons] at hnd
  rw [List.nodup_append]
  refine ⟨hnd.2, List.nodup_singleton _, ?_⟩
  intro a ha b hb hab
  rw [List.mem_singleton.mp hb] at hab
  exact hnd.1 (hab ▸ ha)

theorem head (h : Repr q l τ) {l₁ l₂ : List Ptr} {c : Ptr} (hl : l ++ [this] = l₁ ++ c :: l₂) :
    Returns q.head (l₁.headD c) := by
  have hch : List.IsChain (Linked q.next q.prev) (this :: (l₁ ++ c :: l₂)) := by
    rw [← hl]
    exact h.ring.chain
  exact returns_deref (next_of_isChain hch)

theorem head_mem : l.headD this ∈ l ++ [this] := by
  cases l with
  | nil => simp
  | cons x l => simp

theorem gap_head (h : Repr q l τ) : q.gap (l.headD this) = τ (l.headD this) := by
  have hs := h.stored
  cases l with
  | nil => exact hs.1.trans (sub_zero _)
  | cons x l => exact hs.1.trans (sub_zero _)

theorem keep {q' : DelayQueue} (h : Repr q l τ) (hk : ∀ x ∈ l ++ [this], Keeps q q' x) :
    Repr q' l τ where
  ring := by
    refine h.ring.congr (fun x hx => (hk x ?_).next) fun x hx => (hk x ?_).prev
    · simpa [or_comm] using hx
    · simpa [or_comm] using hx
  interval x hx := by
    rw [(hk x hx).delta]
    exact h.interval x hx
  stored := h.stored.congr (fun x hx => congrArg Timeval.micros (hk x hx).delta) fun _ _ => rfl

end Repr

/-! ## synchronize -/

/-- The entries of a list are due now. -/
def clear (q : DelayQueue) (l : List Ptr) : DelayQueue :=
  l.foldl (fun q x => q.setDelta x DELAY_ZERO) q

theorem clear_links (q : DelayQueue) (l : List Ptr) :
    (q.clear l).next = q.next ∧ (q.clear l).prev = q.prev ∧
      (q.clear l).lastSyncTime = q.lastSyncTime := by
  induction l generalizing q with
  | nil => exact ⟨rfl, rfl, rfl⟩
  | cons x l ih => exact ih (q.setDelta x DELAY_ZERO)

theorem clear_delta (q : DelayQueue) (l : List Ptr) (p : Ptr) :
    (q.clear l).deltaTimeRemaining p = if p ∈ l then DELAY_ZERO else q.deltaTimeRemaining p := by
  induction l generalizing q with
  | nil => simp [clear]
  | cons x l ih =>
    refine (ih (q.setDelta x DELAY_ZERO)).trans ?_
    rw [setDelta_delta, Function.update_apply]
    by_cases hpl : p ∈ l
    · simp [hpl]
    · simp [hpl]

/-- The loop of `synchronize` clears the entries whose time is up, and stops at the first one whose
time is not. -/
theorem sweep_loop (l₁ : List Ptr) {c : Ptr} {l₂ : List Ptr} {d : Int} {τ : Ptr → Int} :
    ∀ (q : DelayQueue) (b : Int) (t : DelayInterval),
      List.IsChain (Linked q.next q.prev) (l₁ ++ c :: l₂) → (l₁ ++ c :: l₂).Nodup →
      (∀ x ∈ l₁ ++ c :: l₂, (q.deltaTimeRemaining x).IsInterval) →
      Stored q.gap τ b (l₁ ++ c :: l₂) → (∀ x ∈ l₁, τ x ≤ d) → d < τ c →
      t.IsInterval → t.micros = d - b →
      ∃ t', t'.IsInterval ∧ t'.micros = d - endTime τ b l₁ ∧
        Returns (whileDo sweepTest sweepBody (t, l₁.headD c, q)) (t', c, q.clear l₁) := by
  induction l₁ with
  | nil =>
    intro q b t _ _ hint hst _ hc ht htm
    refine ⟨t, ht, htm, .while_done ?_⟩
    refine (Timeval.ge_eq_false_iff ht.isTime (hint c (by simp)).isTime).mpr ?_
    have hgap : q.gap c = τ c - b := hst.1
    show t.micros < q.gap c
    omega
  | cons x l₁ ih =>
    intro q b t hch hnd hint hst hle hc ht htm
    have hx := hint x (by simp)
    have hgap : (q.deltaTimeRemaining x).micros = τ x - b := hst.1
    have hxd : τ x ≤ d := hle x (by simp)
    obtain ⟨ht1, ht1m⟩ := Timeval.subAssign_of_le ht hx (by omega)
    obtain ⟨hxnot, hnd'⟩ := List.nodup_cons.mp hnd
    have hother : ∀ y ∈ l₁ ++ c :: l₂, (q.setDelta x DELAY_ZERO).deltaTimeRemaining y =
        q.deltaTimeRemaining y := fun y hy =>
      Function.update_of_ne (fun h : y = x => hxnot (h ▸ hy)) _ _
    have hlink : q.next x = some (l₁.headD c) := next_of_isChain hch
    obtain ⟨t', ht', ht'm, hret⟩ := ih (q.setDelta x DELAY_ZERO) (τ x)
      (t.subAssign (q.deltaTimeRemaining x)) hch.tail hnd'
      (fun y hy => by rw [hother y hy]; exact hint y (List.mem_cons_of_mem _ hy))
      (hst.2.congr (fun y hy => congrArg Timeval.micros (hother y hy)) fun _ _ => rfl)
      (fun y hy => hle y (List.mem_cons_of_mem _ hy)) hc ht1 (by omega)
    refine ⟨t', ht', ht'm, .while_step ?_ ?_ hret⟩
    · exact (Timeval.ge_iff ht.isTime hx.isTime).mpr (by omega)
    · exact (returns_deref hlink).bind (.pure _)

/-- `operator-` loses the time between two readings: its whole seconds fit a `long`, and are negative
as an `int`. -/
def Slips (last now : DelayEventTime) : Prop :=
  now.seconds - last.seconds ≤ LONG_MAX ∧ toInt (now.wholeSeconds last) < 0

instance (last now : DelayEventTime) : Decidable (Slips last now) :=
  inferInstanceAs (Decidable (_ ∧ _))

/-- The time that passes between two readings of the clock, none if it is set back. -/
def elapsed (last now : DelayEventTime) : Int :=
  if Slips last now then 0 else max 0 (now.micros - last.micros)

/-- Less than `2 ^ 31` seconds are never lost. -/
theorem elapsed_of_lt {last now : DelayEventTime}
    (h : now.micros - last.micros < 2 ^ 31 * MILLION) :
    elapsed last now = max 0 (now.micros - last.micros) := by
  unfold elapsed
  by_cases hback : now.micros < last.micros
  · have hmax : max 0 (now.micros - last.micros) = 0 := by omega
    rw [hmax, ite_self]
  · have hslip : ¬ Slips last now := by
      rintro ⟨_, hint⟩
      rw [Timeval.wholeSeconds, toInt_eq] at hint <;> unfold MILLION at * <;> omega
    rw [if_neg hslip]

theorem elapsed_nonneg (last now : DelayEventTime) : 0 ≤ elapsed last now := by
  unfold elapsed
  split
  · exact le_rfl
  · exact le_max_left _ _

/-- A reading that may come after `last`: the clock may be set back by any amount, and goes forward
by less than `LONG_MAX` seconds, as `synchronize` counts them. -/
structure Reading (last now : DelayEventTime) : Prop where
  isTime : now.IsTime
  elapsed_lt : elapsed last now < LONG_MAX * MILLION

variable {q : DelayQueue} {l : List Ptr} {τ : Ptr → Int} {now : DelayEventTime}

theorem sweep_spec (h : Repr q l τ) {t : DelayInterval} {d : Int} (ht : t.IsInterval)
    (htm : t.micros = d) (hend : d < τ this) :
    ∃ q', Returns (q.sweep t) q' ∧ Repr q' l (fun x => max 0 (τ x - d)) ∧
      q'.lastSyncTime = q.lastSyncTime ∧ ∀ x, x ∉ l ++ [this] → Keeps q q' x := by
  obtain ⟨l₁, c, l₂, hl, hle, hc⟩ :=
    exists_later τ (List.mem_append_right l (List.mem_singleton_self this)) hend
  have hhead := h.head hl
  have hnd := h.nodup
  have hint := h.interval
  have hst := h.stored
  have hch : List.IsChain (Linked q.next q.prev) (l ++ [this]) := h.ring.chain.tail
  rw [hl] at hnd hint hst hch
  obtain ⟨t', ht', ht'm, hret⟩ :=
    sweep_loop l₁ q 0 t hch hnd hint hst hle hc ht (by omega)
  obtain ⟨hnext, hprev, hsync⟩ := clear_links q l₁
  have hcl₁ : c ∉ l₁ := by grind
  have hcleared : (q.clear l₁).deltaTimeRemaining c = q.deltaTimeRemaining c := by
    rw [clear_delta, if_neg hcl₁]
  -- what is left of `d` is less than the difference of `c`
  have hgap : (q.deltaTimeRemaining c).micros = τ c - endTime τ 0 l₁ :=
    (stored_append.mp hst).2.1
  obtain ⟨hc', hcm'⟩ := Timeval.subAssign_of_le (hint c (by simp)) ht' (by omega)
  refine ⟨(q.clear l₁).setDelta c ((q.deltaTimeRemaining c).subAssign t'), ?_, ⟨?_, ?_, ?_⟩,
    hsync, ?_⟩
  · refine hhead.bind (hret.bind ?_)
    rw [← hcleared]
    exact .pure _
  · rw [setDelta_next, setDelta_prev, hnext, hprev]
    exact h.ring
  · intro x hx
    rw [setDelta_delta, Function.update_apply, clear_delta]
    by_cases hxc : x = c
    · rw [if_pos hxc]
      exact hc'
    · rw [if_neg hxc]
      split
      · exact Timeval.isInterval_zero
      · exact h.interval x hx
  · rw [hl]
    refine Stored.sweep (fun x hx => (hint x (by simp [hx])).micros_nonneg) hle hc ?_ ?_ ?_
      (fun _ _ => rfl) hst
    · intro x hx
      have hxc : x ≠ c := by grind
      rw [gap, setDelta_delta, Function.update_of_ne hxc, clear_delta, if_pos hx,
        Timeval.micros_zero]
    · rw [gap, setDelta_delta, Function.update_self, hcm', ht'm]
    · intro x hx
      have hxc : x ≠ c := by grind
      have hx₁ : x ∉ l₁ := by grind
      rw [gap, setDelta_delta, Function.update_of_ne hxc, clear_delta, if_neg hx₁]
  · intro x hx
    rw [hl] at hx
    have hxc : x ≠ c := by grind
    have hx₁ : x ∉ l₁ := by grind
    refine ⟨?_, ?_, ?_⟩
    · rw [setDelta_next, hnext]
    · rw [setDelta_prev, hprev]
    · rw [setDelta_delta, Function.update_of_ne hxc, clear_delta, if_neg hx₁]

theorem elapsed_of_back {last : DelayEventTime} (h : now.micros < last.micros) :
    elapsed last now = 0 := by
  have hmax : max 0 (now.micros - last.micros) = 0 := by omega
  rw [elapsed, hmax, ite_self]

theorem sub_elapsed {last : DelayEventTime} (hlast : last.IsTime) (hnow : Reading last now)
    (hge : last.micros ≤ now.micros) :
    (now.sub last).IsInterval ∧ (now.sub last).micros = elapsed last now := by
  have hfits : now.seconds - last.seconds ≤ LONG_MAX := by
    by_contra hfar
    have hlt := hnow.elapsed_lt
    rw [elapsed, if_neg fun h : Slips last now => hfar h.1] at hlt
    obtain ⟨_, _, hn3, _⟩ := hnow.isTime
    obtain ⟨_, _, _, hl4⟩ := hlast
    simp only [Timeval.micros, MILLION] at *
    omega
  obtain ⟨hint, hmicros⟩ := Timeval.sub_spec hnow.isTime hlast hge hfits
  refine ⟨hint, hmicros.trans ?_⟩
  by_cases hslip : toInt (now.wholeSeconds last) < 0
  · rw [if_pos hslip, elapsed, if_pos ⟨hfits, hslip⟩]
  · rw [if_neg hslip, elapsed, if_neg fun h : Slips last now => hslip h.2]
    omega

theorem synchronize_spec (h : Repr q l τ) (hlast : q.lastSyncTime.IsTime)
    (hnow : Reading q.lastSyncTime now) (hend : elapsed q.lastSyncTime now < τ this) :
    ∃ q', Returns (q.synchronize now) q' ∧
      Repr q' l (fun x => max 0 (τ x - elapsed q.lastSyncTime now)) ∧
      q'.lastSyncTime = now ∧ ∀ x, x ∉ l ++ [this] → Keeps q q' x := by
  have hrepr : Repr { q with lastSyncTime := now } l τ := ⟨h.ring, h.interval, h.stored⟩
  cases hlt : now.lt q.lastSyncTime with
  | true =>
    have hback : now.micros < q.lastSyncTime.micros := by
      rw [Timeval.lt, Bool.not_eq_true'] at hlt
      exact (Timeval.ge_eq_false_iff hnow.isTime hlast).mp hlt
    refine ⟨{ q with lastSyncTime := now }, ?_, hrepr.congr ?_, rfl, fun x _ => ⟨rfl, rfl, rfl⟩⟩
    · rw [synchronize, if_pos hlt]
      exact .pure _
    · intro x hx
      have := h.nonneg x hx
      rw [elapsed_of_back hback]
      omega
  | false =>
    have hge : q.lastSyncTime.micros ≤ now.micros := by
      rw [Timeval.lt, Bool.not_eq_false'] at hlt
      exact (Timeval.ge_iff hnow.isTime hlast).mp hlt
    obtain ⟨ht, htm⟩ := sub_elapsed hlast hnow hge
    obtain ⟨q', hret, hq', hsync, hkeep⟩ := sweep_spec hrepr ht htm hend
    refine ⟨q', ?_, hq', hsync, fun x hx => ?_⟩
    · rw [synchronize, if_neg (Bool.eq_false_iff.mp hlt)]
      exact hret
    · obtain ⟨h1, h2, h3⟩ := hkeep x hx
      exact ⟨h1, h2, h3⟩

/-! ## AddEntry -/

/-- The loop of `AddEntry` passes the entries that are due no later than the new one. -/
theorem place_loop (l₁ : List Ptr) {e c : Ptr} {l₂ : List Ptr} {d : Int} {τ : Ptr → Int}
    (he : e ∉ l₁ ++ c :: l₂) :
    ∀ (q : DelayQueue) (b : Int),
      List.IsChain (Linked q.next q.prev) (l₁ ++ c :: l₂) →
      (∀ x ∈ l₁ ++ c :: l₂, (q.deltaTimeRemaining x).IsInterval) →
      Stored q.gap τ b (l₁ ++ c :: l₂) → (∀ x ∈ l₁, τ x ≤ d) → d < τ c →
      (q.deltaTimeRemaining e).IsInterval → q.gap e = d - b →
      ∃ v, v.IsInterval ∧ v.micros = d - endTime τ b l₁ ∧
        Returns (whileDo (placeTest e) (placeBody e) (l₁.headD c, q)) (c, q.setDelta e v) := by
  induction l₁ with
  | nil =>
    intro q b _ hint hst _ hc hint_e hgap_e
    have hgap : q.gap c = τ c - b := hst.1
    have hself : q.setDelta e (q.deltaTimeRemaining e) = q := by
      simp [setDelta]
    refine ⟨q.deltaTimeRemaining e, hint_e, hgap_e, ?_⟩
    rw [hself]
    refine .while_done ?_
    refine (Timeval.ge_eq_false_iff hint_e.isTime (hint c (by simp)).isTime).mpr ?_
    show q.gap e < q.gap c
    omega
  | cons x l₁ ih =>
    intro q b hch hint hst hle hc hint_e hgap_e
    have hx := hint x (by simp)
    have hgap : q.gap x = τ x - b := hst.1
    have hxd : τ x ≤ d := hle x (by simp)
    have hxe : q.gap x ≤ q.gap e := by omega
    obtain ⟨hv, hvm⟩ := Timeval.subAssign_of_le hint_e hx hxe
    have hother : ∀ (v : DelayInterval), ∀ y ∈ l₁ ++ c :: l₂,
        (q.setDelta e v).deltaTimeRemaining y = q.deltaTimeRemaining y := by
      intro v y hy
      have hye : y ≠ e := fun h => he (h ▸ List.mem_cons_of_mem _ hy)
      rw [setDelta_delta, Function.update_of_ne hye]
    have hlink : q.next x = some (l₁.headD c) := next_of_isChain hch
    let v := (q.deltaTimeRemaining e).subAssign (q.deltaTimeRemaining x)
    obtain ⟨v', hv', hvm', hret⟩ := ih (fun h => he (List.mem_cons_of_mem _ h))
      (q.setDelta e v) (τ x) hch.tail
      (fun y hy => by rw [hother v y hy]; exact hint y (List.mem_cons_of_mem _ hy))
      (hst.2.congr (fun y hy => congrArg Timeval.micros (hother v y hy)) fun _ _ => rfl)
      (fun y hy => hle y (List.mem_cons_of_mem _ hy)) hc
      (by rw [setDelta_delta, Function.update_self]; exact hv)
      (by
        rw [gap, setDelta_delta, Function.update_self]
        show v.micros = _
        have : v.micros = q.gap e - q.gap x := hvm
        omega)
    rw [setDelta_setDelta] at hret
    refine ⟨v', hv', hvm', .while_step ?_ ?_ hret⟩
    · exact (Timeval.ge_iff hint_e.isTime hx.isTime).mpr hxe
    · exact (returns_deref hlink).bind (.pure _)

/-- `e` goes in after the entries that are due no later, and before the others. -/
theorem placeEntry_spec (h : Repr q l τ) {e : Ptr} (he : e ∉ l ++ [this])
    (hint_e : (q.deltaTimeRemaining e).IsInterval) (hend : q.gap e < τ this) :
    ∃ q' l₁ l₂, l = l₁ ++ l₂ ∧ (∀ x ∈ l₁, τ x ≤ q.gap e) ∧ (∀ x ∈ l₂, q.gap e < τ x) ∧
      Returns (q.placeEntry e) q' ∧ Repr q' (l₁ ++ e :: l₂) (Function.update τ e (q.gap e)) ∧
      q'.lastSyncTime = q.lastSyncTime ∧ ∀ x, x ∉ l ++ [this] → x ≠ e → Keeps q q' x := by
  obtain ⟨l₁, c, m, hl, hle, hc⟩ :=
    exists_later τ (List.mem_append_right l (List.mem_singleton_self this)) hend
  obtain ⟨l₂, rfl, hl₂⟩ := split_sentinel hl
  obtain ⟨a, p, hp, hprev⟩ := h.ring.exists_prev hl
  have hhead := h.head hl
  have hnd := h.nodup
  have hint := h.interval
  have hst := h.stored
  have hch : List.IsChain (Linked q.next q.prev) ((l₁ ++ l₂) ++ [this]) := h.ring.chain.tail
  rw [hl] at hnd hint hst hch he
  obtain ⟨v, hv, hvm, hret⟩ :=
    place_loop l₁ he q 0 hch hint hst hle hc hint_e (sub_zero _).symm
  have hec : e ≠ c := by grind
  -- the difference of `c` is more than what is left of the new delay
  have hgap : (q.deltaTimeRemaining c).micros = τ c - endTime τ 0 l₁ :=
    (stored_append.mp hst).2.1
  obtain ⟨hw, hwm⟩ := Timeval.subAssign_of_le (hint c (by simp)) hv (by omega)
  let w := (q.deltaTimeRemaining c).subAssign v
  let q₁ := (q.setDelta e v).setDelta c w
  have hδc : q₁.deltaTimeRemaining c = w := Function.update_self _ _ _
  have hδe : q₁.deltaTimeRemaining e = v := by
    rw [setDelta_delta, Function.update_of_ne hec, setDelta_delta, Function.update_self]
  have hδ : ∀ x, x ≠ c → x ≠ e → q₁.deltaTimeRemaining x = q.deltaTimeRemaining x := by
    intro x hxc hxe
    rw [setDelta_delta, Function.update_of_ne hxc, setDelta_delta, Function.update_of_ne hxe]
  refine ⟨(((q₁.setNext e (some c)).setPrev e (some p)).setNext p (some e)).setPrev c (some e),
    l₁, l₂, rfl, hle, ?_, ?_, ⟨?_, ?_, ?_⟩, rfl, ?_⟩
  · intro x hx
    have hxm : x ∈ c :: m := hl₂ ▸ List.mem_append_left _ hx
    rcases List.mem_cons.mp hxm with rfl | hxm
    · exact hc
    · refine hc.trans_le ((stored_append.mp hst).2.2.le ?_ x hxm)
      exact fun y hy => (hint y (by simp [hy])).micros_nonneg
  · refine hhead.bind (hret.bind ?_)
    have hw' : ((q.setDelta e v).deltaTimeRemaining c).subAssign
        ((q.setDelta e v).deltaTimeRemaining e) = w := by
      rw [setDelta_delta, Function.update_self, Function.update_of_ne hec.symm]
    show Returns (deref _ >>= _) _
    rw [hw']
    refine Returns.bind (a := p) (returns_deref ?_) ?_
    · simpa using hprev
    · simp only [setNext_prev, setDelta_prev, hprev]
      exact .pure _
  · exact h.ring.insert (by grind) (by grind) hp hl₂
  · intro x hx
    show (q₁.deltaTimeRemaining x).IsInterval
    by_cases hxc : x = c
    · rw [hxc, hδc]
      exact hw
    · by_cases hxe : x = e
      · rw [hxe, hδe]
        exact hv
      · rw [hδ x hxc hxe]
        exact h.interval x (by simpa [hxe] using hx)
  · rw [List.append_assoc, List.cons_append, hl₂]
    refine hst.insert (d := q.gap e) ?_ ?_ ?_ ?_ ?_ ?_
    · show (q₁.deltaTimeRemaining e).micros = _
      rw [hδe, hvm]
    · show (q₁.deltaTimeRemaining c).micros = q.gap c - (q₁.deltaTimeRemaining e).micros
      rw [hδc, hδe, hwm, gap]
    · exact fun x hx => congrArg Timeval.micros (hδ x (by grind) (by grind))
    · exact fun x hx => congrArg Timeval.micros (hδ x (by grind) (by grind))
    · exact Function.update_self _ _ _
    · exact fun x hx => Function.update_of_ne (by grind) _ _
  · intro x hx hxe
    have hxc : x ≠ c := by grind
    have hxp : x ≠ p := by
      have : p ∈ this :: l₁ := hp ▸ by simp
      grind
    refine ⟨?_, ?_, hδ x hxc hxe⟩
    · show Function.update (Function.update q.next e _) p _ x = _
      rw [Function.update_of_ne hxp, Function.update_of_ne hxe]
    · show Function.update (Function.update q.prev e _) c _ x = _
      rw [Function.update_of_ne hxc, Function.update_of_ne hxe]

/-- What a call does to the clock and to the times of a queue that it may have synchronized. -/
structure Synced (q q' : DelayQueue) (l : List Ptr) (τ : Ptr → Int) (now : DelayEventTime) :
    Prop where
  repr : Repr q' l (fun x => max 0 (τ x - elapsed q.lastSyncTime q'.lastSyncTime))
  clock : q'.lastSyncTime = q.lastSyncTime ∨ q'.lastSyncTime = now
  keeps : ∀ x, x ∉ l ++ [this] → Keeps q q' x

theorem elapsed_self (t : DelayEventTime) : elapsed t t = 0 := by
  rw [elapsed, sub_self, max_self, ite_self]

theorem Synced.refl (h : Repr q l τ) : Synced q q l τ now where
  repr := by
    refine h.congr fun x hx => ?_
    rw [elapsed_self, sub_zero]
    exact max_eq_right (h.nonneg x hx)
  clock := .inl rfl
  keeps x _ := .refl q x

theorem addEntry_spec (h : Repr q l τ) (hlast : q.lastSyncTime.IsTime)
    (hnow : Reading q.lastSyncTime now) {e : Ptr} (he : e ∉ l ++ [this])
    (hint_e : (q.deltaTimeRemaining e).IsInterval)
    (hend : elapsed q.lastSyncTime now + q.gap e < τ this) :
    ∃ q' l₁ l₂, l = l₁ ++ l₂ ∧
      (∀ x ∈ l₁, max 0 (τ x - elapsed q.lastSyncTime now) ≤ q.gap e) ∧
      (∀ x ∈ l₂, q.gap e < max 0 (τ x - elapsed q.lastSyncTime now)) ∧
      Returns (q.addEntry now e) q' ∧
      Repr q' (l₁ ++ e :: l₂) (Function.update
        (fun x => max 0 (τ x - elapsed q.lastSyncTime now)) e (q.gap e)) ∧
      q'.lastSyncTime = now ∧ ∀ x, x ∉ l ++ [this] → x ≠ e → Keeps q q' x := by
  have hge : 0 ≤ q.gap e := hint_e.micros_nonneg
  obtain ⟨q₁, hret₁, hq₁, hsync₁, hkeep₁⟩ := synchronize_spec h hlast hnow (by omega)
  have hδe : q₁.deltaTimeRemaining e = q.deltaTimeRemaining e := (hkeep₁ e he).delta
  have hgap : q₁.gap e = q.gap e := congrArg Timeval.micros hδe
  obtain ⟨q', l₁, l₂, hl, h1, h2, hret, hq', hsync, hkeep⟩ :=
    placeEntry_spec hq₁ he (hδe ▸ hint_e) (by rw [hgap]; omega)
  rw [hgap] at h1 h2 hq'
  refine ⟨q', l₁, l₂, hl, h1, h2, hret₁.bind hret, hq', hsync.trans hsync₁, ?_⟩
  exact fun x hx hxe => (hkeep₁ x hx).trans (hkeep x hx hxe)

/-! ## RemoveEntry and UpdateEntry -/

/-- How an entry outside the ring is linked: nowhere, or, before it is first added, to itself. -/
def Unlinked (q : DelayQueue) (e : Ptr) : Prop :=
  q.next e = none ∨ q.next e = some e ∧ q.prev e = some e

theorem unlinkEntry_ring {l₁ l₂ : List Ptr} {e : Ptr} (h : Repr q (l₁ ++ e :: l₂) τ)
    (hend : τ this ≤ ETERNITY.micros) :
    ∃ q', Returns (q.unlinkEntry e) q' ∧ Repr q' (l₁ ++ l₂) τ ∧ q'.next e = none ∧
      q'.lastSyncTime = q.lastSyncTime ∧
      ∀ x, x ∉ (l₁ ++ e :: l₂) ++ [this] → Keeps q q' x := by
  obtain ⟨c, m, hc, hnext⟩ := h.ring.exists_next
  have hl : (l₁ ++ e :: l₂) ++ [this] = l₁ ++ e :: c :: m := by
    rw [List.append_assoc, List.cons_append, hc]
  obtain ⟨a, p, hp, hprev⟩ := h.ring.exists_prev hl
  have hnd := h.nodup
  have hint := h.interval
  have hst := h.stored
  rw [hl] at hnd hint hst
  have hpm : p ∈ this :: l₁ := hp ▸ by simp
  have hce : c ≠ e := by grind
  have hpe : p ≠ e := by
    have := h.ring.nodup
    grind
  -- the two differences together are within the time of `c`
  have hsum : q.gap c + q.gap e ≤ ETERNITY.micros := by
    obtain ⟨hst₁, hge, hgc, -⟩ := stored_append.mp hst
    have hcle : τ c ≤ τ this := h.le_this c (by rw [hl]; simp)
    have h0 := hst₁.le_endTime fun x hx => (hint x (by simp [hx])).micros_nonneg
    omega
  obtain ⟨hw, hwm⟩ := Timeval.addAssign_spec (hint c (by simp)) (hint e (by simp)) hsum
  let w := (q.deltaTimeRemaining c).addAssign (q.deltaTimeRemaining e)
  let q₁ := q.setDelta c w
  refine ⟨(((q₁.setNext p (some c)).setPrev c (some p)).setPrev e none).setNext e none, ?_,
    ⟨?_, ?_, ?_⟩, Function.update_self _ _ _, rfl, ?_⟩
  · rw [unlinkEntry, hnext]
    show Returns (deref (q.prev e) >>= _) _
    refine (returns_deref hprev).bind ?_
    refine Returns.bind (a := c) (returns_deref ?_) ?_
    · rw [setNext_next, setDelta_next, hnext, Function.update_of_ne hpe.symm, hnext]
    · simp only [setNext_prev, setDelta_prev, setDelta_next, hnext, hprev]
      exact .pure _
  · exact h.ring.unlink hp hc none none
  · intro x hx
    show (Function.update q.deltaTimeRemaining c w x).IsInterval
    by_cases hxc : x = c
    · rw [hxc, Function.update_self]
      exact hw
    · rw [Function.update_of_ne hxc]
      refine h.interval x ?_
      rcases List.mem_append.mp hx with hx | hx
      · exact List.mem_append_left _ (by grind)
      · exact List.mem_append_right _ hx
  · rw [List.append_assoc, hc]
    have hother : ∀ x, x ≠ c → Function.update q.deltaTimeRemaining c w x =
        q.deltaTimeRemaining x := fun x hx => Function.update_of_ne hx _ _
    refine hst.remove ?_ ?_ ?_
    · show Timeval.micros (q₁.deltaTimeRemaining c) = _
      rw [setDelta_delta, Function.update_self]
      exact hwm
    · exact fun x hx => congrArg Timeval.micros (hother x (by grind))
    · exact fun x hx => congrArg Timeval.micros (hother x (by grind))
  · intro x hx
    have hxe : x ≠ e := by grind
    have hxc : x ≠ c := by grind
    have hxp : x ≠ p := by grind
    refine ⟨?_, ?_, ?_⟩
    · show Function.update (Function.update q.next p _) e _ x = _
      rw [Function.update_of_ne hxe, Function.update_of_ne hxp]
    · show Function.update (Function.update q.prev c _) e _ x = _
      rw [Function.update_of_ne hxe, Function.update_of_ne hxc]
    · exact Function.update_of_ne hxc _ _

/-- Taking an entry out twice, or before it was ever added, changes nothing but that entry. -/
theorem unlinkEntry_outside {e : Ptr} (hu : q.Unlinked e) :
    ∃ q', Returns (q.unlinkEntry e) q' ∧ q'.next e = none ∧ q'.lastSyncTime = q.lastSyncTime ∧
      ∀ x, x ≠ e → Keeps q q' x := by
  rcases hu with hnext | ⟨hnext, hprev⟩
  · refine ⟨q, ?_, hnext, rfl, fun x _ => .refl q x⟩
    rw [unlinkEntry, hnext]
    exact .pure q
  · let w := (q.deltaTimeRemaining e).addAssign (q.deltaTimeRemaining e)
    let q₁ := (((q.setDelta e w).setNext e (some e)).setPrev e (some e))
    refine ⟨(q₁.setPrev e none).setNext e none, ?_, Function.update_self _ _ _, rfl, ?_⟩
    · rw [unlinkEntry, hnext]
      show Returns (deref (q.prev e) >>= _) _
      refine (returns_deref hprev).bind ?_
      refine Returns.bind (a := e) (returns_deref ?_) ?_
      · rw [setNext_next, Function.update_self, setDelta_next, hnext]
      · simp only [setNext_prev, setDelta_prev, setDelta_next, hnext, hprev]
        exact .pure _
    · intro x hxe
      refine ⟨?_, ?_, ?_⟩
      · show Function.update (Function.update q.next e _) e _ x = _
        rw [Function.update_of_ne hxe, Function.update_of_ne hxe]
      · show Function.update (Function.update q.prev e _) e _ x = _
        rw [Function.update_of_ne hxe, Function.update_of_ne hxe]
      · exact Function.update_of_ne hxe _ _

theorem removeEntry_spec {e : Ptr} (h : Repr q l τ) (hend : τ this ≤ ETERNITY.micros)
    (hes : e ≠ this) (hu : e ∉ l → q.Unlinked e) :
    ∃ q', Returns (q.removeEntry (some e)) q' ∧ Repr q' (l.erase e) τ ∧ q'.next e = none ∧
      q'.lastSyncTime = q.lastSyncTime ∧ ∀ x, x ∉ l ++ [this] → x ≠ e → Keeps q q' x := by
  by_cases he : e ∈ l
  · obtain ⟨l₁, l₂, rfl⟩ := List.append_of_mem he
    obtain ⟨q', hret, hq', hnext, hsync, hkeep⟩ := unlinkEntry_ring h hend
    have herase : (l₁ ++ e :: l₂).erase e = l₁ ++ l₂ := by
      have hnot : e ∉ l₁ := by
        have := h.ring.nodup
        grind
      rw [List.erase_append_right _ hnot, List.erase_cons_head]
    rw [herase]
    exact ⟨q', hret, hq', hnext, hsync, fun x hx _ => hkeep x hx⟩
  · obtain ⟨q', hret, hnext, hsync, hkeep⟩ := unlinkEntry_outside (hu he)
    rw [List.erase_of_not_mem he]
    refine ⟨q', hret, h.keep fun x hx => hkeep x ?_, hnext, hsync, fun x _ => hkeep x⟩
    rintro rfl
    rcases List.mem_append.mp hx with hx | hx
    · exact he hx
    · exact hes (List.mem_singleton.mp hx)

/-! ## TimeToNextAlarm and HandleAlarm -/

theorem timeToNextAlarm_spec (h : Repr q l τ) (hlast : q.lastSyncTime.IsTime)
    (hnow : Reading q.lastSyncTime now) (hend : elapsed q.lastSyncTime now < τ this) :
    ∃ r q', Returns (q.timeToNextAlarm now) (r, q') ∧ Synced q q' l τ now ∧
      r.micros = max 0 (τ (l.headD this) - elapsed q.lastSyncTime q'.lastSyncTime) := by
  have hhead : Returns q.head (l.headD this) := h.head rfl
  have hint := h.interval _ Repr.head_mem
  cases hz : (q.deltaTimeRemaining (l.headD this)).eq DELAY_ZERO with
  | true =>
    refine ⟨DELAY_ZERO, q, ?_, .refl h, ?_⟩
    · refine hhead.bind ?_
      rw [if_pos hz]
      exact .pure _
    · have h0 : q.gap (l.headD this) = 0 := (Timeval.eq_zero_iff hint).mp hz
      rw [elapsed_self, ← h.gap_head, h0, Timeval.micros_zero]
      rfl
  | false =>
    obtain ⟨q', hret, hq', hsync, hkeep⟩ := synchronize_spec h hlast hnow hend
    have hgap := hq'.gap_head
    rw [← hsync] at hq' hgap
    refine ⟨_, q', ?_, ⟨hq', .inr hsync, hkeep⟩, hgap⟩
    refine hhead.bind ?_
    rw [if_neg (Bool.eq_false_iff.mp hz)]
    exact hret.bind ((hq'.head rfl).bind (.pure _))

theorem beginAlarm_spec (h : Repr q l τ) (hlast : q.lastSyncTime.IsTime)
    (hnow : Reading q.lastSyncTime now) (hend : elapsed q.lastSyncTime now < τ this) :
    ∃ q', Returns (q.beginAlarm now) q' ∧ Synced q q' l τ now := by
  have hhead : Returns q.head (l.headD this) := h.head rfl
  cases hz : (q.deltaTimeRemaining (l.headD this)).ne DELAY_ZERO with
  | true =>
    obtain ⟨q', hret, hq', hsync, hkeep⟩ := synchronize_spec h hlast hnow hend
    rw [← hsync] at hq'
    refine ⟨q', ?_, hq', .inr hsync, hkeep⟩
    refine hhead.bind ?_
    rw [if_pos hz]
    exact hret
  | false =>
    refine ⟨q, ?_, .refl h⟩
    refine hhead.bind ?_
    rw [if_neg (Bool.eq_false_iff.mp hz)]
    exact .pure _

theorem nextAlarm_none (h : Repr q l τ) (hpos : τ (l.headD this) ≠ 0) :
    Returns q.nextAlarm (none, q) := by
  have hint := h.interval _ Repr.head_mem
  have hz : (q.deltaTimeRemaining (l.headD this)).eq DELAY_ZERO = false := by
    rw [← Bool.not_eq_true, Timeval.eq_zero_iff hint]
    have := h.gap_head
    rw [gap] at this
    omega
  refine Returns.bind (h.head rfl) ?_
  rw [if_neg (Bool.eq_false_iff.mp hz)]
  exact .pure _

theorem nextAlarm_some {e : Ptr} (h : Repr q (e :: l) τ) (hend : τ this ≤ ETERNITY.micros)
    (hz : τ e = 0) :
    ∃ q', Returns q.nextAlarm (some e, q') ∧ Repr q' l τ ∧ q'.next e = none ∧
      q'.lastSyncTime = q.lastSyncTime ∧ ∀ x, x ∉ e :: l ++ [this] → Keeps q q' x := by
  have hint := h.interval e (by simp)
  have hgap : q.gap e = τ e := h.gap_head
  have heq : (q.deltaTimeRemaining e).eq DELAY_ZERO = true := by
    rw [Timeval.eq_zero_iff hint]
    exact hgap.trans hz
  have hring : Repr q ([] ++ e :: l) τ := h
  obtain ⟨q', hret, hq', hnext, hsync, hkeep⟩ := unlinkEntry_ring hring hend
  refine ⟨q', ?_, hq', hnext, hsync, hkeep⟩
  refine Returns.bind (a := e) (h.head rfl) ?_
  rw [if_pos heq]
  exact Returns.bind (p := q.unlinkEntry e) hret (.pure _)

end DelayQueue

end Scheduler
end Huicpp
