import Mathlib
import Huicpp.Cxx.BlockingQueue
import Huicpp.Utils.ItemRegions

/-!
# Utils.ExclusiveRefs

A `RollFixBuffer` that threads share. What a group has is in its queue or held by threads, as long
as a reference is pulled back by a thread that holds it: `PullBack` itself asks only whether the
reference was ever handed out.
-/

namespace Huicpp
namespace Utils

open Cxx

/-- `m_queues` of the groups from 0 on. `held` has a pair for each reference that a thread got from
`Pop` and has not pulled back. -/
structure SharedBuffer (τ : Type) where
  geometry : Geometry
  refQueue : Nat → BlockingQueue τ BufferItemRef
  buffer : BufferItemRef → Bool
  held : List (τ × BufferItemRef)

/-- `queue i e`: inside the queue of group `i`. -/
inductive RefAction (τ : Type) where
  | pop (t : τ) (iGroupId : Int32) (r : BufferItemRef)
  | pullBack (t : τ) (r : BufferItemRef)
  | queue (i : Nat) (e : QueueEvent τ BufferItemRef)

/-- The index in `m_queues` that belongs to the reference. -/
def BufferItemRef.group (r : BufferItemRef) : Nat := r.iGroupId.toInt.toNat

namespace SharedBuffer

variable {τ : Type}

/-- After the constructor. -/
def init (s₀ : RollFixBuffer) : SharedBuffer τ where
  geometry := s₀.geometry
  refQueue i := ⟨s₀.queues.getD i [], fun _ => .running, 0⟩
  buffer := s₀.buffer
  held := []

def setQueue (s : SharedBuffer τ) (i : Nat) (q : BlockingQueue τ BufferItemRef) : SharedBuffer τ :=
  { s with refQueue := Function.update s.refQueue i q }

/-- `t` leaves `Pop` with `r`, which knows the buffer from then on. -/
def give (s : SharedBuffer τ) (t : τ) (r : BufferItemRef) : SharedBuffer τ :=
  { s with buffer := Function.update s.buffer r true, held := (t, r) :: s.held }

@[simp] theorem give_refQueue (s : SharedBuffer τ) (t : τ) (r : BufferItemRef) :
    (s.give t r).refQueue = s.refQueue := rfl
@[simp] theorem give_held (s : SharedBuffer τ) (t : τ) (r : BufferItemRef) :
    (s.give t r).held = (t, r) :: s.held := rfl
theorem give_buffer_of_ne {s : SharedBuffer τ} {r r' : BufferItemRef} (h : r' ≠ r) (t : τ) :
    (s.give t r).buffer r' = s.buffer r' := Function.update_of_ne h ..
@[simp] theorem setQueue_buffer (s : SharedBuffer τ) (i : Nat) (q : BlockingQueue τ BufferItemRef) :
    (s.setQueue i q).buffer = s.buffer := rfl
@[simp] theorem setQueue_held (s : SharedBuffer τ) (i : Nat) (q : BlockingQueue τ BufferItemRef) :
    (s.setQueue i q).held = s.held := rfl
@[simp] theorem setQueue_self (s : SharedBuffer τ) (i : Nat) (q : BlockingQueue τ BufferItemRef) :
    (s.setQueue i q).refQueue i = q := Function.update_self ..
theorem setQueue_of_ne {s : SharedBuffer τ} {i j : Nat} (h : j ≠ i)
    (q : BlockingQueue τ BufferItemRef) : (s.setQueue i q).refQueue j = s.refQueue j :=
  Function.update_of_ne h ..

variable [DecidableEq τ]

/-- `t` has pulled `r` back. -/
def release (s : SharedBuffer τ) (t : τ) (r : BufferItemRef) : SharedBuffer τ :=
  { s with held := s.held.erase (t, r) }

@[simp] theorem release_refQueue (s : SharedBuffer τ) (t : τ) (r : BufferItemRef) :
    (s.release t r).refQueue = s.refQueue := rfl
@[simp] theorem release_held (s : SharedBuffer τ) (t : τ) (r : BufferItemRef) :
    (s.release t r).held = s.held.erase (t, r) := rfl

/-- After an access before the beginning of `m_queues` the buffer may be anything. -/
inductive Step : SharedBuffer τ → RefAction τ → SharedBuffer τ → Prop where
  | pop (s : SharedBuffer τ) (t : τ) (iGroupId : Int32) (r : BufferItemRef)
      (q : BlockingQueue τ BufferItemRef) :
      iGroupId < s.geometry.iGroupCount → 0 ≤ iGroupId →
      BlockingQueue.Step (s.refQueue iGroupId.toInt.toNat) (.pop t [r]) q →
      Step s (.pop t iGroupId r) ((s.setQueue iGroupId.toInt.toNat q).give t r)
  | popOutOfBounds (s : SharedBuffer τ) (t : τ) (iGroupId : Int32) (r : BufferItemRef)
      (s' : SharedBuffer τ) :
      iGroupId < s.geometry.iGroupCount → ¬ 0 ≤ iGroupId → Step s (.pop t iGroupId r) s'
  | pullBack (s : SharedBuffer τ) (t : τ) (r : BufferItemRef) (q : BlockingQueue τ BufferItemRef) :
      s.buffer r = true →
      BlockingQueue.Step (s.refQueue r.group) (.push r) q →
      Step s (.pullBack t r) ((s.setQueue r.group q).release t r)
  | queue (s : SharedBuffer τ) (i : Nat) (e : QueueEvent τ BufferItemRef)
      (q : BlockingQueue τ BufferItemRef) :
      e.pushed = [] → e.popped = [] →
      BlockingQueue.Step (s.refQueue i) e q → Step s (.queue i e) (s.setQueue i q)

def system (τ : Type) [DecidableEq τ] (s₀ : RollFixBuffer) :
    TransitionSystem (SharedBuffer τ) (RefAction τ) where
  init s := s = init s₀
  step := Step

/-- The references of group `i` that are held. -/
def heldOf (s : SharedBuffer τ) (i : Nat) : List BufferItemRef :=
  (s.held.map Prod.snd).filter (·.group = i)

/-! ## What handing out should be -/

/-- A reference is at most once in the queue of its group and in no other one, and of each group as
many references are queued or handed out as there are. -/
structure Accounted (s₀ : RollFixBuffer) (s : SharedBuffer τ) : Prop where
  atMostOnce : ∀ i, (s.refQueue i).queue.Nodup
  own : ∀ i, ∀ r ∈ (s.refQueue i).queue, r.group = i
  count : ∀ i < s₀.geometry.groups,
    (s.refQueue i).queue.length + (s.heldOf i).length = s₀.geometry.items

/-- `Pop` gives a reference of its group that nobody holds. -/
def Exclusive (s₀ : RollFixBuffer) (s : SharedBuffer τ) (a : RefAction τ) (s' : SharedBuffer τ) :
    Prop :=
  Accounted s₀ s' ∧ ∀ t iGroupId r, a = .pop t iGroupId r →
    (r.group : Int) = iGroupId.toInt ∧ ∀ t', (t', r) ∉ s.held

/-- Between two `Pop`s of one reference it was pulled back. -/
def PulledBackBetween (tr : List (RefAction τ)) : Prop :=
  ∀ pre mid post t t' g g' r, tr = pre ++ .pop t g r :: (mid ++ .pop t' g' r :: post) →
    ∃ t'', .pullBack t'' r ∈ mid

/-- Every `PullBack` is one of a thread that holds the reference, and no `Pop` has a negative
group. -/
def HolderPullsBack (s : SharedBuffer τ) (a : RefAction τ) (_ : SharedBuffer τ) : Prop :=
  match a with
  | .pop _ iGroupId _ => 0 ≤ iGroupId
  | .pullBack t r => (t, r) ∈ s.held
  | .queue _ _ => True

/-! ## The references of a group -/

section Groups

variable {geo : Geometry} {s₀ : RollFixBuffer} {i : Nat} {r : BufferItemRef}

theorem queues_getD (h : RollFixBuffer.Constructed geo s₀) (hi : i < geo.groups) :
    s₀.queues.getD i [] = (List.range geo.items).map (geo.item i) := by
  rw [h.queues, List.getD_eq_getElem?_getD, List.getElem?_map, List.getElem?_range hi]
  rfl

theorem queues_getD_of_le (h : RollFixBuffer.Constructed geo s₀) (hi : geo.groups ≤ i) :
    s₀.queues.getD i [] = [] := by
  rw [h.queues, List.getD_eq_getElem?_getD, List.getElem?_eq_none (by simpa using hi)]
  rfl

theorem queues_nodup (h : RollFixBuffer.Constructed geo s₀) : (s₀.queues.getD i []).Nodup := by
  rcases Nat.lt_or_ge i geo.groups with hi | hi
  · rw [queues_getD h hi]
    refine List.Nodup.map_on (fun j hj k hk heq => ?_) List.nodup_range
    have hindex : Int32.ofNat j = Int32.ofNat k := congrArg BufferItemRef.index heq
    have hj' := Int32.toInt_ofNat_of_lt ((List.mem_range.mp hj).trans geo.items_lt)
    have hk' := Int32.toInt_ofNat_of_lt ((List.mem_range.mp hk).trans geo.items_lt)
    rw [hindex, hk'] at hj'
    exact (Nat.cast_injective hj').symm
  · rw [queues_getD_of_le h hi]
    exact List.nodup_nil

theorem group_of_mem (h : RollFixBuffer.Constructed geo s₀) (hr : r ∈ s₀.queues.getD i []) :
    r.group = i ∧ i < geo.groups := by
  rcases Nat.lt_or_ge i geo.groups with hi | hi
  · rw [queues_getD h hi] at hr
    obtain ⟨j, -, rfl⟩ := List.mem_map.mp hr
    refine ⟨?_, hi⟩
    rw [BufferItemRef.group, show (geo.item i j).iGroupId = Int32.ofNat i from rfl,
      Int32.toInt_ofNat_of_lt (hi.trans geo.groups_lt), Int.toNat_natCast]
  · rw [queues_getD_of_le h hi] at hr
    cases hr

end Groups

/-! ## Runs in which the holder pulls back -/

section Runs

variable {geo : Geometry} {s₀ : RollFixBuffer} {s s' : SharedBuffer τ} {a : RefAction τ}
  {tr : List (RefAction τ)}

/-- What each group has is queued or held. -/
structure Inv (geo : Geometry) (s₀ : RollFixBuffer) (s : SharedBuffer τ) : Prop where
  geometry : s.geometry = geo
  conserved : ∀ i, ((s.refQueue i).queue ++ s.heldOf i).Perm (s₀.queues.getD i [])
  known : ∀ r, s.buffer r = true → r ∈ s₀.queues.getD r.group []

namespace Inv

omit [DecidableEq τ] in
theorem init (h : RollFixBuffer.Constructed geo s₀) :
    Inv geo s₀ (init s₀ : SharedBuffer τ) where
  geometry := h.geometry
  conserved i := by
    rw [heldOf, SharedBuffer.init, List.map_nil, List.filter_nil, List.append_nil]
  known r hr := by
    exact absurd ((h.buffer r).symm.trans hr) Bool.false_ne_true

omit [DecidableEq τ] in
theorem mem_of_queued (h : Inv geo s₀ s) {i : Nat} {r : BufferItemRef}
    (hr : r ∈ (s.refQueue i).queue) : r ∈ s₀.queues.getD i [] :=
  (h.conserved i).subset (List.mem_append_left _ hr)

omit [DecidableEq τ] in
theorem accounted (h₀ : RollFixBuffer.Constructed geo s₀) (h : Inv geo s₀ s) :
    Accounted s₀ s where
  atMostOnce i := ((h.conserved i).nodup_iff.mpr (queues_nodup h₀)).of_append_left
  own i r hr := (group_of_mem h₀ (h.mem_of_queued hr)).1
  count i hi := by
    rw [h₀.geometry] at hi ⊢
    rw [← List.length_append, (h.conserved i).length_eq, queues_getD h₀ hi, List.length_map,
      List.length_range]

omit [DecidableEq τ] in
theorem not_held (h₀ : RollFixBuffer.Constructed geo s₀) (h : Inv geo s₀ s) {i : Nat}
    {r : BufferItemRef} (hr : r ∈ (s.refQueue i).queue) (t : τ) : (t, r) ∉ s.held := by
  intro hheld
  have hgroup := (group_of_mem h₀ (h.mem_of_queued hr)).1
  have hnodup := (h.conserved i).nodup_iff.mpr (queues_nodup h₀)
  have hof : r ∈ s.heldOf i :=
    List.mem_filter.mpr ⟨List.mem_map.mpr ⟨_, hheld, rfl⟩, by simpa using hgroup⟩
  exact (List.nodup_append.mp hnodup).2.2 r hr r hof rfl

theorem pop (h₀ : RollFixBuffer.Constructed geo s₀) (h : Inv geo s₀ s) {i : Nat} {t : τ}
    {r : BufferItemRef} {q : BlockingQueue τ BufferItemRef}
    (hq : BlockingQueue.Step (s.refQueue i) (.pop t [r]) q) :
    Inv geo s₀ ((s.setQueue i q).give t r) := by
  have hbalance : (s.refQueue i).queue = r :: q.queue :=
    (List.append_nil _).symm.trans hq.balance
  have hr : r ∈ s₀.queues.getD i [] := h.mem_of_queued (hbalance ▸ List.mem_cons_self)
  have hgroup := (group_of_mem h₀ hr).1
  refine ⟨h.geometry, fun j => ?_, fun r' hr' => ?_⟩
  · have hperm := h.conserved j
    by_cases hj : j = i
    · subst hj
      rw [hbalance] at hperm
      rw [heldOf, give_refQueue, setQueue_self, give_held, setQueue_held, List.map_cons,
        List.filter_cons_of_pos (by simpa using hgroup)]
      exact List.perm_middle.trans hperm
    · rw [heldOf, give_refQueue, setQueue_of_ne hj, give_held, setQueue_held, List.map_cons,
        List.filter_cons_of_neg (by
        simp only [hgroup, decide_eq_true_eq]
        exact fun hij => hj hij.symm)]
      exact hperm
  · by_cases hrr : r' = r
    · subst hrr
      rw [hgroup]
      exact hr
    · exact h.known r' (by rwa [give_buffer_of_ne hrr] at hr')

theorem pullBack (h : Inv geo s₀ s) {t : τ} {r : BufferItemRef}
    {q : BlockingQueue τ BufferItemRef} (hheld : (t, r) ∈ s.held)
    (hq : BlockingQueue.Step (s.refQueue r.group) (.push r) q) :
    Inv geo s₀ ((s.setQueue r.group q).release t r) := by
  have hbalance : (s.refQueue r.group).queue ++ [r] = q.queue := hq.balance
  have hsplit : (s.held.map Prod.snd).Perm (r :: (s.held.erase (t, r)).map Prod.snd) :=
    (List.perm_cons_erase hheld).map Prod.snd
  refine ⟨h.geometry, fun j => ?_, h.known⟩
  have hperm := h.conserved j
  by_cases hj : j = r.group
  · subst hj
    have hof : (s.heldOf r.group).Perm
        (r :: ((s.held.erase (t, r)).map Prod.snd).filter (·.group = r.group)) := by
      have hfilter := hsplit.filter (·.group = r.group)
      rwa [List.filter_cons_of_pos (by simp)] at hfilter
    rw [heldOf, release_refQueue, setQueue_self, ← hbalance, release_held, setQueue_held,
      List.append_assoc]
    exact (List.Perm.append_left _ hof.symm).trans hperm
  · rw [release_refQueue, setQueue_of_ne hj]
    have hof : (s.heldOf j).Perm
        (((s.held.erase (t, r)).map Prod.snd).filter (·.group = j)) := by
      have hfilter := hsplit.filter (·.group = j)
      rwa [List.filter_cons_of_neg (by
        simp only [decide_eq_true_eq]
        exact fun hrj => hj hrj.symm)] at hfilter
    exact (List.Perm.append_left _ hof.symm).trans hperm

theorem queue (h : Inv geo s₀ s) {i : Nat} {e : QueueEvent τ BufferItemRef}
    {q : BlockingQueue τ BufferItemRef} (hpushed : e.pushed = []) (hpopped : e.popped = [])
    (hq : BlockingQueue.Step (s.refQueue i) e q) : Inv geo s₀ (s.setQueue i q) := by
  have hbalance : (s.refQueue i).queue = q.queue := by
    have hbal := hq.balance
    rwa [hpushed, hpopped, List.append_nil, List.nil_append] at hbal
  refine ⟨h.geometry, fun j => ?_, h.known⟩
  have hperm := h.conserved j
  by_cases hj : j = i
  · subst hj
    rw [setQueue_self, ← hbalance]
    exact hperm
  · rw [setQueue_of_ne hj]
    exact hperm

theorem step (h₀ : RollFixBuffer.Constructed geo s₀) (h : Inv geo s₀ s) (hs : Step s a s')
    (hholds : HolderPullsBack s a s') : Inv geo s₀ s' := by
  cases hs with
  | pop t g r q _ _ hq => exact h.pop h₀ hq
  | popOutOfBounds t g r _ _ hg => exact absurd hholds hg
  | pullBack t r q _ hq => exact h.pullBack hholds hq
  | queue i e q hpushed hpopped hq => exact h.queue hpushed hpopped hq

theorem exclusive (h₀ : RollFixBuffer.Constructed geo s₀) (h : Inv geo s₀ s) (hs : Step s a s')
    (hholds : HolderPullsBack s a s') : Exclusive s₀ s a s' := by
  refine ⟨(h.step h₀ hs hholds).accounted h₀, ?_⟩
  rintro t g r rfl
  cases hs with
  | pop _ _ _ q _ hg hq =>
    have hbalance : (s.refQueue g.toInt.toNat).queue = r :: q.queue :=
      (List.append_nil _).symm.trans hq.balance
    have hr : r ∈ (s.refQueue g.toInt.toNat).queue := hbalance ▸ List.mem_cons_self
    have hgroup := (group_of_mem h₀ (h.mem_of_queued hr)).1
    refine ⟨?_, fun t' => h.not_held h₀ hr t'⟩
    rw [hgroup]
    exact Int.toNat_of_nonneg (Int32.le_iff_toInt_le.mp hg)
  | popOutOfBounds _ _ _ _ _ hg => exact absurd hholds hg

end Inv

/-- A reference that was handed out is held until it is pulled back. -/
theorem Step.held (hs : Step s a s') (hholds : HolderPullsBack s a s') :
    (∀ t g r, a = .pop t g r → (t, r) ∈ s'.held) ∧
    ∀ t r, (t, r) ∈ s.held → (t, r) ∈ s'.held ∨ a = .pullBack t r := by
  cases hs with
  | pop t g r q _ _ _ =>
    refine ⟨?_, fun t' r' hheld => .inl (List.mem_cons_of_mem _ hheld)⟩
    rintro _ _ _ ⟨⟩
    exact List.mem_cons_self
  | popOutOfBounds t g r _ _ hg => exact absurd hholds hg
  | pullBack t r q _ _ =>
    refine ⟨nofun, fun t' r' hheld => ?_⟩
    by_cases heq : (t', r') = (t, r)
    · cases heq
      exact .inr rfl
    · exact .inl ((List.mem_erase_of_ne heq).mpr hheld)
  | queue i e q _ _ _ => exact ⟨nofun, fun t r hheld => .inl hheld⟩

theorem append_singleton_split {α : Type} {tr pre mid : List α} {a b : α}
    (h : tr ++ [a] = pre ++ b :: mid) :
    (mid = [] ∧ tr = pre ∧ a = b) ∨ ∃ mid', mid = mid' ++ [a] ∧ tr = pre ++ b :: mid' := by
  rcases List.eq_nil_or_concat mid with rfl | ⟨mid', c, rfl⟩
  · obtain ⟨htr, hab⟩ := List.append_inj' h rfl
    exact .inl ⟨rfl, htr, List.singleton_inj.mp hab⟩
  · rw [List.concat_eq_append, ← List.cons_append, ← List.append_assoc] at h
    obtain ⟨htr, hac⟩ := List.append_inj' h rfl
    exact .inr ⟨mid', by rw [List.concat_eq_append, List.singleton_inj.mp hac], htr⟩

theorem held_run (h : ((system τ s₀).restrict HolderPullsBack).Run tr s) :
    ∀ pre mid t g r, tr = pre ++ .pop t g r :: mid →
      (∃ t', .pullBack t' r ∈ mid) ∨ ∃ t', (t', r) ∈ s.held := by
  induction h with
  | init _ =>
    intro pre mid t g r htr
    exact absurd htr.symm (List.append_ne_nil_of_right_ne_nil _ (List.cons_ne_nil _ _))
  | step _ hs ih =>
    obtain ⟨hpop, hkeep⟩ := Step.held hs.1 hs.2
    intro pre mid t g r htr
    rcases append_singleton_split htr with ⟨-, -, ha⟩ | ⟨mid', rfl, htr'⟩
    · exact .inr ⟨t, hpop t g r ha⟩
    · rcases ih pre mid' t g r htr' with ⟨t', hback⟩ | ⟨t', hheld⟩
      · exact .inl ⟨t', List.mem_append_left _ hback⟩
      · rcases hkeep t' r hheld with hheld | rfl
        · exact .inr ⟨t', hheld⟩
        · exact .inl ⟨t', List.mem_append_right _ List.mem_cons_self⟩

theorem holderPullsBack_run (h₀ : RollFixBuffer.Constructed geo s₀)
    (h : ((system τ s₀).restrict HolderPullsBack).Run tr s) :
    Inv geo s₀ s ∧ ((system τ s₀).restrict (Exclusive s₀)).Run tr s ∧ PulledBackBetween tr := by
  induction h with
  | init h =>
    obtain rfl : _ = SharedBuffer.init s₀ := h
    refine ⟨.init h₀, .init rfl, fun pre mid post t t' g g' r htr => ?_⟩
    exact absurd htr.symm (List.append_ne_nil_of_right_ne_nil _ (List.cons_ne_nil _ _))
  | step hrun hs ih =>
    obtain ⟨hinv, hex, hbetween⟩ := ih
    have hstep := hinv.exclusive h₀ hs.1 hs.2
    refine ⟨hinv.step h₀ hs.1 hs.2, .step hex ⟨hs.1, hstep⟩, ?_⟩
    intro pre mid post t t' g g' r htr
    rw [← List.cons_append, ← List.append_assoc] at htr
    rcases append_singleton_split htr with ⟨-, htr', ha⟩ | ⟨post', -, htr'⟩
    · rcases held_run hrun pre mid t g r htr' with hback | ⟨t₀, hheld⟩
      · exact hback
      · exact absurd hheld ((hstep.2 t' g' r ha).2 t₀)
    · refine hbetween pre mid post' t t' g g' r ?_
      rw [htr', List.append_assoc, List.cons_append]

/-! ## Runs in which somebody else pulls back -/

/-- A reference that is pulled back by a thread that does not hold it is queued in addition. -/
theorem Inv.holder_of_accounted (h₀ : RollFixBuffer.Constructed geo s₀) (h : Inv geo s₀ s)
    {t : τ} {r : BufferItemRef} (hs : Step s (.pullBack t r) s') (hacc : Accounted s₀ s') :
    (t, r) ∈ s.held := by
  by_contra hno
  cases hs with
  | pullBack _ _ q hbuffer hq =>
    have hgroup := (group_of_mem h₀ (h.known r hbuffer)).2
    rw [← h₀.geometry] at hgroup
    have hbefore := (h.accounted h₀).count _ hgroup
    have hafter := hacc.count _ hgroup
    have hbalance : (s.refQueue r.group).queue ++ [r] = q.queue := hq.balance
    have hheld : ((s.setQueue r.group q).release t r).heldOf r.group = s.heldOf r.group := by
      rw [heldOf, release_held, setQueue_held, List.erase_of_not_mem hno, heldOf]
    rw [hheld, release_refQueue, setQueue_self, ← hbalance, List.length_append,
      List.length_singleton] at hafter
    omega

theorem Inv.holderPullsBack (h₀ : RollFixBuffer.Constructed geo s₀) (h : Inv geo s₀ s)
    (hs : Step s a s') (hex : Exclusive s₀ s a s') : HolderPullsBack s a s' := by
  cases a with
  | pop t g r =>
    have hgroup := (hex.2 t g r rfl).1
    exact Int32.le_iff_toInt_le.mpr (hgroup ▸ Nat.cast_nonneg _)
  | pullBack t r => exact h.holder_of_accounted h₀ hs hex.1
  | queue i e => trivial

theorem exclusive_run (h₀ : RollFixBuffer.Constructed geo s₀)
    (h : ((system τ s₀).restrict (Exclusive s₀)).Run tr s) :
    ((system τ s₀).restrict HolderPullsBack).Run tr s := by
  induction h with
  | init h => exact .init h
  | step _ hs ih =>
    exact .step ih ⟨hs.1, (holderPullsBack_run h₀ ih).1.holderPullsBack h₀ hs.1 hs.2⟩

end Runs

/-- References are handed out exclusively exactly if each is pulled back by a thread that holds
it. -/
theorem refs_exclusive (τ : Type) [DecidableEq τ] (available : Nat → Bool) (mem : Int → Byte)
    (geo : Geometry) (s₀ : RollFixBuffer)
    (hnew : RollFixBuffer.construct available mem geo = .ok s₀) (tr : List (RefAction τ))
    (s : SharedBuffer τ) :
    (((system τ s₀).restrict (Exclusive s₀)).Run tr s ∧ PulledBackBetween tr) ↔
      ((system τ s₀).restrict HolderPullsBack).Run tr s := by
  have h₀ := RollFixBuffer.construct_eq_ok hnew
  constructor
  · rintro ⟨hrun, -⟩
    exact exclusive_run h₀ hrun
  · intro hrun
    exact (holderPullsBack_run h₀ hrun).2

theorem oneItem_init : ∃ s₀, RollFixBuffer.construct (fun _ => true) (fun _ => 0) ⟨1, 1, 2⟩ = .ok s₀ ∧
    s₀.geometry = ⟨1, 1, 2⟩ ∧ s₀.queues = [[Geometry.item ⟨1, 1, 2⟩ 0 0]] := by
  obtain ⟨s₀, hnew⟩ := RollFixBuffer.construct_ok (fun _ => 0) ⟨1, 1, 2⟩ (by decide)
  have h₀ := RollFixBuffer.construct_eq_ok hnew
  exact ⟨s₀, hnew, h₀.geometry, h₀.queues⟩

/-- A thread takes the one item, gives it back and takes it again. -/
theorem refs_exclusive_oneItem : ∃ s₀ tr, ∃ s : SharedBuffer Unit, tr.length = 3 ∧
    ((system Unit s₀).restrict (Exclusive s₀)).Run tr s ∧ PulledBackBetween tr := by
  obtain ⟨s₀, hnew, hgeo, hqueues⟩ := oneItem_init
  have hlt : (0 : Int32) < (SharedBuffer.init s₀ : SharedBuffer Unit).geometry.iGroupCount :=
    lt_of_lt_of_eq (by decide) (congrArg Geometry.iGroupCount hgeo).symm
  have hqueue : s₀.queues.getD 0 [] = [Geometry.item ⟨1, 1, 2⟩ 0 0] := by rw [hqueues]; rfl
  have hle : (0 : Int32) ≤ 0 := by decide
  have h0 : ((system Unit s₀).restrict HolderPullsBack).Run [] (SharedBuffer.init s₀) := .init rfl
  have h1 := h0.step ⟨Step.pop _ () 0 _ _ hlt hle (.popFront _ () _ _ nofun hqueue), hle⟩
  have h2 := h1.step ⟨Step.pullBack _ () _ _ (Function.update_self ..) (.push _ _),
    List.mem_cons_self⟩
  have h3 := h2.step ⟨Step.pop _ () 0 _ _ hlt hle (.popFront _ () _ _ nofun rfl), hle⟩
  exact ⟨s₀, _, _, rfl, (refs_exclusive Unit _ _ _ s₀ hnew _ _).mpr h3⟩

/-- A thread that pulls its reference back twice gets it a second time while another one has it. -/
theorem pulledBackTwice_shared :
    ¬ ∀ s₀ tr, ∀ s : SharedBuffer Bool,
      RollFixBuffer.construct (fun _ => true) (fun _ => 0) ⟨1, 1, 2⟩ = .ok s₀ →
      (system Bool s₀).Run tr s →
      Accounted s₀ s ∧ ∀ r t t', (t, r) ∈ s.held → (t', r) ∈ s.held → t = t' := by
  intro hall
  obtain ⟨s₀, hnew, hgeo, hqueues⟩ := oneItem_init
  have hlt : (0 : Int32) < (SharedBuffer.init s₀ : SharedBuffer Bool).geometry.iGroupCount :=
    lt_of_lt_of_eq (by decide) (congrArg Geometry.iGroupCount hgeo).symm
  have hqueue : s₀.queues.getD 0 [] = [Geometry.item ⟨1, 1, 2⟩ 0 0] := by rw [hqueues]; rfl
  have hle : (0 : Int32) ≤ 0 := by decide
  have h0 : (system Bool s₀).Run [] (SharedBuffer.init s₀) := .init rfl
  have h1 := h0.step (Step.pop _ false 0 _ _ hlt hle (.popFront _ false _ _ nofun hqueue))
  have h2 := h1.step (Step.pullBack _ false _ _ (Function.update_self ..) (.push _ _))
  have h3 := h2.step (Step.pullBack _ false _ _ (Function.update_self ..) (.push _ _))
  have h4 := h3.step (Step.pop _ false 0 _ _ hlt hle (.popFront _ false _ _ nofun rfl))
  have h5 := h4.step (Step.pop _ true 0 _ _ hlt hle (.popFront _ true _ _ nofun rfl))
  have hsame := (hall s₀ _ _ hnew h5).2 _ true false List.mem_cons_self
    (List.mem_cons_of_mem _ List.mem_cons_self)
  exact Bool.false_ne_true hsame.symm

end SharedBuffer

end Utils
end Huicpp
