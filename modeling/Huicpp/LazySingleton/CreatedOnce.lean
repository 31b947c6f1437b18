import Mathlib
import Huicpp.LazySingleton.Cells

/-!
# LazySingleton.CreatedOnce

Each holder and each value is created once, and `Get` returns the one value when it is finished.
What connects the two cells is that a thread only ever goes on with the holder that its entry
points to.
-/

namespace Huicpp
namespace LazySingleton

open Cxx

namespace State

variable {ι Site Key : Type}

/-- The holder a thread has got, from the cache or from the entry. -/
def holderOf : Pc Site → Option (Site × Addr)
  | .unlockEntry c p | .storeCache c p | .loadState c p | .lockHolder c p | .reloadState c p
  | .newValue c p | .constructing c p _ | .storeInstance c p _ | .storeState c p _
  | .unlockHolder c p | .readInstance c p => some (c, p)
  | _ => none

structure Linked (key : Site → Key) (s : State ι Site Key) : Prop where
  cache : ∀ c p, s.cache c = some p → (s.map (key c)).ptr = some p
  pc : ∀ i c p, holderOf (s.pc i) = some (c, p) → (s.map (key c)).ptr = some p
  domain : ∀ p, s.holder p ≠ none ↔ p ∈ s.holdersBuilt.map Prod.snd
  noFault : ∀ i, s.pc i ≠ .fault

theorem holderOf_accesses {pc : Pc Site} {p : Addr} (h : accesses pc = some p) :
    ∃ c, holderOf pc = some (c, p) := by
  cases pc <;> first | (cases h; exact ⟨_, rfl⟩) | cases h

theorem linked_init (key : Site → Key) : Linked key (init : State ι Site Key) where
  cache c p h := by cases h
  pc i c p h := by cases h
  domain p := ⟨fun h => absurd rfl h, fun h => by cases h⟩
  noFault i h := by cases h

/-- What is recorded of the values and the results. -/
structure Recorded (key : Site → Key) (s : State ι Site Key) : Prop where
  values : ∀ x ∈ s.values, (s.map x.1).ptr = some x.2.1
  valuesBuilt : ∀ x ∈ s.valuesBuilt, (s.map x.1).ptr = some x.2.1
  readInstance : ∀ i c p, s.pc i = .readInstance c p → (holderCells s).ready p = true
  results : ∀ c r, (c, r) ∈ s.results → ∃ p, (s.map (key c)).ptr = some p ∧
    (holderCells s).ready p = true ∧ (holderCells s).value p = r

theorem recorded_init (key : Site → Key) : Recorded key (init : State ι Site Key) where
  values x h := by cases h
  valuesBuilt x h := by cases h
  readInstance i c p h := by cases h
  results c r h := by cases h

/-! ## What a step does to the holder pointers -/

theorem setHolder_domain {s : State ι Site Key} {p q : Addr} {h h' : Holder ι}
    (hp : s.holder p = some h) : (s.setHolder p h').holder q ≠ none ↔ s.holder q ≠ none := by
  show Function.update s.holder p (some h') q ≠ none ↔ s.holder q ≠ none
  by_cases hq : q = p
  · subst hq
    rw [Function.update_self, hp]
    exact ⟨fun _ => Option.some_ne_none _, fun _ => Option.some_ne_none _⟩
  · rw [Function.update_of_ne hq]

variable [DecidableEq ι] [DecidableEq Site] [DecidableEq Key]

theorem Step.pc_update {key : Site → Key} {s s' : State ι Site Key} {i : ι} (hs : Step key i s s') :
    ∃ pc, s'.pc = Function.update s.pc i pc ∧
      (∀ c p, holderOf pc = some (c, p) →
        holderOf (s.pc i) = some (c, p) ∨ s.cache c = some p ∨ (s'.map (key c)).ptr = some p) ∧
      (pc = .fault → ∃ p, accesses (s.pc i) = some p ∧ s.holder p = none) := by
  cases hs with
  | cacheHit c p hi hp =>
    refine ⟨_, rfl, fun c' p' h => ?_, fun h => by cases h⟩
    cases h
    exact .inr (.inl hp)
  | ptrSet c p hi hp =>
    refine ⟨_, rfl, fun c' p' h => ?_, fun h => by cases h⟩
    cases h
    exact .inr (.inr hp)
  | ptrSetMeanwhile c p hi hp =>
    refine ⟨_, rfl, fun c' p' h => ?_, fun h => by cases h⟩
    cases h
    exact .inr (.inr hp)
  | storePtr c p hi =>
    refine ⟨_, rfl, fun c' p' h => ?_, fun h => by cases h⟩
    cases h
    refine .inr (.inr ?_)
    show (Function.update s.map (key c) _ (key c)).ptr = some p
    rw [Function.update_self]
  | fault p hi hp => exact ⟨_, rfl, fun c' p' h => (by cases h), fun _ => ⟨p, hi, hp⟩⟩
  | _ =>
    refine ⟨_, rfl, fun c' p' h => .inl ?_, fun h => by cases h⟩
    simp_all [holderOf]

theorem Step.cache_update {key : Site → Key} {s s' : State ι Site Key} {i : ι}
    (hs : Step key i s s') {c : Site} {p : Addr} (h : s'.cache c = some p) :
    s.cache c = some p ∨ holderOf (s.pc i) = some (c, p) := by
  cases hs with
  | storeCache c' p' hi =>
    by_cases hc : c = c'
    · subst hc
      have hp : Function.update s.cache c (some p') c = some p := h
      rw [Function.update_self] at hp
      cases hp
      exact .inr (congrArg holderOf hi)
    · exact .inl ((Function.update_of_ne hc _ _).symm.trans h)
  | _ => exact .inl h

theorem Step.domain {key : Site → Key} {s s' : State ι Site Key} {i : ι} (hs : Step key i s s')
    (h : ∀ p, s.holder p ≠ none ↔ p ∈ s.holdersBuilt.map Prod.snd) (p : Addr) :
    s'.holder p ≠ none ↔ p ∈ s'.holdersBuilt.map Prod.snd := by
  cases hs with
  | made c q hi =>
    show Function.update s.holder q _ p ≠ none ↔ p ∈ (s.holdersBuilt ++ [(key c, q)]).map Prod.snd
    rw [List.map_append, List.mem_append, ← h p]
    by_cases hp : p = q
    · subst hp
      rw [Function.update_self]
      exact ⟨fun _ => .inr (List.mem_singleton.mpr rfl), fun _ => Option.some_ne_none _⟩
    · rw [Function.update_of_ne hp]
      exact ⟨.inl, fun h => h.resolve_right fun h => hp (List.mem_singleton.mp h)⟩
  | lockHolder c q h0 _ hq _ => exact (setHolder_domain hq).trans (h p)
  | storeInstance c q v h0 _ hq => exact (setHolder_domain hq).trans (h p)
  | storeState c q v h0 _ hq => exact (setHolder_domain hq).trans (h p)
  | unlockHolder c q h0 _ hq => exact (setHolder_domain hq).trans (h p)
  | _ => exact h p

theorem Linked.holder_built {key : Site → Key} {s : State ι Site Key} (h : Linked key s)
    (hr : (system key).Reachable s) {i : ι} {c : Site} {p : Addr}
    (hi : holderOf (s.pc i) = some (c, p)) : s.holder p ≠ none := by
  have hptr := h.pc i c p hi
  obtain ⟨q, hq, hbuilt⟩ := (entries_reachable hr).ready (key c) (congrArg Option.isSome hptr)
  cases hq.symm.trans hptr
  exact (h.domain p).mpr (List.mem_map.mpr ⟨_, hbuilt, rfl⟩)

theorem Linked.step {key : Site → Key} {s s' : State ι Site Key} {i : ι} (h : Linked key s)
    (hr : (system key).Reachable s) (hs : Step key i s s') : Linked key s' := by
  obtain ⟨pc, hpc, hmine, hfault⟩ := hs.pc_update
  refine ⟨?_, ?_, hs.domain h.domain, ?_⟩
  · intro c p hc
    rcases hs.cache_update hc with hc | hi
    · exact ptr_stable hr hs (h.cache c p hc)
    · exact ptr_stable hr hs (h.pc i c p hi)
  · intro j c p hj
    rw [hpc] at hj
    by_cases hji : j = i
    · subst hji
      rw [Function.update_self] at hj
      rcases hmine c p hj with hi | hc | hp
      · exact ptr_stable hr hs (h.pc j c p hi)
      · exact ptr_stable hr hs (h.cache c p hc)
      · exact hp
    · rw [Function.update_of_ne hji] at hj
      exact ptr_stable hr hs (h.pc j c p hj)
  · intro j hj
    rw [hpc] at hj
    by_cases hji : j = i
    · subst hji
      rw [Function.update_self] at hj
      obtain ⟨p, hp, hnone⟩ := hfault hj
      obtain ⟨c, hc⟩ := holderOf_accesses hp
      exact h.holder_built hr hc hnone
    · rw [Function.update_of_ne hji] at hj
      exact h.noFault j hj

theorem linked_reachable {key : Site → Key} {s : State ι Site Key}
    (h : (system key).Reachable s) : Linked key s := by
  obtain ⟨tr, h⟩ := h
  induction h with
  | init h =>
    rw [show _ = init from h]
    exact linked_init key
  | step hrun hs ih => exact ih.step ⟨_, hrun⟩ hs

/-! ## The values -/

/-- The memory for a holder that is being made is nobody's holder yet. -/
theorem Linked.making {key : Site → Key} {s : State ι Site Key} (h : Linked key s)
    (hr : (system key).Reachable s) {i : ι} {c : Site} {p : Addr} (hi : s.pc i = .making c p) :
    s.holder p = none := by
  have hinv := entries_reachable hr
  have hknown : OnceCell.Known (entries key s) (.creating (key c) p) := by
    have := hinv.known i
    rw [show (entries key s).pc i = _ from congrArg (entryPc key) hi] at this
    exact this
  obtain ⟨_, hcreated, hnot⟩ := hknown
  by_contra hp
  obtain ⟨⟨k, q⟩, hmem, rfl⟩ := List.mem_map.mp ((h.domain p).mp hp)
  have hsame := List.inj_on_of_nodup_map hinv.values (hinv.built hmem) hcreated rfl
  rw [hsame] at hmem
  exact hnot hmem

theorem holderCells_step {key : Site → Key} {s s' : State ι Site Key} {i : ι}
    (hr : (system key).Reachable s) (hs : Step key i s s') :
    holderCells s' = holderCells s ∨ OnceCell.Step i (holderCells s) (holderCells s') := by
  cases hs with
  | call c hi => exact .inl (holderCells_quiet hi rfl)
  | cacheHit c p hi _ =>
    rw [holderCells_setPc]
    exact .inr (.enter _ p (congrArg holderPc hi))
  | cacheMiss c hi _ => exact .inl (holderCells_quiet hi rfl)
  | createEntry c hi => exact .inl (holderCells_quiet hi rfl)
  | ptrSet c p hi _ => exact .inl (holderCells_quiet hi rfl)
  | ptrNull c hi _ => exact .inl (holderCells_quiet hi rfl)
  | lockEntry c hi _ => exact .inl (holderCells_quiet hi rfl)
  | ptrSetMeanwhile c p hi _ => exact .inl (holderCells_quiet hi rfl)
  | ptrStillNull c hi _ => exact .inl (holderCells_quiet hi rfl)
  | make c p hi _ => exact .inl (holderCells_quiet hi rfl)
  | made c p hi =>
    have hnone := (linked_reachable hr).making hr hi
    have hquiet : holderCells (s.setPc i (.storePtr c p)) = holderCells s :=
      holderCells_quiet hi rfl
    rw [← hquiet]
    exact .inl (holderCells_new (s := s.setPc i (.storePtr c p)) hnone)
  | storePtr c p hi => exact .inl (holderCells_quiet hi rfl)
  | unlockEntry c p hi => exact .inl (holderCells_quiet hi rfl)
  | storeCache c p hi =>
    refine .inr ?_
    have hstep := OnceCell.Step.enter (holderCells s) p (congrArg holderPc hi)
    rw [← show holderPc (.loadState c p) = .check p from rfl, ← holderCells_setPc] at hstep
    exact hstep
  | stateLiving c p h hi hp hstate =>
    rw [holderCells_setPc]
    exact .inr (.ready _ p (congrArg holderPc hi) (by simp [holderCells, living, hp, hstate]))
  | stateNotLiving c p h hi hp hstate =>
    rw [holderCells_setPc]
    exact .inr (.notReady _ p (congrArg holderPc hi) (by simp [holderCells, living, hp, hstate]))
  | lockHolder c p h hi hp hfree =>
    rw [holderCells_setMutex (h := h) (by exact hp) (by rfl) (by rfl), holderCells_setPc]
    exact .inr (.lock _ p (congrArg holderPc hi) (by simp [holderCells, hp, hfree]))
  | livingMeanwhile c p h hi hp hstate =>
    rw [holderCells_setPc]
    exact .inr (.stillReady _ p (congrArg holderPc hi) (by simp [holderCells, living, hp, hstate]))
  | stillNotLiving c p h hi hp hstate =>
    rw [holderCells_setPc]
    exact .inr (.stillNotReady _ p (congrArg holderPc hi)
      (by simp [holderCells, living, hp, hstate]))
  | newValue c p v hi hfresh =>
    have hv : v ∉ (holderCells s).created.map Prod.snd := by
      rw [holderCells, List.map_map]
      exact hfresh.2
    refine .inr ?_
    rw [holderCells_new_value]
    exact .create _ p v (congrArg holderPc hi) hv
  | constructed c p v hi =>
    refine .inr ?_
    rw [holderCells_built_value]
    exact .built _ p v (congrArg holderPc hi)
  | storeInstance c p v h hi hp =>
    rw [holderCells_setInstance (h := h) (v := v) (by exact hp) (by rfl) (by rfl) (by rfl),
      holderCells_setPc]
    exact .inr (.write _ p v (congrArg holderPc hi))
  | storeState c p v h hi hp =>
    rw [holderCells_setLiving (h := h) (by exact hp) (by rfl) (by rfl) (by rfl), holderCells_setPc]
    exact .inr (.raise _ p v (congrArg holderPc hi))
  | unlockHolder c p h hi hp =>
    rw [holderCells_setMutex (h := h) (by exact hp) (by rfl) (by rfl), holderCells_setPc]
    exact .inr (.unlock _ p (congrArg holderPc hi))
  | readInstance c p h hi _ => exact .inl (holderCells_quiet hi rfl)
  | return' c r hi => exact .inl (holderCells_quiet hi rfl)
  | fault p hi hnone =>
    obtain ⟨c, hc⟩ := holderOf_accesses hi
    exact absurd hnone ((linked_reachable hr).holder_built hr hc)

theorem holderCells_reachable {key : Site → Key} {s : State ι Site Key}
    (h : (system key).Reachable s) : OnceCell.Inv (holderCells s) := by
  refine OnceCell.inv_reachable (h.project (C := OnceCell.system ι Addr Addr) holderCells ?_ ?_)
  · rintro s rfl
    exact ⟨fun _ => rfl, fun _ => rfl, fun _ => rfl, rfl, rfl⟩
  · intro s i s' hr hs
    exact (holderCells_step hr hs).imp_right fun h => ⟨i, h⟩

/-- A living holder stays alive, with the same value. -/
theorem living_stable {key : Site → Key} {s s' : State ι Site Key} {i : ι} {p : Addr}
    (hr : (system key).Reachable s) (hs : Step key i s s')
    (hready : (holderCells s).ready p = true) :
    (holderCells s').ready p = true ∧ (holderCells s').value p = (holderCells s).value p := by
  rcases holderCells_step hr hs with hsame | hstep
  · rw [hsame]
    exact ⟨hready, rfl⟩
  · exact (holderCells_reachable hr).ready_stable hstep hready

/-! ## The records -/

/-- A thread that is about to read the instance has seen the holder alive, or has just left its
critical section. -/
theorem Step.readInstance_update {key : Site → Key} {s s' : State ι Site Key} {i : ι}
    (hr : (system key).Reachable s) (hs : Step key i s s') {c : Site} {p : Addr}
    (h : s'.pc i = .readInstance c p) : (holderCells s).ready p = true := by
  cases hs with
  | stateLiving c' p' h0 hi hp hstate =>
    have hpc : Function.update s.pc i (.readInstance c' p') i = .readInstance c p := h
    rw [Function.update_self] at hpc
    cases hpc
    rw [(holderCells_of_some hp).1, hstate]
    rfl
  | unlockHolder c' p' h0 hi hp =>
    have hpc : Function.update s.pc i (.readInstance c' p') i = .readInstance c p := h
    rw [Function.update_self] at hpc
    cases hpc
    have hknown := (holderCells_reachable hr).known i
    rw [show (holderCells s).pc i = _ from congrArg holderPc hi] at hknown
    exact hknown
  | _ => simp [setPc, setEntry, setHolder] at h

theorem Step.values_update {key : Site → Key} {s s' : State ι Site Key} {i : ι}
    (hs : Step key i s s') {x : Key × Addr × Addr} (hx : x ∈ s'.values) :
    x ∈ s.values ∨ ∃ c, x.1 = key c ∧ holderOf (s.pc i) = some (c, x.2.1) := by
  cases hs with
  | newValue c p v hi _ =>
    refine (List.mem_append.mp hx).imp_right fun hx => ?_
    cases List.mem_singleton.mp hx
    exact ⟨c, rfl, congrArg holderOf hi⟩
  | _ => exact .inl hx

theorem Step.valuesBuilt_update {key : Site → Key} {s s' : State ι Site Key} {i : ι}
    (hs : Step key i s s') {x : Key × Addr × Addr} (hx : x ∈ s'.valuesBuilt) :
    x ∈ s.valuesBuilt ∨ ∃ c, x.1 = key c ∧ holderOf (s.pc i) = some (c, x.2.1) := by
  cases hs with
  | constructed c p v hi =>
    refine (List.mem_append.mp hx).imp_right fun hx => ?_
    cases List.mem_singleton.mp hx
    exact ⟨c, rfl, congrArg holderOf hi⟩
  | _ => exact .inl hx

theorem Step.results_update {key : Site → Key} {s s' : State ι Site Key} {i : ι}
    (hs : Step key i s s') {c : Site} {r : Option Addr} (hx : (c, r) ∈ s'.results) :
    (c, r) ∈ s.results ∨ ∃ p, s.pc i = .readInstance c p ∧ (holderCells s).value p = r := by
  cases hs with
  | readInstance c' p h hi hp =>
    refine (List.mem_append.mp hx).imp_right fun hx => ?_
    cases List.mem_singleton.mp hx
    exact ⟨p, hi, (holderCells_of_some hp).2.1⟩
  | _ => exact .inl hx

theorem Recorded.step {key : Site → Key} {s s' : State ι Site Key} {i : ι} (h : Recorded key s)
    (hr : (system key).Reachable s) (hs : Step key i s s') : Recorded key s' := by
  have hlinked := linked_reachable hr
  refine ⟨?_, ?_, ?_, ?_⟩
  · rintro ⟨k, p, v⟩ hx
    rcases hs.values_update hx with hx | ⟨c, rfl, hi⟩
    · exact ptr_stable hr hs (h.values _ hx)
    · exact ptr_stable hr hs (hlinked.pc i c p hi)
  · rintro ⟨k, p, v⟩ hx
    rcases hs.valuesBuilt_update hx with hx | ⟨c, rfl, hi⟩
    · exact ptr_stable hr hs (h.valuesBuilt _ hx)
    · exact ptr_stable hr hs (hlinked.pc i c p hi)
  · intro j c p hj
    refine (living_stable hr hs ?_).1
    by_cases hji : j = i
    · subst hji
      exact hs.readInstance_update hr hj
    · obtain ⟨pc, hpc, _⟩ := hs.pc_update
      rw [hpc, Function.update_of_ne hji] at hj
      exact h.readInstance j c p hj
  · intro c r hx
    rcases hs.results_update hx with hx | ⟨p, hi, hvalue⟩
    · obtain ⟨p, hp, hready, hvalue⟩ := h.results c r hx
      obtain ⟨hready', hvalue'⟩ := living_stable hr hs hready
      exact ⟨p, ptr_stable hr hs hp, hready', hvalue'.trans hvalue⟩
    · obtain ⟨hready', hvalue'⟩ := living_stable hr hs (h.readInstance i c p hi)
      have hp := hlinked.pc i c p (congrArg holderOf hi)
      exact ⟨p, ptr_stable hr hs hp, hready', hvalue'.trans hvalue⟩

theorem recorded_reachable {key : Site → Key} {s : State ι Site Key}
    (h : (system key).Reachable s) : Recorded key s := by
  obtain ⟨tr, h⟩ := h
  induction h with
  | init h =>
    rw [show _ = init from h]
    exact recorded_init key
  | step hrun hs ih => exact ih.step ⟨_, hrun⟩ hs

theorem key_of_holder {key : Site → Key} {s : State ι Site Key} (hr : (system key).Reachable s)
    {k k' : Key} {p : Addr} (h : (s.map k).ptr = some p) (h' : (s.map k').ptr = some p) :
    (k, p) ∈ s.holdersBuilt ∧ k = k' := by
  have hinv := entries_reachable hr
  have hbuilt : ∀ k, (s.map k).ptr = some p → (k, p) ∈ s.holdersBuilt := by
    intro k hk
    obtain ⟨q, hq, hmem⟩ := hinv.ready k (congrArg Option.isSome hk)
    cases hq.symm.trans hk
    exact hmem
  refine ⟨hbuilt k h, ?_⟩
  have hsame := List.inj_on_of_nodup_map hinv.values (hinv.built (hbuilt k h))
    (hinv.built (hbuilt k' h')) rfl
  exact congrArg Prod.fst hsame

theorem value_built {key : Site → Key} {s : State ι Site Key} (hr : (system key).Reachable s)
    {k : Key} {p : Addr} (hp : (s.map k).ptr = some p) (hready : (holderCells s).ready p = true) :
    ∃ v, (holderCells s).value p = some v ∧ (k, p, v) ∈ s.valuesBuilt := by
  obtain ⟨v, hv, hmem⟩ := (holderCells_reachable hr).ready p hready
  obtain ⟨⟨k', x⟩, hx, rfl⟩ := List.mem_map.mp hmem
  have hkk := (key_of_holder hr hp ((recorded_reachable hr).valuesBuilt _ hx)).2
  exact ⟨v, hv, hkk ▸ hx⟩

theorem values_once {key : Site → Key} {s : State ι Site Key} (hr : (system key).Reachable s) :
    (s.values.map Prod.fst).Nodup := by
  have hkeys := (holderCells_reachable hr).keys
  have hptr := (recorded_reachable hr).values
  refine List.Nodup.map_on ?_ (hkeys.of_map.of_map)
  intro x hx y hy hxy
  have hp := (hptr x hx).symm.trans (hxy ▸ hptr y hy)
  rw [holderCells, List.map_map] at hkeys
  exact List.inj_on_of_nodup_map hkeys hx hy (Option.some.inj hp)

/-- For every key the holder and the value are constructed at most once. Every `Get` returns a
pointer to a value that is finished, in a holder that is finished; two calls return the same pointer
exactly when their type and tag are the same. No holder is used before its constructor has
returned. -/
theorem created_once {key : Site → Key} {s : State ι Site Key} (h : (system key).Reachable s) :
    (∀ k, (s.holders.map Prod.fst).count k ≤ 1) ∧ (∀ k, (s.values.map Prod.fst).count k ≤ 1) ∧
      (∀ c r, (c, r) ∈ s.results → ∃ p v, r = some v ∧ (key c, p) ∈ s.holdersBuilt ∧
        (key c, p, v) ∈ s.valuesBuilt) ∧
      (∀ c r c' r', (c, r) ∈ s.results → (c', r') ∈ s.results → (key c = key c' ↔ r = r')) ∧
      ∀ i, s.pc i ≠ .fault := by
  have hrec := recorded_reachable h
  refine ⟨?_, ?_, ?_, ?_, (linked_reachable h).noFault⟩
  · exact List.nodup_iff_count_le_one.mp (entries_reachable h).keys
  · exact List.nodup_iff_count_le_one.mp (values_once h)
  · intro c r hx
    obtain ⟨p, hp, hready, hvalue⟩ := hrec.results c r hx
    obtain ⟨v, hv, hbuilt⟩ := value_built h hp hready
    exact ⟨p, v, hvalue.symm.trans hv, (key_of_holder h hp hp).1, hbuilt⟩
  · intro c r c' r' hx hx'
    obtain ⟨p, hp, hready, hvalue⟩ := hrec.results c r hx
    obtain ⟨p', hp', hready', hvalue'⟩ := hrec.results c' r' hx'
    constructor
    · intro hk
      rw [hk] at hp
      cases hp.symm.trans hp'
      exact hvalue.symm.trans hvalue'
    · rintro rfl
      have hinv := holderCells_reachable h
      obtain ⟨v, hv, hbuilt⟩ := hinv.ready p hready
      obtain ⟨v', hv', hbuilt'⟩ := hinv.ready p' hready'
      have hvv : v = v' := Option.some.inj
        ((hv.symm.trans hvalue).trans (hvalue'.symm.trans hv'))
      have hsame := List.inj_on_of_nodup_map hinv.values (hinv.built hbuilt) (hinv.built hbuilt') hvv
      cases hsame
      exact (key_of_holder h hp hp').2

/-- One thread, one call: every branch is taken that creates something. -/
theorem created_once_firstGet : ∃ s : State Unit Unit Unit, (system id).Reachable s ∧
    s.results = [((), some 2)] ∧ ∃ p v, some 2 = some v ∧ ((), p) ∈ s.holdersBuilt ∧
      ((), p, v) ∈ s.valuesBuilt := by
  have h0 : (system id).Reachable (init : State Unit Unit Unit) := .of_init rfl
  have h1 := h0.next (a := ()) (.call _ () rfl)
  have h2 := h1.next (a := ()) (.cacheMiss _ () rfl rfl)
  have h3 := h2.next (a := ()) (.createEntry _ () rfl)
  have h4 := h3.next (a := ()) (.ptrNull _ () rfl rfl)
  have h5 := h4.next (a := ()) (.lockEntry _ () rfl rfl)
  have h6 := h5.next (a := ()) (.ptrStillNull _ () rfl rfl)
  have h7 := h6.next (a := ()) (.make _ () 1 rfl ⟨nofun, nofun⟩)
  have h8 := h7.next (a := ()) (.made _ () 1 rfl)
  have h9 := h8.next (a := ()) (.storePtr _ () 1 rfl)
  have h10 := h9.next (a := ()) (.unlockEntry _ () 1 rfl)
  have h11 := h10.next (a := ()) (.storeCache _ () 1 rfl)
  have h12 := h11.next (a := ()) (.stateNotLiving _ () 1 _ rfl rfl nofun)
  have h13 := h12.next (a := ()) (.lockHolder _ () 1 _ rfl rfl rfl)
  have h14 := h13.next (a := ()) (.stillNotLiving _ () 1 _ rfl rfl nofun)
  have h15 := h14.next (a := ()) (.newValue _ () 1 2 rfl ⟨by decide, nofun⟩)
  have h16 := h15.next (a := ()) (.constructed _ () 1 2 rfl)
  have h17 := h16.next (a := ()) (.storeInstance _ () 1 2 _ rfl rfl)
  have h18 := h17.next (a := ()) (.storeState _ () 1 2 _ rfl rfl)
  have h19 := h18.next (a := ()) (.unlockHolder _ () 1 _ rfl rfl)
  have h20 := h19.next (a := ()) (.readInstance _ () 1 _ rfl rfl)
  exact ⟨_, h20, rfl, (created_once h20).2.2.1 () (some 2) (List.mem_singleton.mpr rfl)⟩

end State

end LazySingleton
end Huicpp
