import Mathlib
import Huicpp.Cxx.OnceCell
import Huicpp.LazySingleton.Get

/-!
# LazySingleton.Cells

The two double-checked creations of `Get`, each seen as a cell that is filled once: an entry's
pointer is flag and value in one word, and a holder has its state for a flag and its instance for a
value.
-/

namespace Huicpp
namespace LazySingleton

open Cxx

namespace State

variable {ι Site Key : Type}

/-- A thread's position in `Entry::create`. -/
def entryPc (key : Site → Key) : Pc Site → OncePc Key Addr
  | .loadPtr c => .check (key c)
  | .lockEntry c => .lock (key c)
  | .reloadPtr c => .recheck (key c)
  | .make c => .create (key c)
  | .making c p => .creating (key c) p
  | .storePtr c p => .publish (key c) p
  | .unlockEntry c _ => .unlock (key c)
  | _ => .out

/-- The entries as cells. -/
def entries (key : Site → Key) (s : State ι Site Key) : OnceCell ι Key Addr where
  ready k := (s.map k).ptr.isSome
  value k := (s.map k).ptr
  owner k := (s.map k).mutex
  pc i := entryPc key (s.pc i)
  created := s.holders
  built := s.holdersBuilt

/-- A thread's position in `LazySingletonHolder::Get`. -/
def holderPc : Pc Site → OncePc Addr Addr
  | .loadState _ p => .check p
  | .lockHolder _ p => .lock p
  | .reloadState _ p => .recheck p
  | .newValue _ p => .create p
  | .constructing _ p v => .creating p v
  | .storeInstance _ p v => .publish p v
  | .storeState _ p v => .raise p v
  | .unlockHolder _ p => .unlock p
  | _ => .out

def living : Option (Holder ι) → Bool
  | some h => h.state == .Living
  | none => false

/-- The holders as cells. -/
def holderCells (s : State ι Site Key) : OnceCell ι Addr Addr where
  ready p := living (s.holder p)
  value p := (s.holder p).bind Holder.instance'
  owner p := (s.holder p).bind Holder.mutex
  pc i := holderPc (s.pc i)
  created := s.values.map Prod.snd
  built := s.valuesBuilt.map Prod.snd

theorem accesses_entryPc {key : Site → Key} {pc : Pc Site} {p : Addr} (h : accesses pc = some p) :
    entryPc key pc = .out := by
  cases pc <;> first | rfl | cases h

theorem holderCells_setHolder (s : State ι Site Key) (p : Addr) (h : Holder ι) :
    holderCells (s.setHolder p h) = { holderCells s with
      ready := Function.update (holderCells s).ready p (h.state == .Living)
      value := Function.update (holderCells s).value p h.instance'
      owner := Function.update (holderCells s).owner p h.mutex } := by
  refine OnceCell.ext ?_ ?_ ?_ rfl rfl rfl
  · funext q
    exact Function.apply_update (fun _ => living) s.holder p (some h) q
  · funext q
    exact Function.apply_update (fun _ x => Option.bind x Holder.instance') s.holder p (some h) q
  · funext q
    exact Function.apply_update (fun _ x => Option.bind x Holder.mutex) s.holder p (some h) q

theorem holderCells_of_some {s : State ι Site Key} {p : Addr} {h : Holder ι}
    (hp : s.holder p = some h) :
    (holderCells s).ready p = (h.state == .Living) ∧ (holderCells s).value p = h.instance' ∧
      (holderCells s).owner p = h.mutex :=
  ⟨congrArg living hp, congrArg (Option.bind · Holder.instance') hp,
    congrArg (Option.bind · Holder.mutex) hp⟩

theorem holderCells_setMutex {s : State ι Site Key} {p : Addr} {h h' : Holder ι}
    (hp : s.holder p = some h) (hstate : h'.state = h.state)
    (hinstance : h'.instance' = h.instance') :
    holderCells (s.setHolder p h') = { holderCells s with
      owner := Function.update (holderCells s).owner p h'.mutex } := by
  obtain ⟨hready, hvalue, _⟩ := holderCells_of_some hp
  rw [holderCells_setHolder, hstate, hinstance, ← hready, ← hvalue, Function.update_eq_self,
    Function.update_eq_self]

theorem holderCells_setInstance {s : State ι Site Key} {p v : Addr} {h h' : Holder ι}
    (hp : s.holder p = some h) (hstate : h'.state = h.state) (hmutex : h'.mutex = h.mutex)
    (hinstance : h'.instance' = some v) :
    holderCells (s.setHolder p h') = { holderCells s with
      value := Function.update (holderCells s).value p (some v) } := by
  obtain ⟨hready, _, howner⟩ := holderCells_of_some hp
  rw [holderCells_setHolder, hstate, hmutex, hinstance, ← hready, ← howner,
    Function.update_eq_self, Function.update_eq_self]

theorem holderCells_setLiving {s : State ι Site Key} {p : Addr} {h h' : Holder ι}
    (hp : s.holder p = some h) (hinstance : h'.instance' = h.instance')
    (hmutex : h'.mutex = h.mutex) (hstate : h'.state = .Living) :
    holderCells (s.setHolder p h') = { holderCells s with
      ready := Function.update (holderCells s).ready p true } := by
  obtain ⟨_, hvalue, howner⟩ := holderCells_of_some hp
  rw [holderCells_setHolder, hstate, hinstance, hmutex, ← hvalue, ← howner,
    Function.update_eq_self, Function.update_eq_self]
  rfl

/-- A new holder is an empty cell, as its memory was before. -/
theorem holderCells_new {s : State ι Site Key} {p : Addr} (hp : s.holder p = none) :
    holderCells (s.setHolder p ⟨none, .Dead, none⟩) = holderCells s := by
  have hready : (holderCells s).ready p = false := congrArg living hp
  have hvalue : (holderCells s).value p = none := congrArg (Option.bind · Holder.instance') hp
  have howner : (holderCells s).owner p = none := congrArg (Option.bind · Holder.mutex) hp
  rw [holderCells_setHolder, ← hvalue, ← howner, Function.update_eq_self, Function.update_eq_self]
  show { holderCells s with ready := Function.update (holderCells s).ready p false }
    = holderCells s
  rw [← hready, Function.update_eq_self]

section

variable [DecidableEq ι]

theorem entries_setPc (key : Site → Key) (s : State ι Site Key) (i : ι) (pc : Pc Site) :
    entries key (s.setPc i pc) = (entries key s).setPc i (entryPc key pc) := by
  refine OnceCell.ext rfl rfl rfl ?_ rfl rfl
  funext j
  exact Function.apply_update (fun _ => entryPc key) s.pc i pc j

theorem holderCells_setPc (s : State ι Site Key) (i : ι) (pc : Pc Site) :
    holderCells (s.setPc i pc) = (holderCells s).setPc i (holderPc pc) := by
  refine OnceCell.ext rfl rfl rfl ?_ rfl rfl
  funext j
  exact Function.apply_update (fun _ => holderPc) s.pc i pc j

theorem entries_quiet {key : Site → Key} {s : State ι Site Key} {i : ι} {old new : Pc Site}
    (hi : s.pc i = old) (h : entryPc key new = entryPc key old) :
    entries key (s.setPc i new) = entries key s := by
  rw [entries_setPc]
  exact OnceCell.setPc_eq_self (by rw [h, ← hi]; rfl)

theorem holderCells_quiet {s : State ι Site Key} {i : ι} {old new : Pc Site}
    (hi : s.pc i = old) (h : holderPc new = holderPc old) :
    holderCells (s.setPc i new) = holderCells s := by
  rw [holderCells_setPc]
  exact OnceCell.setPc_eq_self (by rw [h, ← hi]; rfl)

theorem holderCells_new_value (s : State ι Site Key) (i : ι) (c : Site) (k : Key) (p v : Addr) :
    holderCells { s.setPc i (.constructing c p v) with values := s.values ++ [(k, p, v)] }
      = { (holderCells s).setPc i (.creating p v) with
          created := (holderCells s).created ++ [(p, v)] } := by
  have hpc := congrArg OnceCell.pc (holderCells_setPc s i (.constructing c p v))
  exact OnceCell.ext rfl rfl rfl hpc List.map_append rfl

theorem holderCells_built_value (s : State ι Site Key) (i : ι) (c : Site) (k : Key) (p v : Addr) :
    holderCells { s.setPc i (.storeInstance c p v) with
        valuesBuilt := s.valuesBuilt ++ [(k, p, v)] }
      = { (holderCells s).setPc i (.publish p v) with
          built := (holderCells s).built ++ [(p, v)] } := by
  have hpc := congrArg OnceCell.pc (holderCells_setPc s i (.storeInstance c p v))
  exact OnceCell.ext rfl rfl rfl hpc rfl List.map_append

end

variable [DecidableEq Key]

theorem entries_setEntry (key : Site → Key) (s : State ι Site Key) (k : Key) (e : Entry ι) :
    entries key (s.setEntry k e) = { entries key s with
      ready := Function.update (entries key s).ready k e.ptr.isSome
      value := Function.update (entries key s).value k e.ptr
      owner := Function.update (entries key s).owner k e.mutex } := by
  refine OnceCell.ext ?_ ?_ ?_ rfl rfl rfl
  · funext k'
    exact Function.apply_update (fun _ e => Option.isSome (Entry.ptr e)) s.map k e k'
  · funext k'
    exact Function.apply_update (fun _ => Entry.ptr) s.map k e k'
  · funext k'
    exact Function.apply_update (fun _ => Entry.mutex) s.map k e k'

theorem entries_setMutex {key : Site → Key} {s : State ι Site Key} {k : Key} {e : Entry ι}
    (hptr : e.ptr = (s.map k).ptr) :
    entries key (s.setEntry k e) = { entries key s with
      owner := Function.update (entries key s).owner k e.mutex } := by
  have hready : (entries key s).ready k = e.ptr.isSome := congrArg Option.isSome hptr.symm
  have hvalue : (entries key s).value k = e.ptr := hptr.symm
  rw [entries_setEntry, ← hready, ← hvalue, Function.update_eq_self, Function.update_eq_self]

theorem entries_setPtr {key : Site → Key} {s : State ι Site Key} {k : Key} {e : Entry ι}
    {p : Addr} (hptr : e.ptr = some p) (hmutex : e.mutex = (s.map k).mutex) :
    entries key (s.setEntry k e) = { entries key s with
      value := Function.update (entries key s).value k (some p)
      ready := Function.update (entries key s).ready k true } := by
  have howner : (entries key s).owner k = e.mutex := hmutex.symm
  rw [entries_setEntry, ← howner, hptr, Function.update_eq_self]
  rfl

variable [DecidableEq ι] [DecidableEq Site]

/-- Every step is a step of the entries, or leaves them alone. -/
theorem entries_step {key : Site → Key} {s s' : State ι Site Key} {i : ι} (hs : Step key i s s') :
    entries key s' = entries key s ∨ OnceCell.Step i (entries key s) (entries key s') := by
  cases hs with
  | call c hi => exact .inl (entries_quiet hi rfl)
  | cacheHit c p hi _ => exact .inl (entries_quiet hi rfl)
  | cacheMiss c hi _ => exact .inl (entries_quiet hi rfl)
  | createEntry c hi =>
    rw [entries_setPc]
    exact .inr (.enter _ (key c) (congrArg (entryPc key) hi))
  | ptrSet c p hi hp =>
    rw [entries_setPc]
    exact .inr (.ready _ (key c) (congrArg (entryPc key) hi) (congrArg Option.isSome hp))
  | ptrNull c hi hp =>
    rw [entries_setPc]
    exact .inr (.notReady _ (key c) (congrArg (entryPc key) hi) (congrArg Option.isSome hp))
  | lockEntry c hi hfree =>
    rw [entries_setMutex (by rfl), entries_setPc]
    exact .inr (.lock _ (key c) (congrArg (entryPc key) hi) hfree)
  | ptrSetMeanwhile c p hi hp =>
    rw [entries_setPc]
    exact .inr (.stillReady _ (key c) (congrArg (entryPc key) hi) (congrArg Option.isSome hp))
  | ptrStillNull c hi hp =>
    rw [entries_setPc]
    exact .inr (.stillNotReady _ (key c) (congrArg (entryPc key) hi) (congrArg Option.isSome hp))
  | make c p hi hfresh =>
    refine .inr ?_
    have hstep := OnceCell.Step.create (entries key s) (key c) p (congrArg (entryPc key) hi) hfresh.1
    rw [← show entryPc key (.making c p) = .creating (key c) p from rfl, ← entries_setPc] at hstep
    exact hstep
  | made c p hi =>
    refine .inr ?_
    have hstep := OnceCell.Step.built (entries key s) (key c) p (congrArg (entryPc key) hi)
    rw [← show entryPc key (.storePtr c p) = .publish (key c) p from rfl, ← entries_setPc] at hstep
    exact hstep
  | storePtr c p hi =>
    rw [entries_setPtr (by rfl) (by rfl), entries_setPc]
    exact .inr (.store _ (key c) p (congrArg (entryPc key) hi))
  | unlockEntry c p hi =>
    rw [entries_setMutex (by rfl), entries_setPc]
    exact .inr (.unlock _ (key c) (congrArg (entryPc key) hi))
  | storeCache c p hi => exact .inl (entries_quiet hi rfl)
  | stateLiving c p h hi _ _ => exact .inl (entries_quiet hi rfl)
  | stateNotLiving c p h hi _ _ => exact .inl (entries_quiet hi rfl)
  | lockHolder c p h hi _ _ => exact .inl (entries_quiet hi rfl)
  | livingMeanwhile c p h hi _ _ => exact .inl (entries_quiet hi rfl)
  | stillNotLiving c p h hi _ _ => exact .inl (entries_quiet hi rfl)
  | newValue c p v hi _ => exact .inl (entries_quiet hi rfl)
  | constructed c p v hi => exact .inl (entries_quiet hi rfl)
  | storeInstance c p v h hi _ => exact .inl (entries_quiet hi rfl)
  | storeState c p v h hi _ => exact .inl (entries_quiet hi rfl)
  | unlockHolder c p h hi _ => exact .inl (entries_quiet hi rfl)
  | readInstance c p h hi _ => exact .inl (entries_quiet hi rfl)
  | return' c r hi => exact .inl (entries_quiet hi rfl)
  | fault p hi _ => exact .inl (entries_quiet rfl (accesses_entryPc hi).symm)

theorem entries_reachable {key : Site → Key} {s : State ι Site Key}
    (h : (system key).Reachable s) : OnceCell.Inv (entries key s) := by
  refine OnceCell.inv_reachable (h.project (C := OnceCell.system ι Key Addr) (entries key) ?_ ?_)
  · rintro s rfl
    exact ⟨fun _ => rfl, fun _ => rfl, fun _ => rfl, rfl, rfl⟩
  · intro s i s' _ hs
    exact (entries_step hs).imp_right fun h => ⟨i, h⟩

theorem ptr_stable {key : Site → Key} {s s' : State ι Site Key} {i : ι} {k : Key} {p : Addr}
    (h : (system key).Reachable s) (hs : Step key i s s') (hp : (s.map k).ptr = some p) :
    (s'.map k).ptr = some p := by
  rcases entries_step hs with hsame | hstep
  · exact (congrFun (congrArg OnceCell.value hsame) k).trans hp
  · have hready : (entries key s).ready k = true := congrArg Option.isSome hp
    exact ((entries_reachable h).ready_stable hstep hready).2.trans hp

end State

end LazySingleton
end Huicpp
