import Mathlib
import Huicpp.Cxx.FdSet
import Huicpp.Scheduler.HandlerEdits

/-!
# Scheduler.HandlerMap

`HandlerSet` as a finite map from sockets to flags and callbacks. `select` wants the sockets as
indices into an `fd_set`, and the code does not check them there.

* `HandlerMap.apply`: what each mutator means.
* `Good`: the set is that map, its list is a ring, and its sockets are distinct and in range.
* `handlers_good_iff`: the set is good after every call exactly if every call is `Careful`.
-/

namespace Huicpp
namespace Scheduler

open Cxx Cxx.Prog

/-- The three bits. -/
def HIT_TEST : Flags := 7

/-- `FD_SET`, if the flags have the bit. -/
def fdSetFor (bit f : Flags) (h : Int) (fds : Int → Bool) : Prog (Int → Bool) :=
  if f &&& bit ≠ 0 then fdSet h fds else pure fds

/-- What `CallHandlers` computes of a descriptor before it tests the flags. -/
def Selected.testEvents (sel : Selected) (h : Int) : Prog Flags := do
  let r ← fdIsset h sel.rfds
  let w ← fdIsset h sel.wfds
  let e ← fdIsset h sel.efds
  pure ((if r then HIT_READ else 0) ||| (if w then HIT_WRITE else 0) |||
    (if e then HIT_EXCEP else 0))

/-- What `SetupHandleSet` holds: the iterator, the largest socket, and the sets. -/
structure Setup where
  nextPtr : Ptr
  res : Int
  rfds : Int → Bool
  wfds : Int → Bool
  efds : Int → Bool

/-- The mutators of `HandlerSet`. -/
inductive Mutator (π : Type) where
  | assignHandler (socketNum : Int) (conditionSet : Flags) (handlerProc : Option π)
  | removeHandler (socketNum : Int)
  | changeHandler (oldSocketNum newSocketNum : Int)
  deriving DecidableEq, Repr

namespace HandlerSet

variable {π : Type}

def changeHandler (oldSocketNum newSocketNum : Int) (s : HandlerSet π) : Prog (HandlerSet π) := do
  match ← s.lookupHandler oldSocketNum with
  | some handler => s.setHandle handler newSocketNum
  | none => pure s

def mutate : Mutator π → HandlerSet π → Prog (HandlerSet π)
  | .assignHandler socketNum conditionSet handlerProc, s =>
    s.assignHandler socketNum conditionSet handlerProc
  | .removeHandler socketNum, s => s.removeHandler socketNum
  | .changeHandler oldSocketNum newSocketNum, s => s.changeHandler oldSocketNum newSocketNum

def mutates : List (Mutator π) → HandlerSet π → Prog (HandlerSet π)
  | [], s => pure s
  | c :: cs, s => do
    let s ← s.mutate c
    mutates cs s

/-- The loop body of `SetupHandleSet`. -/
def setupBody (s : HandlerSet π) (st : Setup) : Prog (Ctl Setup Setup) := do
  let (dec, nextPtr) ← s.iterNext st.nextPtr
  match dec with
  | none => pure (.exit { st with nextPtr := nextPtr })
  | some dec => do
    s.access dec
    let f := s.flags dec
    if f &&& HIT_TEST = 0 then pure (.again { st with nextPtr := nextPtr })
    else do
      let h := s.hander dec
      let res := if st.res < h then h else st.res
      let rfds ← fdSetFor HIT_READ f h st.rfds
      let wfds ← fdSetFor HIT_WRITE f h st.wfds
      let efds ← fdSetFor HIT_EXCEP f h st.efds
      pure (.again ⟨nextPtr, res, rfds, wfds, efds⟩)

def setupHandleSet (s : HandlerSet π) : Prog Setup := do
  let iter ← s.iterReset
  loop s.setupBody ⟨iter, 0, fun _ => false, fun _ => false, fun _ => false⟩

end HandlerSet

/-! ## The map -/

abbrev HandlerMap (π : Type) := Int → Option (Flags × Option π)

namespace HandlerMap

variable {π : Type}

def empty : HandlerMap π := fun _ => none

/-- A socket that is not positive is not assigned to; the others are what a map does. -/
def apply (m : HandlerMap π) : Mutator π → HandlerMap π
  | .assignHandler k c f => if k ≤ 0 then m else Function.update m k (some (c, f))
  | .removeHandler k => Function.update m k none
  | .changeHandler k k' =>
    match m k with
    | none => m
    | some v => Function.update (Function.update m k none) k' (some v)

def applyAll (m : HandlerMap π) : List (Mutator π) → HandlerMap π
  | [] => m
  | c :: cs => (m.apply c).applyAll cs

/-- A socket that a call puts into the map is one that `select` can take, and `ChangeHandler` does
not put it where another descriptor has it. -/
def Careful (m : HandlerMap π) : Mutator π → Prop
  | .assignHandler k _ _ => k < FD_SETSIZE
  | .removeHandler _ => True
  | .changeHandler k k' => m k ≠ none → (0 < k' ∧ k' < FD_SETSIZE) ∧ (k' = k ∨ m k' = none)

def CarefulAll (m : HandlerMap π) : List (Mutator π) → Prop
  | [] => True
  | c :: cs => m.Careful c ∧ (m.apply c).CarefulAll cs

theorem carefulAll_left {m : HandlerMap π} {cs₁ cs₂ : List (Mutator π)}
    (h : m.CarefulAll (cs₁ ++ cs₂)) : m.CarefulAll cs₁ := by
  induction cs₁ generalizing m with
  | nil => exact trivial
  | cons c cs₁ ih => exact ⟨h.1, ih h.2⟩

end HandlerMap

namespace HandlerSet

variable {π : Type}

/-- A descriptor of the list, other than `m_handlers`. -/
def Node (s : HandlerSet π) (p : Ptr) : Prop := s.live p = true ∧ p ≠ handlers

/-- The set is the map `m`. -/
structure Good (s : HandlerSet π) (m : HandlerMap π) : Prop where
  ring : ∃ l, IsRing s.next s.prev handlers l ∧ ∀ p, s.live p = true ↔ p = handlers ∨ p ∈ l
  distinct : ∀ p q, s.Node p → s.Node q → s.hander p = s.hander q → p = q
  range : ∀ p, s.Node p → 0 < s.hander p ∧ s.hander p < FD_SETSIZE
  map : ∀ k v, m k = some v ↔ ∃ p, s.Node p ∧ s.hander p = k ∧ v = (s.flags p, s.bc p)
  setup : ∃ st, Returns s.setupHandleSet st
  test : ∀ p (sel : Selected), s.Node p → Returns (sel.testEvents (s.hander p)) (sel.resultEvents (s.hander p))

/-! ## The list as a map -/

/-- The map of a list of descriptors. -/
def mapOf (L : List (Entry π)) : HandlerMap π := fun k =>
  (L.find? (·.socket = k)).map fun d => (d.flags, d.proc)

/-- The set holds descriptors that are the map `m`, and `select` can take their sockets. -/
structure Represents (s : HandlerSet π) (L : List (Entry π)) (m : HandlerMap π) : Prop where
  holds : s.Holds L
  range : ∀ d ∈ L, 0 < d.socket ∧ d.socket < FD_SETSIZE
  map : mapOf L = m

variable {s : HandlerSet π} {L A R : List (Entry π)} {m : HandlerMap π} {d : Entry π}

theorem Holds.mapOf_of_mem (h : s.Holds L) (hd : d ∈ L) : mapOf L d.socket = some (d.flags, d.proc) := by
  rw [mapOf, h.find_eq hd]
  rfl

theorem mapOf_eq_none_iff {k : Int} : mapOf L k = none ↔ k ∉ L.map Entry.socket := by
  rw [mapOf, Option.map_eq_none_iff]
  exact Holds.find_none_iff

theorem mapOf_cons (d : Entry π) (L : List (Entry π)) :
    mapOf (d :: L) = Function.update (mapOf L) d.socket (some (d.flags, d.proc)) := by
  funext k
  by_cases hk : k = d.socket
  · subst hk
    rw [Function.update_self, mapOf, List.find?_cons_of_pos (by simp)]
    rfl
  · rw [Function.update_of_ne hk, mapOf, List.find?_cons_of_neg (by simpa using Ne.symm hk)]
    rfl

theorem Holds.node_iff (h : s.Holds L) (p : Ptr) : s.Node p ↔ ∃ d ∈ L, d.ptr = p := by
  rw [Node, h.live, ← List.mem_map]
  constructor
  · rintro ⟨rfl | hp, hne⟩
    · exact absurd rfl hne
    · exact hp
  · intro hp
    obtain ⟨d, hd, rfl⟩ := List.mem_map.mp hp
    exact ⟨.inr hp, h.ptr_ne hd⟩

theorem returns_fdSet {h : Int} (hr : 0 < h ∧ h < FD_SETSIZE) (fds : Int → Bool) :
    Returns (liftM (fdSet h fds) : Prog (Int → Bool)) (Function.update fds h true) :=
  .lift (fdSet_ok ⟨hr.1.le, hr.2⟩ fds)

theorem returns_fdIsset {h : Int} (hr : 0 < h ∧ h < FD_SETSIZE) (fds : Int → Bool) :
    Returns (liftM (fdIsset h fds) : Prog Bool) (fds h) :=
  .lift (fdIsset_ok ⟨hr.1.le, hr.2⟩ fds)

theorem returns_fdSetFor {h : Int} (hr : 0 < h ∧ h < FD_SETSIZE) (bit f : Flags)
    (fds : Int → Bool) : ∃ fds', Returns (fdSetFor bit f h fds) fds' := by
  rw [fdSetFor]
  split
  · exact ⟨_, returns_fdSet hr fds⟩
  · exact ⟨_, .pure fds⟩

theorem testEvents_returns {h : Int} (hr : 0 < h ∧ h < FD_SETSIZE) (sel : Selected) :
    Returns (sel.testEvents h) (sel.resultEvents h) :=
  (returns_fdIsset hr sel.rfds).bind ((returns_fdIsset hr sel.wfds).bind
    ((returns_fdIsset hr sel.efds).bind (.pure _)))

theorem setup_loop (h : s.Holds (A ++ R)) (hr : ∀ d ∈ A ++ R, 0 < d.socket ∧ d.socket < FD_SETSIZE)
    (st : Setup) (hst : st.nextPtr = Holds.first R) : ∃ st', Returns (loop s.setupBody st) st' := by
  induction R generalizing A st with
  | nil =>
    obtain ⟨nextPtr, res, rfds, wfds, efds⟩ := st
    obtain rfl : nextPtr = handlers := hst
    exact ⟨_, .loop_exit ((Holds.iterNext_end s).bind (.pure _))⟩
  | cons d R ih =>
    have hd : d ∈ A ++ d :: R := List.mem_append_right A List.mem_cons_self
    have h' : s.Holds ((A ++ [d]) ++ R) := by
      rw [List.append_assoc]
      exact h
    have hr' : ∀ x ∈ (A ++ [d]) ++ R, 0 < x.socket ∧ x.socket < FD_SETSIZE := by
      rw [List.append_assoc]
      exact hr
    obtain ⟨nextPtr, res, rfds, wfds, efds⟩ := st
    obtain rfl : nextPtr = d.ptr := hst
    have hsocket : 0 < s.hander d.ptr ∧ s.hander d.ptr < FD_SETSIZE := by
      rw [h.hander d hd]
      exact hr d hd
    by_cases hf : s.flags d.ptr &&& HIT_TEST = 0
    · obtain ⟨st', hst'⟩ := ih h' hr' ⟨Holds.first R, res, rfds, wfds, efds⟩ rfl
      refine ⟨st', .loop_again (h.iterNext.bind ((returns_access (h.live_of_mem hd)).bind ?_)) hst'⟩
      rw [if_pos hf]
      exact .pure _
    · obtain ⟨rfds', hrfds⟩ := returns_fdSetFor hsocket HIT_READ (s.flags d.ptr) rfds
      obtain ⟨wfds', hwfds⟩ := returns_fdSetFor hsocket HIT_WRITE (s.flags d.ptr) wfds
      obtain ⟨efds', hefds⟩ := returns_fdSetFor hsocket HIT_EXCEP (s.flags d.ptr) efds
      obtain ⟨st', hst'⟩ := ih h' hr' ⟨Holds.first R,
        if res < s.hander d.ptr then s.hander d.ptr else res, rfds', wfds', efds'⟩ rfl
      refine ⟨st', .loop_again (h.iterNext.bind ((returns_access (h.live_of_mem hd)).bind ?_)) hst'⟩
      rw [if_neg hf]
      exact hrfds.bind (hwfds.bind (hefds.bind (.pure _)))

theorem Represents.good (h : s.Represents L m) : s.Good m := by
  have hh := h.holds
  have hsocket : ∀ p, s.Node p → 0 < s.hander p ∧ s.hander p < FD_SETSIZE := by
    intro p hp
    obtain ⟨d, hd, rfl⟩ := (hh.node_iff p).mp hp
    rw [hh.hander d hd]
    exact h.range d hd
  refine ⟨⟨L.map Entry.ptr, hh.ring, hh.live⟩, ?_, hsocket, ?_, ?_, ?_⟩
  · intro p q hp hq heq
    obtain ⟨d, hd, rfl⟩ := (hh.node_iff p).mp hp
    obtain ⟨d', hd', rfl⟩ := (hh.node_iff q).mp hq
    rw [hh.hander d hd, hh.hander d' hd'] at heq
    exact (hh.ptr_eq_iff hd' hd).mpr heq
  · intro k v
    rw [← h.map]
    constructor
    · intro hv
      obtain ⟨d, hfind, rfl⟩ := Option.map_eq_some_iff.mp hv
      have hd := List.mem_of_find?_eq_some hfind
      have hk : d.socket = k := by simpa using List.find?_some hfind
      exact ⟨d.ptr, (hh.node_iff _).mpr ⟨d, hd, rfl⟩, (hh.hander d hd).trans hk,
        by rw [hh.flags d hd, hh.bc d hd]⟩
    · rintro ⟨p, hp, rfl, rfl⟩
      obtain ⟨d, hd, rfl⟩ := (hh.node_iff p).mp hp
      rw [hh.hander d hd, hh.flags d hd, hh.bc d hd]
      exact hh.mapOf_of_mem hd
  · obtain ⟨st, hst⟩ := setup_loop (A := []) hh h.range ⟨Holds.first L, 0, _, _, _⟩ rfl
    exact ⟨st, hh.reset.bind hst⟩
  · intro p sel hp
    exact testEvents_returns (hsocket p hp) sel

/-! ## What the mutators do to the map -/

theorem mapOf_assign {k : Int} (hin : k ∈ L.map Entry.socket) (hnd : (L.map Entry.socket).Nodup)
    (c : Flags) (f : Option π) :
    mapOf (L.map (Entry.assign k c f)) = Function.update (mapOf L) k (some (c, f)) := by
  induction L with
  | nil => cases hin
  | cons x L ih =>
    rw [List.map_cons, List.nodup_cons] at hnd
    rw [List.map_cons, mapOf_cons, mapOf_cons, Entry.assign_socket]
    by_cases hx : x.socket = k
    · have hassign : x.assign k c f = { x with flags := c, proc := f } := if_pos hx
      rw [Holds.assign_other (hx ▸ hnd.1), hassign, hx, Function.update_idem]
    · have hassign : x.assign k c f = x := if_neg hx
      have hin' : k ∈ L.map Entry.socket := (List.mem_cons.mp hin).resolve_left (Ne.symm hx)
      rw [ih hin' hnd.2, hassign, Function.update_comm hx]

theorem mapOf_remove (k : Int) (hnd : (L.map Entry.socket).Nodup) :
    mapOf (L.filterMap (Edit.removeHandle k).after) = Function.update (mapOf L) k none := by
  induction L with
  | nil => exact (Function.update_eq_self k HandlerMap.empty).symm
  | cons x L ih =>
    rw [List.map_cons, List.nodup_cons] at hnd
    rw [mapOf_cons]
    by_cases hx : x.socket = k
    · have hafter : (Edit.removeHandle k).after x = none := if_pos hx
      have hnone : mapOf L k = none := mapOf_eq_none_iff.mpr (hx ▸ hnd.1)
      rw [List.filterMap_cons_none hafter, Holds.remove_other (hx ▸ hnd.1), hx,
        Function.update_idem, ← hnone, Function.update_eq_self]
    · have hafter : (Edit.removeHandle k).after x = some x := if_neg hx
      rw [List.filterMap_cons_some hafter, mapOf_cons, ih hnd.2, Function.update_comm hx]

/-- The descriptor of the old socket, with the new one. -/
def rename (k k' : Int) (d : Entry π) : Entry π :=
  if d.socket = k then { d with socket := k' } else d

theorem rename_ptr (k k' : Int) (d : Entry π) : (rename k k' d).ptr = d.ptr := by
  rw [rename]
  split <;> rfl

theorem rename_other {k : Int} (hk : k ∉ L.map Entry.socket) (k' : Int) :
    L.map (rename k k') = L := by
  refine (List.map_congr_left fun d hd => ?_).trans (List.map_id L)
  have hne : d.socket ≠ k := by
    rintro rfl
    exact hk (List.mem_map_of_mem hd)
  exact if_neg hne

theorem nodup_rename {k k' : Int} (hnd : (L.map Entry.socket).Nodup)
    (hnew : k' = k ∨ k' ∉ L.map Entry.socket) :
    ((L.map (rename k k')).map Entry.socket).Nodup := by
  have hout : ∀ x ∈ L, x.socket ≠ k → x.socket ≠ k' := by
    rintro x hx hne rfl
    rcases hnew with heq | hout
    · exact hne heq
    · exact hout (List.mem_map_of_mem hx)
  rw [List.map_map]
  refine hnd.of_map.map_on fun x hx y hy heq => List.inj_on_of_nodup_map hnd hx hy ?_
  simp only [Function.comp_apply, rename] at heq
  by_cases hxk : x.socket = k
  · by_cases hyk : y.socket = k
    · rw [hxk, hyk]
    · rw [if_pos hxk, if_neg hyk] at heq
      exact absurd heq.symm (hout y hy hyk)
  · by_cases hyk : y.socket = k
    · rw [if_neg hxk, if_pos hyk] at heq
      exact absurd heq (hout x hx hxk)
    · rwa [if_neg hxk, if_neg hyk] at heq

theorem mapOf_rename {k k' : Int} {v : Flags × Option π} (hv : mapOf L k = some v)
    (hnd : (L.map Entry.socket).Nodup) (hnew : k' = k ∨ k' ∉ L.map Entry.socket) :
    mapOf (L.map (rename k k')) =
      Function.update (Function.update (mapOf L) k none) k' (some v) := by
  induction L with
  | nil => cases hv
  | cons x L ih =>
    rw [List.map_cons, List.nodup_cons] at hnd
    rw [mapOf_cons] at hv
    rw [List.map_cons, mapOf_cons, mapOf_cons]
    by_cases hx : x.socket = k
    · have hrename : rename k k' x = { x with socket := k' } := if_pos hx
      have hnone : mapOf L k = none := mapOf_eq_none_iff.mpr (hx ▸ hnd.1)
      rw [hx, Function.update_self] at hv
      rw [rename_other (hx ▸ hnd.1), hrename, hx, Function.update_idem, ← hnone,
        Function.update_eq_self, hv]
    · have hrename : rename k k' x = x := if_neg hx
      rw [Function.update_of_ne (Ne.symm hx)] at hv
      have hx' : x.socket ≠ k' := by
        rintro rfl
        rcases hnew with heq | hout
        · exact hx heq
        · exact hout List.mem_cons_self
      have hnew' : k' = k ∨ k' ∉ L.map Entry.socket := hnew.imp_right fun hout hin =>
        hout (List.mem_cons_of_mem _ hin)
      rw [ih hv hnd.2 hnew', hrename, Function.update_comm hx, Function.update_comm hx']

/-! ## ChangeHandler -/

/-- The set in which a descriptor has another socket. -/
def withSocket (s : HandlerSet π) (p : Ptr) (k : Int) : HandlerSet π :=
  { s with hander := Function.update s.hander p k }

theorem Holds.rename (h : s.Holds L) (hd : d ∈ L) {k' : Int}
    (hnew : k' = d.socket ∨ k' ∉ L.map Entry.socket) :
    (s.withSocket d.ptr k').Holds (L.map (rename d.socket k')) := by
  have hptr : (L.map (HandlerSet.rename d.socket k')).map Entry.ptr = L.map Entry.ptr := by
    rw [List.map_map]
    exact List.map_congr_left fun x _ => rename_ptr _ _ x
  refine ⟨?_, ?_, ?_, ?_, ?_, ?_, h.fresh⟩
  · rw [hptr]
    exact h.ring
  · intro x hx
    obtain ⟨y, hy, rfl⟩ := List.mem_map.mp hx
    show Function.update s.hander d.ptr k' _ = _
    rw [rename_ptr, HandlerSet.rename]
    split
    · next heq => rw [(h.ptr_eq_iff hd hy).mpr heq, Function.update_self]
    · next hne =>
      rw [Function.update_of_ne (mt (h.ptr_eq_iff hd hy).mp hne)]
      exact h.hander y hy
  · intro x hx
    obtain ⟨y, hy, rfl⟩ := List.mem_map.mp hx
    show s.flags _ = _
    rw [rename_ptr, h.flags y hy, HandlerSet.rename]
    split <;> rfl
  · intro x hx
    obtain ⟨y, hy, rfl⟩ := List.mem_map.mp hx
    show s.bc _ = _
    rw [rename_ptr, h.bc y hy, HandlerSet.rename]
    split <;> rfl
  · exact nodup_rename h.sockets hnew
  · rw [hptr]
    exact h.live

theorem changeHandler_some (h : s.Holds L) (hd : d ∈ L) (k' : Int) :
    Returns (s.changeHandler d.socket k') (s.withSocket d.ptr k') := by
  have hlookup := h.lookup d.socket
  rw [h.find_eq hd] at hlookup
  exact hlookup.bind (returns_setHandle k' (h.live_of_mem hd))

theorem changeHandler_none (h : s.Holds L) {k : Int} (hk : k ∉ L.map Entry.socket) (k' : Int) :
    Returns (s.changeHandler k k') s := by
  have hlookup := h.lookup k
  rw [Holds.find_none_iff.mpr hk] at hlookup
  exact hlookup.bind (.pure s)

/-! ## Runs -/

theorem assign_step (h : s.Represents L m) (k : Int) (c : Flags) (f : Option π) :
    ∃ s' L', Returns (s.assignHandler k c f) s' ∧ s'.Holds L' ∧
      mapOf L' = m.apply (.assignHandler k c f) ∧
      (k < FD_SETSIZE → ∀ d ∈ L', 0 < d.socket ∧ d.socket < FD_SETSIZE) := by
  have hh := h.holds
  by_cases hk : k ≤ 0
  · have happly : m.apply (.assignHandler k c f) = m := if_pos hk
    refine ⟨s, L, ?_, hh, h.map.trans happly.symm, fun _ => h.range⟩
    rw [HandlerSet.assignHandler, if_pos hk]
    exact .pure s
  · have hpos : 0 < k := not_le.mp hk
    have happly : m.apply (.assignHandler k c f) = Function.update (mapOf L) k (some (c, f)) := by
      rw [h.map]
      exact if_neg hk
    obtain ⟨s', hs', _, hholds⟩ := hh.assignHandler k c f
    rw [Holds.after_addHandle hpos] at hholds
    have hassigned : ∀ d ∈ L.map (Entry.assign k c f), 0 < d.socket ∧ d.socket < FD_SETSIZE := by
      intro d hd
      obtain ⟨x, hx, rfl⟩ := List.mem_map.mp hd
      rw [Entry.assign_socket]
      exact h.range x hx
    by_cases hin : k ∈ L.map Entry.socket
    · rw [Holds.added, if_neg fun hadd => hadd.2 hin] at hholds
      exact ⟨s', _, hs', hholds, (mapOf_assign hin hh.sockets c f).trans happly.symm,
        fun _ => hassigned⟩
    · rw [Holds.added, if_pos ⟨hpos, hin⟩, Holds.assign_other hin] at hholds
      refine ⟨s', _, hs', hholds, (mapOf_cons _ L).trans happly.symm, fun hlt d hd => ?_⟩
      rcases List.mem_cons.mp hd with rfl | hd
      · exact ⟨hpos, hlt⟩
      · exact h.range d hd

theorem change_step (h : s.Represents L m) (hd : d ∈ L) (k' : Int) :
    (m.Careful (.changeHandler d.socket k') →
        (s.withSocket d.ptr k').Represents (L.map (rename d.socket k'))
          (m.apply (.changeHandler d.socket k'))) ∧
      ((s.withSocket d.ptr k').Good (m.apply (.changeHandler d.socket k')) →
        m.Careful (.changeHandler d.socket k')) := by
  have hh := h.holds
  have hv : m d.socket = some (d.flags, d.proc) := by
    rw [← h.map]
    exact hh.mapOf_of_mem hd
  have hnone : ∀ j, m j = none ↔ j ∉ L.map Entry.socket := by
    intro j
    rw [← h.map]
    exact mapOf_eq_none_iff
  constructor
  · intro hc
    obtain ⟨hrange, hnew⟩ := hc (by rw [hv]; exact Option.some_ne_none _)
    have hnew' : k' = d.socket ∨ k' ∉ L.map Entry.socket := hnew.imp_right (hnone k').mp
    refine ⟨hh.rename hd hnew', fun x hx => ?_, ?_⟩
    · obtain ⟨y, hy, rfl⟩ := List.mem_map.mp hx
      rw [rename]
      split
      · exact hrange
      · exact h.range y hy
    · rw [mapOf_rename (hh.mapOf_of_mem hd) hh.sockets hnew', h.map, HandlerMap.apply, hv]
  · intro hgood _
    have hself : (s.withSocket d.ptr k').hander d.ptr = k' := Function.update_self _ _ _
    have hnode : ∀ x ∈ L, (s.withSocket d.ptr k').Node x.ptr := fun x hx =>
      (hh.node_iff x.ptr).mpr ⟨x, hx, rfl⟩
    refine ⟨hself ▸ hgood.range d.ptr (hnode d hd), ?_⟩
    by_contra hboth
    obtain ⟨hne, hsome⟩ := not_or.mp hboth
    -- another descriptor has the new socket
    obtain ⟨x, hx, rfl⟩ := List.mem_map.mp (not_not.mp (mt (hnone k').mpr hsome))
    have hptr : x.ptr ≠ d.ptr := fun heq => hne ((hh.ptr_eq_iff hd hx).mp heq)
    have hother : (s.withSocket d.ptr x.socket).hander x.ptr = x.socket :=
      (Function.update_of_ne hptr _ _).trans (hh.hander x hx)
    exact hptr (hgood.distinct _ _ (hnode x hx) (hnode d hd) (hother.trans hself.symm))

theorem Represents.mutate (h : s.Represents L m) (c : Mutator π) :
    ∃ s', Returns (s.mutate c) s' ∧ (m.Careful c → ∃ L', s'.Represents L' (m.apply c)) ∧
      (s'.Good (m.apply c) → m.Careful c) := by
  have hh := h.holds
  cases c with
  | assignHandler k c f =>
    obtain ⟨s', L', hs', hholds, hmap, hrange⟩ := assign_step h k c f
    refine ⟨s', hs', fun hc => ⟨L', hholds, hrange hc, hmap⟩, fun hgood => ?_⟩
    by_contra hbig
    have hpos : ¬ k ≤ 0 := by
      intro hle
      exact hbig (hle.trans_lt (by decide))
    have hassigned : m.apply (.assignHandler k c f) k = some (c, f) := by
      rw [HandlerMap.apply, if_neg hpos, Function.update_self]
    obtain ⟨p, hp, rfl, _⟩ := (hgood.map k (c, f)).mp hassigned
    exact hbig (hgood.range p hp).2
  | removeHandler k =>
    obtain ⟨s', hs', _, hholds⟩ := hh.removeHandler k
    refine ⟨s', hs', fun _ => ⟨_, hholds, fun d hd => ?_, ?_⟩, fun _ => trivial⟩
    · obtain ⟨x, hx, hxd⟩ := List.mem_filterMap.mp hd
      rw [(Edit.after_ptr hxd).2]
      exact h.range x hx
    · rw [mapOf_remove k hh.sockets, h.map]
      rfl
  | changeHandler k k' =>
    by_cases hin : k ∈ L.map Entry.socket
    · obtain ⟨d, hd, rfl⟩ := List.mem_map.mp hin
      obtain ⟨hcareful, hgood⟩ := change_step h hd k'
      exact ⟨_, changeHandler_some hh hd k', fun hc => ⟨_, hcareful hc⟩, hgood⟩
    · have hnone : m k = none := by
        rw [← h.map]
        exact mapOf_eq_none_iff.mpr hin
      have happly : m.apply (.changeHandler k k') = m := by
        rw [HandlerMap.apply, hnone]
      exact ⟨s, changeHandler_none hh hin k', fun _ => ⟨L, happly.symm ▸ h⟩,
        fun _ hsome => absurd hnone hsome⟩

theorem init_represents : (HandlerSet.init : HandlerSet π).Represents [] HandlerMap.empty where
  holds := init_holds
  range _ hd := absurd hd List.not_mem_nil
  map := rfl

/-- Careful calls keep the set represented. -/
theorem Represents.mutates (h : s.Represents L m) (cs : List (Mutator π)) (hc : m.CarefulAll cs) :
    ∃ s' L', Returns (s.mutates cs) s' ∧ s'.Represents L' (m.applyAll cs) := by
  induction cs generalizing s L m with
  | nil => exact ⟨s, L, .pure s, h⟩
  | cons c cs ih =>
    obtain ⟨s₁, hs₁, hrep, _⟩ := h.mutate c
    obtain ⟨L₁, h₁⟩ := hrep hc.1
    obtain ⟨s', L', hs', h'⟩ := ih h₁ hc.2
    exact ⟨s', L', hs₁.bind hs', h'⟩

/-- If the set is good after every call, every call was careful. -/
theorem Represents.careful (h : s.Represents L m) (cs : List (Mutator π))
    (hgood : ∀ cs₁ cs₂, cs = cs₁ ++ cs₂ → ∃ s', Returns (s.mutates cs₁) s' ∧
      s'.Good (m.applyAll cs₁)) : m.CarefulAll cs := by
  induction cs generalizing s L m with
  | nil => exact trivial
  | cons c cs ih =>
    obtain ⟨s₁, hs₁, hrep, hcareful⟩ := h.mutate c
    have hc : m.Careful c := by
      obtain ⟨s', hs', hg⟩ := hgood [c] cs rfl
      obtain rfl : s₁ = s' := (hs₁.bind (.pure s₁)).unique hs'
      exact hcareful hg
    obtain ⟨L₁, h₁⟩ := hrep hc
    refine ⟨hc, ih h₁ fun cs₁ cs₂ hcs => ?_⟩
    obtain ⟨s', hs', hg⟩ := hgood (c :: cs₁) cs₂ (congrArg (c :: ·) hcs)
    exact ⟨s', hs₁.of_bind hs', hg⟩

end HandlerSet

open HandlerSet

/-- **The set is a map.** After every call of a sequence the set is the map that the calls so far
make, with its list a ring and its sockets distinct and indices of an `fd_set`, exactly if every call
of the sequence is careful. -/
theorem handlers_good_iff {π : Type} (cs : List (Mutator π)) :
    (∀ cs₁ cs₂, cs = cs₁ ++ cs₂ → ∃ s, Returns (HandlerSet.init.mutates cs₁) s ∧
      s.Good (HandlerMap.empty.applyAll cs₁)) ↔ HandlerMap.empty.CarefulAll cs := by
  constructor
  · exact init_represents.careful cs
  · rintro hc cs₁ cs₂ rfl
    have hc₁ : HandlerMap.empty.CarefulAll cs₁ := HandlerMap.carefulAll_left hc
    obtain ⟨s, L, hs, h⟩ := init_represents.mutates cs₁ hc₁
    exact ⟨s, hs, h.good⟩

/-- A socket that `select` cannot take. -/
theorem handlers_good_not : ¬ ∀ cs : List (Mutator Unit), ∀ cs₁ cs₂, cs = cs₁ ++ cs₂ →
    ∃ s, Returns (HandlerSet.init.mutates cs₁) s ∧
      s.Good (HandlerMap.empty.applyAll cs₁) := by
  intro hall
  have hcareful : HandlerMap.empty.CarefulAll [Mutator.assignHandler FD_SETSIZE HIT_READ (some ())] :=
    init_represents.careful _ (hall _)
  exact absurd hcareful.1 (lt_irrefl FD_SETSIZE)

end Scheduler
end Huicpp
