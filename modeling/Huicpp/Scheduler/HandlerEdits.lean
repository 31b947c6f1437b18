import Mathlib
import Huicpp.Cxx.Ring
import Huicpp.Scheduler.HandlerSet

/-!
# Scheduler.HandlerEdits

What the edits do to the list of descriptors. `s.Holds L` says that the ring of `s` holds the
descriptors `L`, that these are all that are live, and that no two have the same socket. A new
descriptor goes to the front of the list. So an edit of `A ++ R` changes or deletes descriptors of
`R`, but does not add any to it.
-/

namespace Huicpp
namespace Scheduler

open Cxx Cxx.Prog

/-- A registered descriptor. -/
structure Entry (π : Type) where
  ptr : Ptr
  socket : Int
  flags : Flags
  proc : Option π
  deriving DecidableEq, Repr

variable {π : Type}

/-- The descriptor, with new flags and callback if it is the one of the socket. -/
def Entry.assign (socketNum : Int) (conditionSet : Flags) (handlerProc : Option π) (d : Entry π) :
    Entry π :=
  if d.socket = socketNum then { d with flags := conditionSet, proc := handlerProc } else d

@[simp] theorem Entry.assign_ptr (k : Int) (c : Flags) (f : Option π) (d : Entry π) :
    (d.assign k c f).ptr = d.ptr := by
  unfold Entry.assign
  split <;> rfl

@[simp] theorem Entry.assign_socket (k : Int) (c : Flags) (f : Option π) (d : Entry π) :
    (d.assign k c f).socket = d.socket := by
  unfold Entry.assign
  split <;> rfl

/-- What becomes of a descriptor. -/
def Edit.after : Edit π → Entry π → Option (Entry π)
  | .addHandle socketNum conditionSet handlerProc, d =>
    if 0 < socketNum then some (d.assign socketNum conditionSet handlerProc) else some d
  | .removeHandle socketNum, d => if d.socket = socketNum then none else some d

/-- The socket that an edit is about. -/
def Edit.socket : Edit π → Int
  | .addHandle socketNum _ _ => socketNum
  | .removeHandle socketNum => socketNum

theorem Edit.after_of_ne {e : Edit π} {d : Entry π} (hne : d.socket ≠ e.socket) :
    e.after d = some d := by
  cases e with
  | addHandle k flags f =>
    rw [Edit.socket] at hne
    rw [Edit.after, Entry.assign, if_neg hne, ite_self]
  | removeHandle k => exact if_neg hne

def afterAll : List (Edit π) → Entry π → Option (Entry π)
  | [], d => some d
  | e :: es, d => (e.after d).bind (afterAll es)

theorem Edit.after_ptr {e : Edit π} {d d' : Entry π} (h : e.after d = some d') :
    d'.ptr = d.ptr ∧ d'.socket = d.socket := by
  cases e with
  | addHandle k c f =>
    rw [Edit.after] at h
    split at h
    · cases h
      exact ⟨Entry.assign_ptr .., Entry.assign_socket ..⟩
    · cases h
      exact ⟨rfl, rfl⟩
  | removeHandle k =>
    rw [Edit.after] at h
    split at h
    · cases h
    · cases h
      exact ⟨rfl, rfl⟩

/-- A descriptor is deleted by the removals of its socket. -/
theorem afterAll_eq_none_iff {es : List (Edit π)} {d : Entry π} :
    afterAll es d = none ↔ .removeHandle d.socket ∈ es := by
  induction es generalizing d with
  | nil => simp [afterAll]
  | cons e es ih =>
    cases he : e.after d with
    | none =>
      cases e with
      | addHandle k c f => simp only [Edit.after] at he; split at he <;> cases he
      | removeHandle k =>
        simp only [Edit.after] at he
        split at he
        · next hk => simp [afterAll, Edit.after, hk]
        · cases he
    | some d' =>
      rw [afterAll, he, Option.bind_some, ih, (Edit.after_ptr he).2, List.mem_cons]
      refine (or_iff_right ?_).symm
      rintro rfl
      simp [Edit.after] at he

theorem afterAll_ptr {es : List (Edit π)} {d d' : Entry π} (h : afterAll es d = some d') :
    d'.ptr = d.ptr ∧ d'.socket = d.socket := by
  induction es generalizing d with
  | nil =>
    cases h
    exact ⟨rfl, rfl⟩
  | cons e es ih =>
    obtain ⟨d₁, h₁, h₂⟩ := Option.bind_eq_some_iff.mp h
    obtain ⟨hp, hs⟩ := ih h₂
    exact ⟨hp.trans (Edit.after_ptr h₁).1, hs.trans (Edit.after_ptr h₁).2⟩

namespace HandlerSet

structure Holds (s : HandlerSet π) (L : List (Entry π)) : Prop where
  ring : IsRing s.next s.prev handlers (L.map Entry.ptr)
  hander : ∀ d ∈ L, s.hander d.ptr = d.socket
  flags : ∀ d ∈ L, s.flags d.ptr = d.flags
  bc : ∀ d ∈ L, s.bc d.ptr = d.proc
  sockets : (L.map Entry.socket).Nodup
  live : ∀ p, s.live p = true ↔ p = handlers ∨ p ∈ L.map Entry.ptr
  fresh : ∀ p, s.live p = true → p < s.fresh

theorem init_holds : (init : HandlerSet π).Holds [] where
  ring := .empty (by simp [init]) (by simp [init])
  hander _ hd := absurd hd List.not_mem_nil
  flags _ hd := absurd hd List.not_mem_nil
  bc _ hd := absurd hd List.not_mem_nil
  sockets := List.nodup_nil
  live p := by
    simp only [init, Function.update_apply]
    by_cases hp : p = handlers <;> simp [hp]
  fresh p hp := by
    simp only [init, Function.update_apply] at hp
    split at hp
    · next h => rw [h]; exact Nat.zero_lt_one
    · cases hp

variable {s : HandlerSet π} {L A R : List (Entry π)} {d : Entry π} {p : Ptr}

/-! ## Access -/

theorem returns_access (h : s.live p = true) : Returns (s.access p) () := by
  rw [access, if_pos h]
  exact .pure ()

theorem faults_access (h : s.live p = false) : Faults (s.access p) .useAfterFree := by
  rw [access, h]
  exact .lift _

theorem returns_loadNext {v : Ptr} (h : s.live p = true) (hv : s.next p = some v) :
    Returns (s.loadNext p) v :=
  (returns_access h).bind (returns_deref hv)

theorem returns_loadPrev {v : Ptr} (h : s.live p = true) (hv : s.prev p = some v) :
    Returns (s.loadPrev p) v :=
  (returns_access h).bind (returns_deref hv)

theorem returns_storeNext (v : Ptr) (h : s.live p = true) :
    Returns (s.storeNext p v) { s with next := Function.update s.next p (some v) } :=
  (returns_access h).bind (.pure _)

theorem returns_storePrev (v : Ptr) (h : s.live p = true) :
    Returns (s.storePrev p v) { s with prev := Function.update s.prev p (some v) } :=
  (returns_access h).bind (.pure _)

theorem returns_setHandle (k : Int) (h : s.live p = true) :
    Returns (s.setHandle p k) { s with hander := Function.update s.hander p k } :=
  (returns_access h).bind (.pure _)

theorem returns_setFlags (c : Flags) (h : s.live p = true) :
    Returns (s.setFlags p c) { s with flags := Function.update s.flags p c } :=
  (returns_access h).bind (.pure _)

theorem returns_setProc (f : Option π) (h : s.live p = true) :
    Returns (s.setProc p f) { s with bc := Function.update s.bc p f } :=
  (returns_access h).bind (.pure _)

theorem faults_iterNext (hp : p ≠ handlers) (h : s.live p = false) :
    Faults (s.iterNext p) .useAfterFree := by
  rw [iterNext, if_neg hp]
  exact (faults_access h).bind.bind

namespace Holds

theorem live_handlers (h : s.Holds L) : s.live handlers = true := (h.live handlers).mpr (.inl rfl)

theorem live_of_mem (h : s.Holds L) (hd : d ∈ L) : s.live d.ptr = true :=
  (h.live d.ptr).mpr (.inr (List.mem_map_of_mem hd))

theorem ptr_ne (h : s.Holds L) (hd : d ∈ L) : d.ptr ≠ handlers := by
  intro heq
  exact (List.nodup_cons.mp h.ring.nodup).1 (heq ▸ List.mem_map_of_mem hd)

theorem ptrs_nodup (h : s.Holds L) : (L.map Entry.ptr).Nodup := (List.nodup_cons.mp h.ring.nodup).2

/-- The first descriptor, or `m_handlers`. -/
def first (L : List (Entry π)) : Ptr := (L.map Entry.ptr).headD handlers

theorem reset (h : s.Holds L) : Returns s.iterReset (first L) :=
  returns_loadNext h.live_handlers (next_of_isChain h.ring.chain)

theorem next (h : s.Holds (A ++ d :: R)) : s.next d.ptr = some (first R) := by
  have hring := h.ring
  rw [List.map_append, List.map_cons] at hring
  have hchain := hring.chain
  rw [List.append_assoc, List.cons_append, ← List.cons_append] at hchain
  exact next_of_isChain hchain.right_of_append

theorem iterNext (h : s.Holds (A ++ d :: R)) :
    Returns (s.iterNext d.ptr) (some d.ptr, first R) := by
  have hd : d ∈ A ++ d :: R := by simp
  rw [HandlerSet.iterNext, if_neg (h.ptr_ne hd)]
  exact (returns_loadNext (h.live_of_mem hd) h.next).bind (.pure _)

theorem iterNext_end (s : HandlerSet π) : Returns (s.iterNext handlers) (none, handlers) :=
  .pure _

/-! ## lookupHandler -/

theorem lookup_loop (h : s.Holds (A ++ R)) (k : Int) :
    Returns (loop (s.lookupBody k) (first R)) ((R.find? (·.socket = k)).map Entry.ptr) := by
  induction R generalizing A with
  | nil => exact .loop_exit ((iterNext_end s).bind (.pure _))
  | cons d R ih =>
    have hd : d ∈ A ++ d :: R := by simp
    by_cases hk : d.socket = k
    · rw [List.find?_cons_of_pos (by simpa using hk)]
      refine .loop_exit (h.iterNext.bind ((returns_access (h.live_of_mem hd)).bind ?_))
      rw [h.hander d hd, if_pos hk]
      exact .pure _
    · rw [List.find?_cons_of_neg (by simpa using hk)]
      have h' : s.Holds ((A ++ [d]) ++ R) := by
        rw [List.append_assoc]
        exact h
      refine .loop_again (h.iterNext.bind ((returns_access (h.live_of_mem hd)).bind ?_)) (ih h')
      rw [h.hander d hd, if_neg hk]
      exact .pure _

theorem lookup (h : s.Holds L) (k : Int) :
    Returns (s.lookupHandler k) ((L.find? (·.socket = k)).map Entry.ptr) :=
  h.reset.bind (lookup_loop (A := []) h k)

theorem find_eq (h : s.Holds L) (hd : d ∈ L) : L.find? (·.socket = d.socket) = some d := by
  have hnd := h.sockets
  clear h
  induction L with
  | nil => cases hd
  | cons x L ih =>
    rw [List.map_cons, List.nodup_cons] at hnd
    rcases List.mem_cons.mp hd with rfl | hd
    · exact List.find?_cons_of_pos (by simp)
    · have hne : x.socket ≠ d.socket := fun heq => hnd.1 (heq ▸ List.mem_map_of_mem hd)
      rw [List.find?_cons_of_neg (by simpa using hne)]
      exact ih hd hnd.2

theorem find_none_iff {k : Int} : L.find? (·.socket = k) = none ↔ k ∉ L.map Entry.socket := by
  simp [List.find?_eq_none]

theorem registered (h : s.Holds L) (hd : d ∈ L) : s.Registered d.ptr := by
  rw [Registered, h.hander d hd]
  have hlookup := h.lookup d.socket
  rw [h.find_eq hd] at hlookup
  exact hlookup

/-! ## A new descriptor -/

theorem not_live_fresh (h : s.Holds L) : s.live s.fresh = false := by
  cases hl : s.live s.fresh with
  | false => rfl
  | true => exact absurd (h.fresh _ hl) (lt_irrefl _)

theorem ne_fresh (h : s.Holds L) (hp : s.live p = true) : p ≠ s.fresh := by
  rintro rfl
  rw [h.not_live_fresh] at hp
  cases hp

theorem live_first (h : s.Holds L) : s.live (first L) = true := by
  cases L with
  | nil => exact h.live_handlers
  | cons d L => exact h.live_of_mem (List.mem_cons_self ..)

theorem prev_first (h : s.Holds L) : s.prev (first L) = some handlers := by
  have hchain := h.ring.chain
  cases L with
  | nil => exact (List.isChain_cons_cons.mp hchain).1.2
  | cons d L => exact (List.isChain_cons_cons.mp hchain).1.2

/-- The set with a new descriptor in front. -/
def withNew (s : HandlerSet π) (c : Ptr) : HandlerSet π :=
  { s.allocate with
    next := Function.update (Function.update s.next s.fresh (some c)) handlers (some s.fresh)
    prev := Function.update (Function.update s.prev s.fresh (some handlers)) c (some s.fresh) }

theorem newDescriptor (h : s.Holds L) :
    Returns (s.newDescriptor (first L)) (s.fresh, withNew s (first L)) := by
  have hfresh : s.allocate.live s.fresh = true := Function.update_self ..
  have hlive : ∀ {p}, s.live p = true → s.allocate.live p = true := fun hp =>
    (Function.update_of_ne (h.ne_fresh hp) ..).trans hp
  refine (returns_storeNext _ hfresh).bind ?_
  refine (returns_loadPrev (hlive h.live_first) h.prev_first).bind ?_
  refine (returns_storePrev handlers (by exact hfresh)).bind ?_
  refine (returns_storePrev s.fresh (by exact hlive h.live_first)).bind ?_
  refine (returns_loadPrev (v := handlers) (by exact hfresh) ?_).bind ?_
  · simp [Function.update_of_ne (h.ne_fresh h.live_first).symm]
  · exact (returns_storeNext s.fresh (by exact hlive h.live_handlers)).bind (.pure _)

theorem withNew_holds (h : s.Holds L) {k : Int} (hk : k ∉ L.map Entry.socket) (c : Flags)
    (f : Option π) :
    ({ withNew s (first L) with
      hander := Function.update (withNew s (first L)).hander s.fresh k
      flags := Function.update (withNew s (first L)).flags s.fresh c
      bc := Function.update (withNew s (first L)).bc s.fresh f } : HandlerSet π).Holds
      (⟨s.fresh, k, c, f⟩ :: L) := by
  have hne : ∀ d ∈ L, d.ptr ≠ s.fresh := fun d hd => h.ne_fresh (h.live_of_mem hd)
  have hother : ∀ {α : Type} (g : Ptr → α) (v : α), ∀ d ∈ L,
      Function.update g s.fresh v d.ptr = g d.ptr := fun g v d hd => Function.update_of_ne (hne d hd) ..
  refine ⟨?_, ?_, ?_, ?_, ?_, ?_, ?_⟩
  · have hfresh : s.fresh ∉ L.map Entry.ptr := by
      intro hm
      obtain ⟨d, hd, hp⟩ := List.mem_map.mp hm
      exact hne d hd hp
    obtain ⟨b, hb⟩ : ∃ b, L.map Entry.ptr ++ [handlers] = first L :: b := by
      cases L with
      | nil => exact ⟨_, rfl⟩
      | cons d L => exact ⟨_, rfl⟩
    have hring : IsRing s.next s.prev handlers ([] ++ L.map Entry.ptr) := h.ring
    exact hring.insert (a := []) (h.ne_fresh h.live_handlers).symm hfresh rfl hb
  · intro d hd
    rcases List.mem_cons.mp hd with rfl | hd
    · exact Function.update_self ..
    · refine (hother _ _ d hd).trans ((hother _ _ d hd).trans (h.hander d hd))
  · intro d hd
    rcases List.mem_cons.mp hd with rfl | hd
    · exact Function.update_self ..
    · refine (hother _ _ d hd).trans ((hother _ _ d hd).trans (h.flags d hd))
  · intro d hd
    rcases List.mem_cons.mp hd with rfl | hd
    · exact Function.update_self ..
    · refine (hother _ _ d hd).trans ((hother _ _ d hd).trans (h.bc d hd))
  · exact List.nodup_cons.mpr ⟨hk, h.sockets⟩
  · intro p
    show Function.update s.live s.fresh true p = true ↔ _
    rw [Function.update_apply, List.map_cons, List.mem_cons]
    split
    · next hp => simp [hp]
    · next hp => simp [hp, h.live p]
  · intro p hp
    have hp : Function.update s.live s.fresh true p = true := hp
    show p < s.fresh + 1
    rw [Function.update_apply] at hp
    split at hp
    · next heq => exact heq ▸ Nat.lt_succ_self _
    · exact Nat.lt_succ_of_lt (h.fresh p hp)

/-! ## A deleted descriptor -/

/-- The set after the descriptor between `a` and `c` has gone. -/
def without (s : HandlerSet π) (p a c : Ptr) : HandlerSet π :=
  { s with
    next := Function.update s.next a (some c)
    prev := Function.update s.prev c (some a)
    live := Function.update s.live p false }

theorem delete (h : s.Holds (A ++ d :: R)) :
    ∃ s', Returns (s.deleteDescriptor d.ptr) s' ∧ s'.Holds (A ++ R) ∧ s'.fresh = s.fresh := by
  have hlive := h.live_of_mem (List.mem_append_right A (List.mem_cons_self ..))
  have hring := h.ring
  rw [List.map_append, List.map_cons] at hring
  obtain ⟨a, p, c, b, hp, hc, hprev, hnext, hpd, hcd⟩ := hring.neighbours
  have hlp : s.live p = true := by
    refine (h.live p).mpr ?_
    have hpm : p ∈ handlers :: A.map Entry.ptr := hp ▸ by simp
    simp only [List.map_append, List.mem_append, List.mem_cons] at hpm ⊢
    exact hpm.imp_right .inl
  have hlc : s.live c = true := by
    refine (h.live c).mpr ?_
    have hcm : c ∈ R.map Entry.ptr ++ [handlers] := hc ▸ by simp
    rw [List.mem_append, List.mem_singleton] at hcm
    rw [List.map_append, List.map_cons, List.mem_append, List.mem_cons]
    exact hcm.symm.imp_right fun hm => .inr (.inr hm)
  have hsub : ∀ x ∈ A ++ R, x ∈ A ++ d :: R := fun x hx => by
    rw [List.mem_append] at hx ⊢
    exact hx.imp_right (List.mem_cons_of_mem d)
  refine ⟨without s d.ptr p c, ?_, ⟨?_, ?_, ?_, ?_, ?_, ?_, ?_⟩, rfl⟩
  · refine (returns_loadNext hlive hnext).bind ((returns_loadPrev hlive hprev).bind ?_)
    refine (returns_storePrev p hlc).bind ?_
    refine (returns_loadPrev (v := p) (by exact hlive) ?_).bind ?_
    · simpa [Function.update_of_ne hcd.symm] using hprev
    · refine (returns_loadNext (v := c) (by exact hlive) hnext).bind ?_
      exact (returns_storeNext c (by exact hlp)).bind (.pure _)
  · have hunlinked := hring.unlink hp hc (Function.update s.next p (some c) d.ptr)
      (Function.update s.prev c (some p) d.ptr)
    rw [Function.update_eq_self, Function.update_eq_self, ← List.map_append] at hunlinked
    exact hunlinked
  · intro x hx
    exact h.hander x (hsub x hx)
  · intro x hx
    exact h.flags x (hsub x hx)
  · intro x hx
    exact h.bc x (hsub x hx)
  · exact h.sockets.sublist ((List.Sublist.append_left (List.sublist_cons_self d R) A).map _)
  · intro x
    show Function.update s.live d.ptr false x = true ↔ _
    have hnd := hring.nodup
    rw [Function.update_apply, List.map_append]
    split
    · next hx =>
      subst hx
      refine iff_of_false Bool.false_ne_true ?_
      rw [List.mem_append]
      grind
    · next hx => rw [h.live x]; simp [hx]
  · intro x hx
    have hx : Function.update s.live d.ptr false x = true := hx
    rw [Function.update_apply] at hx
    split at hx
    · cases hx
    · exact h.fresh x hx

/-! ## A descriptor assigned to -/

theorem ptr_eq_iff (h : s.Holds L) {d d' : Entry π} (hd : d ∈ L) (hd' : d' ∈ L) :
    d'.ptr = d.ptr ↔ d'.socket = d.socket := by
  constructor
  · intro heq
    rw [List.inj_on_of_nodup_map h.ptrs_nodup hd' hd heq]
  · intro heq
    rw [List.inj_on_of_nodup_map h.sockets hd' hd heq]

theorem after_addHandle {k : Int} (hk : 0 < k) (c : Flags) (f : Option π) (L : List (Entry π)) :
    L.filterMap (Edit.addHandle k c f).after = L.map (Entry.assign k c f) := by
  rw [← List.filterMap_eq_map]
  refine List.filterMap_congr fun d _ => ?_
  rw [Edit.after, if_pos hk, Function.comp_apply]

theorem assign (h : s.Holds L) (hd : d ∈ L) (c : Flags) (f : Option π) :
    ({ s with
      flags := Function.update s.flags d.ptr c
      bc := Function.update s.bc d.ptr f } : HandlerSet π).Holds
      (L.map (Entry.assign d.socket c f)) := by
  have hptr : (L.map (Entry.assign d.socket c f)).map Entry.ptr = L.map Entry.ptr := by
    simp [Function.comp_def]
  have hsocket : (L.map (Entry.assign d.socket c f)).map Entry.socket = L.map Entry.socket := by
    simp [Function.comp_def]
  refine ⟨?_, ?_, ?_, ?_, ?_, ?_, h.fresh⟩
  · rw [hptr]
    exact h.ring
  · intro x hx
    obtain ⟨y, hy, rfl⟩ := List.mem_map.mp hx
    rw [Entry.assign_ptr, Entry.assign_socket]
    exact h.hander y hy
  · intro x hx
    obtain ⟨y, hy, rfl⟩ := List.mem_map.mp hx
    show Function.update s.flags d.ptr c _ = _
    rw [Entry.assign_ptr, Entry.assign]
    split
    · next heq => rw [(h.ptr_eq_iff hd hy).mpr heq, Function.update_self]
    · next hne =>
      rw [Function.update_of_ne (mt (h.ptr_eq_iff hd hy).mp hne)]
      exact h.flags y hy
  · intro x hx
    obtain ⟨y, hy, rfl⟩ := List.mem_map.mp hx
    show Function.update s.bc d.ptr f _ = _
    rw [Entry.assign_ptr, Entry.assign]
    split
    · next heq => rw [(h.ptr_eq_iff hd hy).mpr heq, Function.update_self]
    · next hne =>
      rw [Function.update_of_ne (mt (h.ptr_eq_iff hd hy).mp hne)]
      exact h.bc y hy
  · rw [hsocket]
    exact h.sockets
  · rw [hptr]
    exact h.live

/-! ## Edits -/

/-- The descriptor that an edit adds. -/
def added (n : Ptr) (L : List (Entry π)) : Edit π → List (Entry π)
  | .addHandle k c f => if 0 < k ∧ k ∉ L.map Entry.socket then [⟨n, k, c, f⟩] else []
  | .removeHandle _ => []

theorem added_ptr {n : Ptr} {e : Edit π} (hd : d ∈ added n L e) : d.ptr = n := by
  cases e with
  | addHandle k c f =>
    rw [added] at hd
    split at hd
    · rw [List.mem_singleton.mp hd]
    · cases hd
  | removeHandle k => cases hd

theorem assign_other {k : Int} (hk : k ∉ L.map Entry.socket) (c : Flags) (f : Option π) :
    L.map (Entry.assign k c f) = L := by
  refine (List.map_congr_left fun d hd => ?_).trans (List.map_id L)
  have hne : d.socket ≠ k := by
    rintro rfl
    exact hk (List.mem_map_of_mem hd)
  exact if_neg hne

theorem remove_other {k : Int} (hk : k ∉ L.map Entry.socket) :
    L.filterMap (Edit.removeHandle k).after = L := by
  refine (List.filterMap_congr fun d hd => ?_).trans List.filterMap_some
  have hne : d.socket ≠ k := by
    rintro rfl
    exact hk (List.mem_map_of_mem hd)
  exact if_neg hne

theorem lookupOrNew_some (h : s.Holds L) (hd : d ∈ L) :
    Returns (s.lookupOrNew d.socket) (d.ptr, s) := by
  have hlookup := h.lookup d.socket
  rw [h.find_eq hd] at hlookup
  exact hlookup.bind (.pure _)

theorem lookupOrNew_none (h : s.Holds L) {k : Int} (hk : k ∉ L.map Entry.socket) :
    Returns (s.lookupOrNew k) (s.fresh,
      { withNew s (first L) with
        hander := Function.update (withNew s (first L)).hander s.fresh k }) := by
  have hlookup := h.lookup k
  rw [find_none_iff.mpr hk] at hlookup
  have hfresh : (withNew s (first L)).live s.fresh = true := Function.update_self ..
  refine hlookup.bind (h.reset.bind (h.newDescriptor.bind ?_))
  exact (returns_setHandle k hfresh).bind (.pure _)

theorem assignHandler (h : s.Holds L) (k : Int) (c : Flags) (f : Option π) :
    ∃ s', Returns (s.assignHandler k c f) s' ∧ s.fresh ≤ s'.fresh ∧
      s'.Holds (added s.fresh L (.addHandle k c f) ++ L.filterMap (Edit.addHandle k c f).after) := by
  by_cases hk : k ≤ 0
  · refine ⟨s, ?_, le_rfl, ?_⟩
    · rw [HandlerSet.assignHandler, if_pos hk]
      exact .pure s
    · have hafter : L.filterMap (Edit.addHandle k c f).after = L :=
        (List.filterMap_congr fun d _ => if_neg (not_lt.mpr hk)).trans List.filterMap_some
      rw [added, if_neg fun hadd => absurd hadd.1 (not_lt.mpr hk), hafter]
      exact h
  · have hpos : 0 < k := not_le.mp hk
    rw [HandlerSet.assignHandler, if_neg hk, after_addHandle hpos]
    by_cases hin : k ∈ L.map Entry.socket
    · obtain ⟨d, hd, rfl⟩ := List.mem_map.mp hin
      rw [added, if_neg fun hadd => hadd.2 hin]
      have hlive := h.live_of_mem hd
      refine ⟨_, (h.lookupOrNew_some hd).bind ((returns_setFlags c hlive).bind
        (returns_setProc f (by exact hlive))), ?_, h.assign hd c f⟩
      exact le_rfl
    · rw [added, if_pos ⟨hpos, hin⟩, assign_other hin]
      have hfresh : (withNew s (first L)).live s.fresh = true := Function.update_self ..
      refine ⟨_, (h.lookupOrNew_none hin).bind ((returns_setFlags c (by exact hfresh)).bind
        (returns_setProc f (by exact hfresh))), ?_, h.withNew_holds hin c f⟩
      exact Nat.le_succ _

theorem removeHandler (h : s.Holds L) (k : Int) :
    ∃ s', Returns (s.removeHandler k) s' ∧ s.fresh ≤ s'.fresh ∧
      s'.Holds (L.filterMap (Edit.removeHandle k).after) := by
  have hlookup := h.lookup k
  by_cases hin : k ∈ L.map Entry.socket
  · obtain ⟨d, hd, rfl⟩ := List.mem_map.mp hin
    rw [h.find_eq hd] at hlookup
    obtain ⟨A, R, rfl⟩ := List.append_of_mem hd
    obtain ⟨s', hs', hholds, hfresh⟩ := h.delete
    have hnd := h.sockets
    rw [List.map_append, List.map_cons, List.nodup_append, List.nodup_cons] at hnd
    have hA : d.socket ∉ A.map Entry.socket := fun hm => hnd.2.2 _ hm _ (List.mem_cons_self ..) rfl
    have hdel : (Edit.removeHandle d.socket).after d = none := if_pos rfl
    refine ⟨s', hlookup.bind hs', hfresh.ge, ?_⟩
    rw [List.filterMap_append, List.filterMap_cons_none hdel, remove_other hA,
      remove_other hnd.2.1.1]
    exact hholds
  · rw [find_none_iff.mpr hin] at hlookup
    rw [remove_other hin]
    exact ⟨s, hlookup.bind (.pure s), le_rfl, h⟩

theorem edit (h : s.Holds L) (e : Edit π) :
    ∃ s', Returns (s.edit e) s' ∧ s.fresh ≤ s'.fresh ∧
      s'.Holds (added s.fresh L e ++ L.filterMap e.after) := by
  cases e with
  | addHandle k c f => exact h.assignHandler k c f
  | removeHandle k => exact h.removeHandler k

theorem filterMap_afterAll_cons (e : Edit π) (es : List (Edit π)) (L : List (Entry π)) :
    L.filterMap (afterAll (e :: es)) = (L.filterMap e.after).filterMap (afterAll es) := by
  rw [List.filterMap_filterMap]
  rfl

/-- Edits add descriptors in front, with new pointers, and do to the others what they do to each. -/
theorem edits (h : s.Holds (A ++ R)) (es : List (Edit π)) :
    ∃ s' A', Returns (s.edits es) s' ∧ s'.Holds (A' ++ R.filterMap (afterAll es)) ∧
      s.fresh ≤ s'.fresh ∧ ∀ d ∈ A', d.ptr ∈ A.map Entry.ptr ∨ s.fresh ≤ d.ptr := by
  induction es generalizing s A R with
  | nil =>
    refine ⟨s, A, .pure s, ?_, le_rfl, fun d hd => .inl (List.mem_map_of_mem hd)⟩
    rw [show afterAll ([] : List (Edit π)) = some from rfl, List.filterMap_some]
    exact h
  | cons e es ih =>
    obtain ⟨s₁, hs₁, hfresh₁, h₁⟩ := h.edit e
    rw [List.filterMap_append, ← List.append_assoc] at h₁
    obtain ⟨s', A', hs', h', hfresh', hA'⟩ := ih h₁
    refine ⟨s', A', hs₁.bind hs', ?_, hfresh₁.trans hfresh', ?_⟩
    · rw [filterMap_afterAll_cons]
      exact h'
    · intro d hd
      rcases hA' d hd with hm | hle
      · rw [List.map_append, List.mem_append] at hm
        rcases hm with hm | hm
        · obtain ⟨x, hx, hxp⟩ := List.mem_map.mp hm
          exact .inr (hxp ▸ (added_ptr hx).ge)
        · obtain ⟨x, hx, hxp⟩ := List.mem_map.mp hm
          obtain ⟨y, hy, hyx⟩ := List.mem_filterMap.mp hx
          exact .inl (hxp ▸ (Edit.after_ptr hyx).1 ▸ List.mem_map_of_mem hy)
      · exact .inr (hfresh₁.trans hle)

end Holds
end HandlerSet

end Scheduler
end Huicpp
