import Mathlib
import Huicpp.Scheduler.Dispatch
import Huicpp.Scheduler.HandlerMap

/-!
# Scheduler.SelectRound

One round of `select`, from the registrations to the callbacks. `SetupHandleSet` fills three sets from
the descriptors, `select` leaves in them what is ready, and `CallHandlers` goes through the
descriptors once more.

* `Setup.Exact`: the sets are what is registered, and `res` is the largest socket in them.
* `select_round`: exactly the callbacks of descriptors that are ready for something they were
  registered for are called, once, with just these events.
-/

namespace Huicpp
namespace Scheduler

open Cxx Cxx.Prog

/-- Something of `bits` is registered for the socket. -/
def HandlerMap.Asks {π : Type} (m : HandlerMap π) (bits : Flags) (k : Int) : Prop :=
  ∃ v, m k = some v ∧ v.1 &&& bits ≠ 0

structure Setup.Exact {π : Type} (st : Setup) (m : HandlerMap π) : Prop where
  rfds : ∀ k, st.rfds k = true ↔ m.Asks HIT_READ k
  wfds : ∀ k, st.wfds k = true ↔ m.Asks HIT_WRITE k
  efds : ∀ k, st.efds k = true ↔ m.Asks HIT_EXCEP k
  le_res : ∀ k, m.Asks HIT_TEST k → k ≤ st.res
  res : st.res = 0 ∨ m.Asks HIT_TEST st.res

/-- `select` leaves in each set the sockets that are ready. -/
def Setup.select (st : Setup) (ready : Selected) : Selected where
  rfds k := st.rfds k && ready.rfds k
  wfds k := st.wfds k && ready.wfds k
  efds k := st.efds k && ready.efds k

/-! ## Flags -/

section Bits

theorem and_bit (f : Flags) (i : Nat) :
    f &&& BitVec.twoPow 32 i = if f &&& BitVec.twoPow 32 i ≠ 0 then BitVec.twoPow 32 i else 0 := by
  rw [BitVec.and_twoPow]
  split
  · split
    · rfl
    · next h => exact not_not.mp h
  · simp

theorem read_eq : HIT_READ = BitVec.twoPow 32 0 := by decide

theorem write_eq : HIT_WRITE = BitVec.twoPow 32 1 := by decide

theorem excep_eq : HIT_EXCEP = BitVec.twoPow 32 2 := by decide

theorem test_eq : HIT_TEST = HIT_READ ||| HIT_WRITE ||| HIT_EXCEP := by decide

theorem or_and_distrib (a b c f : Flags) :
    f &&& (a ||| b ||| c) = (f &&& a) ||| (f &&& b) ||| (f &&& c) := by
  rw [BitVec.and_or_distrib_left, BitVec.and_or_distrib_left]

theorem and_if (f b : Flags) (c : Bool) : f &&& (if c then b else 0) = if c then f &&& b else 0 := by
  cases c with
  | true => rfl
  | false => exact BitVec.and_zero

end Bits

/-! ## `SetupHandleSet` -/

/-- Something of `bits` is asked for by a descriptor of the list. -/
def AskedBy {π : Type} (L : List (Entry π)) (bits : Flags) (k : Int) : Prop :=
  ∃ d ∈ L, d.socket = k ∧ d.flags &&& bits ≠ 0

/-- The sets after the descriptors of the list. -/
structure Setup.Covers {π : Type} (st : Setup) (L : List (Entry π)) : Prop where
  rfds : ∀ k, st.rfds k = true ↔ AskedBy L HIT_READ k
  wfds : ∀ k, st.wfds k = true ↔ AskedBy L HIT_WRITE k
  efds : ∀ k, st.efds k = true ↔ AskedBy L HIT_EXCEP k
  le_res : ∀ k, AskedBy L HIT_TEST k → k ≤ st.res
  res : st.res = 0 ∨ AskedBy L HIT_TEST st.res

section Setup

variable {π : Type} {s : HandlerSet π} {L A R : List (Entry π)} {d : Entry π} {bits : Flags} {k : Int}

theorem not_askedBy_nil : ¬ AskedBy ([] : List (Entry π)) bits k := by
  rintro ⟨d, hd, -⟩
  cases hd

theorem askedBy_concat :
    AskedBy (A ++ [d]) bits k ↔ AskedBy A bits k ∨ d.socket = k ∧ d.flags &&& bits ≠ 0 := by
  simp only [AskedBy, List.mem_append, List.mem_singleton, or_and_right, exists_or, exists_eq_left]

theorem askedBy_test {f : Flags} (h : f &&& HIT_TEST = 0) :
    f &&& HIT_READ = 0 ∧ f &&& HIT_WRITE = 0 ∧ f &&& HIT_EXCEP = 0 := by
  rw [test_eq, or_and_distrib] at h
  obtain ⟨hrw, he⟩ := BitVec.or_eq_zero_iff.mp h
  obtain ⟨hr, hw⟩ := BitVec.or_eq_zero_iff.mp hrw
  exact ⟨hr, hw, he⟩

theorem covers_nil (p : Ptr) :
    (⟨p, 0, fun _ => false, fun _ => false, fun _ => false⟩ : Setup).Covers ([] : List (Entry π)) where
  rfds _ := ⟨fun h => absurd h Bool.false_ne_true, fun h => absurd h not_askedBy_nil⟩
  wfds _ := ⟨fun h => absurd h Bool.false_ne_true, fun h => absurd h not_askedBy_nil⟩
  efds _ := ⟨fun h => absurd h Bool.false_ne_true, fun h => absurd h not_askedBy_nil⟩
  le_res _ h := absurd h not_askedBy_nil
  res := .inl rfl

theorem fdSetFor_spec {fds : Int → Bool} (hr : 0 < d.socket ∧ d.socket < FD_SETSIZE)
    (h : ∀ k, fds k = true ↔ AskedBy A bits k) :
    ∃ fds', Returns (fdSetFor bits d.flags d.socket fds) fds' ∧
      ∀ k, fds' k = true ↔ AskedBy (A ++ [d]) bits k := by
  rw [fdSetFor]
  split
  · next hbit =>
    refine ⟨_, HandlerSet.returns_fdSet hr fds, fun k => ?_⟩
    rw [askedBy_concat, Function.update_apply]
    by_cases hk : k = d.socket
    · rw [if_pos hk]
      exact ⟨fun _ => .inr ⟨hk.symm, hbit⟩, fun _ => rfl⟩
    · rw [if_neg hk, h]
      exact (or_iff_left fun hd => hk hd.1.symm).symm
  · next hbit =>
    refine ⟨fds, .pure fds, fun k => ?_⟩
    rw [h, askedBy_concat]
    exact (or_iff_left fun hd => hbit hd.2).symm

theorem res_spec {res : Int} (hf : d.flags &&& HIT_TEST ≠ 0)
    (hle : ∀ k, AskedBy A HIT_TEST k → k ≤ res) (hres : res = 0 ∨ AskedBy A HIT_TEST res) :
    (∀ k, AskedBy (A ++ [d]) HIT_TEST k → k ≤ if res < d.socket then d.socket else res) ∧
      ((if res < d.socket then d.socket else res) = 0 ∨
        AskedBy (A ++ [d]) HIT_TEST (if res < d.socket then d.socket else res)) := by
  split
  · next hlt =>
    refine ⟨fun k hk => ?_, .inr (askedBy_concat.mpr (.inr ⟨rfl, hf⟩))⟩
    rcases askedBy_concat.mp hk with hk | ⟨rfl, -⟩
    · exact (hle k hk).trans hlt.le
    · exact le_rfl
  · next hge =>
    refine ⟨fun k hk => ?_, hres.imp_right fun h => askedBy_concat.mpr (.inl h)⟩
    rcases askedBy_concat.mp hk with hk | ⟨rfl, -⟩
    · exact hle k hk
    · exact not_lt.mp hge

theorem Setup.Covers.skip {st : Setup} (h : st.Covers A) (hf : d.flags &&& HIT_TEST = 0) (p : Ptr) :
    ({ st with nextPtr := p } : Setup).Covers (A ++ [d]) := by
  have hiff : ∀ bits k, d.flags &&& bits = 0 → (AskedBy (A ++ [d]) bits k ↔ AskedBy A bits k) :=
    fun bits k hbits => askedBy_concat.trans (or_iff_left fun hd => hd.2 hbits)
  obtain ⟨hr, hw, he⟩ := askedBy_test hf
  refine ⟨fun k => ?_, fun k => ?_, fun k => ?_, fun k => ?_, ?_⟩
  · rw [hiff _ k hr]
    exact h.rfds k
  · rw [hiff _ k hw]
    exact h.wfds k
  · rw [hiff _ k he]
    exact h.efds k
  · rw [hiff _ k hf]
    exact h.le_res k
  · rw [hiff _ _ hf]
    exact h.res

/-- The loop over the descriptors `R`, after `A`. -/
theorem setup_covers (h : s.Holds (A ++ R))
    (hr : ∀ d ∈ A ++ R, 0 < d.socket ∧ d.socket < FD_SETSIZE) (st : Setup) (hst : st.Covers A)
    (hp : st.nextPtr = HandlerSet.Holds.first R) :
    ∃ st', Returns (loop s.setupBody st) st' ∧ st'.Covers (A ++ R) := by
  induction R generalizing A st with
  | nil =>
    obtain ⟨nextPtr, res, rfds, wfds, efds⟩ := st
    obtain rfl : nextPtr = handlers := hp
    rw [List.append_nil]
    exact ⟨_, .loop_exit ((HandlerSet.Holds.iterNext_end s).bind (.pure _)), hst⟩
  | cons d R ih =>
    have hd : d ∈ A ++ d :: R := List.mem_append_right A List.mem_cons_self
    have hA : A ++ d :: R = (A ++ [d]) ++ R := by rw [List.append_assoc, List.singleton_append]
    have hrd := hr d hd
    have hnext := h.iterNext
    have hlive := HandlerSet.returns_access (h.live_of_mem hd)
    have hsocket := h.hander d hd
    have hflags := h.flags d hd
    rw [hA] at h hr ⊢
    obtain ⟨nextPtr, res, rfds, wfds, efds⟩ := st
    obtain rfl : nextPtr = d.ptr := hp
    by_cases hf : d.flags &&& HIT_TEST = 0
    · obtain ⟨st', hret, hst'⟩ := ih h hr _ (hst.skip hf (HandlerSet.Holds.first R)) rfl
      refine ⟨st', .loop_again (hnext.bind (hlive.bind ?_)) hret, hst'⟩
      rw [hflags, if_pos hf]
      exact .pure _
    · obtain ⟨rfds', hrfds, hr'⟩ := fdSetFor_spec hrd hst.rfds
      obtain ⟨wfds', hwfds, hw'⟩ := fdSetFor_spec hrd hst.wfds
      obtain ⟨efds', hefds, he'⟩ := fdSetFor_spec hrd hst.efds
      obtain ⟨hle, hres⟩ := res_spec hf hst.le_res hst.res
      obtain ⟨st', hret, hst'⟩ := ih h hr ⟨HandlerSet.Holds.first R,
        if res < d.socket then d.socket else res, rfds', wfds', efds'⟩ ⟨hr', hw', he', hle, hres⟩ rfl
      refine ⟨st', .loop_again (hnext.bind (hlive.bind ?_)) hret, hst'⟩
      rw [hflags, hsocket, if_neg hf]
      exact hrfds.bind (hwfds.bind (hefds.bind (.pure _)))

theorem askedBy_iff {m : HandlerMap π} (h : s.Represents L m) :
    AskedBy L bits k ↔ m.Asks bits k := by
  rw [HandlerMap.Asks, ← h.map]
  constructor
  · rintro ⟨d, hd, rfl, hbits⟩
    exact ⟨_, h.holds.mapOf_of_mem hd, hbits⟩
  · rintro ⟨v, hv, hbits⟩
    obtain ⟨d, hfind, rfl⟩ := Option.map_eq_some_iff.mp hv
    exact ⟨d, List.mem_of_find?_eq_some hfind, by simpa using List.find?_some hfind, hbits⟩

theorem setup_exact {m : HandlerMap π} (h : s.Represents L m) :
    ∃ st, Returns s.setupHandleSet st ∧ st.Exact m := by
  obtain ⟨st, hret, hst⟩ := setup_covers (A := []) h.holds h.range _ (covers_nil (HandlerSet.Holds.first L)) rfl
  refine ⟨st, h.holds.reset.bind hret, fun k => ?_, fun k => ?_, fun k => ?_, fun k => ?_, ?_⟩
  · rw [← askedBy_iff h]
    exact hst.rfds k
  · rw [← askedBy_iff h]
    exact hst.wfds k
  · rw [← askedBy_iff h]
    exact hst.efds k
  · rw [← askedBy_iff h]
    exact hst.le_res k
  · rw [← askedBy_iff h]
    exact hst.res

end Setup

/-! ## `CallHandlers` -/

section Calls

variable {π : Type} {s : HandlerSet π} {L A R : List (Entry π)} {m : HandlerMap π}

/-- What `CallHandlers` finds for a registered socket. -/
theorem Setup.Exact.resultEvents {st : Setup} (h : st.Exact m) (ready : Selected) {k : Int}
    {v : Flags × Option π} (hv : m k = some v) :
    (st.select ready).resultEvents k = v.1 &&& ready.resultEvents k := by
  have hasks : ∀ bits, m.Asks bits k ↔ v.1 &&& bits ≠ 0 := by
    intro bits
    constructor
    · rintro ⟨w, hw, hbits⟩
      rw [hv] at hw
      exact Option.some.inj hw ▸ hbits
    · exact fun hbits => ⟨v, hv, hbits⟩
  -- one of the three sets
  have hone : ∀ (i : Nat) (asked r : Bool), (asked = true ↔ v.1 &&& BitVec.twoPow 32 i ≠ 0) →
      (if asked && r then BitVec.twoPow 32 i else 0) =
        v.1 &&& (if r then BitVec.twoPow 32 i else 0) := by
    intro i asked r hasked
    rw [and_if]
    cases r with
    | false =>
      rw [Bool.and_false]
      rfl
    | true =>
      rw [Bool.and_true, if_pos rfl, and_bit, if_congr hasked rfl rfl]
  rw [Selected.resultEvents, Selected.resultEvents, or_and_distrib, read_eq, write_eq, excep_eq]
  congr 1
  · congr 1
    · exact hone 0 _ _ ((h.rfds k).trans ((hasks _).trans (by rw [read_eq])))
    · exact hone 1 _ _ ((h.wfds k).trans ((hasks _).trans (by rw [write_eq])))
  · exact hone 2 _ _ ((h.efds k).trans ((hasks _).trans (by rw [excep_eq])))

theorem pass_quiet (sel : Selected) (h : s.Holds (A ++ R)) (log : List (Called π × HandlerSet π)) :
    Returns (loop (HandlerSet.passBody sel fun _ => []) ⟨HandlerSet.Holds.first R, log, s⟩)
      ⟨handlers, log ++ (R.filterMap (Entry.called sel)).map fun c => (c, s), s⟩ := by
  induction R generalizing A log with
  | nil =>
    rw [List.filterMap_nil, List.map_nil, List.append_nil]
    exact .loop_exit (HandlerSet.passBody_end log s)
  | cons d R ih =>
    have h' : s.Holds ((A ++ [d]) ++ R) := by
      rw [List.append_assoc]
      exact h
    cases hd : d.called sel with
    | none =>
      rw [List.filterMap_cons_none hd]
      exact .loop_again (HandlerSet.passBody_skip h hd log) (ih h' log)
    | some c =>
      have hrest := ih h' (log ++ [(c, s)])
      rw [List.append_assoc, List.singleton_append] at hrest
      rw [List.filterMap_cons_some hd, List.map_cons]
      exact .loop_again (HandlerSet.passBody_call h hd log (.pure s)) hrest

theorem callHandlers_quiet (sel : Selected) (h : s.Holds L) :
    Returns (s.callHandlers sel fun _ => [])
      ⟨handlers, (L.filterMap (Entry.called sel)).map fun c => (c, s), s⟩ :=
  h.reset.bind (pass_quiet (A := []) sel h [])

/-- The callback `f` was called with `events` on the descriptor of the socket `k`. -/
def CalledOn (r : HandlerSet.Pass π) (k : Int) (f : π) (events : Flags) : Prop :=
  ∃ c ∈ r.log, c.2.hander c.1.dec = k ∧ c.1.proc = f ∧ c.1.events = events

theorem called_eq_some_iff {sel : Selected} {d : Entry π} {c : Called π} :
    d.called sel = some c ↔ ∃ f, d.proc = some f ∧ sel.resultEvents d.socket &&& d.flags ≠ 0 ∧
      c = ⟨d.ptr, f, sel.resultEvents d.socket⟩ := by
  rw [Entry.called]
  split
  · next hev =>
    rw [Option.map_eq_some_iff]
    constructor
    · rintro ⟨f, hf, rfl⟩
      exact ⟨f, hf, hev, rfl⟩
    · rintro ⟨f, hf, -, rfl⟩
      exact ⟨f, hf, rfl⟩
  · next hev =>
    constructor
    · intro h
      cases h
    · rintro ⟨f, -, hne, -⟩
      exact absurd hne hev

/-- Each descriptor is called at most once, since each occurs once. -/
theorem nodup_called (h : s.Holds L) (sel : Selected) :
    ((L.filterMap (Entry.called sel)).map fun c => s.hander c.dec).Nodup := by
  have hsub : ((L.filterMap (Entry.called sel)).map fun c => s.hander c.dec).Sublist
      (L.map Entry.socket) := by
    have hall : ∀ d ∈ L, s.hander d.ptr = d.socket := h.hander
    clear h
    induction L with
    | nil => exact .slnil
    | cons d L ih =>
      have hrest := ih fun x hx => hall x (List.mem_cons_of_mem d hx)
      cases hd : d.called sel with
      | none =>
        rw [List.filterMap_cons_none hd]
        exact hrest.cons _
      | some c =>
        obtain ⟨f, -, -, rfl⟩ := called_eq_some_iff.mp hd
        rw [List.filterMap_cons_some hd, List.map_cons, List.map_cons, hall d List.mem_cons_self]
        exact hrest.cons_cons _
  exact h.sockets.sublist hsub

end Calls

/-- **One round.** After any calls that `select` can take, whatever is ready: the three sets are what
is registered, each socket is called at most once, and it is called exactly with the events that it
was registered for and that are ready, if there are any. -/
theorem select_round {π : Type} (cs : List (Mutator π)) (hc : HandlerMap.empty.CarefulAll cs)
    (ready : Selected) :
    ∃ s st r, Returns (HandlerSet.init.mutates cs) s ∧ Returns s.setupHandleSet st ∧
      st.Exact (HandlerMap.empty.applyAll cs) ∧
      Returns (s.callHandlers (st.select ready) fun _ => []) r ∧
      (r.log.map fun c => c.2.hander c.1.dec).Nodup ∧
      ∀ k f events, CalledOn r k f events ↔
        ∃ flags, HandlerMap.empty.applyAll cs k = some (flags, some f) ∧
          events = flags &&& ready.resultEvents k ∧ events ≠ 0 := by
  obtain ⟨s, L, hs, h⟩ := HandlerSet.init_represents.mutates cs hc
  obtain ⟨st, hst, hexact⟩ := setup_exact h
  refine ⟨s, st, _, hs, hst, hexact, callHandlers_quiet (st.select ready) h.holds, ?_, ?_⟩
  · rw [List.map_map]
    exact nodup_called h.holds _
  · intro k f events
    have hflags : ∀ d ∈ L, (st.select ready).resultEvents d.socket =
        d.flags &&& ready.resultEvents d.socket := by
      intro d hd
      refine hexact.resultEvents ready (v := (d.flags, d.proc)) ?_
      rw [← h.map]
      exact h.holds.mapOf_of_mem hd
    have hself : ∀ a b : Flags, a &&& b &&& a = a &&& b := by
      intro a b
      rw [BitVec.and_comm (a &&& b), ← BitVec.and_assoc, BitVec.and_self]
    constructor
    · rintro ⟨p, hp, rfl, rfl, rfl⟩
      obtain ⟨c, hcm, rfl⟩ := List.mem_map.mp hp
      obtain ⟨d, hd, hdc⟩ := List.mem_filterMap.mp hcm
      obtain ⟨f, hf, hev, rfl⟩ := called_eq_some_iff.mp hdc
      rw [hflags d hd, hself] at hev
      rw [hflags d hd]
      refine ⟨d.flags, ?_, ?_, hev⟩
      · rw [← h.map, h.holds.hander d hd, h.holds.mapOf_of_mem hd, hf]
      · rw [h.holds.hander d hd]
    · rintro ⟨flags, hm, rfl, hev⟩
      rw [← h.map] at hm
      obtain ⟨d, hfind, hdv⟩ := Option.map_eq_some_iff.mp hm
      have hd := List.mem_of_find?_eq_some hfind
      obtain rfl : d.socket = k := by simpa using List.find?_some hfind
      obtain ⟨rfl, hf⟩ := Prod.mk.inj hdv
      refine ⟨(⟨d.ptr, f, (st.select ready).resultEvents d.socket⟩, s), ?_, h.holds.hander d hd, rfl,
        hflags d hd⟩
      refine List.mem_map_of_mem (List.mem_filterMap.mpr ⟨d, hd, called_eq_some_iff.mpr ⟨f, hf, ?_, rfl⟩⟩)
      rw [hflags d hd, hself]
      exact hev

/-- Descriptor 4 was removed, and 5 is ready for reading and writing but registered for reading. -/
theorem select_round_five :
    ∃ s st r, Returns (HandlerSet.init.mutates [.assignHandler 4 HIT_READ (some "four"),
        .assignHandler 5 HIT_READ (some "five"), .removeHandler 4]) s ∧
      Returns s.setupHandleSet st ∧
      Returns (s.callHandlers (st.select ⟨fun _ => true, fun _ => true, fun _ => false⟩) fun _ => []) r ∧
      CalledOn r 5 "five" HIT_READ := by
  obtain ⟨s, st, r, hs, hst, -, hr, -, hcalls⟩ := select_round
    [.assignHandler 4 HIT_READ (some "four"), .assignHandler 5 HIT_READ (some "five"), .removeHandler 4]
    ⟨(by decide : (4 : Int) < FD_SETSIZE), (by decide : (5 : Int) < FD_SETSIZE), trivial, trivial⟩
    ⟨fun _ => true, fun _ => true, fun _ => false⟩
  exact ⟨s, st, r, hs, hst, hr, (hcalls 5 "five" HIT_READ).mpr ⟨HIT_READ, rfl, by decide, by decide⟩⟩

end Scheduler
end Huicpp
