import Mathlib
import Huicpp.Scheduler.HandlerEdits

/-!
# Scheduler.Dispatch

A pass of `CallHandlers` over a set that its callbacks edit. When the iterator has given out a
descriptor it already holds the next one. The pass is safe as long as no callback removes that one:
everything the iterator has not reached lies behind it, and new descriptors go to the front.
-/

namespace Huicpp
namespace Scheduler

open Cxx Cxx.Prog

variable {π : Type}

/-- The callback that a pass calls on a descriptor, if it calls one. -/
def Entry.called (sel : Selected) (d : Entry π) : Option (Called π) :=
  if sel.resultEvents d.socket &&& d.flags ≠ 0 then
    d.proc.map fun f => ⟨d.ptr, f, sel.resultEvents d.socket⟩
  else none

/-- No callback calls `RemoveHandle` with the socket of the descriptor that comes next. The list is
what the pass has not reached, and `log` are the callbacks called before. -/
def SparesNext (sel : Selected) (behave : HandlerSet.Behaviour π) (log : List (Called π)) :
    List (Entry π) → Prop
  | [] => True
  | d :: R =>
    match d.called sel with
    | none => SparesNext sel behave log R
    | some c =>
      (∀ p ∈ R.head?, .removeHandle p.socket ∉ behave (log ++ [c])) ∧
        SparesNext sel behave (log ++ [c]) (R.filterMap (afterAll (behave (log ++ [c]))))
  termination_by L => L.length
  decreasing_by
    · simp
    · exact Nat.lt_succ_of_le ((List.length_filterMap_le ..).trans_eq List.length_attach)

namespace HandlerSet

open Holds (first)

variable {sel : Selected} {behave : Behaviour π} {s : HandlerSet π} {A R : List (Entry π)}
  {d : Entry π}

theorem passBody_end (log : List (Called π × HandlerSet π)) (s : HandlerSet π) :
    Returns (passBody sel behave ⟨handlers, log, s⟩) (.exit ⟨handlers, log, s⟩) :=
  (Holds.iterNext_end s).bind (.pure _)

theorem passBody_skip (h : s.Holds (A ++ d :: R)) (hd : d.called sel = none)
    (log : List (Called π × HandlerSet π)) :
    Returns (passBody sel behave ⟨d.ptr, log, s⟩) (.again ⟨first R, log, s⟩) := by
  have hmem : d ∈ A ++ d :: R := by simp
  have hlive := returns_access (h.live_of_mem hmem)
  refine h.iterNext.bind (hlive.bind ?_)
  rw [Entry.called] at hd
  simp only [h.hander d hmem, h.flags d hmem]
  split at hd
  · next hev =>
    rw [if_pos hev]
    refine Returns.bind (a := ⟨first R, log, s⟩) (hlive.bind ?_) (.pure _)
    rw [h.bc d hmem, Option.map_eq_none_iff.mp hd]
    exact .pure _
  · next hev =>
    rw [if_neg hev]
    exact .pure _

theorem passBody_call (h : s.Holds (A ++ d :: R)) {c : Called π} (hd : d.called sel = some c)
    (log : List (Called π × HandlerSet π)) {s' : HandlerSet π}
    (hs' : Returns (s.edits (behave (log.map Prod.fst ++ [c]))) s') :
    Returns (passBody sel behave ⟨d.ptr, log, s⟩) (.again ⟨first R, log ++ [(c, s)], s'⟩) := by
  have hmem : d ∈ A ++ d :: R := by simp
  have hlive := returns_access (h.live_of_mem hmem)
  refine h.iterNext.bind (hlive.bind ?_)
  rw [Entry.called] at hd
  simp only [h.hander d hmem, h.flags d hmem]
  split at hd
  · next hev =>
    obtain ⟨f, hf, rfl⟩ := Option.map_eq_some_iff.mp hd
    rw [if_pos hev]
    refine Returns.bind (a := ⟨first R, log ++ [(⟨d.ptr, f, _⟩, s)], s'⟩) (hlive.bind ?_) (.pure _)
    rw [h.bc d hmem, hf]
    refine Returns.bind ?_ (.pure _)
    rw [List.map_append]
    exact hs'
  · cases hd

/-- The calls so far, with `R` not reached. -/
structure LogInv (log : List (Called π × HandlerSet π)) (R : List (Entry π)) : Prop where
  nodup : (log.map fun c => c.1.dec).Nodup
  behind : ∀ c ∈ log, c.1.dec ∉ R.map Entry.ptr
  registered : ∀ c ∈ log, c.2.Registered c.1.dec

theorem LogInv.nil : LogInv [] R where
  nodup := List.nodup_nil
  behind _ hc := absurd hc List.not_mem_nil
  registered _ hc := absurd hc List.not_mem_nil

theorem LogInv.skip {log : List (Called π × HandlerSet π)} (h : LogInv log (d :: R)) :
    LogInv log R where
  nodup := h.nodup
  behind c hc hm := h.behind c hc (List.mem_cons_of_mem _ hm)
  registered := h.registered

theorem LogInv.call {log : List (Called π × HandlerSet π)} (hlog : LogInv log (d :: R))
    (h : s.Holds (A ++ d :: R)) {c : Called π} (hc : c.dec = d.ptr) :
    LogInv (log ++ [(c, s)]) R where
  nodup := by
    rw [List.map_append]
    refine hlog.nodup.append (List.nodup_singleton _) (List.disjoint_singleton.mpr ?_)
    intro hm
    obtain ⟨c', hc', heq⟩ := List.mem_map.mp hm
    have hdec : c'.1.dec = d.ptr := heq.trans hc
    exact hlog.behind c' hc' (hdec ▸ List.mem_cons_self ..)
  behind c' hc' := by
    rcases List.mem_append.mp hc' with hc' | hc'
    · exact hlog.skip.behind c' hc'
    · rw [List.mem_singleton.mp hc', hc]
      have hnd := h.ptrs_nodup
      rw [List.map_append, List.map_cons, List.nodup_append, List.nodup_cons] at hnd
      exact hnd.2.1.1
  registered c' hc' := by
    rcases List.mem_append.mp hc' with hc' | hc'
    · exact hlog.registered c' hc'
    · rw [List.mem_singleton.mp hc', hc]
      exact h.registered (by simp)

theorem mem_ptrs_of_afterAll {es : List (Edit π)} {p : Ptr}
    (h : p ∈ (R.filterMap (afterAll es)).map Entry.ptr) : p ∈ R.map Entry.ptr := by
  obtain ⟨x, hx, rfl⟩ := List.mem_map.mp h
  obtain ⟨y, hy, hyx⟩ := List.mem_filterMap.mp hx
  rw [(afterAll_ptr hyx).1]
  exact List.mem_map_of_mem hy

theorem LogInv.edits {log : List (Called π × HandlerSet π)} (hlog : LogInv log R)
    (es : List (Edit π)) : LogInv log (R.filterMap (afterAll es)) where
  nodup := hlog.nodup
  behind c hc hm := hlog.behind c hc (mem_ptrs_of_afterAll hm)
  registered := hlog.registered

theorem first_afterAll {es : List (Edit π)} (h : ∀ p ∈ R.head?, .removeHandle p.socket ∉ es) :
    first (R.filterMap (afterAll es)) = first R := by
  cases R with
  | nil => rfl
  | cons p R =>
    cases hp : afterAll es p with
    | none => exact absurd (afterAll_eq_none_iff.mp hp) (h p rfl)
    | some p' =>
      rw [List.filterMap_cons_some hp]
      exact (afterAll_ptr hp).1

theorem Holds.dead {p : Entry π} (h : s.Holds (A ++ p :: R)) {es : List (Edit π)}
    {s' : HandlerSet π} {A' : List (Entry π)} (hp : .removeHandle p.socket ∈ es)
    (h' : s'.Holds (A' ++ (p :: R).filterMap (afterAll es)))
    (hA' : ∀ d ∈ A', d.ptr ∈ A.map Entry.ptr ∨ s.fresh ≤ d.ptr) : s'.live p.ptr = false := by
  have hmem : p ∈ A ++ p :: R := by simp
  have hnd := h.ptrs_nodup
  rw [List.map_append, List.map_cons, List.nodup_append, List.nodup_cons] at hnd
  rw [← Bool.not_eq_true, h'.live, not_or, List.map_append, List.mem_append, not_or]
  refine ⟨h.ptr_ne hmem, ?_, ?_⟩
  · intro hm
    obtain ⟨d, hd, hdp⟩ := List.mem_map.mp hm
    rcases hA' d hd with hm | hle
    · exact hnd.2.2 _ hm _ (List.mem_cons_self ..) hdp
    · have hlt := h.fresh _ (h.live_of_mem hmem)
      rw [hdp] at hle
      exact absurd hlt (not_lt.mpr hle)
  · rw [List.filterMap_cons_none (afterAll_eq_none_iff.mpr hp)]
    exact fun hm => hnd.2.1.1 (mem_ptrs_of_afterAll hm)

theorem called_dec {c : Called π} (hd : d.called sel = some c) : c.dec = d.ptr := by
  rw [Entry.called] at hd
  split at hd
  · obtain ⟨f, _, rfl⟩ := Option.map_eq_some_iff.mp hd
    rfl
  · cases hd

/-- What becomes of a pass: it comes to its end, or it touches a deleted descriptor. -/
structure PassSpec (sel : Selected) (behave : Behaviour π) (log : List (Called π × HandlerSet π))
    (R : List (Entry π)) (s : HandlerSet π) : Prop where
  returns : SparesNext sel behave (log.map Prod.fst) R →
    ∃ r, Returns (loop (passBody sel behave) ⟨first R, log, s⟩) r ∧ LogInv r.log []
  faults : ¬ SparesNext sel behave (log.map Prod.fst) R →
    Faults (loop (passBody sel behave) ⟨first R, log, s⟩) .useAfterFree

theorem PassSpec.nil {log : List (Called π × HandlerSet π)} (hlog : LogInv log []) :
    PassSpec sel behave log [] s where
  returns _ := ⟨_, .loop_exit (passBody_end log s), hlog⟩
  faults h := absurd (by rw [SparesNext]; trivial) h

theorem PassSpec.skip {log : List (Called π × HandlerSet π)} (h : s.Holds (A ++ d :: R))
    (hd : d.called sel = none) (hR : PassSpec sel behave log R s) :
    PassSpec sel behave log (d :: R) s where
  returns hs := by
    rw [SparesNext, hd] at hs
    obtain ⟨r, hr, hlog⟩ := hR.returns hs
    exact ⟨r, .loop_again (passBody_skip h hd log) hr, hlog⟩
  faults hs := by
    rw [SparesNext, hd] at hs
    exact .loop_again (passBody_skip h hd log) (hR.faults hs)

theorem PassSpec.call {log : List (Called π × HandlerSet π)} (h : s.Holds ((A ++ [d]) ++ R))
    {c : Called π} (hd : d.called sel = some c)
    (hR : ∀ {s' : HandlerSet π} {A' R' : List (Entry π)},
      R'.length ≤ R.length → s'.Holds (A' ++ R') → LogInv (log ++ [(c, s)]) R' →
        PassSpec sel behave (log ++ [(c, s)]) R' s')
    (hlog : LogInv (log ++ [(c, s)]) R) : PassSpec sel behave log (d :: R) s := by
  have h₀ : s.Holds (A ++ d :: R) := by
    rw [List.append_assoc] at h
    exact h
  obtain ⟨s', A', hs', h', -, hA'⟩ := h.edits (behave (log.map Prod.fst ++ [c]))
  have hstep := passBody_call h₀ hd log hs'
  have hfst : (log ++ [(c, s)]).map Prod.fst = log.map Prod.fst ++ [c] := List.map_append ..
  by_cases hspare : ∀ p ∈ R.head?, .removeHandle p.socket ∉ behave (log.map Prod.fst ++ [c])
  · obtain ⟨hret, hfault⟩ := hR (List.length_filterMap_le ..) h' (hlog.edits _)
    rw [hfst, first_afterAll hspare] at hret hfault
    constructor
    · intro hs
      rw [SparesNext, hd] at hs
      obtain ⟨r, hr, hrlog⟩ := hret hs.2
      exact ⟨r, .loop_again hstep hr, hrlog⟩
    · intro hs
      rw [SparesNext, hd] at hs
      exact .loop_again hstep (hfault fun hrest => hs ⟨hspare, hrest⟩)
  · constructor
    · intro hs
      rw [SparesNext, hd] at hs
      exact absurd hs.1 hspare
    · intro _
      -- the iterator holds a descriptor that the callback has removed
      refine .loop_again hstep (.loop_body ?_)
      cases R with
      | nil => exact absurd (fun p hp => nomatch hp) hspare
      | cons p R =>
        have hp : .removeHandle p.socket ∈ behave (log.map Prod.fst ++ [c]) := by
          by_contra hno
          refine hspare fun q hq => ?_
          cases hq
          exact hno
        exact Faults.bind (faults_iterNext (h.ptr_ne (by simp)) (h.dead hp h' hA'))

theorem pass_loop (n : Nat) {log : List (Called π × HandlerSet π)} (hn : R.length ≤ n)
    (h : s.Holds (A ++ R)) (hlog : LogInv log R) : PassSpec sel behave log R s := by
  induction n generalizing s A R log with
  | zero =>
    obtain rfl := List.eq_nil_of_length_eq_zero (Nat.le_zero.mp hn)
    exact .nil hlog
  | succ n ih =>
    cases R with
    | nil => exact .nil hlog
    | cons d R =>
      have hle : R.length ≤ n := Nat.le_of_succ_le_succ hn
      have h₁ : s.Holds ((A ++ [d]) ++ R) := by
        rw [List.append_assoc]
        exact h
      cases hd : d.called sel with
      | none => exact .skip h hd (ih hle h₁ hlog.skip)
      | some c =>
        exact .call h₁ hd (fun hle' h' hlog' => ih (hle'.trans hle) h' hlog')
          (hlog.call h (called_dec hd))

theorem robust_iff {L : List (Entry π)} (h : s.Holds L) :
    Robust sel behave s ↔ SparesNext sel behave [] L := by
  have hpass : PassSpec sel behave [] L s := pass_loop (A := []) L.length le_rfl h .nil
  constructor
  · rintro ⟨r, hr, -⟩
    by_contra hno
    exact (h.reset.bind_faults (hpass.faults hno)).not_returns r hr
  · intro hs
    obtain ⟨r, hr, hlog⟩ := hpass.returns hs
    exact ⟨r, h.reset.bind hr, hlog.nodup, hlog.registered⟩

end HandlerSet

end Scheduler
end Huicpp
