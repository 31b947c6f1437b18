import Mathlib
import Huicpp.Process.ProcessPool

/-!
# Process.RecordedPid

The pid in the control table. As long as no child stores back a pid that it has read before the
parent stored another one, `SetStartInfo` alone decides what `GetPid` returns, and every signal goes
to the pid that the last `fork` for the slot returned.
-/

namespace Huicpp
namespace Process

open Cxx

/-- `set_info_as_status` does not change the pid if it stores back the one that is there. -/
theorem SetInfoStep.pid_eq {info info' : CntlInfo} {pc : SetInfoPc} {r : Option SetInfoPc}
    (h : SetInfoStep info pc info' r)
    (hback : ∀ status pid, pc = .storePid status pid → info.pid = pid) :
    info'.pid = info.pid := by
  cases h with
  | storeAt status time => rfl
  | loadPid status => rfl
  | storePid status pid => exact (hback status pid rfl).symm
  | storeStatus status => rfl

namespace HProcessPool

variable {n : Nat}

/-- The slots that have a started child before `create_child(i)`. -/
def NeedsBefore (i : Fin n) : Caller → Fin n → Prop
  | .init, j => j < i
  | _, _ => True

/-- The other slots that have one while `SetStartInfo(i)` runs. -/
def NeedsOther (i : Fin n) : Caller → Fin n → Prop
  | .init, j => j < i
  | _, j => j ≠ i

/-- The slots that have a started child whenever the parent is there. -/
def Needs : ParentPc n → Fin n → Prop
  | .init i, j => j.val < i
  | .failed, _ => False
  | .create i c, j => NeedsBefore i c j
  | .setStart i _ _ c, j => NeedsOther i c j
  | _, _ => True

theorem NeedsOther.ne {i j : Fin n} {c : Caller} (h : NeedsOther i c j) : j ≠ i := by
  cases c with
  | init => exact ne_of_lt h
  | notExists nt => exact h
  | silent nt => exact h
  | destructor => exact h

theorem NeedsOther.before {i j : Fin n} {c : Caller} (h : NeedsOther i c j) :
    NeedsBefore i c j := by
  cases c with
  | init => exact h
  | notExists nt => trivial
  | silent nt => trivial
  | destructor => trivial

/-- What the parent's variables mean. -/
def Known (s : HProcessPool n) : ParentPc n → Prop
  | .setStart i pid .status _ =>
    0 < pid ∧ s.forked i = some pid ∧ s.started i = none ∧ (s.info i).pid = pid
  | .setStart i pid _ _ => 0 < pid ∧ s.forked i = some pid ∧ s.started i = none
  | .sigterm i pid _ => s.started i = some pid
  | .sigkill i pid _ => s.started i = some pid
  | .unuse i (.storePid _ pid) _ => (s.info i).pid = pid
  | _ => True

structure Inv (s : HProcessPool n) : Prop where
  pid : ∀ i p, s.started i = some p → (s.info i).pid = p ∧ 0 < p ∧ s.forked i = some p
  needs : ∀ j, Needs s.parent j → s.started j ≠ none
  known : Known s s.parent

theorem inv_init (n : Nat) : Inv (init n) where
  pid i p h := by cases h
  needs j h := absurd h (Nat.not_lt_zero _)
  known := trivial

theorem Inv.keep {s s' : HProcessPool n} (h : Inv s)
    (hinfo : ∀ j, (s'.info j).pid = (s.info j).pid) (hforked : s'.forked = s.forked)
    (hstarted : s'.started = s.started) (hneeds : ∀ j, Needs s'.parent j → s.started j ≠ none)
    (hknown : Known s' s'.parent) : Inv s' where
  pid i p hi := by
    rw [hinfo, hforked]
    exact h.pid i p (hstarted ▸ hi)
  needs j hj := by
    rw [hstarted]
    exact hneeds j hj
  known := hknown

theorem setInfo_pid {s : HProcessPool n} {i : Fin n} {info : CntlInfo}
    (h : info.pid = (s.info i).pid) (j : Fin n) :
    ((s.setInfo i info).info j).pid = (s.info j).pid := by
  show (Function.update s.info i info j).pid = (s.info j).pid
  by_cases hj : j = i
  · subst hj
    rw [Function.update_self, h]
  · rw [Function.update_of_ne hj]

theorem Known.congr {s s' : HProcessPool n} {pc : ParentPc n} (h : Known s pc)
    (hinfo : ∀ j, (s'.info j).pid = (s.info j).pid) (hforked : s'.forked = s.forked)
    (hstarted : s'.started = s.started) : Known s' pc := by
  unfold Known at h ⊢
  split <;> simp_all

/-! ## The children -/

/-- A child that stores back the pid that is there changes nothing the parent relies on. -/
theorem Inv.childStep {s s' : HProcessPool n} {c : Nat} (h : Inv s) (hs : ChildStep c s s')
    (hback : StoresBack s (.child c) s') : Inv s' := by
  cases hs with
  | call p i f hp hcall =>
    exact h.keep (fun _ => rfl) rfl rfl h.needs (h.known.congr (fun _ => rfl) rfl rfl)
  | setInfo p i pc pc' info hp hcall hset =>
    have hpid := setInfo_pid (s := s) (hset.pid_eq fun status pid hpc =>
      hback c p i status pid rfl hp (hpc ▸ hcall))
    exact h.keep hpid rfl rfl h.needs (h.known.congr hpid rfl rfl)
  | return' p i pc info hp hcall hset =>
    have hpid := setInfo_pid (s := s) (hset.pid_eq fun status pid hpc =>
      hback c p i status pid rfl hp (hpc ▸ hcall))
    exact h.keep hpid rfl rfl h.needs (h.known.congr hpid rfl rfl)
  | exit p hp =>
    exact h.keep (fun _ => rfl) rfl rfl h.needs (h.known.congr (fun _ => rfl) rfl rfl)

/-! ## The parent -/

theorem Inv.goto {s : HProcessPool n} {pc : ParentPc n} (h : Inv s)
    (hneeds : ∀ j, Needs pc j → Needs s.parent j) (hknown : Known (s.setParent pc) pc) :
    Inv (s.setParent pc) :=
  h.keep (fun _ => rfl) rfl rfl (fun j hj => h.needs j (hneeds j hj)) hknown

theorem Inv.fork {s : HProcessPool n} {i : Fin n} {c : Caller} {pid : Int} (h : Inv s)
    (hi : s.parent = .create i c) (hpid : 0 < pid) :
    Inv { (s.setParent (.setStart i pid .startat c)).setChild s.forks (some ⟨i, pid, none⟩) with
      forks := s.forks + 1
      forked := Function.update s.forked i (some pid)
      started := Function.update s.started i none } where
  pid j p hj := by
    obtain ⟨hji, hstarted⟩ := (update_apply_eq_iff_of_ne (Option.some_ne_none p).symm).mp hj
    obtain ⟨h1, h2, h3⟩ := h.pid j p hstarted
    exact ⟨h1, h2, (Function.update_of_ne hji _ _).trans h3⟩
  needs j hj := by
    have hother : NeedsOther i c j := hj
    have hneeds := h.needs j
    rw [hi] at hneeds
    show Function.update s.started i none j ≠ none
    rw [Function.update_of_ne hother.ne]
    exact hneeds hother.before
  known := ⟨hpid, Function.update_self _ _ _, Function.update_self _ _ _⟩

theorem Inv.setPid {s : HProcessPool n} {i : Fin n} {c : Caller} {pid : Int} (h : Inv s)
    (hi : s.parent = .setStart i pid .pid c) :
    Inv ((s.setParent (.setStart i pid .status c)).setInfo i { s.info i with pid := pid }) := by
  have hknown : 0 < pid ∧ s.forked i = some pid ∧ s.started i = none := by
    have := h.known
    rw [hi] at this
    exact this
  have hneeds := h.needs
  rw [hi] at hneeds
  refine ⟨?_, hneeds, hknown.1, hknown.2.1, hknown.2.2, ?_⟩
  · intro j p hj
    have hji : j ≠ i := by
      rintro rfl
      rw [show s.started j = some p from hj] at hknown
      cases hknown.2.2
    obtain ⟨h1, h2⟩ := h.pid j p hj
    refine ⟨?_, h2⟩
    show (Function.update s.info i _ j).pid = p
    rw [Function.update_of_ne hji, h1]
  · show (Function.update s.info i _ i).pid = pid
    rw [Function.update_self]

/-- After `create_child` nothing is needed but the slots that were, and the new one. -/
theorem needs_afterCreate {i j : Fin n} {c : Caller} (hj : Needs (afterCreate i c) j)
    (hji : j ≠ i) : NeedsOther i c j := by
  cases c with
  | init =>
    have hlt : j.val < i.val + 1 := hj
    have hne : j.val ≠ i.val := fun h => hji (Fin.ext h)
    exact Fin.lt_def.mpr (by omega)
  | notExists nt => exact hji
  | silent nt => exact hji
  | destructor => exact hji

theorem known_afterCreate (s : HProcessPool n) (i : Fin n) (c : Caller) :
    Known s (afterCreate i c) := by
  cases c <;> trivial

theorem Inv.setStatus {s : HProcessPool n} {i : Fin n} {c : Caller} {pid : Int} (h : Inv s)
    (hi : s.parent = .setStart i pid .status c) :
    Inv { (s.setParent (afterCreate i c)).setInfo i { s.info i with status := .CS_IDLE } with
      started := Function.update s.started i (some pid) } := by
  have hknown : 0 < pid ∧ s.forked i = some pid ∧ s.started i = none ∧ (s.info i).pid = pid := by
    have := h.known
    rw [hi] at this
    exact this
  have hinfo : ∀ j, (Function.update s.info i { s.info i with status := .CS_IDLE } j).pid
      = (s.info j).pid := setInfo_pid rfl
  refine ⟨?_, ?_, known_afterCreate _ i c⟩
  · intro j p hj
    show (Function.update s.info i { s.info i with status := .CS_IDLE } j).pid = p ∧ _
    rw [hinfo]
    rcases update_apply_eq_iff.mp hj with ⟨rfl, hp⟩ | ⟨-, hj⟩
    · cases hp
      exact ⟨hknown.2.2.2, hknown.1, hknown.2.1⟩
    · exact h.pid j p hj
  · intro j hj
    show Function.update s.started i (some pid) j ≠ none
    by_cases hji : j = i
    · rw [hji, Function.update_self]
      exact Option.some_ne_none _
    · rw [Function.update_of_ne hji]
      have hneeds := h.needs j
      rw [hi] at hneeds
      exact hneeds (needs_afterCreate hj hji)

theorem Inv.killPid {s : HProcessPool n} {i : Fin n} {c : Caller} (h : Inv s)
    (hi : s.parent = .kill i c) : s.started i = some (s.info i).pid := by
  have hneeds := h.needs i
  rw [hi] at hneeds
  obtain ⟨p, hp⟩ := Option.ne_none_iff_exists'.mp (hneeds trivial)
  rw [hp, (h.pid i p hp).1]

theorem Inv.unuse_pid {s : HProcessPool n} {i : Fin n} {c : Caller} {pc : SetInfoPc}
    {info : CntlInfo} {r : Option SetInfoPc} (h : Inv s) (hi : s.parent = .unuse i pc c)
    (hset : SetInfoStep (s.info i) pc info r) : info.pid = (s.info i).pid := by
  refine hset.pid_eq fun status pid hpc => ?_
  have hknown := h.known
  rw [hi, hpc] at hknown
  exact hknown

theorem known_unuse {s : HProcessPool n} {i : Fin n} {c : Caller} {pc pc' : SetInfoPc}
    {info : CntlInfo} (hset : SetInfoStep (s.info i) pc info (some pc')) :
    Known ((s.setParent (.unuse i pc' c)).setInfo i info) (.unuse i pc' c) := by
  cases hset with
  | storeAt status time => trivial
  | loadPid status =>
    show (Function.update s.info i (s.info i) i).pid = (s.info i).pid
    rw [Function.update_self]
  | storePid status pid => trivial

theorem known_afterKill (s : HProcessPool n) (i : Fin n) (c : Caller) :
    Known s (afterKill i c) := by
  cases c <;> trivial

theorem Inv.parentStep {s s' : HProcessPool n} (h : Inv s) (hs : ParentStep s s') : Inv s' := by
  cases hs with
  | initCreate i hi => exact h.goto (fun j hj => by rw [hi]; exact hj) trivial
  | initDone hi => exact h.goto (fun j _ => by rw [hi]; exact j.isLt) trivial
  | fork i c pid hi hpid => exact h.fork hi hpid
  | forkFailed i c hi =>
    refine h.goto (fun j hj => ?_) (by cases c <;> trivial)
    rw [hi]
    cases c with
    | init => exact hj.elim
    | notExists nt => trivial
    | silent nt => trivial
    | destructor => trivial
  | setStartat i pid c time hi =>
    have hknown := h.known
    have hneeds := h.needs
    rw [hi] at hknown hneeds
    exact h.keep (setInfo_pid rfl) rfl rfl hneeds hknown
  | setAt i pid c hi =>
    have hknown := h.known
    have hneeds := h.needs
    rw [hi] at hknown hneeds
    exact h.keep (setInfo_pid rfl) rfl rfl hneeds hknown
  | setPid i pid c hi => exact h.setPid hi
  | setStatus i pid c hi => exact h.setStatus hi
  | touch nt hi => exact h.goto (fun j _ => by rw [hi]; trivial) trivial
  | touchDone nt hi => exact h.goto (fun j _ => by rw [hi]; trivial) trivial
  | getPid i nt hi => exact h.goto (fun j _ => by rw [hi]; trivial) trivial
  | exists' i nt pid hi => exact h.goto (fun j _ => by rw [hi]; trivial) trivial
  | notExists i nt pid hi => exact h.goto (fun j _ => by rw [hi]; trivial) trivial
  | lastAccessTime i nt hi _ => exact h.goto (fun j _ => by rw [hi]; trivial) trivial
  | noAccess i nt hi _ => exact h.goto (fun j _ => by rw [hi]; trivial) trivial
  | getStartAt i nt hi => exact h.goto (fun j _ => by rw [hi]; trivial) trivial
  | alive i nt at' hi _ => exact h.goto (fun j _ => by rw [hi]; trivial) trivial
  | silent i nt at' hi _ => exact h.goto (fun j _ => by rw [hi]; trivial) trivial
  | killPid i c hi => exact h.goto (fun j _ => by rw [hi]; trivial) (h.killPid hi)
  | unuse i pc pc' c info hi hset =>
    exact h.keep (setInfo_pid (h.unuse_pid hi hset)) rfl rfl
      (fun j _ => h.needs j (by rw [hi]; trivial)) (known_unuse hset)
  | unused i pc c info hi hset =>
    exact h.keep (setInfo_pid (h.unuse_pid hi hset)) rfl rfl
      (fun j _ => h.needs j (by rw [hi]; trivial)) (known_afterKill _ i c)
  | destroy hi => exact h.goto (fun j _ => by rw [hi]; trivial) trivial
  | destroyKill i hi => exact h.goto (fun j _ => by rw [hi]; trivial) trivial
  | destroyed hi => exact h.goto (fun j _ => by rw [hi]; trivial) trivial

theorem Inv.signalStep {s s' : HProcessPool n} {i : Fin n} {pid : Int} (h : Inv s)
    (hs : SignalStep i pid s s') : Inv s' := by
  have hknown := h.known
  cases hs with
  | sigterm c hi =>
    rw [hi] at hknown
    exact h.goto (fun j _ => by rw [hi]; trivial) hknown
  | sigkill c hi => exact h.goto (fun j _ => by rw [hi]; trivial) trivial

theorem Inv.signalled {s s' : HProcessPool n} {i : Fin n} {pid : Int} (h : Inv s)
    (hs : SignalStep i pid s s') : s.started i = some pid := by
  have hknown := h.known
  cases hs with
  | sigterm c hi =>
    rw [hi] at hknown
    exact hknown
  | sigkill c hi =>
    rw [hi] at hknown
    exact hknown

theorem inv_run {tr : List (Action n)} {s : HProcessPool n}
    (h : ((system n).restrict StoresBack).Run tr s) : Inv s := by
  refine h.invariant (fun _ s => Inv s) ?_ ?_
  · rintro s rfl
    exact inv_init n
  · rintro _ s a s' hinv ⟨hs, hback⟩
    cases a with
    | parent => exact hinv.parentStep hs
    | signal i pid => exact hinv.signalStep hs
    | child c => exact hinv.childStep hs hback

/-- In every run in which the children store back only pids that are there: a slot whose
`SetStartInfo` has completed, with no `fork` since, shows that pid, and every signal that
`kill_child(i)` sends goes to the child of the last `fork` for slot `i`. -/
theorem recorded_pid {tr : List (Action n)} {s : HProcessPool n}
    (h : ((system n).restrict StoresBack).Run tr s) :
    (∀ i p, s.started i = some p → (s.info i).pid = p) ∧
      ∀ i p s', (system n).step s (.signal i p) s' → 0 < p ∧ s.forked i = some p := by
  have hinv := inv_run h
  constructor
  · intro i p hi
    exact (hinv.pid i p hi).1
  · intro i p s' hs
    exact (hinv.pid i p (hinv.signalled hs)).2

theorem storesBack_parent (s s' : HProcessPool n) : StoresBack s .parent s' := by
  intro c p i status pid h
  cases h

theorem run_parent {tr : List (Action n)} {s s' : HProcessPool n}
    (h : ((system n).restrict StoresBack).Run tr s) (hs : ParentStep s s') :
    ((system n).restrict StoresBack).Run (tr ++ [.parent]) s' :=
  h.step ⟨hs, storesBack_parent s s'⟩

theorem run_child {tr : List (Action n)} {s s' : HProcessPool n} {c : Nat} {p : Child n}
    (h : ((system n).restrict StoresBack).Run tr s) (hp : s.child c = some p) (hs : ChildStep c s s')
    (hback : ∀ i status pid, p.call = some (i, .storePid status pid) → (s.info i).pid = pid) :
    ((system n).restrict StoresBack).Run (tr ++ [.child c]) s' := by
  refine h.step ⟨hs, ?_⟩
  rintro c' q i status pid ⟨⟩ hq hcall
  obtain rfl : p = q := Option.some.inj (hp.symm.trans hq)
  exact hback i status pid hcall

/-- One child, which calls `TouchInfo` after it was recorded. -/
theorem recorded_pid_touched : ∃ tr, ∃ s : HProcessPool 1, (system 1).Run tr s ∧
    s.started 0 = some 100 ∧ (s.info 0).pid = 100 ∧ (s.info 0).status = .CS_BUSY := by
  have h0 : ((system 1).restrict StoresBack).Run [] (init 1) := .init rfl
  have h1 := run_parent h0 (.initCreate _ 0 rfl)
  have h2 := run_parent h1 (.fork _ 0 .init 100 rfl (by decide))
  have h3 := run_parent h2 (.setStartat _ 0 100 .init 7 rfl)
  have h4 := run_parent h3 (.setAt _ 0 100 .init rfl)
  have h5 := run_parent h4 (.setPid _ 0 100 .init rfl)
  have h6 := run_parent h5 (.setStatus _ 0 100 .init rfl)
  have h7 := run_child (c := 0) h6 rfl (.call _ ⟨0, 100, none⟩ 0 .touchInfo rfl rfl)
    (by rintro _ _ _ ⟨⟩)
  have h8 := run_child (c := 0) h7 rfl (.setInfo _ _ 0 _ _ _ rfl rfl (.storeAt _ _ 8))
    (by rintro _ _ _ ⟨⟩)
  have h9 := run_child (c := 0) h8 rfl (.setInfo _ _ 0 _ _ _ rfl rfl (.loadPid _ _))
    (by rintro _ _ _ ⟨⟩)
  have h10 := run_child (c := 0) h9 rfl (.setInfo _ _ 0 _ _ _ rfl rfl (.storePid _ _ _))
    (by rintro _ _ _ ⟨⟩; rfl)
  have h11 := run_child (c := 0) h10 rfl (.return' _ _ 0 _ _ rfl rfl (.storeStatus _ _))
    (by rintro _ _ _ ⟨⟩)
  exact ⟨_, _, h11.of_restrict, rfl, (recorded_pid h11).1 0 100 rfl, rfl⟩

theorem step_parent {tr : List (Action n)} {s s' : HProcessPool n} (h : (system n).Run tr s)
    (hs : ParentStep s s') : (system n).Run (tr ++ [.parent]) s' := .step h hs

theorem step_child {tr : List (Action n)} {s s' : HProcessPool n} {c : Nat}
    (h : (system n).Run tr s) (hs : ChildStep c s s') : (system n).Run (tr ++ [.child c]) s' :=
  .step h hs

/-- A child that calls `TouchInfo` right after `fork` reads the zero of `ResetInfo` and stores it
over the pid of `SetStartInfo`. The parent then finds no process zero, and signals it. -/
theorem touchInfo_overwrites_pid : ¬ ∀ tr, ∀ s : HProcessPool 1, (system 1).Run tr s →
    (∀ i p, s.started i = some p → (s.info i).pid = p) ∧
      ∀ i p s', (system 1).step s (.signal i p) s' → 0 < p ∧ s.forked i = some p := by
  intro h
  have h0 : (system 1).Run [] (init 1) := .init rfl
  have h1 := step_parent h0 (.initCreate _ 0 rfl)
  have h2 := step_parent h1 (.fork _ 0 .init 100 rfl (by decide))
  have h3 := step_child (c := 0) h2 (.call _ ⟨0, 100, none⟩ 0 .touchInfo rfl rfl)
  have h4 := step_child (c := 0) h3 (.setInfo _ _ 0 _ _ _ rfl rfl (.storeAt _ _ 7))
  have h5 := step_child (c := 0) h4 (.setInfo _ _ 0 _ _ _ rfl rfl (.loadPid _ _))
  have h6 := step_parent h5 (.setStartat _ 0 100 .init 7 rfl)
  have h7 := step_parent h6 (.setAt _ 0 100 .init rfl)
  have h8 := step_parent h7 (.setPid _ 0 100 .init rfl)
  have h9 := step_parent h8 (.setStatus _ 0 100 .init rfl)
  have h10 := step_child (c := 0) h9 (.setInfo _ _ 0 _ _ _ rfl rfl (.storePid _ _ _))
  have h11 := step_parent h10 (.initDone _ rfl)
  have h12 := step_parent h11 (.touch _ 9 rfl)
  have h13 := step_parent h12 (.getPid _ 0 9 rfl)
  have h14 := step_parent h13 (.notExists _ 0 9 _ rfl)
  have h15 := step_parent h14 (.killPid _ 0 _ rfl)
  have hpos := ((h _ _ h15).2 0 0 _ (SignalStep.sigterm _ (.notExists 9) rfl)).1
  exact absurd hpos (lt_irrefl 0)

end HProcessPool

end Process
end Huicpp
