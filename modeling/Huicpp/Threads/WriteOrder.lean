import Mathlib
import Huicpp.Threads.JoinedOnce

/-!
# Threads.WriteOrder

A status says who wrote it last. IDLE is written by the parent, BUSY and then UNUSED by the thread, so that
a slot is UNUSED exactly if its thread left by `childThreadExit` after the parent was done with it.

* `Writes`: what the order of the writes makes of a slot.
* `Joins`: who is joined when the destructor comes.
* `inOrder_iff`: the statuses tell in a run exactly if its steps are in order.
* `joined_once`: the life of a pool by what the parent and the threads do.
-/

namespace Huicpp
namespace Threads

open Cxx

namespace OwnerPc

/-- Thread `i` has been created, and IDLE not been written yet. -/
def settingUp : OwnerPc → Nat → Bool
  | .waitSonRun k, i => k == i
  | .moveThread k, i => k == i
  | .setIdle k, i => k == i
  | _, _ => false

/-- `JoinAll` is going through the threads, or has returned. -/
def Joining : OwnerPc → Prop
  | .joinAll _ => True
  | .joinedAll => True
  | _ => False

/-- Slot `i` is not being dealt with: `JoinAll` is not before it, and the destructor not behind it. -/
def Awaits (i : Nat) : OwnerPc → Prop
  | .joinAll k => i < k
  | .freeInfo k => k ≤ i
  | .cancel k => k ≤ i
  | .join k => k ≤ i
  | .destroyed => False
  | .crashed => False
  | _ => True

end OwnerPc

namespace LifeAction

/-- A step that says nothing of the order. -/
def Quiet : LifeAction → Prop
  | .look _ => True
  | .cancel _ => True
  | .join _ => True
  | .owner => True
  | .child _ => True
  | _ => False

end LifeAction

namespace PoolLife

variable {n : Nat} {s s' : PoolLife} {tr : List LifeAction} {a : LifeAction} {i : Nat}

theorem info_setInfo {β : Type} (f : ChildInfo → β) {c : ChildInfo} (h : f c = f (s.info i)) (j : Nat) :
    f ((s.setInfo i c).info j) = f (s.info j) := by
  by_cases hj : j = i
  · subst hj
    rw [setInfo_self, h]
  · rw [setInfo_of_ne hj]

/-! ## The order of two steps -/

theorem mem_snoc {b : LifeAction} (h : b ≠ a) : b ∈ tr ++ [a] ↔ b ∈ tr := by
  simp [h]

theorem order_snoc (h : a ≠ .childThreadExit i) :
    [.setIdle i, .childThreadExit i].Sublist (tr ++ [a]) ↔
      [.setIdle i, .childThreadExit i].Sublist tr := by
  constructor
  · intro hsub
    obtain ⟨l₁, l₂, hl, h₁, h₂⟩ := List.sublist_append_iff.mp hsub
    rcases List.sublist_singleton.mp h₂ with rfl | rfl
    · rw [List.append_nil] at hl
      rw [hl]
      exact h₁
    · have hlast := congrArg List.getLast? hl
      simp only [List.getLast?_append, List.getLast?_cons_cons, List.getLast?_singleton,
        Option.some_or, Option.some.injEq] at hlast
      exact absurd hlast.symm h
  · exact fun hsub => hsub.trans (List.sublist_append_left tr [a])

theorem order_exit : [.setIdle i, .childThreadExit i].Sublist (tr ++ [.childThreadExit i]) ↔
    .setIdle i ∈ tr := by
  constructor
  · intro hsub
    rcases List.mem_append.mp (hsub.subset List.mem_cons_self) with h | h
    · exact h
    · cases List.mem_singleton.mp h
  · intro h
    exact (List.singleton_sublist.mpr h).append (List.Sublist.refl _)

/-! ## The writes -/

/-- The thread has written UNUSED, or is over. -/
def Left (s : PoolLife) (i : Nat) : Prop := (s.info i).pc = .exiting ∨ (s.info i).pc = .ended

structure Writes (tr : List LifeAction) (s : PoolLife) : Prop where
  created : ∀ i, .create i ∈ tr ↔ s.Created i
  idle : ∀ i, .setIdle i ∈ tr ↔ s.Created i ∧ s.owner.settingUp i = false
  left : ∀ i, .childThreadExit i ∈ tr → s.Left i
  status : ∀ i, .setIdle i ∈ tr →
    ((s.info i).cs = .csUnused ↔ [.setIdle i, .childThreadExit i].Sublist tr)

namespace Writes

theorem init : Writes [] init where
  created _ := iff_of_false List.not_mem_nil fun h => h rfl
  idle _ := iff_of_false List.not_mem_nil fun h => h.1 rfl
  left _ h := absurd h List.not_mem_nil
  status _ h := absurd h List.not_mem_nil

theorem quiet (h : Writes tr s) (hcreate : ∀ i, a ≠ .create i) (hidle : ∀ i, a ≠ .setIdle i)
    (hexit : ∀ i, a ≠ .childThreadExit i) (hcreated : ∀ i, s'.Created i ↔ s.Created i)
    (hsetting : ∀ i, s'.owner.settingUp i = s.owner.settingUp i) (hleft : ∀ i, s.Left i → s'.Left i)
    (hcs : ∀ i, .setIdle i ∈ tr → .childThreadExit i ∉ tr ∧ (s'.info i).cs ≠ .csUnused ∨
      (s'.info i).cs = (s.info i).cs) : Writes (tr ++ [a]) s' where
  created i := by
    rw [mem_snoc (hcreate i).symm, hcreated, h.created]
  idle i := by
    rw [mem_snoc (hidle i).symm, hcreated, hsetting, h.idle]
  left i hi := hleft i (h.left i ((mem_snoc (hexit i).symm).mp hi))
  status i hi := by
    have hi := (mem_snoc (hidle i).symm).mp hi
    rw [order_snoc (hexit i)]
    rcases hcs i hi with ⟨hno, hused⟩ | hsame
    · refine iff_of_false hused fun hsub => hno (hsub.subset ?_)
      exact List.mem_cons_of_mem _ List.mem_cons_self
    · rw [hsame]
      exact h.status i hi

theorem owner (h : Writes tr s) (ha : a.Quiet ∨ a = .init ∨ a = .joinAll) {pc : OwnerPc}
    (hsetting : ∀ i, pc.settingUp i = s.owner.settingUp i) : Writes (tr ++ [a]) (s.setOwner pc) := by
  have hne : (∀ i, a ≠ .create i) ∧ (∀ i, a ≠ .setIdle i) ∧ ∀ i, a ≠ .childThreadExit i := by
    refine ⟨?_, ?_, ?_⟩ <;>
      (rintro i rfl
       rcases ha with ha | ha | ha
       · exact ha
       · cases ha
       · cases ha)
  exact h.quiet hne.1 hne.2.1 hne.2.2 (fun _ => Iff.rfl) hsetting (fun _ => id) fun _ _ => .inr rfl

theorem setOwner (h : Writes tr s) {pc : OwnerPc} (hsetting : ∀ i, pc.settingUp i = s.owner.settingUp i) :
    Writes tr (s.setOwner pc) := by
  refine ⟨h.created, fun i => (h.idle i).trans ?_, h.left, h.status⟩
  rw [setOwner_owner, hsetting]
  rfl

theorem info (h : Writes tr s) (ha : a.Quiet) {c : ChildInfo}
    (hcreated : c.pc ≠ .notCreated ↔ s.Created i) (hcs : c.cs = (s.info i).cs)
    (hleft : s.Left i → c.pc = .exiting ∨ c.pc = .ended) : Writes (tr ++ [a]) (s.setInfo i c) := by
  have hne : (∀ i, a ≠ .create i) ∧ (∀ i, a ≠ .setIdle i) ∧ ∀ i, a ≠ .childThreadExit i := by
    refine ⟨?_, ?_, ?_⟩ <;>
      (rintro i rfl
       exact ha)
  refine h.quiet hne.1 hne.2.1 hne.2.2 (fun j => ?_) (fun _ => rfl) (fun j hj => ?_) fun j _ =>
    .inr (info_setInfo ChildInfo.cs hcs j)
  · by_cases hji : j = i
    · subst hji
      rw [Created, setInfo_self]
      exact hcreated
    · rw [Created, setInfo_of_ne hji]
      rfl
  · by_cases hji : j = i
    · subst hji
      rw [Left, setInfo_self]
      exact hleft hj
    · rw [Left, setInfo_of_ne hji]
      exact hj

theorem create (h : Writes tr s) (hpc : s.owner = .create i) (hno : ¬ s.Created i) :
    Writes (tr ++ [.create i])
      ((s.setInfo i { s.info i with pc := .beforeSonRun }).setOwner (.waitSonRun i)) where
  created j := by
    by_cases hj : j = i
    · subst hj
      rw [Created, setOwner_info, setInfo_self]
      exact iff_of_true (by simp) (by simp)
    · rw [mem_snoc (by simp [hj]), Created, setOwner_info, setInfo_of_ne hj]
      exact h.created j
  idle j := by
    rw [mem_snoc (by simp), h.idle j]
    by_cases hj : j = i
    · subst hj
      refine iff_of_false (fun hidle => hno hidle.1) fun hset => ?_
      exact Bool.noConfusion (hset.2.symm.trans (beq_self_eq_true j))
    · rw [Created, Created, setOwner_info, setInfo_of_ne hj, setOwner_owner, hpc,
        show (OwnerPc.waitSonRun i).settingUp j = false from beq_false_of_ne (Ne.symm hj)]
      rfl
  left j hj := by
    have hleft := h.left j ((mem_snoc (by simp)).mp hj)
    have hji : j ≠ i := by
      rintro rfl
      refine hno ?_
      rcases hleft with hl | hl
      · exact Base.created_of_pc hl (by simp)
      · exact Base.created_of_pc hl (by simp)
    rw [Left, setOwner_info, setInfo_of_ne hji]
    exact hleft
  status j hj := by
    have hcs := info_setInfo (s := s) ChildInfo.cs (c := { s.info i with pc := .beforeSonRun }) rfl j
    rw [order_snoc (by simp), setOwner_info, hcs]
    exact h.status j ((mem_snoc (by simp)).mp hj)

theorem setIdle (h : Writes tr s) (hpc : s.owner = .setIdle i) (hcreated : s.Created i) {pc : OwnerPc}
    (hnext : ∀ j, pc.settingUp j = false) :
    Writes (tr ++ [.setIdle i]) ((s.setInfo i { s.info i with cs := .csIdle }).setOwner pc) where
  created j := by
    have hsame := info_setInfo (s := s) ChildInfo.pc (c := { s.info i with cs := .csIdle }) rfl j
    rw [mem_snoc (by simp), h.created, Created, Created, setOwner_info, hsame]
  idle j := by
    have hsame := info_setInfo (s := s) ChildInfo.pc (c := { s.info i with cs := .csIdle }) rfl j
    rw [Created, setOwner_info, hsame, setOwner_owner, hnext]
    by_cases hj : j = i
    · subst hj
      exact iff_of_true (by simp) ⟨hcreated, rfl⟩
    · rw [mem_snoc (by simp [hj]), h.idle j, hpc,
        show (OwnerPc.setIdle i).settingUp j = false from beq_false_of_ne (Ne.symm hj)]
      rfl
  left j hj := by
    have hsame := info_setInfo (s := s) ChildInfo.pc (c := { s.info i with cs := .csIdle }) rfl j
    rw [Left, setOwner_info, hsame]
    exact h.left j ((mem_snoc (by simp)).mp hj)
  status j hj := by
    rw [order_snoc (by simp), setOwner_info]
    by_cases hji : j = i
    · subst hji
      rw [setInfo_self]
      refine iff_of_false (by simp) fun hsub => ?_
      have hidle := ((h.idle j).mp (hsub.subset List.mem_cons_self)).2
      rw [hpc] at hidle
      exact Bool.noConfusion (hidle.symm.trans (beq_self_eq_true j))
    · rw [setInfo_of_ne hji]
      exact h.status j ((mem_snoc (by simp [hji])).mp hj)

theorem childThreadExit (h : Writes tr s) (hpc : (s.info i).pc = .childThreadRun) :
    Writes (tr ++ [.childThreadExit i])
      (s.setInfo i { s.info i with pc := .exiting, cs := .csUnused }) where
  created j := by
    rw [mem_snoc (by simp), h.created]
    by_cases hj : j = i
    · subst hj
      rw [Created, Created, setInfo_self, hpc]
      exact iff_of_true (by simp) (by simp)
    · rw [Created, Created, setInfo_of_ne hj]
  idle j := by
    rw [mem_snoc (by simp), h.idle, setInfo_owner]
    by_cases hj : j = i
    · subst hj
      rw [Created, Created, setInfo_self, hpc]
      simp
    · rw [Created, Created, setInfo_of_ne hj]
  left j hj := by
    by_cases hji : j = i
    · subst hji
      rw [Left, setInfo_self]
      exact .inl rfl
    · rw [Left, setInfo_of_ne hji]
      exact h.left j ((mem_snoc (by simp [hji])).mp hj)
  status j hj := by
    have hidle : .setIdle j ∈ tr := (mem_snoc (by simp)).mp hj
    by_cases hji : j = i
    · subst hji
      rw [setInfo_self, order_exit]
      exact iff_of_true rfl hidle
    · rw [setInfo_of_ne hji, order_snoc (by simp [Ne.symm hji])]
      exact h.status j hidle

/-- The thread writes BUSY. It has not left yet. -/
theorem setBusy (h : Writes tr s) (hpc : (s.info i).pc = .afterSonRun) :
    Writes (tr ++ [.setBusy i]) (s.setInfo i { s.info i with pc := .childThreadRun, cs := .csBusy }) := by
  have hno : ¬ s.Left i := by
    rw [Left, hpc]
    decide
  refine h.quiet (by simp) (by simp) (by simp) (fun j => ?_) (fun _ => rfl) (fun j hj => ?_) fun j hj => ?_
  · by_cases hji : j = i
    · subst hji
      rw [Created, Created, setInfo_self, hpc]
      exact iff_of_true (by simp) (by simp)
    · rw [Created, Created, setInfo_of_ne hji]
  · have hji : j ≠ i := by
      rintro rfl
      exact hno hj
    rw [Left, setInfo_of_ne hji]
    exact hj
  · by_cases hji : j = i
    · subst hji
      rw [setInfo_self]
      exact .inl ⟨fun hexit => hno (h.left j hexit), (by simp)⟩
    · rw [setInfo_of_ne hji]
      exact .inr rfl

theorem step (h : Writes tr s) (hb : Base n s) (hs : Step n s a s') : Writes (tr ++ [a]) s' := by
  cases hs with
  | initNone hpc _ => exact h.owner (.inr (.inl rfl)) fun _ => by rw [hpc]; rfl
  | init hpc _ =>
    have hown : Writes (tr ++ [.init]) (s.setOwner (.create 0)) :=
      h.owner (.inr (.inl rfl)) fun _ => by rw [hpc]; rfl
    exact ⟨hown.created, hown.idle, hown.left, hown.status⟩
  | create i hpc => exact h.create hpc (hb.fresh i (by rw [hpc]; rfl) i le_rfl)
  | createFails i hpc => exact h.owner (a := .owner) (.inl trivial) fun _ => by rw [hpc]; rfl
  | waitSonRun i hpc _ => exact h.owner (a := .owner) (.inl trivial) fun _ => by rw [hpc]; rfl
  | moveThread i hpc =>
    have hinfo := h.info (a := .owner) (i := i) (c := { s.info i with held := true }) trivial Iff.rfl
      rfl id
    exact hinfo.setOwner fun _ => by rw [setInfo_owner, hpc]; rfl
  | setIdle i hpc =>
    refine h.setIdle hpc (hb.idle i hpc) fun j => ?_
    split <;> rfl
  | joinAll hpc =>
    refine h.owner (.inr (.inr rfl)) fun _ => ?_
    rcases hpc with hpc | hpc
    · rw [hpc]
      rfl
    · rw [hpc]
      rfl
  | joinAllInvalid i hpc _ _ => exact h.owner (a := .owner) (.inl trivial) fun _ => by rw [hpc]; rfl
  | joinAllJoins i hpc _ _ _ =>
    have hinfo := h.info (a := .owner) (i := i) (c := (s.info i).joined) trivial Iff.rfl rfl id
    exact hinfo.setOwner fun _ => by rw [setInfo_owner, hpc]; rfl
  | joinAllReturns i hpc _ => exact h.owner (a := .owner) (.inl trivial) fun _ => by rw [hpc]; rfl
  | destructor hpc =>
    refine h.owner (a := .owner) (.inl trivial) fun _ => ?_
    rcases hpc with hpc | hpc | hpc | hpc
    · rw [hpc]
      rfl
    · rw [hpc]
      rfl
    · rw [hpc]
      rfl
    · rw [hpc]
      rfl
  | lookNull i hpc _ _ => exact h.owner (a := .look i) (.inl trivial) fun _ => by rw [hpc]; rfl
  | lookUnused i hpc _ _ _ => exact h.owner (a := .look i) (.inl trivial) fun _ => by rw [hpc]; rfl
  | lookUsed i hpc _ _ _ => exact h.owner (a := .look i) (.inl trivial) fun _ => by rw [hpc]; rfl
  | cancel i hpc =>
    have hinfo := h.info (a := .cancel i) (i := i) (c := { s.info i with cancelled := true }) trivial
      Iff.rfl rfl id
    exact hinfo.setOwner fun _ => by rw [setInfo_owner, hpc]; rfl
  | joinInvalid i hpc _ => exact h.owner (a := .join i) (.inl trivial) fun _ => by rw [hpc]; rfl
  | join i hpc _ _ =>
    have hinfo := h.info (a := .join i) (i := i) (c := (s.info i).joined) trivial Iff.rfl rfl id
    exact hinfo.setOwner fun _ => by rw [setInfo_owner, hpc]; rfl
  | destroyed i hpc _ => exact h.owner (a := .owner) (.inl trivial) fun _ => by rw [hpc]; rfl
  | sonRun i hpc =>
    refine h.info (a := .child i) trivial (iff_of_true (by simp) (Base.created_of_pc hpc (by simp))) rfl
      fun hl => ?_
    rw [Left, hpc] at hl
    exact absurd hl (by decide)
  | setBusy i hpc => exact h.setBusy hpc
  | returns i hpc =>
    exact h.info (a := .child i) trivial (iff_of_true (by simp) (Base.created_of_pc hpc (by simp))) rfl
      fun _ => .inr rfl
  | childThreadExit i hpc => exact h.childThreadExit hpc
  | exit i hpc =>
    exact h.info (a := .child i) trivial (iff_of_true (by simp) (Base.created_of_pc hpc (by simp))) rfl
      fun _ => .inr rfl
  | cancelled i _ hc _ =>
    exact h.info (a := .child i) trivial (iff_of_true (by simp) hc) rfl fun _ => .inr rfl

end Writes

/-! ## The joins -/

structure Joins (n : Nat) (tr : List LifeAction) (s : PoolLife) : Prop where
  pinfos : s.pinfos = true ↔ .init ∈ tr ∧ 0 < n
  early : s.owner.made ≠ none → .joinAll ∉ tr
  called : s.owner.Joining → .joinAll ∈ tr
  joined : ∀ i, s.Created i → s.owner.Awaits i → ((s.info i).joins = 1 ↔ .joinAll ∈ tr)

namespace Joins

theorem init : Joins n [] init where
  pinfos := iff_of_false Bool.false_ne_true fun h => absurd h.1 List.not_mem_nil
  early _ := List.not_mem_nil
  called h := absurd h id
  joined _ h := absurd rfl h

theorem quiet (h : Joins n tr s) (hinit : a ≠ .init) (hjoin : a ≠ .joinAll) (hpinfos : s'.pinfos = s.pinfos)
    (hearly : s'.owner.made ≠ none → s.owner.made ≠ none) (hcalled : s'.owner.Joining → s.owner.Joining)
    (hjoined : ∀ i, s'.Created i → s'.owner.Awaits i → ((s'.info i).joins = 1 ↔ .joinAll ∈ tr)) :
    Joins n (tr ++ [a]) s' where
  pinfos := by
    rw [hpinfos, h.pinfos, mem_snoc hinit.symm]
  early hm := by
    rw [mem_snoc hjoin.symm]
    exact h.early (hearly hm)
  called hc := by
    rw [mem_snoc hjoin.symm]
    exact h.called (hcalled hc)
  joined i hc hw := by
    rw [mem_snoc hjoin.symm]
    exact hjoined i hc hw

theorem owner (h : Joins n tr s) (hinit : a ≠ .init) (hjoin : a ≠ .joinAll) {pc : OwnerPc}
    (hearly : pc.made ≠ none → s.owner.made ≠ none) (hcalled : pc.Joining → s.owner.Joining)
    (hawaits : ∀ i, pc.Awaits i → s.owner.Awaits i) : Joins n (tr ++ [a]) (s.setOwner pc) :=
  h.quiet hinit hjoin rfl hearly hcalled fun i hc hw => h.joined i hc (hawaits i hw)

theorem info (h : Joins n tr s) (hinit : a ≠ .init) (hjoin : a ≠ .joinAll) {c : ChildInfo}
    (hcreated : c.pc ≠ .notCreated → s.Created i) (hjoins : c.joins = (s.info i).joins) :
    Joins n (tr ++ [a]) (s.setInfo i c) := by
  refine h.quiet hinit hjoin rfl id id fun j hc hw => ?_
  rw [info_setInfo ChildInfo.joins hjoins]
  refine h.joined j ?_ hw
  by_cases hj : j = i
  · subst hj
    rw [Created, setInfo_self] at hc
    exact hcreated hc
  · rw [Created, setInfo_of_ne hj] at hc
    exact hc

theorem setOwner (h : Joins n tr s) {pc : OwnerPc} (hearly : pc.made ≠ none → s.owner.made ≠ none)
    (hcalled : pc.Joining → s.owner.Joining) (hawaits : ∀ i, pc.Awaits i → s.owner.Awaits i) :
    Joins n tr (s.setOwner pc) :=
  ⟨h.pinfos, fun hm => h.early (hearly hm), fun hc => h.called (hcalled hc),
    fun i hc hw => h.joined i hc (hawaits i hw)⟩

theorem create (h : Joins n tr s) (hb : Base n s) (hpc : s.owner = .create i) :
    Joins n (tr ++ [.create i])
      ((s.setInfo i { s.info i with pc := .beforeSonRun }).setOwner (.waitSonRun i)) := by
  have hno : .joinAll ∉ tr := h.early (by simp [hpc, OwnerPc.made])
  refine h.quiet (by simp) (by simp) rfl (fun _ => by simp [hpc, OwnerPc.made]) (fun hc => absurd hc id)
    fun j hc _ => ?_
  have hjoins := info_setInfo (s := s) ChildInfo.joins (c := { s.info i with pc := .beforeSonRun }) rfl j
  rw [setOwner_info, hjoins]
  by_cases hj : j = i
  · subst hj
    have hfresh := hb.fresh j (by rw [hpc]; rfl) j le_rfl
    have hslot := hb.slot j
    rw [hpc] at hslot
    cases hslot with
    | notCreated _ _ _ hjoins => exact iff_of_false (by rw [hjoins]; decide) hno
    | held hcreated _ _ => exact absurd hcreated hfresh
    | joined hcreated _ _ => exact absurd hcreated hfresh
  · rw [Created, setOwner_info, setInfo_of_ne hj] at hc
    exact h.joined j hc (by rw [hpc]; trivial)

theorem joinAllJoins (h : Joins n tr s) (hb : Base n s) (hpc : s.owner = .joinAll i)
    (hheld : (s.info i).held = true) :
    Joins n (tr ++ [.owner]) ((s.setInfo i (s.info i).joined).setOwner (.joinAll (i + 1))) := by
  have hcalled := h.called (by rw [hpc]; trivial)
  refine h.quiet (by simp) (by simp) rfl (fun hm => absurd rfl hm) (fun _ => by rw [hpc]; trivial)
    fun j hc hw => ?_
  rw [setOwner_info]
  by_cases hj : j = i
  · subst hj
    rw [setInfo_self, ChildInfo.joined, ((hb.slot j).of_held hheld).2.2]
    exact iff_of_true rfl hcalled
  · rw [Created, setOwner_info, setInfo_of_ne hj] at hc
    rw [setInfo_of_ne hj]
    refine h.joined j hc ?_
    rw [hpc]
    exact lt_of_le_of_ne (Nat.lt_succ_iff.mp hw) hj

theorem joinAllInvalid (h : Joins n tr s) (hb : Base n s) (hpc : s.owner = .joinAll i)
    (hheld : (s.info i).held = false) : Joins n (tr ++ [.owner]) (s.setOwner (.joinAll (i + 1))) := by
  have hcalled := h.called (by rw [hpc]; trivial)
  refine h.quiet (by simp) (by simp) rfl (fun hm => absurd rfl hm) (fun _ => by rw [hpc]; trivial)
    fun j hc hw => ?_
  by_cases hj : j = i
  · subst hj
    have hslot := hb.slot j
    rw [hpc] at hslot
    refine iff_of_true ?_ hcalled
    by_contra hne
    have hyes := hslot.held_of_unjoined hc hne
    rw [hheld] at hyes
    cases hyes
  · refine h.joined j hc ?_
    rw [hpc]
    exact lt_of_le_of_ne (Nat.lt_succ_iff.mp hw) hj

theorem join (h : Joins n tr s) (hpc : s.owner = .join i) :
    Joins n (tr ++ [.join i]) ((s.setInfo i (s.info i).joined).setOwner (.freeInfo (i + 1))) := by
  refine h.quiet (by simp) (by simp) rfl (fun hm => absurd rfl hm) (fun hc => absurd hc id)
    fun j hc hw => ?_
  have hj : j ≠ i := Nat.ne_of_gt hw
  rw [Created, setOwner_info, setInfo_of_ne hj] at hc
  rw [setOwner_info, setInfo_of_ne hj]
  refine h.joined j hc ?_
  rw [hpc]
  exact Nat.le_of_succ_le hw

theorem step (h : Joins n tr s) (hb : Base n s) (hs : Step n s a s') : Joins n (tr ++ [a]) s' := by
  cases hs with
  | initNone hpc hn =>
    refine ⟨?_, fun hm => absurd rfl hm, fun hc => absurd hc id, fun i hc _ => ?_⟩
    · refine iff_of_false (fun hp => ?_) fun hp => absurd hn hp.2.ne'
      exact absurd hn ((h.pinfos.mp hp).2.ne')
    · rw [mem_snoc (by simp)]
      exact h.joined i hc (by rw [hpc]; trivial)
  | init hpc hn =>
    refine ⟨iff_of_true rfl ⟨by simp, hn⟩, fun _ => ?_, fun hc => absurd hc id, fun i hc _ => ?_⟩
    · rw [mem_snoc (by simp)]
      exact h.early (by simp [hpc, OwnerPc.made])
    · rw [mem_snoc (by simp)]
      exact h.joined i hc (by rw [hpc]; trivial)
  | create i hpc => exact h.create hb hpc
  | createFails i hpc =>
    exact h.owner (a := .owner) (by simp) (by simp) (fun hm => absurd rfl hm) (fun hc => absurd hc id)
      fun _ _ => by rw [hpc]; trivial
  | waitSonRun i hpc _ =>
    exact h.owner (a := .owner) (by simp) (by simp) (fun _ => by simp [hpc, OwnerPc.made])
      (fun hc => absurd hc id)
      fun _ _ => by rw [hpc]; trivial
  | moveThread i hpc =>
    have hinfo := h.info (a := .owner) (i := i) (c := { s.info i with held := true }) (by simp)
      (by simp) id rfl
    exact hinfo.setOwner (fun _ => by simp [hpc, OwnerPc.made]) (fun hc => absurd hc id)
      fun _ _ => by rw [setInfo_owner, hpc]; trivial
  | setIdle i hpc =>
    have hinfo := h.info (a := .setIdle i) (i := i) (c := { s.info i with cs := .csIdle }) (by simp)
      (by simp) id rfl
    split
    · exact hinfo.setOwner (fun _ => by simp [hpc, OwnerPc.made]) (fun hc => absurd hc id)
        fun _ _ => by rw [setInfo_owner, hpc]; trivial
    · exact hinfo.setOwner (fun hm => absurd rfl hm) (fun hc => absurd hc id)
        fun _ _ => by rw [setInfo_owner, hpc]; trivial
  | joinAll hpc =>
    refine ⟨?_, fun hm => absurd rfl hm, fun _ => by simp, fun i _ hw => absurd hw (Nat.not_lt_zero i)⟩
    rw [mem_snoc (by simp)]
    exact h.pinfos
  | joinAllInvalid i hpc _ hheld => exact h.joinAllInvalid hb hpc hheld
  | joinAllJoins i hpc _ hheld _ => exact h.joinAllJoins hb hpc hheld
  | joinAllReturns i hpc hle =>
    refine h.quiet (by simp) (by simp) rfl (fun hm => absurd rfl hm) (fun _ => by rw [hpc]; trivial)
      fun j hc _ => h.joined j hc ?_
    rw [hpc]
    exact (hb.bound j hc).trans_le hle
  | destructor hpc =>
    refine h.owner (a := .owner) (by simp) (by simp) (fun hm => absurd rfl hm) (fun hc => absurd hc id)
      fun _ _ => ?_
    rcases hpc with hpc | hpc | hpc | hpc
    · rw [hpc]
      trivial
    · rw [hpc]
      trivial
    · rw [hpc]
      trivial
    · rw [hpc]
      trivial
  | lookNull i hpc _ _ =>
    exact h.owner (a := .look i) (by simp) (by simp) (fun hm => absurd rfl hm) (fun hc => absurd hc id)
      fun _ hw => absurd hw id
  | lookUnused i hpc _ _ _ =>
    exact h.owner (a := .look i) (by simp) (by simp) (fun hm => absurd rfl hm) (fun hc => absurd hc id)
      fun _ hw => by rw [hpc]; exact Nat.le_of_succ_le hw
  | lookUsed i hpc _ _ _ =>
    exact h.owner (a := .look i) (by simp) (by simp) (fun hm => absurd rfl hm) (fun hc => absurd hc id)
      fun _ hw => by rw [hpc]; exact hw
  | cancel i hpc =>
    have hinfo := h.info (a := .cancel i) (i := i) (c := { s.info i with cancelled := true }) (by simp)
      (by simp)
      id rfl
    exact hinfo.setOwner (fun hm => absurd rfl hm) (fun hc => absurd hc id)
      fun _ hw => by rw [setInfo_owner, hpc]; exact hw
  | joinInvalid i hpc _ =>
    exact h.owner (a := .join i) (by simp) (by simp) (fun hm => absurd rfl hm) (fun hc => absurd hc id)
      fun _ hw => by rw [hpc]; exact Nat.le_of_succ_le hw
  | join i hpc _ _ => exact h.join hpc
  | destroyed i hpc _ =>
    exact h.owner (a := .owner) (by simp) (by simp) (fun hm => absurd rfl hm) (fun hc => absurd hc id)
      fun _ hw => absurd hw id
  | sonRun i hpc =>
    exact h.info (a := .child i) (by simp) (by simp) (fun _ => Base.created_of_pc hpc (by simp)) rfl
  | setBusy i hpc =>
    exact h.info (a := .setBusy i) (by simp) (by simp) (fun _ => Base.created_of_pc hpc (by simp)) rfl
  | returns i hpc =>
    exact h.info (a := .child i) (by simp) (by simp) (fun _ => Base.created_of_pc hpc (by simp)) rfl
  | childThreadExit i hpc =>
    exact h.info (a := .childThreadExit i) (by simp) (by simp)
      (fun _ => Base.created_of_pc hpc (by simp)) rfl
  | exit i hpc =>
    exact h.info (a := .child i) (by simp) (by simp) (fun _ => Base.created_of_pc hpc (by simp)) rfl
  | cancelled i _ hc _ => exact h.info (a := .child i) (by simp) (by simp) (fun _ => hc) rfl

end Joins

/-! ## Runs -/

theorem inOrder_snoc_iff : InOrder (tr ++ [a]) ↔ InOrder tr ∧ ∀ i, a = .look i → LeftInOrder tr i := by
  constructor
  · intro h
    refine ⟨fun pre i post hpre => ?_, fun i hi => ?_⟩
    · exact h pre i (post ++ [a]) (by rw [hpre, List.append_assoc, List.cons_append])
    · exact h tr i [] (by rw [hi])
  · rintro ⟨h, hlook⟩ pre i post hpre
    rcases List.eq_nil_or_concat post with rfl | ⟨rest, b, rfl⟩
    · obtain ⟨rfl, hlast⟩ := List.append_inj' hpre rfl
      exact hlook i (List.singleton_inj.mp hlast)
    · rw [List.concat_eq_append, ← List.cons_append, ← List.append_assoc] at hpre
      exact h pre i rest (List.append_inj' hpre rfl).1

/-- What the destructor reads of slot `i` is what the order of the steps says. -/
theorem statusTells_iff_leftInOrder (hw : Writes tr s) (hj : Joins n tr s) (hs : Step n s (.look i) s') :
    StatusTells s (.look i) s' ↔ LeftInOrder tr i := by
  have hat : s.owner = .freeInfo i ∧ i < n := by
    cases hs with
    | lookNull _ hpc hi _ => exact ⟨hpc, hi⟩
    | lookUnused _ hpc hi _ _ => exact ⟨hpc, hi⟩
    | lookUsed _ hpc hi _ _ => exact ⟨hpc, hi⟩
  obtain ⟨hpc, hi⟩ := hat
  have hpinfos : s.pinfos = true ↔ .init ∈ tr := by
    rw [hj.pinfos, and_iff_left (Nat.zero_lt_of_lt hi)]
  have hone : StatusTells s (.look i) s' ↔
      s.pinfos = true ∧ (s.Created i → ((s.info i).cs = .csUnused ↔ (s.info i).joins = 1)) := by
    constructor
    · exact fun h => h i rfl
    · rintro h j ⟨⟩
      exact h
  rw [hone, LeftInOrder, hpinfos, hw.created]
  refine and_congr_right fun _ => forall_congr' fun hc => ?_
  have hidle : .setIdle i ∈ tr := (hw.idle i).mpr ⟨hc, by rw [hpc]; rfl⟩
  rw [hw.status i hidle, hj.joined i hc (by rw [hpc]; exact le_rfl)]
  exact Iff.comm

theorem recorded (h : (system n).Run tr s) : Base n s ∧ Writes tr s ∧ Joins n tr s := by
  refine h.invariant (fun tr s => Base n s ∧ Writes tr s ∧ Joins n tr s) ?_ ?_
  · rintro s rfl
    exact ⟨.init, .init, .init⟩
  · rintro tr s a s' ⟨hb, hw, hj⟩ hs
    exact ⟨hb.step hs, hw.step hb hs, hj.step hb hs⟩

/-- The statuses tell in a run exactly if its steps are in order. -/
theorem inOrder_iff : ((system n).restrict StatusTells).Run tr s ↔ (system n).Run tr s ∧ InOrder tr := by
  constructor
  · intro h
    refine ⟨h.of_restrict, ?_⟩
    induction h with
    | init _ => exact fun pre i post hpre => absurd hpre (by simp)
    | @step tr s s' a hrun hs ih =>
      obtain ⟨-, hw, hj⟩ := recorded hrun.of_restrict
      refine inOrder_snoc_iff.mpr ⟨ih, ?_⟩
      rintro i rfl
      exact (statusTells_iff_leftInOrder hw hj hs.1).mp hs.2
  · rintro ⟨h, horder⟩
    induction h with
    | init h => exact .init h
    | @step tr s s' a hrun hs ih =>
      obtain ⟨hin, hlook⟩ := inOrder_snoc_iff.mp horder
      obtain ⟨-, hw, hj⟩ := recorded hrun
      refine .step (ih hin) ⟨hs, fun i hi => ?_⟩
      subst hi
      exact (statusTells_iff_leftInOrder hw hj hs).mpr (hlook i rfl) i rfl

/-- The life of a pool is as it should be as long as its steps are in order: the destructor comes after
`Init`, and to a thread that has left by `childThreadExit` after its slot was IDLE exactly if `JoinAll` has
been called. Once they are not it is no longer so when the pool is destroyed. -/
theorem joined_once (n : Nat) (tr : List LifeAction) (s : PoolLife) :
    ((system n).Run tr s ∧ InOrder tr → ((system n).restrict OnlyUnjoined).Run tr s ∧ Safe s) ∧
    (s.owner = .destroyed ∨ s.owner = .crashed →
      ((system n).restrict OnlyUnjoined).Run tr s ∧ Safe s → InOrder tr) := by
  constructor
  · intro hrun
    obtain ⟨honly, hb, hset⟩ := statusTells_run (inOrder_iff.mpr hrun)
    exact ⟨honly, hset.safe hb⟩
  · rintro hend ⟨honly, hsafe⟩
    rcases (onlyUnjoined_run honly).2 with hrun | hu
    · exact (inOrder_iff.mp hrun).2
    · exact absurd hsafe (hu.not_safe hend)

section OneThread

variable {P : PoolLife → LifeAction → PoolLife → Prop}

/-- `Init` of a pool of one thread, which comes to `childThreadRun` after it. -/
theorem oneThread_init (hP : ∀ s a s', (∀ i, a ≠ .look i ∧ a ≠ .cancel i ∧ a ≠ .join i) → P s a s') :
    ∃ tr s, ((system 1).restrict P).Run tr s ∧ s.owner = .initialised ∧ s.pinfos = true ∧
      s.info 0 = ⟨.childThreadRun, .csBusy, true, 0, false⟩ := by
  have h0 : ((system 1).restrict P).Run [] PoolLife.init := .init rfl
  have h1 := h0.step ⟨Step.init _ rfl Nat.one_pos, hP _ _ _ fun i => by simp⟩
  have h2 := h1.step ⟨Step.create _ 0 rfl, hP _ _ _ fun i => by simp⟩
  have h3 := h2.step ⟨Step.sonRun _ 0 rfl, hP _ _ _ fun i => by simp⟩
  have h4 := h3.step ⟨Step.waitSonRun _ 0 rfl (by simp), hP _ _ _ fun i => by simp⟩
  have h5 := h4.step ⟨Step.moveThread _ 0 rfl, hP _ _ _ fun i => by simp⟩
  have h6 := h5.step ⟨Step.setIdle _ 0 rfl, hP _ _ _ fun i => by simp⟩
  have h7 := h6.step ⟨Step.setBusy _ 0 rfl, hP _ _ _ fun i => by simp⟩
  exact ⟨_, _, h7, rfl, rfl, rfl⟩

/-- The thread of a pool of one leaves by `childThreadExit`, `JoinAll` joins it, and the destructor passes
its slot. -/
theorem joined_once_oneThread : ∃ tr s, s.owner = .destroyed ∧ (s.info 0).joins = 1 ∧
    (s.info 0).cancelled = false ∧ ((system 1).restrict OnlyUnjoined).Run tr s ∧ Safe s ∧ InOrder tr := by
  obtain ⟨_, s, h, hpc, hpinfos, hinfo⟩ :=
    oneThread_init (P := StatusTells) fun _ _ _ hno i hl => absurd hl (hno i).1
  have h1 := h.step ⟨Step.childThreadExit _ 0 (by simp [hinfo]), fun i hl => by cases hl⟩
  have h2 := h1.step ⟨Step.exit _ 0 (by simp), fun i hl => by cases hl⟩
  have h3 := h2.step ⟨Step.joinAll _ (.inl hpc), fun i hl => by cases hl⟩
  have h4 := h3.step ⟨Step.joinAllJoins _ 0 rfl Nat.one_pos (by simp [hinfo]) (by simp),
    fun i hl => by cases hl⟩
  have h5 := h4.step ⟨Step.joinAllReturns _ 1 rfl le_rfl, fun i hl => by cases hl⟩
  have h6 := h5.step ⟨Step.destructor _ (.inr (.inr (.inr rfl))), fun i hl => by cases hl⟩
  have h7 := h6.step ⟨Step.lookUnused _ 0 rfl Nat.one_pos hpinfos (by simp [ChildInfo.joined]),
    fun i hi => by
      cases hi
      exact ⟨hpinfos, fun _ => by simp [ChildInfo.joined, hinfo]⟩⟩
  have h8 := h7.step ⟨Step.destroyed _ 1 rfl le_rfl, fun i hl => by cases hl⟩
  obtain ⟨honly, hsafe⟩ := (joined_once 1 _ _).1 (inOrder_iff.mp h8)
  exact ⟨_, _, rfl, by simp [ChildInfo.joined, hinfo], by simp [ChildInfo.joined, hinfo], honly, hsafe,
    (joined_once 1 _ _).2 (.inl rfl) ⟨honly, hsafe⟩⟩

/-- A thread that returns leaves its slot BUSY, and after `JoinAll` the destructor cancels it. And
the destructor of a pool that was not initialised reads a status through a null pointer. -/
theorem joinedThread_cancelled :
    (¬ ∀ s a s', (system 1).Reachable s → (system 1).step s a s' → OnlyUnjoined s a s') ∧
    ¬ ∀ tr s, (system 1).Run tr s → Safe s := by
  constructor
  · intro hall
    obtain ⟨_, s, h, hpc, hpinfos, hinfo⟩ := oneThread_init (P := fun _ _ _ => True) fun _ _ _ _ =>
      trivial
    have h1 := h.of_restrict.step (Step.returns _ 0 (by simp [hinfo]))
    have h2 := h1.step (Step.joinAll _ (.inl hpc))
    have h3 := h2.step (Step.joinAllJoins _ 0 rfl Nat.one_pos (by simp [hinfo]) (by simp))
    have h4 := h3.step (Step.joinAllReturns _ 1 rfl le_rfl)
    have h5 := h4.step (Step.destructor _ (.inr (.inr (.inr rfl))))
    have h6 := h5.step (Step.lookUsed _ 0 rfl Nat.one_pos hpinfos
      (by simp [ChildInfo.joined, hinfo]))
    have hjoins := hall _ _ _ ⟨_, h6⟩ (Step.cancel _ 0 rfl) 0 (.inl rfl)
    simp [ChildInfo.joined, hinfo] at hjoins
  · intro hall
    have h0 : (system 1).Run [] PoolLife.init := .init rfl
    have h1 := h0.step (Step.destructor _ (.inl rfl))
    have h2 := h1.step (Step.lookNull _ 0 rfl Nat.one_pos rfl)
    exact (hall _ _ h2).notCrashed rfl

end OneThread

end PoolLife
end Threads
end Huicpp
