import Mathlib
import Huicpp.Threads.PoolLife

/-!
# Threads.JoinedOnce

`Base` holds in every run: a slot has the id of its thread from `moveThread` on until the thread is
joined. `Settled` is what the destructor leaves behind it as long as the statuses tell which threads
are joined, and `Unsettled` what it leaves once they did not.
-/

namespace Huicpp
namespace Threads

open Cxx

namespace OwnerPc

/-- No thread from this index on has been created. -/
def made : OwnerPc → Option Nat
  | .constructed => some 0
  | .create i => some i
  | .waitSonRun i => some (i + 1)
  | .moveThread i => some (i + 1)
  | .setIdle i => some (i + 1)
  | _ => none

/-- Thread `i` has been created and its id not been moved to its slot. -/
def moving : OwnerPc → Nat → Bool
  | .waitSonRun k, i => k == i
  | .moveThread k, i => k == i
  | _, _ => false

/-- The destructor is done with slot `i`. -/
def Passed (i : Nat) : OwnerPc → Prop
  | .freeInfo k => i < k
  | .cancel k => i < k
  | .join k => i < k
  | .destroyed => True
  | _ => False

end OwnerPc

/-- The four states of a slot. -/
inductive SlotOk (c : ChildInfo) : Bool → Prop where
  | notCreated :
      c.pc = .notCreated → c.cs = .csUnused → c.held = false → c.joins = 0 → SlotOk c false
  | moving : c.pc ≠ .notCreated → c.held = false → c.joins = 0 → SlotOk c true
  | held : c.pc ≠ .notCreated → c.held = true → c.joins = 0 → SlotOk c false
  | joined : c.pc ≠ .notCreated → c.held = false → c.joins = 1 → SlotOk c false

namespace SlotOk

variable {moving : Bool} {c : ChildInfo}

theorem joins_le (h : SlotOk c moving) : c.joins ≤ 1 := by
  cases h with
  | notCreated _ _ _ hj => omega
  | moving _ _ hj => omega
  | held _ _ hj => omega
  | joined _ _ hj => omega

theorem child (h : SlotOk c moving) (hcreated : c.pc ≠ .notCreated) {c' : ChildInfo}
    (hpc : c'.pc ≠ .notCreated) (hheld : c'.held = c.held) (hjoins : c'.joins = c.joins) :
    SlotOk c' moving := by
  cases h with
  | notCreated hn _ _ _ => exact absurd hn hcreated
  | moving _ hh hj => exact .moving hpc (hheld.trans hh) (hjoins.trans hj)
  | held _ hh hj => exact .held hpc (hheld.trans hh) (hjoins.trans hj)
  | joined _ hh hj => exact .joined hpc (hheld.trans hh) (hjoins.trans hj)

theorem of_held (h : SlotOk c moving) (hh : c.held = true) :
    moving = false ∧ c.pc ≠ .notCreated ∧ c.joins = 0 := by
  cases h with
  | notCreated _ _ hno _ => simp [hh] at hno
  | moving _ hno _ => simp [hh] at hno
  | held hc _ hj => exact ⟨rfl, hc, hj⟩
  | joined _ hno _ => simp [hh] at hno

theorem join (h : SlotOk c moving) (hh : c.held = true) : SlotOk c.joined moving := by
  obtain ⟨rfl, hc, hj⟩ := h.of_held hh
  exact .joined hc rfl (by simp [ChildInfo.joined, hj])

theorem move (h : SlotOk c true) : SlotOk { c with held := true } false := by
  cases h with
  | moving hc _ hj => exact .held hc rfl hj

theorem held_of_unjoined (h : SlotOk c false) (hc : c.pc ≠ .notCreated) (hj : c.joins ≠ 1) :
    c.held = true := by
  cases h with
  | notCreated hn _ _ _ => exact absurd hn hc
  | held _ hh _ => exact hh
  | joined _ _ hj' => exact absurd hj' hj

end SlotOk

namespace PoolLife

structure Base (n : Nat) (s : PoolLife) : Prop where
  slot : ∀ i, SlotOk (s.info i) (s.owner.moving i)
  fresh : ∀ k, s.owner.made = some k → ∀ i, k ≤ i → ¬ s.Created i
  bound : ∀ i, s.Created i → i < n
  round : ∀ k, s.owner = .create k → k < n
  idle : ∀ i, s.owner = .setIdle i → s.Created i

namespace Base

variable {n : Nat} {s s' : PoolLife}

theorem init : Base n init where
  slot _ := .notCreated rfl rfl rfl rfl
  fresh _ _ _ _ h := h rfl
  bound _ h := absurd rfl h
  round _ h := by cases h
  idle _ h := by cases h

theorem setOwner (h : Base n s) {pc : OwnerPc} (hmoving : pc.moving = s.owner.moving)
    (hmade : ∀ k, pc.made = some k → ∃ j, s.owner.made = some j ∧ j ≤ k)
    (hround : ∀ k, pc = .create k → k < n) (hidle : ∀ i, pc ≠ .setIdle i) :
    Base n (s.setOwner pc) where
  slot i := by
    rw [setOwner_owner, hmoving]
    exact h.slot i
  fresh k hk i hi := by
    obtain ⟨j, hj, hjk⟩ := hmade k hk
    exact h.fresh j hj i (hjk.trans hi)
  bound := h.bound
  round := hround
  idle i hi := absurd hi (hidle i)

theorem setOwner' (h : Base n s) {pc : OwnerPc} (hmoving : pc.moving = s.owner.moving)
    (hmade : pc.made = none) : Base n (s.setOwner pc) := by
  refine h.setOwner hmoving (fun k hk => ?_) (fun k hk => ?_) (fun k hk => ?_)
  · rw [hmade] at hk
    cases hk
  · rw [hk] at hmade
    cases hmade
  · rw [hk] at hmade
    cases hmade

theorem setInfo (h : Base n s) {i : Nat} {c : ChildInfo}
    (hpc : c.pc = .notCreated ↔ (s.info i).pc = .notCreated) (hok : SlotOk c (s.owner.moving i)) :
    Base n (s.setInfo i c) := by
  have hcreated : ∀ j, (s.setInfo i c).Created j ↔ s.Created j := by
    intro j
    by_cases hj : j = i
    · subst hj
      rw [Created, setInfo_self]
      exact hpc.not
    · rw [Created, setInfo_of_ne hj]
      rfl
  refine ⟨fun j => ?_, fun k hk j hj => ?_, fun j hj => ?_, h.round, fun j hj => ?_⟩
  · by_cases hj : j = i
    · subst hj
      rw [setInfo_self]
      exact hok
    · rw [setInfo_of_ne hj]
      exact h.slot j
  · rw [hcreated]
    exact h.fresh k hk j hj
  · exact h.bound j ((hcreated j).mp hj)
  · exact (hcreated j).mpr (h.idle j hj)

theorem child (h : Base n s) {i : Nat} {c : ChildInfo} (hcreated : s.Created i)
    (hpc : c.pc ≠ .notCreated) (hheld : c.held = (s.info i).held)
    (hjoins : c.joins = (s.info i).joins) : Base n (s.setInfo i c) :=
  h.setInfo (iff_of_false hpc hcreated) ((h.slot i).child hcreated hpc hheld hjoins)

theorem joined (h : Base n s) {i : Nat} (hheld : (s.info i).held = true) :
    Base n (s.setInfo i (s.info i).joined) := by
  obtain ⟨-, hc, -⟩ := (h.slot i).of_held hheld
  exact h.setInfo (iff_of_false hc hc) ((h.slot i).join hheld)

theorem created_of_pc {i : Nat} {pc : ThreadPc} (h : (s.info i).pc = pc) (hpc : pc ≠ .notCreated) :
    s.Created i := by
  rw [Created, h]
  exact hpc

theorem create (h : Base n s) {i : Nat} (hpc : s.owner = .create i) :
    Base n ((s.setInfo i { s.info i with pc := .beforeSonRun }).setOwner (.waitSonRun i)) where
  slot j := by
    have hslot := h.slot j
    rw [hpc] at hslot
    by_cases hj : j = i
    · subst hj
      have hno := h.fresh j (by rw [hpc]; rfl) j le_rfl
      have hm : (OwnerPc.waitSonRun j).moving j = true := beq_self_eq_true j
      rw [setOwner_owner, hm, setOwner_info, setInfo_self]
      cases hslot with
      | notCreated _ _ hh hj => exact .moving nofun hh hj
      | held hc _ _ => exact absurd hc hno
      | joined hc _ _ => exact absurd hc hno
    · have hm : (OwnerPc.waitSonRun i).moving j = false := beq_false_of_ne (Ne.symm hj)
      rw [setOwner_owner, hm, setOwner_info, setInfo_of_ne hj]
      exact hslot
  fresh k hk j hj hc := by
    cases hk
    have hji : j ≠ i := by omega
    rw [Created, setOwner_info, setInfo_of_ne hji] at hc
    exact h.fresh i (by rw [hpc]; rfl) j (by omega) hc
  bound j hc := by
    by_cases hji : j = i
    · subst hji
      exact h.round j hpc
    · rw [Created, setOwner_info, setInfo_of_ne hji] at hc
      exact h.bound j hc
  round k hk := by cases hk
  idle k hk := by cases hk

theorem moveThread (h : Base n s) {i : Nat} (hpc : s.owner = .moveThread i) :
    Base n ((s.setInfo i { s.info i with held := true }).setOwner (.setIdle i)) := by
  have hsloti : SlotOk (s.info i) true := by
    have hslot := h.slot i
    rwa [hpc, show (OwnerPc.moveThread i).moving i = true from beq_self_eq_true i] at hslot
  have hcreated : s.Created i := by
    cases hsloti with
    | moving hc _ _ => exact hc
  refine ⟨fun j => ?_, fun k hk j hj hc => ?_, fun j hc => ?_, nofun, fun j hj => ?_⟩
  · by_cases hj : j = i
    · subst hj
      rw [setOwner_info, setInfo_self]
      exact hsloti.move
    · have hslot := h.slot j
      rw [hpc, show (OwnerPc.moveThread i).moving j = false from beq_false_of_ne (Ne.symm hj)]
        at hslot
      rw [setOwner_info, setInfo_of_ne hj]
      exact hslot
  · cases hk
    have hji : j ≠ i := by omega
    rw [Created, setOwner_info, setInfo_of_ne hji] at hc
    exact h.fresh (i + 1) (by rw [hpc]; rfl) j hj hc
  · by_cases hji : j = i
    · subst hji
      exact h.bound j hcreated
    · rw [Created, setOwner_info, setInfo_of_ne hji] at hc
      exact h.bound j hc
  · cases hj
    rw [Created, setOwner_info, setInfo_self]
    exact hcreated

theorem step {a : LifeAction} (hb : Base n s) (h : Step n s a s') : Base n s' := by
  cases h with
  | initNone hpc _ => exact hb.setOwner' (by rw [hpc]; rfl) rfl
  | init hpc hn =>
    have hown : Base n (s.setOwner (.create 0)) := by
      refine hb.setOwner (by rw [hpc]; rfl) ?_ ?_ nofun
      · intro k hk
        cases hk
        exact ⟨0, by rw [hpc]; rfl, le_rfl⟩
      · intro k hk
        cases hk
        exact hn
    exact ⟨hown.slot, hown.fresh, hown.bound, hown.round, hown.idle⟩
  | create i hpc => exact hb.create hpc
  | createFails i hpc => exact hb.setOwner' (by rw [hpc]; rfl) rfl
  | waitSonRun i hpc _ =>
    refine hb.setOwner (by rw [hpc]; rfl) ?_ nofun nofun
    intro k hk
    cases hk
    exact ⟨i + 1, by rw [hpc]; rfl, le_rfl⟩
  | moveThread i hpc => exact hb.moveThread hpc
  | setIdle i hpc =>
    have hcreated := hb.idle i hpc
    have hinfo := hb.child (c := { s.info i with cs := .csIdle }) hcreated hcreated rfl rfl
    by_cases hi : i + 1 < n
    · rw [if_pos hi]
      refine hinfo.setOwner (by rw [setInfo_owner, hpc]; rfl) ?_ ?_ nofun
      · intro k hk
        cases hk
        exact ⟨i + 1, by rw [setInfo_owner, hpc]; rfl, le_rfl⟩
      · intro k hk
        cases hk
        exact hi
    · rw [if_neg hi]
      exact hinfo.setOwner' (by rw [setInfo_owner, hpc]; rfl) rfl
  | joinAll hpc =>
    rcases hpc with hpc | hpc
    · exact hb.setOwner' (by rw [hpc]; rfl) rfl
    · exact hb.setOwner' (by rw [hpc]; rfl) rfl
  | joinAllInvalid i hpc _ _ => exact hb.setOwner' (by rw [hpc]; rfl) rfl
  | joinAllJoins i hpc _ hheld _ =>
    exact (hb.joined hheld).setOwner' (by rw [setInfo_owner, hpc]; rfl) rfl
  | joinAllReturns i hpc _ => exact hb.setOwner' (by rw [hpc]; rfl) rfl
  | destructor hpc =>
    rcases hpc with hpc | hpc | hpc | hpc
    · exact hb.setOwner' (by rw [hpc]; rfl) rfl
    · exact hb.setOwner' (by rw [hpc]; rfl) rfl
    · exact hb.setOwner' (by rw [hpc]; rfl) rfl
    · exact hb.setOwner' (by rw [hpc]; rfl) rfl
  | lookNull i hpc _ _ => exact hb.setOwner' (by rw [hpc]; rfl) rfl
  | lookUnused i hpc _ _ _ => exact hb.setOwner' (by rw [hpc]; rfl) rfl
  | lookUsed i hpc _ _ _ => exact hb.setOwner' (by rw [hpc]; rfl) rfl
  | cancel i hpc =>
    have hinfo : Base n (s.setInfo i { s.info i with cancelled := true }) := by
      have hslot := hb.slot i
      refine hb.setInfo Iff.rfl ?_
      generalize s.owner.moving i = moving at hslot ⊢
      cases hslot with
      | notCreated hc hcs hh hj => exact .notCreated hc hcs hh hj
      | moving hc hh hj => exact .moving hc hh hj
      | held hc hh hj => exact .held hc hh hj
      | joined hc hh hj => exact .joined hc hh hj
    exact hinfo.setOwner' (by rw [setInfo_owner, hpc]; rfl) rfl
  | joinInvalid i hpc _ => exact hb.setOwner' (by rw [hpc]; rfl) rfl
  | join i hpc hheld _ =>
    exact (hb.joined hheld).setOwner' (by rw [setInfo_owner, hpc]; rfl) rfl
  | destroyed i hpc _ => exact hb.setOwner' (by rw [hpc]; rfl) rfl
  | sonRun i hpc => exact hb.child (created_of_pc hpc nofun) nofun rfl rfl
  | setBusy i hpc => exact hb.child (created_of_pc hpc nofun) nofun rfl rfl
  | returns i hpc => exact hb.child (created_of_pc hpc nofun) nofun rfl rfl
  | childThreadExit i hpc => exact hb.child (created_of_pc hpc nofun) nofun rfl rfl
  | exit i hpc => exact hb.child (created_of_pc hpc nofun) nofun rfl rfl
  | cancelled i _ hc _ => exact hb.child hc nofun rfl rfl

end Base
variable {n : Nat} {s s' : PoolLife}

/-! ## Runs in which the statuses tell -/

structure Settled (s : PoolLife) : Prop where
  passed : ∀ i, s.owner.Passed i → s.Created i → (s.info i).joins = 1
  target : ∀ i, s.owner = .cancel i ∨ s.owner = .join i → (s.info i).held = true
  notCrashed : s.owner ≠ .crashed

namespace Settled

theorem init : Settled init where
  passed _ h := absurd h id
  target i h := by
    rcases h with h | h
    · cases h
    · cases h
  notCrashed := nofun

theorem before (pc : OwnerPc) (h : pc.made ≠ none ∨ pc = .initialised ∨ pc = .initThrew ∨
    (∃ i, pc = .joinAll i) ∨ pc = .joinedAll) (s : PoolLife) : Settled (s.setOwner pc) := by
  refine ⟨fun i hp => ?_, fun i ht => ?_, fun hc => ?_⟩
  · rw [setOwner_owner] at hp
    rcases h with h | rfl | rfl | ⟨k, rfl⟩ | rfl
    · cases pc with
      | freeInfo k => exact absurd rfl h
      | cancel k => exact absurd rfl h
      | join k => exact absurd rfl h
      | destroyed => exact absurd rfl h
      | _ => exact absurd hp id
    all_goals exact absurd hp id
  · rw [setOwner_owner] at ht
    rcases ht with rfl | rfl
    · simp [OwnerPc.made] at h
    · simp [OwnerPc.made] at h
  · rw [setOwner_owner] at hc
    subst hc
    simp [OwnerPc.made] at h

theorem child (h : Settled s) {i : Nat} {c : ChildInfo} (hcreated : s.Created i)
    (hheld : c.held = (s.info i).held) (hjoins : c.joins = (s.info i).joins) :
    Settled (s.setInfo i c) where
  passed j hp hc := by
    by_cases hj : j = i
    · subst hj
      rw [setInfo_self, hjoins]
      exact h.passed j hp hcreated
    · rw [Created, setInfo_of_ne hj] at hc
      rw [setInfo_of_ne hj]
      exact h.passed j hp hc
  target j ht := by
    by_cases hj : j = i
    · subst hj
      rw [setInfo_self, hheld]
      exact h.target j ht
    · rw [setInfo_of_ne hj]
      exact h.target j ht
  notCrashed := h.notCrashed

theorem step {a : LifeAction} (hs : Settled s) (hb : Base n s) (h : Step n s a s')
    (htell : StatusTells s a s') : Settled s' := by
  cases h with
  | initNone hpc _ => exact before _ (.inr (.inl rfl)) s
  | init hpc _ =>
    have hbefore := before (.create 0) (.inl (Option.some_ne_none _)) s
    exact ⟨hbefore.passed, hbefore.target, hbefore.notCrashed⟩
  | create i hpc => exact before (.waitSonRun i) (.inl (Option.some_ne_none _)) _
  | createFails i hpc => exact before _ (.inr (.inr (.inl rfl))) s
  | waitSonRun i hpc _ => exact before (.moveThread i) (.inl (Option.some_ne_none _)) s
  | moveThread i hpc => exact before (.setIdle i) (.inl (Option.some_ne_none _)) _
  | setIdle i hpc =>
    split
    · exact before (.create (i + 1)) (.inl (Option.some_ne_none _)) _
    · exact before _ (.inr (.inl rfl)) _
  | joinAll hpc => exact before _ (.inr (.inr (.inr (.inl ⟨0, rfl⟩)))) s
  | joinAllInvalid i hpc _ _ => exact before _ (.inr (.inr (.inr (.inl ⟨i + 1, rfl⟩)))) s
  | joinAllJoins i hpc _ _ _ => exact before _ (.inr (.inr (.inr (.inl ⟨i + 1, rfl⟩)))) _
  | joinAllReturns i hpc _ => exact before _ (.inr (.inr (.inr (.inr rfl)))) s
  | destructor hpc =>
    refine ⟨fun i hp => absurd hp (Nat.not_lt_zero i), fun i ht => ?_, nofun⟩
    rcases ht with ht | ht
    · cases ht
    · cases ht
  | lookNull i hpc _ hnull =>
    have hpinfos := (htell i rfl).1
    rw [hnull] at hpinfos
    cases hpinfos
  | lookUnused i hpc _ _ hcs =>
    refine ⟨fun j hp hc => ?_, fun j ht => ?_, nofun⟩
    · rcases Nat.lt_succ_iff_lt_or_eq.mp hp with hlt | rfl
      · exact hs.passed j (by rw [hpc]; exact hlt) hc
      · exact ((htell j rfl).2 hc).mp hcs
    · rcases ht with ht | ht
      · cases ht
      · cases ht
  | lookUsed i hpc _ _ hcs =>
    have hslot := hb.slot i
    rw [hpc] at hslot
    refine ⟨fun j hp hc => hs.passed j (by rw [hpc]; exact hp) hc, fun j ht => ?_, nofun⟩
    have hji : j = i := by
      rcases ht with ht | ht
      · cases ht
        rfl
      · cases ht
    subst hji
    have hc : s.Created j := by
      intro hno
      cases hslot with
      | notCreated _ hunused _ _ => exact hcs hunused
      | held hc _ _ => exact hc hno
      | joined hc _ _ => exact hc hno
    exact hslot.held_of_unjoined hc fun hj => hcs (((htell j rfl).2 hc).mpr hj)
  | cancel i hpc =>
    have hheld := hs.target i (.inl hpc)
    have hchild := hs.child (c := { s.info i with cancelled := true })
      ((hb.slot i).of_held hheld).2.1 rfl rfl
    refine ⟨fun j hp hc => hchild.passed j (by rw [setInfo_owner, hpc]; exact hp) hc, fun j ht => ?_,
      nofun⟩
    rcases ht with ht | ht
    · cases ht
    · cases ht
      rw [setOwner_info, setInfo_self]
      exact hheld
  | joinInvalid i hpc hno =>
    rw [hs.target i (.inr hpc)] at hno
    cases hno
  | join i hpc hheld _ =>
    refine ⟨fun j hp hc => ?_, fun j ht => ?_, nofun⟩
    · rw [setOwner_info]
      by_cases hj : j = i
      · subst hj
        rw [setInfo_self, ChildInfo.joined, ((hb.slot j).of_held hheld).2.2]
      · have hlt : j < i + 1 := hp
        rw [Created, setOwner_info, setInfo_of_ne hj] at hc
        rw [setInfo_of_ne hj]
        refine hs.passed j ?_ hc
        rw [hpc]
        show j < i
        omega
    · rcases ht with ht | ht
      · cases ht
      · cases ht
  | destroyed i hpc hle =>
    refine ⟨fun j _ hc => hs.passed j ?_ hc, fun j ht => ?_, nofun⟩
    · rw [hpc]
      exact lt_of_lt_of_le (hb.bound j hc) hle
    · rcases ht with ht | ht
      · cases ht
      · cases ht
  | sonRun i hpc => exact hs.child (Base.created_of_pc hpc nofun) rfl rfl
  | setBusy i hpc => exact hs.child (Base.created_of_pc hpc nofun) rfl rfl
  | returns i hpc => exact hs.child (Base.created_of_pc hpc nofun) rfl rfl
  | childThreadExit i hpc => exact hs.child (Base.created_of_pc hpc nofun) rfl rfl
  | exit i hpc => exact hs.child (Base.created_of_pc hpc nofun) rfl rfl
  | cancelled i _ hc _ => exact hs.child hc rfl rfl

theorem onlyUnjoined {a : LifeAction} (hs : Settled s) (hb : Base n s) (h : Step n s a s') :
    OnlyUnjoined s a s' := by
  have hjoins : ∀ i, s.owner = .cancel i ∨ s.owner = .join i → (s.info i).joins = 0 :=
    fun i ht => ((hb.slot i).of_held (hs.target i ht)).2.2
  rintro i (rfl | rfl)
  · cases h with
    | cancel _ hpc => exact hjoins i (.inl hpc)
  · cases h with
    | joinInvalid _ hpc _ => exact hjoins i (.inr hpc)
    | join _ hpc _ _ => exact hjoins i (.inr hpc)

theorem safe (hs : Settled s) (hb : Base n s) : Safe s where
  notCrashed := hs.notCrashed
  atMostOnce i := (hb.slot i).joins_le
  joined hd i hc := hs.passed i (by rw [hd]; trivial) hc

end Settled

theorem statusTells_run {tr : List LifeAction} (h : ((system n).restrict StatusTells).Run tr s) :
    ((system n).restrict OnlyUnjoined).Run tr s ∧ Base n s ∧ Settled s := by
  induction h with
  | init h =>
    obtain rfl : _ = init := h
    exact ⟨.init rfl, .init, .init⟩
  | step _ hs ih =>
    obtain ⟨hrun, hb, hset⟩ := ih
    exact ⟨.step hrun ⟨hs.1, hset.onlyUnjoined hb hs.1⟩, hb.step hs.1, hset.step hb hs.1 hs.2⟩

/-! ## Runs in which they do not -/

/-- What a status that does not tell leads to. -/
inductive Unsettled (s : PoolLife) : Prop where
  | crashed : s.owner = .crashed → Unsettled s
  | lost (i : Nat) : s.owner.Passed i → s.Created i → (s.info i).joins = 0 → Unsettled s
  | again (i : Nat) : s.owner = .cancel i → (s.info i).joins ≠ 0 → Unsettled s

namespace Unsettled

theorem child (h : Unsettled s) {i : Nat} {c : ChildInfo} (hcreated : c.pc ≠ .notCreated)
    (hjoins : c.joins = (s.info i).joins) : Unsettled (s.setInfo i c) := by
  have hall : ∀ j, ((s.setInfo i c).info j).joins = (s.info j).joins := by
    intro j
    by_cases hj : j = i
    · subst hj
      rw [setInfo_self, hjoins]
    · rw [setInfo_of_ne hj]
  cases h with
  | crashed hcr => exact .crashed hcr
  | lost j hp hc hj =>
    refine .lost j hp ?_ ((hall j).trans hj)
    by_cases hji : j = i
    · subst hji
      rw [Created, setInfo_self]
      exact hcreated
    · rw [Created, setInfo_of_ne hji]
      exact hc
  | again j ht hj => exact .again j ht (by rwa [hall j])

theorem next (h : Unsettled s) {i : Nat} (hpc : s.owner = .freeInfo i) {pc : OwnerPc}
    (hpassed : ∀ j, j < i → pc.Passed j) : Unsettled (s.setOwner pc) := by
  cases h with
  | crashed hcr =>
    rw [hpc] at hcr
    cases hcr
  | lost j hp hc hj =>
    rw [hpc] at hp
    exact .lost j (hpassed j hp) hc hj
  | again j ht _ =>
    rw [hpc] at ht
    cases ht

theorem not_before (h : Unsettled s) (hcrashed : s.owner ≠ .crashed)
    (hpassed : ∀ i, ¬ s.owner.Passed i) (hcancel : ∀ i, s.owner ≠ .cancel i) : False := by
  cases h with
  | crashed hcr => exact hcrashed hcr
  | lost i hp _ _ => exact hpassed i hp
  | again i ht _ => exact hcancel i ht

theorem step {a : LifeAction} (hu : Unsettled s) (h : Step n s a s') (honly : OnlyUnjoined s a s') :
    Unsettled s' := by
  have before : ∀ {pc : OwnerPc}, s.owner = pc → pc ≠ .crashed → (∀ i, ¬ pc.Passed i) →
      (∀ i, pc ≠ .cancel i) → Unsettled s' := by
    rintro pc rfl hcrashed hpassed hcancel
    exact absurd hu fun hu => hu.not_before hcrashed hpassed hcancel
  cases h with
  | initNone hpc _ => exact before hpc nofun (fun _ => id) nofun
  | init hpc _ => exact before hpc nofun (fun _ => id) nofun
  | create i hpc => exact before hpc nofun (fun _ => id) nofun
  | createFails i hpc => exact before hpc nofun (fun _ => id) nofun
  | waitSonRun i hpc _ => exact before hpc nofun (fun _ => id) nofun
  | moveThread i hpc => exact before hpc nofun (fun _ => id) nofun
  | setIdle i hpc => exact before hpc nofun (fun _ => id) nofun
  | joinAll hpc =>
    rcases hpc with hpc | hpc
    · exact before hpc nofun (fun _ => id) nofun
    · exact before hpc nofun (fun _ => id) nofun
  | joinAllInvalid i hpc _ _ => exact before hpc nofun (fun _ => id) nofun
  | joinAllJoins i hpc _ _ _ => exact before hpc nofun (fun _ => id) nofun
  | joinAllReturns i hpc _ => exact before hpc nofun (fun _ => id) nofun
  | destructor hpc =>
    rcases hpc with hpc | hpc | hpc | hpc
    · exact before hpc nofun (fun _ => id) nofun
    · exact before hpc nofun (fun _ => id) nofun
    · exact before hpc nofun (fun _ => id) nofun
    · exact before hpc nofun (fun _ => id) nofun
  | lookNull i hpc _ _ => exact .crashed rfl
  | lookUnused i hpc _ _ _ => exact hu.next hpc fun j hj => Nat.lt_succ_of_lt hj
  | lookUsed i hpc _ _ _ => exact hu.next hpc fun j hj => hj
  | cancel i hpc =>
    have hjoins := honly i (.inl rfl)
    cases hu with
    | crashed hcr =>
      rw [hpc] at hcr
      cases hcr
    | lost j hp hc hj =>
      rw [hpc] at hp
      have hji : j ≠ i := Nat.ne_of_lt hp
      refine .lost j hp ?_ ?_
      · rw [Created, setOwner_info, setInfo_of_ne hji]
        exact hc
      · rw [setOwner_info, setInfo_of_ne hji]
        exact hj
    | again j ht hj =>
      rw [hpc] at ht
      cases ht
      exact absurd hjoins hj
  | joinInvalid i hpc _ =>
    cases hu with
    | crashed hcr =>
      rw [hpc] at hcr
      cases hcr
    | lost j hp hc hj =>
      rw [hpc] at hp
      exact .lost j (Nat.lt_succ_of_lt hp) hc hj
    | again j ht hj =>
      rw [hpc] at ht
      cases ht
  | join i hpc _ _ =>
    cases hu with
    | crashed hcr =>
      rw [hpc] at hcr
      cases hcr
    | lost j hp hc hj =>
      rw [hpc] at hp
      have hji : j ≠ i := Nat.ne_of_lt hp
      refine .lost j (Nat.lt_succ_of_lt hp) ?_ ?_
      · rw [Created, setOwner_info, setInfo_of_ne hji]
        exact hc
      · rw [setOwner_info, setInfo_of_ne hji]
        exact hj
    | again j ht hj =>
      rw [hpc] at ht
      cases ht
  | destroyed i hpc _ => exact hu.next hpc fun j _ => trivial
  | sonRun i hpc => exact hu.child nofun rfl
  | setBusy i hpc => exact hu.child nofun rfl
  | returns i hpc => exact hu.child nofun rfl
  | childThreadExit i hpc => exact hu.child nofun rfl
  | exit i hpc => exact hu.child nofun rfl
  | cancelled i _ hc _ => exact hu.child nofun rfl

/-- A look at a status that does not tell. -/
theorem of_look {a : LifeAction} (hb : Base n s) (h : Step n s a s') (hnot : ¬ StatusTells s a s') :
    Unsettled s' := by
  simp only [StatusTells] at hnot
  push Not at hnot
  obtain ⟨i, rfl, hnot⟩ := hnot
  cases h with
  | lookNull _ hpc _ _ => exact .crashed rfl
  | lookUnused _ hpc _ hpinfos hcs =>
    obtain ⟨hc, hnot⟩ := hnot hpinfos
    have hj : (s.info i).joins ≠ 1 := by
      rcases hnot with ⟨_, hj⟩ | ⟨hused, _⟩
      · exact hj
      · exact absurd hcs hused
    have hle := (hb.slot i).joins_le
    exact .lost i (Nat.lt_succ_self i) hc (show (s.info i).joins = 0 by omega)
  | lookUsed _ hpc _ hpinfos hcs =>
    obtain ⟨_, hnot⟩ := hnot hpinfos
    have hj : (s.info i).joins = 1 := by
      rcases hnot with ⟨hunused, _⟩ | ⟨_, hj⟩
      · exact absurd hunused hcs
      · exact hj
    exact .again i rfl (show (s.info i).joins ≠ 0 by omega)

theorem not_safe (hu : Unsettled s) (hend : s.owner = .destroyed ∨ s.owner = .crashed) :
    ¬ Safe s := by
  intro hsafe
  cases hu with
  | crashed hcr => exact hsafe.notCrashed hcr
  | lost i _ hc hj =>
    rcases hend with hd | hcr
    · have hjoined := hsafe.joined hd i hc
      omega
    · exact hsafe.notCrashed hcr
  | again i ht _ =>
    rw [ht] at hend
    rcases hend with hd | hcr
    · cases hd
    · cases hcr

end Unsettled

theorem onlyUnjoined_run {tr : List LifeAction}
    (h : ((system n).restrict OnlyUnjoined).Run tr s) :
    Base n s ∧ (((system n).restrict StatusTells).Run tr s ∨ Unsettled s) := by
  induction h with
  | init h =>
    obtain rfl : _ = init := h
    exact ⟨.init, .inl (.init rfl)⟩
  | @step _ s s' a _ hs ih =>
    obtain ⟨hb, hrun | hu⟩ := ih
    · refine ⟨hb.step hs.1, ?_⟩
      by_cases htell : StatusTells s a s'
      · exact .inl (.step hrun ⟨hs.1, htell⟩)
      · exact .inr (.of_look hb hs.1 htell)
    · exact ⟨hb.step hs.1, .inr (hu.step hs.1 hs.2)⟩

end PoolLife
end Threads
end Huicpp
