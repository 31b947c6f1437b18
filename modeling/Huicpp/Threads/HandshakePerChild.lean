import Mathlib
import Huicpp.Threads.InitHandshake

/-!
# Threads.HandshakePerChild

While handshakes of different pools do not overlap, the flag belongs to the only one in progress.
`PoolOk` says where a pool is, given the flag; pools that are in no handshake do not mind it.
-/

namespace Huicpp
namespace Threads

open Cxx

/-- The round of its loop that `Init` is in. -/
def InitPc.round : InitPc → Option Nat
  | .create i => some i
  | .waitSonRun i => some i
  | .waiting i => some i
  | .woken i => some i
  | .moveThread i => some i
  | _ => none

namespace InitHandshake

variable {ι : Type}

/-- The thread in the handshake: if the flag is set, it has set it, and its parent is not asleep. -/
inductive InHand (p : ι) (i : Nat) : Bool → InitPc → ChildPc ι → Prop where
  | loadPool (pc : InitPc) : InHand p i false pc .loadPool
  | loadIndex (pc : InitPc) : InHand p i false pc (.loadIndex (some p))
  | sonRun (pc : InitPc) : InHand p i false pc (.sonRun (some p) i)
  | running (pc : InitPc) : pc ≠ .waiting i → InHand p i true pc (.running p i)

namespace InHand

variable {p : ι} {i : Nat} {flag : Bool} {pc : InitPc}

theorem flag_false {c : ChildPc ι} (h : InHand p i flag pc c) (hc : c.BeforeSonRun) :
    flag = false := by
  cases h with
  | running _ => exact absurd hc id
  | _ => rfl

theorem pool_eq {pool : Option ι} (h : InHand p i flag pc (.loadIndex pool)) : pool = some p := by
  cases h with
  | loadIndex => rfl

theorem beforeSonRun {c : ChildPc ι} (h : InHand p i flag (.waiting i) c) : c.BeforeSonRun := by
  cases h with
  | running _ hawake => exact absurd rfl hawake
  | _ => trivial

theorem arg_eq {pool : Option ι} {index : Nat} (h : InHand p i flag pc (.sonRun pool index)) :
    pool = some p ∧ index = i := by
  cases h with
  | sonRun => exact ⟨rfl, rfl⟩

end InHand

structure PoolOk (n : Nat) (p : ι) (flag : Bool) (pc : InitPc) (parr : Parr ι)
    (child : Nat → ChildPc ι) : Prop where
  round : ∀ i, pc.round = some i → i < n
  ran : ∀ j, j < pc.left n → child j = .running p j
  late : ∀ j, pc.left n ≤ j → pc.hand ≠ some j → child j = .notCreated
  hand : ∀ i, pc.hand = some i → InHand p i flag pc (child i)
  arg : ∀ i, pc.hand = some i → ∃ args, parr = .live args ∧ args i = ⟨some p, i⟩

structure Inv (n : ι → Nat) (s : InitHandshake ι) : Prop where
  one : ∀ p q, (s.parent p).hand ≠ none → (s.parent q).hand ≠ none → p = q
  flag : s.uChildCreated = true → ∃ p, (s.parent p).hand ≠ none
  pool : ∀ p, PoolOk (n p) p s.uChildCreated (s.parent p) (s.parr p) (s.child p)

theorem hand_of_enters {pc : InitPc} {i : Nat} (h : pc = .waitSonRun i ∨ pc = .woken i) :
    pc.hand = some i := by
  rcases h with rfl | rfl
  · rfl
  · rfl

theorem round_of_hand {pc : InitPc} {i : Nat} (h : pc.hand = some i) : pc.round = some i := by
  cases pc with
  | waitSonRun j => exact h
  | waiting j => exact h
  | woken j => exact h
  | _ => cases h

theorem left_of_hand {pc : InitPc} {i : Nat} (h : pc.hand = some i) (n : Nat) : pc.left n = i := by
  cases pc with
  | waitSonRun j => exact Option.some.inj h
  | waiting j => exact Option.some.inj h
  | woken j => exact Option.some.inj h
  | _ => cases h

namespace PoolOk

variable {n : Nat} {p : ι} {flag : Bool} {pc pc' : InitPc} {parr parr' : Parr ι}
  {child child' : Nat → ChildPc ι}

theorem start : PoolOk n p false .start .unallocated fun _ => .notCreated where
  round _ h := by cases h
  ran j h := absurd h (Nat.not_lt_zero j)
  late _ _ _ := rfl
  hand _ h := by cases h
  arg _ h := by cases h

theorem move (h : PoolOk n p flag pc parr child) (hhand : pc.hand = none) (hhand' : pc'.hand = none)
    (hleft : pc'.left n = pc.left n) (hround : ∀ i, pc'.round = some i → i < n) (flag' : Bool)
    (parr' : Parr ι) : PoolOk n p flag' pc' parr' child where
  round := hround
  ran j hj := h.ran j (hleft ▸ hj)
  late j hj _ := h.late j (hleft ▸ hj) (by simp [hhand])
  hand i hi := by
    rw [hhand'] at hi
    cases hi
  arg i hi := by
    rw [hhand'] at hi
    cases hi

theorem create {i : Nat} (h : PoolOk n p false (.create i) parr child) (args : Nat → ThreadArg ι) :
    PoolOk n p false (.waitSonRun i) (.live (Function.update args i ⟨some p, i⟩))
      (Function.update child i .loadPool) where
  round := h.round
  ran j hj := by
    have hlt : j < i := hj
    rw [Function.update_of_ne hlt.ne]
    exact h.ran j hj
  late j hj hne := by
    have hji : j ≠ i := by
      rintro rfl
      exact hne rfl
    rw [Function.update_of_ne hji]
    exact h.late j hj nofun
  hand j hj := by
    obtain rfl : i = j := Option.some.inj hj
    rw [Function.update_self]
    exact .loadPool _
  arg j hj := by
    obtain rfl : i = j := Option.some.inj hj
    exact ⟨_, rfl, Function.update_self ..⟩

theorem hand_lt {i : Nat} (h : PoolOk n p flag pc parr child) (hhand : pc.hand = some i) :
    i < n := h.round i (round_of_hand hhand)

theorem childStep {i : Nat} (h : PoolOk n p flag pc parr child) (hhand : pc.hand = some i)
    {c : ChildPc ι} {flag' : Bool} (hhand' : pc'.hand = some i) (hc : InHand p i flag' pc' c) :
    PoolOk n p flag' pc' parr (Function.update child i c) where
  round j hj := by
    obtain rfl : i = j := Option.some.inj ((round_of_hand hhand').symm.trans hj)
    exact h.hand_lt hhand
  ran j hj := by
    rw [left_of_hand hhand'] at hj
    rw [Function.update_of_ne hj.ne]
    exact h.ran j (by rwa [left_of_hand hhand])
  late j hj hne := by
    have hji : j ≠ i := by
      rintro rfl
      exact hne hhand'
    rw [left_of_hand hhand'] at hj
    rw [Function.update_of_ne hji]
    exact h.late j (by rwa [left_of_hand hhand]) (by rwa [hhand, ← hhand'])
  hand j hj := by
    obtain rfl : i = j := Option.some.inj (hhand'.symm.trans hj)
    rw [Function.update_self]
    exact hc
  arg j hj := h.arg j (by rwa [hhand, ← hhand'])

theorem phase {i : Nat} (h : PoolOk n p flag pc parr child) (hhand : pc.hand = some i)
    (hhand' : pc'.hand = some i) (hasleep : pc' = .waiting i → flag = false) :
    PoolOk n p flag pc' parr child := by
  have hc : InHand p i flag pc' (child i) := by
    have hc := h.hand i hhand
    generalize child i = c at hc
    cases hc with
    | loadPool => exact .loadPool _
    | loadIndex => exact .loadIndex _
    | sonRun => exact .sonRun _
    | running _ => exact .running _ fun hw => Bool.noConfusion (hasleep hw)
  have hstep := h.childStep hhand hhand' hc
  rwa [Function.update_eq_self] at hstep

theorem leave {i : Nat} (h : PoolOk n p true pc parr child) (hhand : pc.hand = some i) :
    PoolOk n p false (.moveThread i) parr child where
  round j hj := by
    obtain rfl : i = j := Option.some.inj hj
    exact h.hand_lt hhand
  ran j hj := by
    rcases Nat.lt_succ_iff_lt_or_eq.mp hj with hlt | rfl
    · exact h.ran j (by rwa [left_of_hand hhand])
    · have hc := h.hand j hhand
      generalize child j = c at hc
      cases hc with
      | running _ => rfl
  late j hj _ := by
    have hlt : i < j := hj
    refine h.late j (by rw [left_of_hand hhand]; omega) ?_
    rw [hhand]
    intro heq
    cases heq
    omega
  hand j hj := by cases hj
  arg j hj := by cases hj

theorem handOf {i : Nat} (h : PoolOk n p flag pc parr child) (hc : (child i).BeforeSonRun) :
    pc.hand = some i := by
  by_contra hne
  rcases Nat.lt_or_ge i (pc.left n) with hlt | hge
  · rw [h.ran i hlt] at hc
    exact hc
  · rw [h.late i hge hne] at hc
    exact hc

end PoolOk

namespace Inv

variable {n : ι → Nat} {s s' : InitHandshake ι}

/-- Pools other than `p` are as they were. -/
def SameElsewhere (p : ι) (s s' : InitHandshake ι) : Prop :=
  ∀ q, q ≠ p → s'.parent q = s.parent q ∧ s'.parr q = s.parr q ∧ s'.child q = s.child q

theorem init : Inv n (init : InitHandshake ι) where
  one _ _ h _ := absurd rfl h
  flag h := by cases h
  pool _ := .start

theorem quiet (h : Inv n s) (p : ι) (hsame : SameElsewhere p s s')
    (hflag : s'.uChildCreated = s.uChildCreated)
    (hhand : (s'.parent p).hand = (s.parent p).hand)
    (hpool : PoolOk (n p) p s'.uChildCreated (s'.parent p) (s'.parr p) (s'.child p)) : Inv n s' := by
  have hhands : ∀ q, (s'.parent q).hand = (s.parent q).hand := by
    intro q
    by_cases hq : q = p
    · rw [hq, hhand]
    · rw [(hsame q hq).1]
  refine ⟨fun q r hq hr => ?_, fun hf => ?_, fun q => ?_⟩
  · rw [hhands] at hq hr
    exact h.one q r hq hr
  · obtain ⟨q, hq⟩ := h.flag (hflag ▸ hf)
    exact ⟨q, by rwa [hhands]⟩
  · by_cases hq : q = p
    · rw [hq]
      exact hpool
    · obtain ⟨hpar, harr, hchild⟩ := hsame q hq
      rw [hflag, hpar, harr, hchild]
      exact h.pool q

theorem alone (h : Inv n s) (p : ι) (hsame : SameElsewhere p s s')
    (hothers : ∀ q, q ≠ p → (s.parent q).hand = none)
    (hflag : s'.uChildCreated = true → (s'.parent p).hand ≠ none)
    (hpool : PoolOk (n p) p s'.uChildCreated (s'.parent p) (s'.parr p) (s'.child p)) : Inv n s' := by
  have honly : ∀ q, (s'.parent q).hand ≠ none → q = p := by
    intro q hq
    by_contra hne
    rw [(hsame q hne).1] at hq
    exact hq (hothers q hne)
  refine ⟨fun q r hq hr => (honly q hq).trans (honly r hr).symm, fun hf => ⟨p, hflag hf⟩,
    fun q => ?_⟩
  by_cases hq : q = p
  · rw [hq]
    exact hpool
  · obtain ⟨hpar, harr, hchild⟩ := hsame q hq
    rw [hpar, harr, hchild]
    have hnone := hothers q hq
    exact (h.pool q).move hnone hnone rfl (h.pool q).round _ _

/-- While `p` is in a handshake, no other pool is. -/
theorem others {p : ι} {i : Nat} (h : Inv n s) (hp : (s.parent p).hand = some i) :
    ∀ q, q ≠ p → (s.parent q).hand = none := by
  intro q hq
  by_contra hne
  exact hq (h.one q p hne (by simp [hp]))

theorem flag_false (h : Inv n s) (hnone : ∀ q, (s.parent q).hand = none) :
    s.uChildCreated = false := by
  cases hf : s.uChildCreated with
  | false => rfl
  | true =>
    obtain ⟨q, hq⟩ := h.flag hf
    exact absurd (hnone q) hq

variable [DecidableEq ι]

theorem sameElsewhere_setParent (p : ι) (pc : InitPc) : SameElsewhere p s (s.setParent p pc) :=
  fun _ hq => ⟨Function.update_of_ne hq .., rfl, rfl⟩

theorem sameElsewhere_setChild (p : ι) (i : Nat) (c : ChildPc ι) :
    SameElsewhere p s (s.setChild p i c) :=
  fun _ hq => ⟨rfl, rfl, Function.update_of_ne hq ..⟩

theorem moveParent (h : Inv n s) {p : ι} {pc : InitPc} (hhand : (s.parent p).hand = none)
    (hhand' : pc.hand = none) (hleft : pc.left (n p) = (s.parent p).left (n p))
    (hround : ∀ i, pc.round = some i → i < n p) (parr : Parr ι) :
    Inv n ((s.setParr p parr).setParent p pc) := by
  refine h.quiet p (fun q hq => ⟨Function.update_of_ne hq .., Function.update_of_ne hq .., rfl⟩) rfl
    ?_ ?_
  · rw [hhand, ← hhand']
    simp [setParent]
  · have hpool := (h.pool p).move hhand hhand' hleft hround s.uChildCreated parr
    simpa [setParent, setParr] using hpool

theorem setParr_self (s : InitHandshake ι) (p : ι) : s.setParr p (s.parr p) = s := by
  simp [setParr]

theorem moveParent' (h : Inv n s) {p : ι} {pc : InitPc} (hhand : (s.parent p).hand = none)
    (hhand' : pc.hand = none) (hleft : pc.left (n p) = (s.parent p).left (n p))
    (hround : ∀ i, pc.round = some i → i < n p) : Inv n (s.setParent p pc) := by
  have hmove := h.moveParent hhand hhand' hleft hround (s.parr p)
  rwa [setParr_self] at hmove

theorem phaseParent (h : Inv n s) {p : ι} {i : Nat} {pc : InitPc}
    (hhand : (s.parent p).hand = some i) (hhand' : pc.hand = some i)
    (hasleep : pc = .waiting i → s.uChildCreated = false) : Inv n (s.setParent p pc) := by
  refine h.quiet p (sameElsewhere_setParent p pc) rfl ?_ ?_
  · rw [hhand, ← hhand']
    simp [setParent]
  · have hpool := (h.pool p).phase hhand hhand' hasleep
    simpa [setParent] using hpool

theorem moveChild (h : Inv n s) {p : ι} {i : Nat} {c : ChildPc ι}
    (hbefore : (s.child p i).BeforeSonRun)
    (hc : InHand p i false (s.parent p) c) :
    Inv n (s.setChild p i c) := by
  have hhand := (h.pool p).handOf hbefore
  have hflag : s.uChildCreated = false := ((h.pool p).hand i hhand).flag_false hbefore
  refine h.quiet p (sameElsewhere_setChild p i c) rfl rfl ?_
  have hpool := (h.pool p).childStep hhand hhand hc
  simpa [setChild, hflag] using hpool

theorem sonRun (h : Inv n s) {p : ι} {i : Nat} {pool : Option ι} {index : Nat} {pc : InitPc}
    (hchild : s.child p i = .sonRun pool index) (hpc : pc.hand = some i) (hawake : pc ≠ .waiting i) :
    Inv n { (s.setChild p i (.running p i)).setParent p pc with uChildCreated := true } := by
  have hhand := (h.pool p).handOf (i := i) (by rw [hchild]; trivial)
  refine h.alone p (fun q hq => ⟨Function.update_of_ne hq .., rfl, Function.update_of_ne hq ..⟩)
    (h.others hhand) ?_ ?_
  · intro _
    simp [setParent, hpc]
  · have hpool := (h.pool p).childStep hhand hpc (.running (p := p) pc hawake)
    simpa [setParent, setChild] using hpool

theorem step {a : InitAction ι} (hinv : Inv n s) (h : Step n s a s') (hap : Apart s a s') :
    Inv n s' := by
  cases h with
  | initNone p hpc hn =>
    refine hinv.moveParent' (by rw [hpc]; rfl) rfl ?_ nofun
    rw [hpc, hn]
    rfl
  | init p hpc hn =>
    refine hinv.moveParent (by rw [hpc]; rfl) rfl (by rw [hpc]; rfl) ?_ _
    intro i hi
    cases hi
    exact hn
  | create p i args hpc harr =>
    have hothers := hap p rfl
    have hnone : ∀ q, (s.parent q).hand = none := by
      intro q
      by_cases hq : q = p
      · rw [hq, hpc]
        rfl
      · exact hothers q hq
    have hflag := hinv.flag_false hnone
    refine hinv.alone p (fun q hq => ⟨Function.update_of_ne hq .., Function.update_of_ne hq ..,
      Function.update_of_ne hq ..⟩) hothers ?_ ?_
    · intro _
      simp [setParent, InitPc.hand]
    · have hpool := hinv.pool p
      rw [hpc, hflag] at hpool
      simpa [setParent, setChild, setParr, hflag] using hpool.create args
  | createFails p i hpc =>
    exact hinv.moveParent' (by rw [hpc]; rfl) rfl (by rw [hpc]; rfl) nofun
  | wait p i hpc hflag => exact hinv.phaseParent (hand_of_enters hpc) rfl fun _ => hflag
  | wake p i hpc => exact hinv.phaseParent (i := i) (by rw [hpc]; rfl) rfl nofun
  | leave p i hpc hflag =>
    have hhand := hand_of_enters hpc
    refine hinv.alone p (fun q hq => ⟨Function.update_of_ne hq .., rfl, rfl⟩) (hinv.others hhand)
      nofun ?_
    have hpool := hinv.pool p
    rw [hflag] at hpool
    simpa [setParent] using hpool.leave hhand
  | moveThread p i hpc =>
    have hlt : i < n p := (hinv.pool p).round i (by rw [hpc]; rfl)
    by_cases hi : i + 1 < n p
    · rw [if_pos hi]
      refine hinv.moveParent' (by rw [hpc]; rfl) rfl (by rw [hpc]; rfl) ?_
      intro j hj
      cases hj
      exact hi
    · rw [if_neg hi]
      refine hinv.moveParent' (by rw [hpc]; rfl) rfl ?_ nofun
      rw [hpc]
      show n p = i + 1
      omega
  | free p hpc =>
    refine hinv.moveParent (by rw [hpc]; rfl) rfl (by rw [hpc]; rfl) ?_ _
    intro i hi
    cases hi
  | loadPool p i args hc harr =>
    have hbefore : (s.child p i).BeforeSonRun := by rw [hc]; trivial
    refine hinv.moveChild hbefore ?_
    obtain ⟨args', harr', harg⟩ := (hinv.pool p).arg i ((hinv.pool p).handOf hbefore)
    obtain rfl : args = args' := Parr.live.inj (harr.symm.trans harr')
    rw [harg]
    exact .loadIndex _
  | loadPoolFreed p i pool hc harr =>
    have hbefore : (s.child p i).BeforeSonRun := by rw [hc]; trivial
    obtain ⟨args, harr', _⟩ := (hinv.pool p).arg i ((hinv.pool p).handOf hbefore)
    rw [harr] at harr'
    cases harr'
  | loadIndex p i pool args hc harr =>
    have hbefore : (s.child p i).BeforeSonRun := by rw [hc]; trivial
    have hhand := (hinv.pool p).handOf hbefore
    have hin := (hinv.pool p).hand i hhand
    rw [hc] at hin
    obtain rfl := hin.pool_eq
    refine hinv.moveChild hbefore ?_
    obtain ⟨args', harr', harg⟩ := (hinv.pool p).arg i hhand
    obtain rfl : args = args' := Parr.live.inj (harr.symm.trans harr')
    rw [harg]
    exact .sonRun _
  | loadIndexFreed p i pool index hc harr =>
    have hbefore : (s.child p i).BeforeSonRun := by rw [hc]; trivial
    obtain ⟨args, harr', _⟩ := (hinv.pool p).arg i ((hinv.pool p).handOf hbefore)
    rw [harr] at harr'
    cases harr'
  | assertPool p i index hc =>
    have hin := (hinv.pool p).hand i ((hinv.pool p).handOf (by rw [hc]; trivial))
    rw [hc] at hin
    cases hin.arg_eq.1
  | sonRun p i pool index q j hc hq =>
    have hhand := (hinv.pool p).handOf (i := i) (by rw [hc]; trivial)
    have hin := (hinv.pool p).hand i hhand
    rw [hc] at hin
    obtain ⟨⟨⟩, rfl⟩ := hin.arg_eq
    -- the only parent that can be asleep is that of the thread itself
    obtain rfl : q = p := hinv.one q p (by rw [hq]; nofun) (by rw [hhand]; nofun)
    obtain rfl : j = index := by
      rw [hq] at hhand
      exact Option.some.inj hhand
    exact hinv.sonRun hc rfl nofun
  | sonRunNobody p i pool index hc hnobody =>
    have hhand := (hinv.pool p).handOf (i := i) (by rw [hc]; trivial)
    have hin := (hinv.pool p).hand i hhand
    rw [hc] at hin
    obtain ⟨⟨⟩, rfl⟩ := hin.arg_eq
    have hstep := hinv.sonRun hc hhand (hnobody p index)
    simpa [setParent, setChild] using hstep

omit [DecidableEq ι] in
theorem perChild (h : Inv n s) : PerChild n s := fun p j hj => ⟨p, j, (h.pool p).ran j hj⟩

omit [DecidableEq ι] in
theorem argsLive (h : Inv n s) : ArgsLive s := by
  intro p j hreads hfreed
  have hbefore : (s.child p j).BeforeSonRun := by
    generalize s.child p j = c at hreads ⊢
    cases c with
    | loadPool => trivial
    | loadIndex _ => trivial
    | _ => exact absurd hreads id
  obtain ⟨args, hlive, _⟩ := (h.pool p).arg j ((h.pool p).handOf hbefore)
  rw [hfreed] at hlive
  cases hlive

omit [DecidableEq ι] in
theorem noLostSignal (h : Inv n s) : NoLostSignal s := by
  intro p i hp
  have hin := (h.pool p).hand i (by rw [hp]; rfl)
  rw [hp] at hin
  exact ⟨p, i, hin.beforeSonRun⟩

end Inv

variable [DecidableEq ι]

theorem inv_run {n : ι → Nat} {tr : List (InitAction ι)} {s : InitHandshake ι}
    (h : ((system n).restrict Apart).Run tr s) : Inv n s := by
  refine h.invariant (fun _ s => Inv n s) ?_ ?_
  · rintro s rfl
    exact Inv.init
  · rintro _ s a s' hinv ⟨hs, hap⟩
    exact hinv.step hs hap

/-- Any pools, any numbers of threads, any interleaving in which handshakes do not overlap. -/
theorem handshake_perChild {n : ι → Nat} {tr : List (InitAction ι)} {s : InitHandshake ι}
    (h : ((system n).restrict Apart).Run tr s) : PerChild n s ∧ ArgsLive s ∧ NoLostSignal s :=
  ⟨(inv_run h).perChild, (inv_run h).argsLive, (inv_run h).noLostSignal⟩

omit [DecidableEq ι] in
theorem apart_parent {s s' : InitHandshake ι} (p : ι) : Apart s (.parent p) s' := nofun

omit [DecidableEq ι] in
theorem apart_child {s s' : InitHandshake ι} (p : ι) (i : Nat) : Apart s (.child p i) s' := nofun

/-- Two pools, one after the other, until `Init` has returned for both. In the first the parent waits before
its thread has executed `SonRun`, in the second the thread is first. -/
theorem handshake_perChild_twoPools : ∃ tr, ∃ s : InitHandshake Bool,
    (PerChild (fun _ => 1) s ∧ ArgsLive s ∧ NoLostSignal s) ∧
      ((system fun _ => 1).restrict Apart).Run tr s ∧ s.parent false = .returned ∧
      s.parent true = .returned := by
  have h0 : ((system fun _ => 1).restrict Apart).Run [] (init : InitHandshake Bool) := .init rfl
  have h1 := h0.step ⟨.init _ false rfl Nat.one_pos, apart_parent _⟩
  have h2 := h1.step ⟨.init _ true rfl Nat.one_pos, apart_parent _⟩
  have h3 := h2.step ⟨.create _ false 0 _ rfl rfl, by
    rintro _ ⟨⟩ (_ | _) hq
    · exact absurd rfl hq
    · rfl⟩
  have h4 := h3.step ⟨.wait _ false 0 (.inl rfl) rfl, apart_parent _⟩
  have h5 := h4.step ⟨.loadPool _ false 0 _ rfl rfl, apart_child _ _⟩
  have h6 := h5.step ⟨.loadIndex _ false 0 _ _ rfl rfl, apart_child _ _⟩
  have h7 := h6.step ⟨.sonRun _ false 0 false 0 false 0 rfl rfl, apart_child _ _⟩
  have h8 := h7.step ⟨.leave _ false 0 (.inr rfl) rfl, apart_parent _⟩
  have h9 := h8.step ⟨.create _ true 0 _ rfl rfl, by
    rintro _ ⟨⟩ (_ | _) hq
    · rfl
    · exact absurd rfl hq⟩
  have h10 := h9.step ⟨.moveThread _ false 0 rfl, apart_parent _⟩
  have h11 := h10.step ⟨.free _ false rfl, apart_parent _⟩
  have h12 := h11.step ⟨.loadPool _ true 0 _ rfl rfl, apart_child _ _⟩
  have h13 := h12.step ⟨.loadIndex _ true 0 _ _ rfl rfl, apart_child _ _⟩
  have h14 := h13.step ⟨.sonRunNobody _ true 0 true 0 rfl (by
    rintro (_ | _) j ⟨⟩), apart_child _ _⟩
  have h15 := h14.step ⟨.leave _ true 0 (.inl rfl) rfl, apart_parent _⟩
  have h16 := h15.step ⟨.moveThread _ true 0 rfl, apart_parent _⟩
  have h17 := h16.step ⟨.free _ true rfl, apart_parent _⟩
  exact ⟨_, _, handshake_perChild h17, h17, rfl, rfl⟩

/-- Two pools with one thread each. The thread of the first one sets the flag, the parent of the
second one takes it and frees its array before its own thread has read it. -/
theorem otherPool_takes_flag : ¬ ∀ tr, ∀ s : InitHandshake Bool, (system fun _ => 1).Run tr s →
    PerChild (fun _ => 1) s ∧ ArgsLive s ∧ NoLostSignal s := by
  intro hall
  have h0 : (system fun _ => 1).Run [] (init : InitHandshake Bool) := .init rfl
  have h1 := h0.step (Step.init _ false rfl Nat.one_pos)
  have h2 := h1.step (Step.init _ true rfl Nat.one_pos)
  have h3 := h2.step (Step.create _ false 0 _ rfl rfl)
  have h4 := h3.step (Step.create _ true 0 _ rfl rfl)
  have h5 := h4.step (Step.loadPool _ false 0 _ rfl rfl)
  have h6 := h5.step (Step.loadIndex _ false 0 _ _ rfl rfl)
  have h7 := h6.step (Step.sonRunNobody _ false 0 false 0 rfl (by
    rintro (_ | _) j hj
    · cases hj
    · cases hj))
  have h8 := h7.step (Step.leave _ true 0 (.inl rfl) rfl)
  have h9 := h8.step (Step.moveThread _ true 0 rfl)
  have h10 := h9.step (Step.free _ true rfl)
  exact (hall _ _ h10).2.1 true 0 trivial rfl

/-! ## Handshakes that overlap -/

section Overlap

variable {n : ι → Nat} {tr : List (InitAction ι)} {s : InitHandshake ι} {p q : ι} {i j : Nat}

/-- The flag is set while the thread of `p` has still to read its argument. -/
structure Stealable (p : ι) (i : Nat) (s : InitHandshake ι) : Prop where
  parent : s.parent p = .waitSonRun i
  child : s.child p i = .loadPool

theorem steals (hrun : (system n).Run tr s) (h : Stealable p i s) (hflag : s.uChildCreated = true) :
    ∃ tr' s', (system n).Run (tr ++ tr') s' ∧ ¬ PerChild n s' := by
  refine ⟨_, _, hrun.step (Step.leave _ p i (.inl h.parent) hflag), fun hper => ?_⟩
  obtain ⟨pool, index, hchild⟩ := hper p i (by simp [setParent, InitPc.left])
  rw [show ({ s.setParent p (.moveThread i) with uChildCreated := false } :
    InitHandshake ι).child p i = s.child p i from rfl, h.child] at hchild
  cases hchild

theorem Stealable.setChild (h : Stealable p i s) (hq : q ≠ p) (c : ChildPc ι) :
    Stealable p i (s.setChild q j c) where
  parent := h.parent
  child := by
    rw [← h.child]
    exact congrFun (Function.update_of_ne hq.symm ..) i

theorem steals_sonRun (hrun : (system n).Run tr s) (h : Stealable p i s) (hq : q ≠ p) {pool : ι}
    {index : Nat} (hc : s.child q j = .sonRun (some pool) index) :
    ∃ tr' s', (system n).Run (tr ++ tr') s' ∧ ¬ PerChild n s' := by
  have hset := h.setChild (j := j) hq (.running pool index)
  by_cases hw : ∃ r k, s.parent r = .waiting k
  · obtain ⟨r, k, hr⟩ := hw
    have hrp : p ≠ r := by
      rintro rfl
      rw [h.parent] at hr
      cases hr
    have hrun' := hrun.step (Step.sonRun _ q j pool index r k hc hr)
    obtain ⟨tr', s', hs', hbad⟩ := steals (p := p) (i := i) hrun'
      ⟨(Function.update_of_ne hrp ..).trans hset.parent, hset.child⟩ rfl
    exact ⟨_, s', by rwa [List.append_assoc] at hs', hbad⟩
  · push Not at hw
    have hrun' := hrun.step (Step.sonRunNobody _ q j pool index hc hw)
    obtain ⟨tr', s', hs', hbad⟩ := steals (p := p) (i := i) hrun' ⟨hset.parent, hset.child⟩ rfl
    exact ⟨_, s', by rwa [List.append_assoc] at hs', hbad⟩

theorem steals_loadIndex (hrun : (system n).Run tr s) (h : Stealable p i s) (hq : q ≠ p) {pool : ι}
    (args : Nat → ThreadArg ι) (harr : s.parr q = .live args)
    (hc : s.child q j = .loadIndex (some pool)) :
    ∃ tr' s', (system n).Run (tr ++ tr') s' ∧ ¬ PerChild n s' := by
  have hrun' := hrun.step (Step.loadIndex _ q j _ args hc harr)
  have hc' : (s.setChild q j (.sonRun (some pool) (args j).index)).child q j =
      .sonRun (some pool) (args j).index := by simp [setChild]
  obtain ⟨tr', s', hs', hbad⟩ := steals_sonRun hrun' (h.setChild hq _) hq hc'
  exact ⟨_, s', by rwa [List.append_assoc] at hs', hbad⟩

theorem steals_loadPool (hrun : (system n).Run tr s) (h : Stealable p i s) (hq : q ≠ p)
    {args : Nat → ThreadArg ι} (harr : s.parr q = .live args) (harg : args j = ⟨some q, j⟩)
    (hc : s.child q j = .loadPool) : ∃ tr' s', (system n).Run (tr ++ tr') s' ∧ ¬ PerChild n s' := by
  have hrun' := hrun.step (Step.loadPool _ q j args hc harr)
  rw [harg] at hrun'
  have hc' : (s.setChild q j (.loadIndex (some q))).child q j = .loadIndex (some q) := by
    simp [setChild]
  obtain ⟨tr', s', hs', hbad⟩ := steals_loadIndex hrun' (h.setChild hq _) hq args harr hc'
  exact ⟨_, s', by rwa [List.append_assoc] at hs', hbad⟩

/-- Wherever the thread of the other handshake is, the flag can be stolen. -/
theorem steals_inHand (hrun : (system n).Run tr s) (h : Stealable p i s) (hq : q ≠ p)
    (args : Nat → ThreadArg ι) (harr : s.parr q = .live args) (harg : args j = ⟨some q, j⟩)
    {flag : Bool} {pc : InitPc} {c : ChildPc ι} (hflag : s.uChildCreated = flag)
    (hc : s.child q j = c) (hin : InHand q j flag pc c) :
    ∃ tr' s', (system n).Run (tr ++ tr') s' ∧ ¬ PerChild n s' := by
  cases hin with
  | loadPool => exact steals_loadPool hrun h hq harr harg hc
  | loadIndex => exact steals_loadIndex hrun h hq args harr hc
  | sonRun => exact steals_sonRun hrun h hq hc
  | running _ => exact steals hrun h hflag

/-- Whenever handshakes begin to overlap, the run can go on to a parent that leaves `WaitSonRun`
before its thread has executed `SonRun`. -/
theorem overlap_breaks {s' : InitHandshake ι} (hrun : ((system n).restrict Apart).Run tr s)
    (hs : Step n s (.create p) s') (hover : ¬ Apart s (.create p) s') :
    ∃ tr' s'', (system n).Run ((tr ++ [.create p]) ++ tr') s'' ∧ ¬ PerChild n s'' := by
  have hinv := inv_run hrun
  have hrun' := hrun.of_restrict.step hs
  simp only [Apart] at hover
  push Not at hover
  obtain ⟨_, ⟨⟩, q, hq, hhand⟩ := hover
  obtain ⟨j, hj⟩ := Option.ne_none_iff_exists'.mp hhand
  obtain ⟨args, harr, harg⟩ := (hinv.pool q).arg j hj
  have hin := (hinv.pool q).hand j hj
  cases hs with
  | create _ i args' hpc harr' =>
    refine steals_inHand (p := p) (i := i) (q := q) (j := j) hrun'
      ⟨?_, ?_⟩ hq args ?_ harg rfl ?_ hin
    · simp [setParent]
    · simp [setParent, setChild]
    · exact (Function.update_of_ne hq ..).trans harr
    · exact congrFun (Function.update_of_ne hq ..) j

end Overlap

end InitHandshake
end Threads
end Huicpp
