import Mathlib
import Huicpp.Cxx.Decimal
import Huicpp.Cxx.Files
import Huicpp.Process.AppLock

/-!
# Process.AppStart

Instances of an application that start next to each other: the last two parts of `HApp::Init`. An
instance opens the pid file and empties it, writes its pid at the beginning, and only then asks for
the application lock. One step is one call to the system.

* `Undisturbed`: no other instance empties the file before an instance has written what it wants to.
* `pidfile_names_holder_iff`: in any runs one instance holds the lock at most, and who has asked for it has
  emptied the file before. In undisturbed runs the file names the holder exactly if no other
  instance has emptied it since.
* `pidfile_mixed`: after another run it names nobody.
-/

namespace Huicpp
namespace Process
namespace AppStart

open Cxx

/-- Where an instance is. -/
inductive Phase where
  | begun
  /-- `OutOpen` has opened the pid file, -/
  | opened
  /-- and `SetToZero` has emptied it. -/
  | emptied
  /-- `WriteFromString` has returned. -/
  | recorded
  /-- `Init` has returned an error, or the process has ended. -/
  | stopped
  deriving DecidableEq, Repr

structure State (ι : Type) where
  pidfile : List Byte
  phase : ι → Phase
  lock : AppLock.State ι

inductive Event (ι : Type) where
  | opens (i : ι)
  | empties (i : ι)
  /-- `none`: the `write` fails. Otherwise so many bytes are taken at most. -/
  | writes (i : ι) (answer : Option Nat)
  | locks (i : ι) (e : AppLock.Event ι)
  | stops (i : ι)

/-- Who makes a step on the lock. -/
def actor {ι : Type} : AppLock.Event ι → ι
  | .construct i | .test i | .lock i | .granted i | .fails i | .unlock i | .destroy i | .exit i => i

variable {ι : Type} [DecidableEq ι]

def State.goto (s : State ι) (i : ι) (phase : Phase) : State ι :=
  { s with phase := Function.update s.phase i phase }

/-- What `WriteFromString` makes of the file, with a descriptor at its beginning. -/
def written (pidfile strPid : List Byte) : Option Nat → List Byte
  | none => pidfile
  | some n => overlay pidfile 0 (strPid.take n)

/-- A process that is stopped has left its lock. -/
inductive State.Step (pid : ι → Nat) : State ι → Event ι → State ι → Prop where
  | opens (s : State ι) (i : ι) : s.phase i = .begun → Step pid s (.opens i) (s.goto i .opened)
  | empties (s : State ι) (i : ι) : s.phase i = .opened →
      Step pid s (.empties i) { s.goto i .emptied with pidfile := [] }
  | writes (s : State ι) (i : ι) (answer : Option Nat) : s.phase i = .emptied →
      Step pid s (.writes i answer)
        { s.goto i .recorded with pidfile := written s.pidfile (decimal (pid i)) answer }
  | locks (s : State ι) (i : ι) (e : AppLock.Event ι) (lock : AppLock.State ι) :
      s.phase i = .recorded → actor e = i → s.lock.Step e lock →
      Step pid s (.locks i e) { s with lock := lock }
  | stops (s : State ι) (i : ι) :
      Step pid s (.stops i) { s.goto i .stopped with lock := s.lock.put i false .closed [] }

/-- Any number of instances, with whatever is in the pid file. -/
def instances (pid : ι → Nat) : TransitionSystem (State ι) (Event ι) where
  init s := (∀ i, s.phase i = .begun) ∧ (AppLock.instances ι).init s.lock
  step := State.Step pid

/-- The condition on a step: nobody has emptied the file and not written yet, and a pid is written whole. -/
def State.Undisturbed (pid : ι → Nat) (s : State ι) (e : Event ι) (_ : State ι) : Prop :=
  match e with
  | .empties _ => ∀ j, s.phase j ≠ .emptied
  | .writes i answer => ∃ n, answer = some n ∧ (decimal (pid i)).length ≤ n
  | _ => True

/-- Who has emptied the file last. -/
def lastEmptied (tr : List (Event ι)) : Option ι :=
  tr.foldl (fun last e => match e with
    | .empties i => some i
    | _ => last) none

variable {pid : ι → Nat} {tr : List (Event ι)} {s s' : State ι} {e : Event ι} {i j : ι}

omit [DecidableEq ι] in
theorem lastEmptied_append (tr : List (Event ι)) (e : Event ι) :
    lastEmptied (tr ++ [e]) = match e with
      | .empties i => some i
      | _ => lastEmptied tr := by
  rw [lastEmptied, List.foldl_append]
  rfl

theorem State.goto_cases (s : State ι) (i : ι) (phase : Phase) (j : ι) :
    j = i ∧ (s.goto i phase).phase j = phase ∨ j ≠ i ∧ (s.goto i phase).phase j = s.phase j := by
  by_cases hj : j = i
  · rw [hj]
    exact .inl ⟨rfl, Function.update_self ..⟩
  · exact .inr ⟨hj, Function.update_of_ne hj ..⟩

theorem holds_other {l l' : AppLock.State ι} {e : AppLock.Event ι} (h : l.Step e l')
    (hj : j ≠ actor e) : l'.holds j = l.holds j := by
  cases h <;> exact Function.update_of_ne hj _ _

/-! ## Any run -/

theorem lock_reachable (h : (instances pid).Run tr s) : (AppLock.instances ι).Reachable s.lock := by
  induction h with
  | init h => exact .of_init h.2
  | step _ hs ih =>
    cases hs with
    | opens | empties | writes => exact ih
    | locks i e lock _ _ hlock => exact ih.next hlock
    | stops i => exact ih.next (.exit _ i)

/-- Who asks for the lock or holds it has emptied the file. -/
structure Emptied (tr : List (Event ι)) (s : State ι) : Prop where
  phase : ∀ i, s.phase i = .emptied ∨ s.phase i = .recorded → .empties i ∈ tr
  locks : ∀ i e, .locks i e ∈ tr → .empties i ∈ tr
  holds : ∀ i, s.lock.holds i = true → s.phase i = .recorded

theorem Emptied.goto (h : Emptied tr s) (phase : Phase) (pidfile : List Byte) (lock : AppLock.State ι)
    (hphase : phase = .emptied ∨ phase = .recorded → .empties i ∈ tr ++ [e])
    (hholds : ∀ j, lock.holds j = true → j ≠ i ∧ s.lock.holds j = true) (he : ∀ j x, e ≠ .locks j x) :
    Emptied (tr ++ [e]) { s.goto i phase with pidfile := pidfile, lock := lock } := by
  refine ⟨fun j hj => ?_, fun j x hj => ?_, fun j hj => ?_⟩
  · rcases s.goto_cases i phase j with ⟨rfl, hnew⟩ | ⟨-, hold⟩
    · exact hphase (hj.imp hnew.symm.trans hnew.symm.trans)
    · exact List.mem_append_left _ (h.phase j (hj.imp hold.symm.trans hold.symm.trans))
  · rcases List.mem_append.mp hj with hj | hj
    · exact List.mem_append_left _ (h.locks j x hj)
    · exact absurd (List.mem_singleton.mp hj).symm (he j x)
  · obtain ⟨hji, hheld⟩ := hholds j hj
    exact (Function.update_of_ne hji ..).trans (h.holds j hheld)

omit [DecidableEq ι] in
theorem Emptied.others (h : Emptied tr s) (hi : s.phase i ≠ .recorded) :
    ∀ j, s.lock.holds j = true → j ≠ i ∧ s.lock.holds j = true := by
  intro j hj
  refine ⟨?_, hj⟩
  rintro rfl
  exact hi (h.holds j hj)

theorem Emptied.step (h : Emptied tr s) (hs : State.Step pid s e s') : Emptied (tr ++ [e]) s' := by
  cases hs with
  | opens i hi =>
    refine h.goto .opened s.pidfile s.lock ?_ (h.others ?_) (fun _ _ he => nomatch he)
    · rintro (hp | hp) <;> cases hp
    · rw [hi]
      exact Phase.noConfusion
  | empties i hi =>
    refine h.goto .emptied [] s.lock (fun _ => List.mem_append_right _ List.mem_cons_self) (h.others ?_)
      (fun _ _ he => nomatch he)
    rw [hi]
    exact Phase.noConfusion
  | writes i answer hi =>
    refine h.goto .recorded _ s.lock (fun _ => List.mem_append_left _ (h.phase i (.inl hi))) (h.others ?_)
      (fun _ _ he => nomatch he)
    rw [hi]
    exact Phase.noConfusion
  | locks i x lock hi hactor hlock =>
    refine ⟨fun j hj => List.mem_append_left _ (h.phase j hj), fun j y hj => ?_, fun j hj => ?_⟩
    · rcases List.mem_append.mp hj with hj | hj
      · exact List.mem_append_left _ (h.locks j y hj)
      · cases List.mem_singleton.mp hj
        exact List.mem_append_left _ (h.phase i (.inr hi))
    · by_cases hji : j = actor x
      · rw [hji, hactor]
        exact hi
      · exact h.holds j ((holds_other hlock hji).symm.trans hj)
  | stops i =>
    refine h.goto .stopped s.pidfile _ ?_ (fun j hj => ?_) (fun _ _ he => nomatch he)
    · rintro (hp | hp) <;> cases hp
    · rcases s.lock.put_cases i false .closed [] j with ⟨-, hnew, -⟩ | ⟨hji, hold, -⟩
      · exact absurd (hnew.symm.trans hj) Bool.false_ne_true
      · exact ⟨hji, hold.symm.trans hj⟩

theorem emptied_run (h : (instances pid).Run tr s) : Emptied tr s := by
  induction h with
  | init h =>
    obtain ⟨hbegun, hlock⟩ := h
    refine ⟨fun i hi => ?_, fun i e h => absurd h List.not_mem_nil, fun i hi => ?_⟩
    · rcases hi.imp (hbegun i).symm.trans (hbegun i).symm.trans with hp | hp <;> cases hp
    · rw [show _ = _ from hlock] at hi
      cases hi
  | step _ hs ih => exact ih.step hs

/-! ## Undisturbed runs -/

/-- The file names who has emptied it last, or is still empty. -/
structure Names (pid : ι → Nat) (tr : List (Event ι)) (s : State ι) : Prop where
  emptied : ∀ i, s.phase i = .emptied → lastEmptied tr = some i ∧ s.pidfile = []
  last : ∀ i, lastEmptied tr = some i → s.pidfile = decimal (pid i) ∨ s.pidfile = []
  recorded : ∀ i, s.phase i = .recorded →
    ∃ j, lastEmptied tr = some j ∧ (i = j → s.pidfile = decimal (pid i))

theorem Names.goto (h : Names pid tr s) {phase : Phase} (lock : AppLock.State ι)
    (hemptied : phase ≠ .emptied) (hrecorded : phase ≠ .recorded)
    (hlast : lastEmptied (tr ++ [e]) = lastEmptied tr) :
    Names pid (tr ++ [e]) { s.goto i phase with lock := lock } := by
  refine ⟨fun j hj => ?_, fun j hj => h.last j (hlast.symm.trans hj), fun j hj => ?_⟩
  · rcases s.goto_cases i phase j with ⟨-, hnew⟩ | ⟨-, hold⟩
    · exact absurd (hnew.symm.trans hj) hemptied
    · rw [hlast]
      exact h.emptied j (hold.symm.trans hj)
  · rcases s.goto_cases i phase j with ⟨-, hnew⟩ | ⟨-, hold⟩
    · exact absurd (hnew.symm.trans hj) hrecorded
    · rw [hlast]
      exact h.recorded j (hold.symm.trans hj)

theorem Names.step (h : Names pid tr s) (hs : State.Step pid s e s') (hu : s.Undisturbed pid e s') :
    Names pid (tr ++ [e]) s' := by
  cases hs with
  | opens i hi => exact h.goto s.lock Phase.noConfusion Phase.noConfusion (lastEmptied_append _ _)
  | empties i hi =>
    have hlast : lastEmptied (tr ++ [.empties i]) = some i := lastEmptied_append _ _
    refine ⟨fun j hj => ?_, fun j _ => .inr rfl, fun j hj => ⟨i, hlast, fun hji => ?_⟩⟩
    · rcases s.goto_cases i .emptied j with ⟨rfl, -⟩ | ⟨-, hold⟩
      · exact ⟨hlast, rfl⟩
      · exact absurd (hold.symm.trans hj) (hu j)
    · subst hji
      have hnew : (s.goto j .emptied).phase j = .emptied := Function.update_self ..
      exact nomatch hnew.symm.trans hj
  | writes i answer hi =>
    obtain ⟨hlasti, hempty⟩ := h.emptied i hi
    obtain ⟨n, rfl, hn⟩ := hu
    have hlast : lastEmptied (tr ++ [.writes i (some n)]) = some i :=
      (lastEmptied_append _ _).trans hlasti
    have hfile : written s.pidfile (decimal (pid i)) (some n) = decimal (pid i) := by
      rw [written, hempty, overlay_zero, List.drop_nil, List.append_nil, List.take_of_length_le hn]
    refine ⟨fun j hj => ?_, fun j hj => ?_, fun j hj => ⟨i, hlast, fun hji => ?_⟩⟩
    · rcases s.goto_cases i .recorded j with ⟨-, hnew⟩ | ⟨hji, hold⟩
      · exact nomatch hnew.symm.trans hj
      · have hlastj := (h.emptied j (hold.symm.trans hj)).1
        exact absurd (Option.some.inj (hlastj.symm.trans hlasti)) hji
    · obtain rfl : i = j := Option.some.inj (hlast.symm.trans hj)
      exact .inl hfile
    · subst hji
      exact hfile
  | locks i x lock hi hactor hlock =>
    have hlast : lastEmptied (tr ++ [.locks i x]) = lastEmptied tr := lastEmptied_append _ _
    refine ⟨?_, ?_, ?_⟩
    · rw [hlast]
      exact h.emptied
    · rw [hlast]
      exact h.last
    · rw [hlast]
      exact h.recorded
  | stops i => exact h.goto _ Phase.noConfusion Phase.noConfusion (lastEmptied_append _ _)

theorem names_run (h : ((instances pid).restrict (State.Undisturbed pid)).Run tr s) :
    Names pid tr s := by
  induction h with
  | init h =>
    refine ⟨fun i hi => ?_, fun i hi => ?_, fun i hi => ?_⟩
    · exact nomatch (h.1 i).symm.trans hi
    · exact nomatch hi
    · exact nomatch (h.1 i).symm.trans hi
  | step _ hs ih => exact ih.step hs.1 hs.2

/-- **The pid file.** However many instances start at any time: one of them holds the lock at most, and
whoever has asked for the lock has emptied the pid file before, also if it is turned away. In
undisturbed runs the file names the holder of the lock exactly if no other instance has emptied it
since. -/
theorem pidfile_names_holder_iff (hpid : Function.Injective pid) :
    ((instances pid).Run tr s →
      (∀ i j, s.lock.holds i = true → s.lock.holds j = true → i = j) ∧
      ∀ i e, .locks i e ∈ tr → .empties i ∈ tr) ∧
    (((instances pid).restrict (State.Undisturbed pid)).Run tr s →
      ∀ i, s.lock.holds i = true → (s.pidfile = decimal (pid i) ↔ lastEmptied tr = some i)) := by
  refine ⟨fun h => ⟨AppLock.oneHolder (lock_reachable h), (emptied_run h).locks⟩, fun h i hi => ?_⟩
  have hnames := names_run h
  obtain ⟨j, hlast, hfile⟩ := hnames.recorded i ((emptied_run h.of_restrict).holds i hi)
  rw [hlast, Option.some_inj]
  constructor
  · intro hi
    rcases hnames.last j hlast with hj | hj
    · have hnumber := congrArg number (hj.symm.trans hi)
      rw [number_decimal, number_decimal] at hnumber
      exact hpid hnumber
    · exact absurd (hi.symm.trans hj) (decimal_ne_nil _)
  · intro hji
    exact hfile hji.symm

/-- Two instances, with the pids 123 and 45. -/
def twoPids : Bool → Nat
  | true => 123
  | false => 45

theorem twoPids_injective : Function.Injective twoPids := by
  intro i j h
  cases i <;> cases j <;> first | rfl | cases h

def twoBegun : State Bool := ⟨[], fun _ => .begun, ⟨fun _ => false, fun _ => .closed, []⟩⟩

/-- One starts alone and gets the lock, then the other one empties the file. -/
theorem pidfile_names_holder_two : ∃ tr, ∃ s : State Bool,
    ((instances twoPids).restrict (State.Undisturbed twoPids)).Run tr s ∧ s.lock.holds true = true ∧
      s.pidfile ≠ decimal 123 := by
  have hnot : ¬ (twoBegun.lock.put true false .idle []).Contended true := by
    rintro ⟨j, hj, hh⟩
    obtain rfl : j = false := Bool.eq_false_of_not_eq_true hj
    rcases hh with hh | ⟨b, hh | hh⟩ <;> cases hh
  have h0 : ((instances twoPids).restrict (State.Undisturbed twoPids)).Run [] twoBegun :=
    .init ⟨fun _ => rfl, rfl⟩
  have h1 := h0.step ⟨.opens _ true rfl, trivial⟩
  have h2 := h1.step ⟨.empties _ true rfl, fun j => by cases j <;> exact Phase.noConfusion⟩
  have h3 := h2.step ⟨.writes _ true (some 3) rfl, 3, rfl, by decide⟩
  have h4 := h3.step ⟨.locks _ true (.construct true) _ rfl rfl (.construct _ true rfl), trivial⟩
  have h5 := h4.step ⟨.locks _ true (.test true) _ rfl rfl
    (.test _ true false rfl (by decide) (iff_of_false Bool.false_ne_true hnot)), trivial⟩
  have h6 := h5.step ⟨.locks _ true (.lock true) _ rfl rfl (.lock _ true false rfl (by decide)), trivial⟩
  have h7 := h6.step ⟨.opens _ false rfl, trivial⟩
  have h8 := h7.step ⟨.empties _ false rfl, fun j => by cases j <;> exact Phase.noConfusion⟩
  have hnames := (pidfile_names_holder_iff twoPids_injective).2 h8 true rfl
  exact ⟨_, _, h8, rfl, fun h => nomatch hnames.mp h⟩

/-- Both empty the file before they write: the last byte of the longer pid stays behind the other one. -/
theorem pidfile_mixed : ∃ tr, ∃ s : State Bool, (instances twoPids).Run tr s ∧
    (∀ i, s.phase i = .recorded) ∧ ∀ i, s.pidfile ≠ decimal (twoPids i) := by
  have h0 : (instances twoPids).Run [] twoBegun := .init ⟨fun _ => rfl, rfl⟩
  have h1 := h0.step (.opens _ true rfl)
  have h2 := h1.step (.opens _ false rfl)
  have h3 := h2.step (.empties _ true rfl)
  have h4 := h3.step (.empties _ false rfl)
  have h5 := h4.step (.writes _ true (some 3) rfl)
  have h6 := h5.step (.writes _ false (some 2) rfl)
  exact ⟨_, _, h6, by decide, by decide⟩

end AppStart
end Process
end Huicpp
