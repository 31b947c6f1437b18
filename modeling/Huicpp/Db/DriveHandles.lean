import Mathlib
import Huicpp.HRet
import Huicpp.Cxx.Ownership
import Huicpp.Cxx.TransitionSystem

/-!
# Db.DriveHandles

Who owns the handles that `mysql_drive` objects get from the client library. An object is its two
members; what the library answers, and what members hold that a constructor leaves unset, are
arguments.

`mysql_real_connect` returns the handle it was given, or null, and does not close it.

* `Careful`: no connect fails that reaches the library, and a copied-into object starts with a null
  `m_st`.
* `handles_owned_once`: in runs of such calls every handle is closed exactly once.
-/

namespace Huicpp
namespace Db
namespace DriveHandles

open Cxx

abbrev Handle := Nat

/-- `mysql_drive`. -/
structure Drive where
  m_st : Option Handle
  m_bConnected : Bool
  deriving DecidableEq, Repr

abbrev Library := Resources Handle

/-- What the calls of `Connect` meet: whether each option can be set, and whether
`mysql_real_connect` connects. -/
structure ConnectAnswers where
  setConnectTimeout : Bool
  setReadTimeout : Bool
  setReconnect : Bool
  realConnect : Bool
  deriving DecidableEq, Repr

/-- What the calls of `copy` meet: whether those whose failure throws all succeed, and whether
`mysql_real_connect` connects. -/
structure CopyAnswers where
  options : Bool
  realConnect : Bool
  deriving DecidableEq, Repr

namespace Drive

/-- `init()`, with the answer of `mysql_init`. It returns, or throws. -/
def init (d : Drive) (lib : Library) (mysqlInit : Option Handle) : Bool × Drive × Library :=
  match mysqlInit with
  | some h => (true, { d with m_st := some h }, lib.obtain h)
  | none => (false, { d with m_st := none }, lib)

def uninit (d : Drive) (lib : Library) : Drive × Library :=
  match d.m_st with
  | some h => (⟨none, false⟩, lib.close h)
  | none => (d, lib)

/-- `Connect` gets as far as `mysql_real_connect`. -/
def reaches (d : Drive) (nConnectTimeout nReadTimeout : Nat) (ans : ConnectAnswers) : Bool :=
  d.m_st.isSome && (nConnectTimeout == 0 || ans.setConnectTimeout) &&
    (nReadTimeout == 0 || ans.setReadTimeout) && ans.setReconnect

def connect (d : Drive) (nConnectTimeout nReadTimeout : Nat) (ans : ConnectAnswers) :
    HRet × Drive :=
  if d.m_st = none then (.errStatus, d)
  else if nConnectTimeout ≠ 0 ∧ ans.setConnectTimeout = false then (.depError, d)
  else if nReadTimeout ≠ 0 ∧ ans.setReadTimeout = false then (.depError, d)
  else if ans.setReconnect = false then (.depError, d)
  else if ans.realConnect then (.ok, { d with m_bConnected := true })
  else (.depError, { d with m_st := none })

def disconnect (d : Drive) (lib : Library) : Drive × Library := d.uninit lib

/-- `Reconnect`; `options` has the timeouts that `GetConnInfo` reads, unless one of its calls
fails. It returns what `Connect` does, or throws. -/
def reconnect (d : Drive) (lib : Library) (options : Option (Nat × Nat))
    (mysqlInit : Option Handle) (ans : ConnectAnswers) : Option HRet × Drive × Library :=
  if d.m_st.isSome && d.m_bConnected then
    match options with
    | none => (none, d, lib)
    | some (nConnectTimeout, nReadTimeout) =>
      let (d, lib) := d.disconnect lib
      match d.init lib mysqlInit with
      | (false, d, lib) => (none, d, lib)
      | (true, d, lib) =>
        let (ret, d) := d.connect nConnectTimeout nReadTimeout ans
        (some ret, d, lib)
  else (none, d, lib)

/-- `copy(conn)`. It returns, or throws. -/
def copy (d : Drive) (conn : Drive) (ans : CopyAnswers) : Bool × Drive :=
  if d.m_st = none then (false, d)
  else if conn.m_st = none then (true, d)
  else if ans.options = false then (false, d)
  else if conn.m_bConnected then
    if ans.realConnect then (true, { d with m_bConnected := true })
    else (false, { d with m_st := none })
  else (true, { d with m_bConnected := false })

/-- `mysql_drive()`. -/
def construct (lib : Library) (mysqlInit : Option Handle) : Bool × Drive × Library :=
  init ⟨none, false⟩ lib mysqlInit

/-- `mysql_drive(const mysql_drive& conn)`; no member is initialised, and `unset` is what is
there. -/
def copyConstruct (unset : Drive) (conn : Drive) (lib : Library) (mysqlInit : Option Handle)
    (ans : CopyAnswers) : Bool × Drive × Library :=
  let (d, lib) := unset.uninit lib
  match d.init lib mysqlInit with
  | (false, d, lib) => (false, d, lib)
  | (true, d, lib) =>
    let (ok, d) := d.copy conn ans
    (ok, d, lib)

/-- `mysql_drive(mysql_drive&& conn)`: the new object, and the one it was moved from. The connected
flag is not initialised. -/
def moveConstruct (unset : Bool) (conn : Drive) : Drive × Drive :=
  (⟨conn.m_st, unset⟩, { conn with m_st := none })

end Drive

/-! ## Programs -/

/-- The objects there are, by name. -/
structure State (ι : Type) where
  objects : ι → Option Drive
  library : Library

inductive Event (ι : Type) where
  | construct (x : ι) (mysqlInit : Option Handle)
  | copyConstruct (x y : ι) (unset : Drive) (mysqlInit : Option Handle) (ans : CopyAnswers)
  | moveConstruct (x y : ι) (unset : Bool)
  | connect (x : ι) (nConnectTimeout nReadTimeout : Nat) (ans : ConnectAnswers)
  | disconnect (x : ι)
  | reconnect (x : ι) (options : Option (Nat × Nat)) (mysqlInit : Option Handle)
      (ans : ConnectAnswers)
  | destroy (x : ι)
  deriving DecidableEq, Repr

namespace State

variable {ι : Type}

/-- An object whose constructor returned, or none if it threw. -/
def built (ret : Bool) (d : Drive) : Option Drive := if ret then some d else none

/-- The handle that each object holds. -/
def owner (s : State ι) : ι → Option Handle := (fun o => o.bind Drive.m_st) ∘ s.objects

theorem owner_eq {s : State ι} {x : ι} {o : Option Drive} (h : s.objects x = o) :
    s.owner x = o.bind Drive.m_st := congrArg (fun o => o.bind Drive.m_st) h

variable [DecidableEq ι]

def set (s : State ι) (x : ι) (o : Option Drive) (lib : Library) : State ι :=
  ⟨Function.update s.objects x o, lib⟩

/-- `mysql_init` returns null, or a handle that is not in use. -/
def Fresh (lib : Library) (mysqlInit : Option Handle) : Prop :=
  ∀ h, mysqlInit = some h → h ∉ lib.opened

/-- A constructor that throws leaves no object, and no destructor runs. -/
inductive Step : State ι → Event ι → State ι → Prop where
  | construct (s : State ι) (x : ι) (mysqlInit : Option Handle) (ret : Bool) (d : Drive)
      (lib : Library) :
      s.objects x = none → Fresh s.library mysqlInit →
      Drive.construct s.library mysqlInit = (ret, d, lib) →
      Step s (.construct x mysqlInit) (s.set x (built ret d) lib)
  | copyConstruct (s : State ι) (x y : ι) (unset conn : Drive) (mysqlInit : Option Handle)
      (ans : CopyAnswers) (ret : Bool) (d : Drive) (lib : Library) :
      s.objects x = none → s.objects y = some conn →
      Fresh (unset.uninit s.library).2 mysqlInit →
      Drive.copyConstruct unset conn s.library mysqlInit ans = (ret, d, lib) →
      Step s (.copyConstruct x y unset mysqlInit ans) (s.set x (built ret d) lib)
  | moveConstruct (s : State ι) (x y : ι) (unset : Bool) (conn : Drive) :
      s.objects x = none → s.objects y = some conn →
      Step s (.moveConstruct x y unset)
        ((s.set y (some (Drive.moveConstruct unset conn).2) s.library).set x
          (some (Drive.moveConstruct unset conn).1) s.library)
  | connect (s : State ι) (x : ι) (nConnectTimeout nReadTimeout : Nat) (ans : ConnectAnswers)
      (d : Drive) :
      s.objects x = some d →
      Step s (.connect x nConnectTimeout nReadTimeout ans)
        (s.set x (some (d.connect nConnectTimeout nReadTimeout ans).2) s.library)
  | disconnect (s : State ι) (x : ι) (d : Drive) :
      s.objects x = some d →
      Step s (.disconnect x) (s.set x (some (d.disconnect s.library).1) (d.disconnect s.library).2)
  | reconnect (s : State ι) (x : ι) (options : Option (Nat × Nat)) (mysqlInit : Option Handle)
      (ans : ConnectAnswers) (d : Drive) (ret : Option HRet) (d' : Drive) (lib : Library) :
      s.objects x = some d → Fresh (d.disconnect s.library).2 mysqlInit →
      d.reconnect s.library options mysqlInit ans = (ret, d', lib) →
      Step s (.reconnect x options mysqlInit ans) (s.set x (some d') lib)
  | destroy (s : State ι) (x : ι) (d : Drive) :
      s.objects x = some d →
      Step s (.destroy x) (s.set x none (d.disconnect s.library).2)

/-- The condition on a call: a connect that reaches the library succeeds, and an object that is
copied into holds no handle to begin with. -/
def Careful (s : State ι) (e : Event ι) (_ : State ι) : Prop :=
  match e with
  | .copyConstruct _ y unset mysqlInit ans =>
    unset.m_st = none ∧ ∀ conn, s.objects y = some conn → conn.m_st ≠ none → mysqlInit ≠ none →
      ans.options = true ∧ (conn.m_bConnected = true → ans.realConnect = true)
  | .connect x nConnectTimeout nReadTimeout ans =>
    ∀ d, s.objects x = some d → d.reaches nConnectTimeout nReadTimeout ans = true →
      ans.realConnect = true
  | .reconnect x options mysqlInit ans =>
    ∀ d nConnectTimeout nReadTimeout h, s.objects x = some d →
      (d.m_st.isSome && d.m_bConnected) = true →
      options = some (nConnectTimeout, nReadTimeout) → mysqlInit = some h →
      Drive.reaches ⟨some h, false⟩ nConnectTimeout nReadTimeout ans = true →
      ans.realConnect = true
  | _ => True

/-- An object that was moved from or disconnected holds nothing. -/
def Released (e : Event ι) (s' : State ι) : Prop :=
  match e with
  | .moveConstruct _ y _ => s'.owner y = none
  | .disconnect x => s'.owner x = none
  | _ => True

end State

/-- All programs, from no objects and no handles. -/
def drives (ι : Type) [DecidableEq ι] : TransitionSystem (State ι) (Event ι) where
  init s := s = ⟨fun _ => none, .start⟩
  step := State.Step

/-! ## One call -/

namespace Drive

variable {d conn : Drive} {nConnectTimeout nReadTimeout : Nat} {ans : ConnectAnswers}

theorem connect_m_st (h : d.reaches nConnectTimeout nReadTimeout ans = true →
      ans.realConnect = true) : (d.connect nConnectTimeout nReadTimeout ans).2.m_st = d.m_st := by
  rw [connect]
  split
  · rfl
  · rename_i hst
    split
    · rfl
    · rename_i hct
      split
      · rfl
      · rename_i hrt
        split
        · rfl
        · rename_i hrec
          have hreach : d.reaches nConnectTimeout nReadTimeout ans = true := by
            rw [reaches]
            simp only [Bool.and_eq_true, Bool.or_eq_true, beq_iff_eq, Option.isSome_iff_ne_none]
            refine ⟨⟨⟨hst, ?_⟩, ?_⟩, Bool.eq_true_of_not_eq_false hrec⟩
            · by_contra hno
              rw [not_or] at hno
              exact hct ⟨hno.1, Bool.eq_false_of_not_eq_true hno.2⟩
            · by_contra hno
              rw [not_or] at hno
              exact hrt ⟨hno.1, Bool.eq_false_of_not_eq_true hno.2⟩
          rw [if_pos (h hreach)]

theorem copy_keeps {h : Handle} {b : Bool} {ans : CopyAnswers}
    (hans : conn.m_st ≠ none →
      ans.options = true ∧ (conn.m_bConnected = true → ans.realConnect = true)) :
    ∃ d, copy ⟨some h, b⟩ conn ans = (true, d) ∧ d.m_st = some h := by
  rw [copy, if_neg (Option.some_ne_none h)]
  by_cases hconn : conn.m_st = none
  · rw [if_pos hconn]
    exact ⟨_, rfl, rfl⟩
  · obtain ⟨hopt, hreal⟩ := hans hconn
    rw [if_neg hconn, if_neg (by rw [hopt]; exact Bool.noConfusion)]
    by_cases hc : conn.m_bConnected = true
    · rw [if_pos hc, if_pos (hreal hc)]
      exact ⟨_, rfl, rfl⟩
    · rw [if_neg hc]
      exact ⟨_, rfl, rfl⟩

theorem uninit_m_st (d : Drive) (lib : Library) : (d.uninit lib).1.m_st = none := by
  rw [uninit]
  split
  · rfl
  · assumption

theorem uninit_library (d : Drive) (lib : Library) : (d.uninit lib).2 = lib.release d.m_st := by
  obtain ⟨m_st, b⟩ := d
  cases m_st with
  | some h => rfl
  | none => rfl

/-- What `Reconnect` can do: nothing, close the handle, or close it and connect with a new one. -/
theorem reconnect_cases {lib lib' : Library} {options : Option (Nat × Nat)}
    {mysqlInit : Option Handle} {ret : Option HRet} {d' : Drive}
    (h : d.reconnect lib options mysqlInit ans = (ret, d', lib')) :
    (d' = d ∧ lib' = lib) ∨
      ∃ k ct rt, d = ⟨some k, true⟩ ∧ options = some (ct, rt) ∧
        ((mysqlInit = none ∧ d' = ⟨none, false⟩ ∧ lib' = lib.close k) ∨
          ∃ n, mysqlInit = some n ∧ d' = (connect ⟨some n, false⟩ ct rt ans).2 ∧
            lib' = (lib.close k).obtain n) := by
  obtain ⟨m_st, b⟩ := d
  cases m_st with
  | none =>
    cases h
    exact .inl ⟨rfl, rfl⟩
  | some k =>
    cases b with
    | false =>
      cases h
      exact .inl ⟨rfl, rfl⟩
    | true =>
      cases options with
      | none =>
        cases h
        exact .inl ⟨rfl, rfl⟩
      | some timeouts =>
        refine .inr ⟨k, timeouts.1, timeouts.2, rfl, rfl, ?_⟩
        cases mysqlInit with
        | none =>
          cases h
          exact .inl ⟨rfl, rfl, rfl⟩
        | some n =>
          cases h
          exact .inr ⟨n, rfl, rfl, rfl⟩

end Drive

namespace State

variable {ι : Type} [DecidableEq ι] {s s' : State ι} {x : ι}

theorem owner_set (s : State ι) (x : ι) (o : Option Drive) (lib : Library) :
    (s.set x o lib).owner = Function.update s.owner x (o.bind Drive.m_st) :=
  Function.comp_update _ _ _ _

theorem Owned.same (ho : Owned s.library s.owner) {o : Option Drive}
    (h : o.bind Drive.m_st = s.owner x) : Owned s.library (s.set x o s.library).owner := by
  rw [owner_set, h, Function.update_eq_self]
  exact ho

theorem Owned.uninit (ho : Owned s.library s.owner) {d : Drive} (hx : s.objects x = some d)
    {o : Option Drive} (h : o.bind Drive.m_st = none) :
    Owned (d.uninit s.library).2 (s.set x o (d.uninit s.library).2).owner := by
  have hrel := ho.release x
  rw [owner_eq hx] at hrel
  rw [owner_set, h, Drive.uninit_library]
  exact hrel

/-- Every careful call keeps the handles divided among the objects. -/
theorem Step.owned {e : Event ι} (h : Step s e s') (hc : Careful s e s')
    (ho : Owned s.library s.owner) : Owned s'.library s'.owner := by
  cases h with
  | construct x mysqlInit ret d lib hx hfresh hret =>
    cases mysqlInit with
    | none =>
      cases hret
      exact Owned.same ho (owner_eq hx).symm
    | some h =>
      cases hret
      show Owned (s.library.obtain h) (s.set x _ _).owner
      rw [owner_set]
      exact ho.obtain (owner_eq hx) (hfresh h rfl)
  | copyConstruct x y unset conn mysqlInit ans ret d lib hx hy hfresh hret =>
    obtain ⟨hunset, hans⟩ := hc
    obtain ⟨m_st, b⟩ := unset
    obtain rfl : m_st = none := hunset
    cases mysqlInit with
    | none =>
      cases hret
      exact Owned.same ho (owner_eq hx).symm
    | some h =>
      obtain ⟨d', hcopy, hd'⟩ := Drive.copy_keeps (h := h) (b := b)
        fun hst => hans conn hy hst (Option.some_ne_none h)
      simp only [Drive.copyConstruct, Drive.uninit, Drive.init, hcopy] at hret
      obtain ⟨rfl, rfl, rfl⟩ : true = ret ∧ d' = d ∧ s.library.obtain h = lib := by
        simpa using hret
      have hbuilt : (built true d').bind Drive.m_st = some h := hd'
      show Owned (s.library.obtain h) (s.set x _ _).owner
      rw [owner_set, hbuilt]
      exact ho.obtain (owner_eq hx) (hfresh h rfl)
  | moveConstruct x y unset conn hx hy =>
    have hmove := ho.move (owner_eq hx) (y := y)
    rw [owner_eq hy] at hmove
    show Owned s.library (State.set _ x _ _).owner
    rw [owner_set, owner_set]
    exact hmove
  | connect x nConnectTimeout nReadTimeout ans d hx =>
    refine Owned.same ho ?_
    rw [owner_eq hx]
    exact Drive.connect_m_st (hc d hx)
  | disconnect x d hx => exact Owned.uninit ho hx (Drive.uninit_m_st _ _)
  | destroy x d hx => exact Owned.uninit ho hx rfl
  | reconnect x options mysqlInit ans d ret d' lib hx hfresh hret =>
    rcases Drive.reconnect_cases hret with
      ⟨rfl, rfl⟩ | ⟨k, ct, rt, rfl, rfl, ⟨rfl, rfl, rfl⟩ | ⟨n, rfl, rfl, rfl⟩⟩
    · exact Owned.same ho (owner_eq hx).symm
    · exact Owned.uninit ho hx rfl
    · -- the old handle is closed, and the object has none when it gets the new one
      have hclosed : Owned (s.library.close k) (Function.update s.owner x none) :=
        ho.close (owner_eq hx)
      have hnew := hclosed.obtain (Function.update_self x none s.owner) (hfresh n rfl)
      rw [Function.update_idem] at hnew
      have hkeep : (Drive.connect ⟨some n, false⟩ ct rt ans).2.m_st = some n :=
        Drive.connect_m_st (hc _ ct rt n hx rfl rfl rfl)
      show Owned ((s.library.close k).obtain n) (s.set x _ _).owner
      rw [owner_set, Option.bind_some, hkeep]
      exact hnew

theorem Step.released {e : Event ι} (h : Step s e s') : Released e s' := by
  cases h with
  | construct x mysqlInit ret d lib _ _ _ => exact trivial
  | copyConstruct x y unset conn mysqlInit ans ret d lib _ _ _ _ => exact trivial
  | moveConstruct x y unset conn hx hy =>
    have hxy : y ≠ x := by
      rintro rfl
      rw [hx] at hy
      cases hy
    show (State.set _ x _ _).owner y = none
    rw [owner_set, Function.update_of_ne hxy, owner_set, Function.update_self]
    rfl
  | connect x ct rt ans d _ => exact trivial
  | disconnect x d hx =>
    show (s.set x _ _).owner x = none
    rw [owner_set, Function.update_self]
    exact Drive.uninit_m_st _ _
  | reconnect x options mysqlInit ans d ret d' lib _ _ _ => exact trivial
  | destroy x d _ => exact trivial

end State

open State

/-- **Handles are owned once.** In a run of careful calls nothing is closed that is not open, no
two objects hold one handle, every open handle has its object, and when all objects are destroyed
every handle is closed. -/
theorem handles_owned_once {ι : Type} [DecidableEq ι] (s : State ι)
    (h : ((drives ι).restrict Careful).Reachable s) :
    Owned s.library s.owner ∧ ((∀ x, s.objects x = none) → s.library.opened = []) ∧
      ∀ e s', Step s e s' → Released e s' := by
  have ho : Owned s.library s.owner := by
    refine h.invariant (fun s => Owned s.library s.owner) ?_ ?_
    · rintro s rfl
      exact Owned.start
    · rintro s e s' ho ⟨hs, hc⟩
      exact hs.owned hc ho
  exact ⟨ho, fun hnone => ho.all_closed fun x => owner_eq (hnone x), fun e s' hs => hs.released⟩

/-- One object, with the handle 5. -/
def oneDrive : State Nat :=
  State.set ⟨fun _ => none, .start⟩ 0 (some ⟨some 5, false⟩) (Resources.start.obtain 5)

theorem step_oneDrive : Step ⟨fun _ => none, .start⟩ (.construct 0 (some 5)) oneDrive := by
  refine .construct _ 0 (some 5) true ⟨some 5, false⟩ _ rfl ?_ rfl
  intro h _ hmem
  cases hmem

/-- The object connects. -/
theorem handles_owned_once_connected :
    let s : State Nat := oneDrive.set 0 (some ⟨some 5, true⟩) oneDrive.library
    Owned s.library s.owner ∧ ((∀ x, s.objects x = none) → s.library.opened = []) ∧
      ∀ e s', Step s e s' → Released e s' := by
  have h1 : ((drives Nat).restrict Careful).Reachable oneDrive :=
    (TransitionSystem.Reachable.of_init rfl).next ⟨step_oneDrive, trivial⟩
  have hstep : Step oneDrive (.connect 0 0 0 ⟨true, true, true, true⟩)
      (oneDrive.set 0 (some ⟨some 5, true⟩) oneDrive.library) :=
    .connect oneDrive 0 0 0 ⟨true, true, true, true⟩ ⟨some 5, false⟩ rfl
  exact handles_owned_once _ (h1.next ⟨hstep, fun _ _ _ => rfl⟩)

/-- The object fails to connect, and is destroyed: its handle is open, and nobody has it. -/
theorem connect_loses_handle :
    ∃ s : State Nat, (drives Nat).Reachable s ∧ (∀ x, s.objects x = none) ∧
      s.library.opened = [5] := by
  let lost : State Nat := oneDrive.set 0 (some ⟨none, false⟩) oneDrive.library
  have h1 : (drives Nat).Reachable oneDrive :=
    (TransitionSystem.Reachable.of_init rfl).next step_oneDrive
  have h2 : (drives Nat).Reachable lost :=
    h1.next (.connect oneDrive 0 0 0 ⟨true, true, true, false⟩ ⟨some 5, false⟩ rfl)
  refine ⟨lost.set 0 none lost.library, h2.next (.destroy lost 0 ⟨none, false⟩ rfl), ?_, rfl⟩
  intro x
  by_cases hx : x = 0
  · rw [hx]
    rfl
  · have hset : ∀ (s : State Nat) o lib, (s.set 0 o lib).objects x = s.objects x :=
      fun s o lib => Function.update_of_ne hx _ _
    rw [hset, hset, oneDrive, hset]

/-- The object is copied to where a pointer 7 was left: 7 is closed. -/
theorem copy_closes_unset :
    ∃ s : State Nat, (drives Nat).Reachable s ∧ s.library.wrongClose = true := by
  have h1 : (drives Nat).Reachable oneDrive :=
    (TransitionSystem.Reachable.of_init rfl).next step_oneDrive
  have hfresh : Fresh (Drive.uninit ⟨some 7, false⟩ oneDrive.library).2 (some 6) := by
    intro h hh
    cases hh
    decide
  have h2 := h1.next (.copyConstruct oneDrive 1 0 ⟨some 7, false⟩ ⟨some 5, false⟩ (some 6)
    ⟨true, true⟩ true _ _ rfl rfl hfresh rfl)
  exact ⟨_, h2, rfl⟩

end DriveHandles
end Db
end Huicpp
