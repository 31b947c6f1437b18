import Mathlib
import Huicpp.Cxx.TransitionSystem

/-!
# Process.ProcessPool

`HProcessPool` and its control table in shared memory, one field access at a time. The parent runs
`Init`, then `parent_touch` any number of times, then the destructor. Each forked child calls
`TouchInfo`, `SetIdleInfo` and `UnuseInfo`, which are one read-modify-write of a record. What the
kernel and the clock answer is arbitrary; a child that was sent a signal may run on for a while.

`forked i` is the pid that the last `fork` for slot `i` returned, and `started i` is the pid of the
last `SetStartInfo` for slot `i` that has completed, if no `fork` for `i` came after it.
-/

namespace Huicpp
namespace Process

open Cxx

inductive ChildStatus where
  | CS_UNUSED
  | CS_IDLE
  | CS_BUSY
  | CS_UNKNOWN
  deriving DecidableEq, Repr

/-- `cntl_info`. -/
structure CntlInfo where
  startat : Int
  status : ChildStatus
  at' : Int
  pid : Int
  deriving DecidableEq, Repr

/-- `ResetInfo`. -/
def CntlInfo.reset : CntlInfo := ⟨0, .CS_UNUSED, 0, 0⟩

/-- Where a process is in `set_info_as_status`. -/
inductive SetInfoPc where
  | storeAt (status : ChildStatus)
  | loadPid (status : ChildStatus)
  | storePid (status : ChildStatus) (pid : Int)
  | storeStatus (status : ChildStatus)
  deriving DecidableEq, Repr

/-- One access of `set_info_as_status` to its record. -/
inductive SetInfoStep : CntlInfo → SetInfoPc → CntlInfo → Option SetInfoPc → Prop where
  | storeAt (info : CntlInfo) (status : ChildStatus) (time : Int) :
      SetInfoStep info (.storeAt status) { info with at' := time } (some (.loadPid status))
  | loadPid (info : CntlInfo) (status : ChildStatus) :
      SetInfoStep info (.loadPid status) info (some (.storePid status info.pid))
  | storePid (info : CntlInfo) (status : ChildStatus) (pid : Int) :
      SetInfoStep info (.storePid status pid) { info with pid := pid } (some (.storeStatus status))
  | storeStatus (info : CntlInfo) (status : ChildStatus) :
      SetInfoStep info (.storeStatus status) { info with status := status } none

/-- The calls of a child. -/
inductive InfoCall where
  | touchInfo
  | setIdleInfo
  | unuseInfo
  deriving DecidableEq, Repr

def InfoCall.status : InfoCall → ChildStatus
  | .touchInfo => .CS_BUSY
  | .setIdleInfo => .CS_IDLE
  | .unuseInfo => .CS_UNUSED

/-- A forked process, with the call it is in. -/
structure Child (n : Nat) where
  slot : Fin n
  pid : Int
  call : Option (Fin n × SetInfoPc)
  deriving DecidableEq, Repr

/-- What called `create_child` or `kill_child`; `nt` is the time at which `parent_touch` began. -/
inductive Caller where
  | init
  | notExists (nt : Int)
  | silent (nt : Int)
  | destructor
  deriving DecidableEq, Repr

/-- Where `SetStartInfo` is. -/
inductive SetStartPc where
  | startat
  | at'
  | pid
  | status
  deriving DecidableEq, Repr

/-- Where the parent is. -/
inductive ParentPc (n : Nat) where
  | init (i : Nat)
  | failed
  | create (i : Fin n) (c : Caller)
  | setStart (i : Fin n) (pid : Int) (pc : SetStartPc) (c : Caller)
  | idle
  | touch (i : Nat) (nt : Int)
  | processExists (i : Fin n) (nt pid : Int)
  | lastAccess (i : Fin n) (nt : Int)
  | startAt (i : Fin n) (nt : Int)
  | heartBeat (i : Fin n) (nt at' : Int)
  | kill (i : Fin n) (c : Caller)
  | sigterm (i : Fin n) (pid : Int) (c : Caller)
  | sigkill (i : Fin n) (pid : Int) (c : Caller)
  | unuse (i : Fin n) (pc : SetInfoPc) (c : Caller)
  | destroy (i : Nat)
  | gone
  deriving DecidableEq, Repr

structure HProcessPool (n : Nat) where
  info : Fin n → CntlInfo
  parent : ParentPc n
  child : Nat → Option (Child n)
  forks : Nat
  forked : Fin n → Option Int
  started : Fin n → Option Int

namespace HProcessPool

variable {n : Nat}

/-- After `ProcessCntl::Init`. -/
def init (n : Nat) : HProcessPool n where
  info _ := .reset
  parent := .init 0
  child _ := none
  forks := 0
  forked _ := none
  started _ := none

def MAX_HEAR_TIME : Int := 30

/-- Where the parent goes on after `create_child(i)`. -/
def afterCreate (i : Fin n) : Caller → ParentPc n
  | .init => .init (i + 1)
  | .notExists nt => .lastAccess i nt
  | .silent nt => .touch (i + 1) nt
  | .destructor => .gone

/-- The exception of a `fork` that failed leaves `Init` or `parent_touch`. -/
def afterThrow : Caller → ParentPc n
  | .init => .failed
  | _ => .idle

/-- Where the parent goes on after `kill_child(i)`. -/
def afterKill (i : Fin n) : Caller → ParentPc n
  | .destructor => .destroy (i + 1)
  | c => .create i c

def setParent (s : HProcessPool n) (pc : ParentPc n) : HProcessPool n := { s with parent := pc }

def setInfo (s : HProcessPool n) (i : Fin n) (info : CntlInfo) : HProcessPool n :=
  { s with info := Function.update s.info i info }

def setChild (s : HProcessPool n) (c : Nat) (child : Option (Child n)) : HProcessPool n :=
  { s with child := Function.update s.child c child }

/-- Who moves; the parent's signals show. -/
inductive Action (n : Nat) where
  | parent
  | signal (i : Fin n) (pid : Int)
  | child (c : Nat)
  deriving DecidableEq, Repr

/-- The steps of `Init`, of `create_child` (`fork`, `forkFailed`) with its `SetStartInfo` (`setStartat` to
`setStatus`), of `parent_touch` (`touch` to `silent`), of `kill_child` (`killPid` to `unused`) and of the
destructor. -/
inductive ParentStep : HProcessPool n → HProcessPool n → Prop where
  | initCreate (s : HProcessPool n) (i : Fin n) :
      s.parent = .init i → ParentStep s (s.setParent (.create i .init))
  | initDone (s : HProcessPool n) : s.parent = .init n → ParentStep s (s.setParent .idle)
  | fork (s : HProcessPool n) (i : Fin n) (c : Caller) (pid : Int) :
      s.parent = .create i c → 0 < pid →
      ParentStep s { (s.setParent (.setStart i pid .startat c)).setChild s.forks
          (some ⟨i, pid, none⟩) with
        forks := s.forks + 1
        forked := Function.update s.forked i (some pid)
        started := Function.update s.started i none }
  | forkFailed (s : HProcessPool n) (i : Fin n) (c : Caller) :
      s.parent = .create i c → ParentStep s (s.setParent (afterThrow c))
  | setStartat (s : HProcessPool n) (i : Fin n) (pid : Int) (c : Caller) (time : Int) :
      s.parent = .setStart i pid .startat c →
      ParentStep s ((s.setParent (.setStart i pid .at' c)).setInfo i
        { s.info i with startat := time })
  | setAt (s : HProcessPool n) (i : Fin n) (pid : Int) (c : Caller) :
      s.parent = .setStart i pid .at' c →
      ParentStep s ((s.setParent (.setStart i pid .pid c)).setInfo i { s.info i with at' := 0 })
  | setPid (s : HProcessPool n) (i : Fin n) (pid : Int) (c : Caller) :
      s.parent = .setStart i pid .pid c →
      ParentStep s ((s.setParent (.setStart i pid .status c)).setInfo i
        { s.info i with pid := pid })
  | setStatus (s : HProcessPool n) (i : Fin n) (pid : Int) (c : Caller) :
      s.parent = .setStart i pid .status c →
      ParentStep s { (s.setParent (afterCreate i c)).setInfo i
          { s.info i with status := .CS_IDLE } with
        started := Function.update s.started i (some pid) }
  | touch (s : HProcessPool n) (nt : Int) :
      s.parent = .idle → ParentStep s (s.setParent (.touch 0 nt))
  | touchDone (s : HProcessPool n) (nt : Int) :
      s.parent = .touch n nt → ParentStep s (s.setParent .idle)
  | getPid (s : HProcessPool n) (i : Fin n) (nt : Int) :
      s.parent = .touch i nt → ParentStep s (s.setParent (.processExists i nt (s.info i).pid))
  | exists' (s : HProcessPool n) (i : Fin n) (nt pid : Int) :
      s.parent = .processExists i nt pid → ParentStep s (s.setParent (.lastAccess i nt))
  | notExists (s : HProcessPool n) (i : Fin n) (nt pid : Int) :
      s.parent = .processExists i nt pid → ParentStep s (s.setParent (.kill i (.notExists nt)))
  | lastAccessTime (s : HProcessPool n) (i : Fin n) (nt : Int) :
      s.parent = .lastAccess i nt → (s.info i).at' ≠ 0 →
      ParentStep s (s.setParent (.heartBeat i nt (s.info i).at'))
  | noAccess (s : HProcessPool n) (i : Fin n) (nt : Int) :
      s.parent = .lastAccess i nt → (s.info i).at' = 0 → ParentStep s (s.setParent (.startAt i nt))
  | getStartAt (s : HProcessPool n) (i : Fin n) (nt : Int) :
      s.parent = .startAt i nt →
      ParentStep s (s.setParent (.heartBeat i nt (s.info i).startat))
  | alive (s : HProcessPool n) (i : Fin n) (nt at' : Int) :
      s.parent = .heartBeat i nt at' → |nt - at'| ≤ MAX_HEAR_TIME →
      ParentStep s (s.setParent (.touch (i + 1) nt))
  | silent (s : HProcessPool n) (i : Fin n) (nt at' : Int) :
      s.parent = .heartBeat i nt at' → MAX_HEAR_TIME < |nt - at'| →
      ParentStep s (s.setParent (.kill i (.silent nt)))
  | killPid (s : HProcessPool n) (i : Fin n) (c : Caller) :
      s.parent = .kill i c → ParentStep s (s.setParent (.sigterm i (s.info i).pid c))
  | unuse (s : HProcessPool n) (i : Fin n) (pc pc' : SetInfoPc) (c : Caller) (info : CntlInfo) :
      s.parent = .unuse i pc c → SetInfoStep (s.info i) pc info (some pc') →
      ParentStep s ((s.setParent (.unuse i pc' c)).setInfo i info)
  | unused (s : HProcessPool n) (i : Fin n) (pc : SetInfoPc) (c : Caller) (info : CntlInfo) :
      s.parent = .unuse i pc c → SetInfoStep (s.info i) pc info none →
      ParentStep s ((s.setParent (afterKill i c)).setInfo i info)
  | destroy (s : HProcessPool n) : s.parent = .idle → ParentStep s (s.setParent (.destroy 0))
  | destroyKill (s : HProcessPool n) (i : Fin n) :
      s.parent = .destroy i → ParentStep s (s.setParent (.kill i .destructor))
  | destroyed (s : HProcessPool n) : s.parent = .destroy n → ParentStep s (s.setParent .gone)

/-- The two signals of `kill_child`. -/
inductive SignalStep (i : Fin n) (pid : Int) : HProcessPool n → HProcessPool n → Prop where
  | sigterm (s : HProcessPool n) (c : Caller) :
      s.parent = .sigterm i pid c → SignalStep i pid s (s.setParent (.sigkill i pid c))
  | sigkill (s : HProcessPool n) (c : Caller) :
      s.parent = .sigkill i pid c →
      SignalStep i pid s (s.setParent (.unuse i (.storeAt .CS_UNUSED) c))

inductive ChildStep (c : Nat) : HProcessPool n → HProcessPool n → Prop where
  | call (s : HProcessPool n) (p : Child n) (i : Fin n) (f : InfoCall) :
      s.child c = some p → p.call = none →
      ChildStep c s (s.setChild c (some { p with call := some (i, .storeAt f.status) }))
  | setInfo (s : HProcessPool n) (p : Child n) (i : Fin n) (pc pc' : SetInfoPc) (info : CntlInfo) :
      s.child c = some p → p.call = some (i, pc) → SetInfoStep (s.info i) pc info (some pc') →
      ChildStep c s ((s.setChild c (some { p with call := some (i, pc') })).setInfo i info)
  | return' (s : HProcessPool n) (p : Child n) (i : Fin n) (pc : SetInfoPc) (info : CntlInfo) :
      s.child c = some p → p.call = some (i, pc) → SetInfoStep (s.info i) pc info none →
      ChildStep c s ((s.setChild c (some { p with call := none })).setInfo i info)
  | exit (s : HProcessPool n) (p : Child n) :
      s.child c = some p → ChildStep c s (s.setChild c none)

def system (n : Nat) : TransitionSystem (HProcessPool n) (Action n) where
  init s := s = init n
  step
    | s, .parent, s' => ParentStep s s'
    | s, .signal i pid, s' => SignalStep i pid s s'
    | s, .child c, s' => ChildStep c s s'

/-- A child that stores a pid back stores the one that is there. -/
def StoresBack (s : HProcessPool n) (a : Action n) (_ : HProcessPool n) : Prop :=
  ∀ c p i status pid, a = .child c → s.child c = some p →
    p.call = some (i, .storePid status pid) → (s.info i).pid = pid

end HProcessPool

end Process
end Huicpp
