import Mathlib
import Huicpp.Cxx.Interference
import Huicpp.Cxx.SystemV

/-!
# Ipc.InitCalls

`ipc_basic::Init`, and what `HShareMemory`, `HSemaphore` and `HMessageQueue` put into it: their
`create` and `open`. Every function is the calls that it makes to the kernel; a write through
`m_shm_ptr` is one too.
-/

namespace Huicpp
namespace Ipc

open Cxx Cxx.SystemV

inductive RET_T where
  | OK
  | SYS_FAILED
  | SRC_ERR
  | ERR_STATUS
  deriving DecidableEq, Repr

/-- Calls to the kernel. -/
abbrev Sys (β : Type) := Calls Call Answer β

def sys (c : Call) : Sys Answer := Calls.lift c

/-- `ipc_basic`. -/
structure IpcBasic where
  m_key : Int
  m_id : Int
  m_flag : BitVec 32
  deriving DecidableEq, Repr

namespace IpcBasic

def DEF_ID_VAL : Int := -1

def hasInited (o : IpcBasic) : Bool := o.m_id != DEF_ID_VAL

/-- `Init()`, over the virtual functions of the class. -/
def init {H : Type} (create open' : H → Sys (RET_T × H)) (o : H) : Sys (RET_T × H) := do
  let (create_ret, o) ← create o
  if create_ret = .SYS_FAILED then return (.SYS_FAILED, o)
  if create_ret ≠ .OK then
    let (open_ret, o) ← open' o
    if open_ret ≠ .OK then return (open_ret, o)
    return (.OK, o)
  return (.OK, o)

end IpcBasic

structure HShareMemory extends IpcBasic where
  m_size : Nat
  m_shm_ptr : SystemV.Ptr
  deriving DecidableEq, Repr

namespace HShareMemory

def new (key : Int) (shmsize : Nat) (flag : BitVec 32) : HShareMemory :=
  ⟨⟨key, IpcBasic.DEF_ID_VAL, flag⟩, shmsize, .null⟩

def setId (o : HShareMemory) (id : Int) : HShareMemory := { o with m_id := id }

def setPtr (o : HShareMemory) (ptr : SystemV.Ptr) : HShareMemory := { o with m_shm_ptr := ptr }

def dettach (o : HShareMemory) : Sys (RET_T × HShareMemory) := do
  if ¬ o.hasInited then return (.SRC_ERR, o)
  if o.m_shm_ptr ≠ .null then
    let cb ← sys (.shmdt o.m_shm_ptr)
    if cb.value < 0 then return (.SYS_FAILED, o)
    return (.OK, o.setPtr .null)
  return (.OK, o)

/-- `control(IPC_RMID)`. -/
def control (o : HShareMemory) : Sys RET_T := do
  if ¬ o.hasInited then return .SRC_ERR
  let cb ← sys (.rmid o.m_id)
  if ¬ 0 ≤ cb.value then return .SYS_FAILED
  return .OK

def remove (o : HShareMemory) : Sys (RET_T × HShareMemory) := do
  if ¬ o.hasInited then return (.ERR_STATUS, o)
  let (_, o) ← o.dettach
  let _ ← o.control
  return (.OK, o.setId IpcBasic.DEF_ID_VAL)

def create (o : HShareMemory) : Sys (RET_T × HShareMemory) := do
  if o.hasInited then return (.OK, o)
  let shmid ← sys (.get o.m_key o.m_size (o.m_flag ||| IPC_CREAT ||| 600#32))
  if shmid.value < 0 then
    if shmid.errno = .EEXIST then return (.SYS_FAILED, o)
    return (.SRC_ERR, o)
  let o := o.setId shmid.value
  let ptr ← sys (.shmat o.m_id)
  if ptr.value = -1 then
    let (_, o) ← (o.setPtr .failed).remove
    return (.SYS_FAILED, o)
  let o := o.setPtr (.segment o.m_id)
  let _ ← sys (.memset o.m_shm_ptr o.m_size)
  return (.OK, o)

def open' (o : HShareMemory) : Sys (RET_T × HShareMemory) := do
  if o.hasInited then return (.OK, o)
  let shmid ← sys (.get o.m_key o.m_size o.m_flag)
  if ¬ shmid.value > 0 then return (.SYS_FAILED, o)
  let o := o.setId shmid.value
  let ptr ← sys (.shmat o.m_id)
  if ptr.value = -1 then
    let (_, o) ← (o.setPtr .failed).remove
    return (.SYS_FAILED, o)
  return (.OK, o.setPtr (.segment o.m_id))

def init : HShareMemory → Sys (RET_T × HShareMemory) := IpcBasic.init create open'

end HShareMemory

structure HSemaphore extends IpcBasic where
  m_nsems : Nat
  deriving DecidableEq, Repr

namespace HSemaphore

def new (key : Int) (nsems : Nat) (semflag : BitVec 32) : HSemaphore :=
  ⟨⟨key, IpcBasic.DEF_ID_VAL, semflag⟩, nsems⟩

def setId (o : HSemaphore) (id : Int) : HSemaphore := { o with m_id := id }

def create (o : HSemaphore) : Sys (RET_T × HSemaphore) := do
  if o.hasInited then return (.OK, o)
  let semid ← sys (.get o.m_key o.m_nsems (o.m_flag ||| IPC_CREAT ||| IPC_EXCL))
  if ¬ (semid.value > 0 ∨ semid.errno ≠ .EEXIST) then return (.SRC_ERR, o)
  if ¬ semid.value > 0 then return (.SYS_FAILED, o)
  return (.OK, o.setId semid.value)

def open' (o : HSemaphore) : Sys (RET_T × HSemaphore) := do
  if o.hasInited then return (.OK, o)
  let semid ← sys (.get o.m_key 0 o.m_flag)
  if ¬ semid.value > 0 then return (.SYS_FAILED, o)
  return (.OK, o.setId semid.value)

def init : HSemaphore → Sys (RET_T × HSemaphore) := IpcBasic.init create open'

end HSemaphore

structure HMessageQueue extends IpcBasic where
  deriving DecidableEq, Repr

namespace HMessageQueue

def new (key : Int) (flag : BitVec 32) : HMessageQueue := ⟨⟨key, IpcBasic.DEF_ID_VAL, flag⟩⟩

def setId (o : HMessageQueue) (id : Int) : HMessageQueue := { o with m_id := id }

/-- A queue has no size. -/
def create (o : HMessageQueue) : Sys (RET_T × HMessageQueue) := do
  if o.hasInited then return (.OK, o)
  let msgid ← sys (.get o.m_key 0 (o.m_flag ||| IPC_CREAT ||| 600#32))
  if msgid.value < 0 then
    if msgid.errno = .EEXIST then return (.SYS_FAILED, o)
    return (.SRC_ERR, o)
  return (.OK, o.setId msgid.value)

def open' (o : HMessageQueue) : Sys (RET_T × HMessageQueue) := do
  if o.hasInited then return (.OK, o)
  let msgid ← sys (.get o.m_key 0 o.m_flag)
  if ¬ msgid.value > 0 then return (.SYS_FAILED, o)
  return (.OK, o.setId msgid.value)

def init : HMessageQueue → Sys (RET_T × HMessageQueue) := IpcBasic.init create open'

end HMessageQueue

/-! ## The three classes -/

inductive Kind where
  | shareMemory
  | semaphore
  | messageQueue
  deriving DecidableEq, Repr

@[reducible] def Handle : Kind → Type
  | .shareMemory => HShareMemory
  | .semaphore => HSemaphore
  | .messageQueue => HMessageQueue

namespace Handle

def base : {kind : Kind} → Handle kind → IpcBasic
  | .shareMemory, o => HShareMemory.toIpcBasic o
  | .semaphore, o => HSemaphore.toIpcBasic o
  | .messageQueue, o => HMessageQueue.toIpcBasic o

/-- How large an object has to be. -/
def size : {kind : Kind} → Handle kind → Nat
  | .shareMemory, o => HShareMemory.m_size o
  | .semaphore, o => HSemaphore.m_nsems o
  | .messageQueue, _ => 0

/-- `Init()`. -/
def init : {kind : Kind} → Handle kind → Sys (RET_T × Handle kind)
  | .shareMemory, o => HShareMemory.init o
  | .semaphore, o => HSemaphore.init o
  | .messageQueue, o => HMessageQueue.init o

end Handle

/-- Any number of processes call `Init` on handles, on one table; others write to the objects. -/
def inits (ι : Type) [DecidableEq ι] (kind : Kind) :=
  SharedBy.system ι (@Handle.init kind) Answers Table.Written

end Ipc
end Huicpp
