import Mathlib
import Huicpp.Cxx.Directory
import Huicpp.Cxx.TransitionSystem
import Huicpp.Log.RollStrategy

/-!
# Log.LogFile

`LogFile`: messages are appended through a descriptor, and before that the log may roll over: a new
file is opened and put under the descriptor, and the old one is renamed to a backup.

Times are microseconds, and `localtime_r` is a parameter. A write comes with a reading of the clock,
which is used where the strategy is touched. `written` records the writes, which are numbered, and
`retired` the files that the retention of backups has removed.
-/

namespace Huicpp
namespace Log

open Cxx

/-- What a `LogFile` is constructed with, and the local time of each second. -/
structure LogConfig where
  m_filename : String
  m_value : RolloverValue
  localtime : Int → Tm

structure LogMessage where
  m_time : Int
  m_message : String
  deriving DecidableEq, Repr

/-- A message in a file, with the number of its write. -/
structure Record where
  number : Nat
  message : LogMessage
  deriving DecidableEq, Repr

structure LogFile where
  m_mtTime : Int
  m_backup_logs : List String
  fd : Nat
  directory : Directory String Record
  clock : Int
  written : List Record
  retired : List Nat

namespace LogFile

def DEFAULT_BACKUP_LOG_COUNT : Nat := 7

variable (C : LogConfig)

def getTimeTm (mt : Int) : Tm := C.localtime (mt / 1000000)

/-- `NeedRollback` of a strategy touched at `me`. -/
def needRollback (me mt : Int) : Bool :=
  Log.needRollback C.m_value (getTimeTm C me) (getTimeTm C mt)

/-- `GetFileName` of a strategy touched at `me`. -/
def getFileName (me : Int) (endstr : String) : String :=
  Log.getFileName C.m_filename C.m_value (getTimeTm C me) endstr

/-- The constructor and `Init`, in a directory that may hold files. -/
def init (directory : Directory String Record) (now : Int) : LogFile :=
  let (fd, directory) := directory.openAppend (getFileName C now "")
  { m_mtTime := now
    m_backup_logs := []
    fd := fd
    directory := directory
    clock := now
    written := []
    retired := [] }

/-- `Dup2`: the descriptor refers to the file under the name. -/
def dup2 (strFileName : String) (s : LogFile) : LogFile :=
  let (fd, directory) := s.directory.openAppend strFileName
  { s with fd := fd, directory := directory }

/-- The oldest backup is removed if there are too many. -/
def retain (s : LogFile) : LogFile :=
  match s.m_backup_logs with
  | [] => s
  | strOldFileName :: rest =>
    if DEFAULT_BACKUP_LOG_COUNT < s.m_backup_logs.length ∧ C.m_value = .DAY then
      { s with
        directory := s.directory.remove strOldFileName
        m_backup_logs := rest
        retired := s.retired ++ (s.directory.file strOldFileName).toList }
    else s

/-- `doRollback` under the mutex, with the clock at `now`. -/
def doRollback (mt now : Int) (s : LogFile) : LogFile :=
  if needRollback C s.m_mtTime mt then
    let strSrcFileName := getFileName C s.m_mtTime ""
    let strNewFileName := getFileName C s.m_mtTime "bak"
    let s := { s with m_mtTime := now }
    let strFileName := getFileName C s.m_mtTime ""
    let s := s.dup2 strFileName
    let s := { s with directory := s.directory.rename strSrcFileName strNewFileName }
    let s := { s with m_backup_logs := s.m_backup_logs ++ [strNewFileName] }
    s.retain C
  else s

def rollBack (mt now : Int) (s : LogFile) : LogFile :=
  if needRollback C s.m_mtTime mt then doRollback C mt now s else s

/-- `WriteString` of the message. -/
def writeString (msg : LogMessage) (s : LogFile) : LogFile :=
  let record := ⟨s.written.length, msg⟩
  { s with
    directory := s.directory.append s.fd record
    written := s.written ++ [record] }

def write (msg : LogMessage) (now : Int) (s : LogFile) : LogFile :=
  (rollBack C msg.m_time now s).writeString msg

/-- A write with the clock at `a.2`. -/
def next (a : LogMessage × Int) (s : LogFile) : LogFile := { write C a.1 a.2 s with clock := a.2 }

/-- Writes of any messages, while the clock goes on. -/
def system : TransitionSystem LogFile (LogMessage × Int) where
  init s := ∃ directory now, s = init C directory now
  step s a s' := s.clock ≤ a.2 ∧ s' = next C a s

/-- The directory holds the file of the descriptor under the name of the log, and every record
written is in one of its files, or in one that the retention has removed. -/
structure Kept (s : LogFile) : Prop where
  current : s.directory.file (getFileName C s.m_mtTime "") = some s.fd
  written : ∀ r ∈ s.written, ∃ i, r ∈ s.directory.content i ∧
    ((∃ n, s.directory.file n = some i) ∨ C.m_value = .DAY ∧ i ∈ s.retired)

/-- A message that makes the log roll over finds the clock in a period of another name, and no record
in another file under the name that the old file gets. -/
def RollsOn (s : LogFile) (a : LogMessage × Int) : Prop :=
  needRollback C s.m_mtTime a.1.m_time = true →
    getFileName C a.2 "" ≠ getFileName C s.m_mtTime "" ∧
      ∀ i, s.directory.file (getFileName C s.m_mtTime "bak") = some i → i ≠ s.fd →
        ∀ r ∈ s.written, r ∉ s.directory.content i

end LogFile

end Log
end Huicpp
