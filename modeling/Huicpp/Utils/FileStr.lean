import Mathlib
import Huicpp.Cxx.Files
import Huicpp.Cxx.Prog
import Huicpp.Str.Format

/-!
# Utils.FileStr

`HFileStr`, which writes strings to a file and reads a file into a string. A string is written with one
`write`, whose result nobody looks at; reading goes on until a `read` gives nothing or fails.

What the system answers to a call is an argument.

* `readString_returns`: whatever the sizes of the reads, the text read is what is ahead, or a part of it
  if a read fails.
* `text_written_read`: a file that is opened for output, written and read, in any order of the calls,
  and then opened for input.
-/

namespace Huicpp
namespace Utils

open Cxx Prog Str

/-- The codes of `HFileStr`. -/
inductive FileRet where
  | OK
  | SYS_FAILED
  | ERR_STATUS
  | IO_FAILED
  deriving DecidableEq, Repr

/-- An object, which has a descriptor or an invalid one. -/
abbrev HFileStr (ν : Type) := Option (Opened ν)

def rdonly : OpenFlags := ⟨false, false⟩

/-- `O_RDWR | O_CREAT` -/
def rdwrCreat : OpenFlags := ⟨true, true⟩

variable {ν : Type} [DecidableEq ν]

/-- `HFileHandle::Open` -/
def HFileStr.handleOpen (h : HFileStr ν) (fs : Files ν) (name : ν) (flags : OpenFlags)
    (permitted : Bool) : FileRet × HFileStr ν × Files ν :=
  match fs.sysOpen name flags permitted with
  | (some fd, fs) => (.OK, some fd, fs)
  | (none, fs) => (.SYS_FAILED, h, fs)

/-- `HFileStr::Open` -/
def HFileStr.openFile (h : HFileStr ν) (fs : Files ν) (name : ν) (flags : OpenFlags)
    (permitted : Bool) : FileRet × HFileStr ν × Files ν :=
  match h.handleOpen fs name flags permitted with
  | (.OK, none, fs) => (.ERR_STATUS, none, fs)
  | r => r

/-- `InOpen(strFileName)` -/
def HFileStr.inOpen (_h : HFileStr ν) (fs : Files ν) (name : ν) (permitted : Bool) :
    FileRet × HFileStr ν × Files ν :=
  HFileStr.openFile none fs name rdonly permitted

/-- `OutOpen(strFileName)`; `truncated` is whether `ftruncate` succeeds. -/
def HFileStr.outOpen (_h : HFileStr ν) (fs : Files ν) (name : ν) (permitted truncated : Bool) :
    FileRet × HFileStr ν × Files ν :=
  match HFileStr.openFile none fs name rdwrCreat permitted with
  | (.OK, some fd, fs) =>
    if truncated then (.OK, some fd, fs.truncate fd) else (.IO_FAILED, some fd, fs)
  | r => r

/-- `HFileHandle::WriteString`: what `Write` returns. `none` is a `write` that fails, and a number how
many bytes it takes at most. What `Sync` returns is ignored. -/
def writeString (fd : Opened ν) (fs : Files ν) (str : List Byte) (answer : Option Nat) :
    Int × Opened ν × Files ν :=
  match fd.writable, answer with
  | true, some n => ((str.take n).length, fs.write fd str n)
  | _, _ => (-1, fd, fs)

/-- `WriteFromString(str)` -/
def HFileStr.writeFromString (h : HFileStr ν) (fs : Files ν) (str : List Byte)
    (answer : Option Nat) : FileRet × HFileStr ν × Files ν :=
  match h with
  | none => (.ERR_STATUS, none, fs)
  | some fd =>
    let (_, fd, fs) := writeString fd fs str answer
    (.OK, some fd, fs)

/-- The variables of the loop of `ReadString`; `turn` counts the reads. -/
structure ReadLoop where
  pos : Nat
  str : List Byte
  turn : Nat
  deriving DecidableEq, Repr

/-- `Read(buf, HSTRING_LEN)`: what it returns. `none` is a read that fails, and a number how many bytes it
gives at most, of which there is one at least before the end of the file. -/
def readCount (content : List Byte) (pos : Nat) : Option Nat → Int
  | none => -1
  | some n => (min (max 1 n) (min hstringLen (content.length - pos)) : Nat)

def readTurn (content : List Byte) (answers : Nat → Option Nat) (s : ReadLoop) :
    Ctl ReadLoop ReadLoop :=
  let ret := readCount content s.pos (answers s.turn)
  if 0 < ret then
    .again ⟨s.pos + ret.toNat, s.str ++ (content.drop s.pos).take ret.toNat, s.turn + 1⟩
  else .exit s

/-- `HFileHandle::ReadString` -/
def readString (content : List Byte) (pos : Nat) (answers : Nat → Option Nat) : Prog ReadLoop :=
  loop (fun s => pure (readTurn content answers s)) ⟨pos, [], 0⟩

/-- `ReadToString(str)`: the code and `str`. -/
def HFileStr.readToString (h : HFileStr ν) (fs : Files ν) (str : List Byte)
    (answers : Nat → Option Nat) : Prog (FileRet × List Byte × HFileStr ν) :=
  match h with
  | none => pure (.ERR_STATUS, str, none)
  | some fd => do
    let s ← readString (fs.content fd.name) fd.pos answers
    return (.OK, s.str, some { fd with pos := s.pos })

/-! ## Reading -/

section Read

variable {content : List Byte} {answers : Nat → Option Nat} {s : ReadLoop}

theorem readTurn_ends (h : content.length ≤ s.pos) : readTurn content answers s = .exit s := by
  have hret : ¬ 0 < readCount content s.pos (answers s.turn) := by
    cases hans : answers s.turn with
    | none => simp [readCount]
    | some n =>
      simp only [readCount]
      omega
  rw [readTurn, if_neg hret]

theorem readTurn_goes_on (h : s.pos < content.length) {n : Nat} (hans : answers s.turn = some n) :
    ∃ k, 0 < k ∧ k ≤ content.length - s.pos ∧
      readTurn content answers s
        = .again ⟨s.pos + k, s.str ++ (content.drop s.pos).take k, s.turn + 1⟩ := by
  have hlen : 0 < hstringLen := by decide
  refine ⟨min (max 1 n) (min hstringLen (content.length - s.pos)), by omega, by omega, ?_⟩
  have hret : readCount content s.pos (answers s.turn)
      = (min (max 1 n) (min hstringLen (content.length - s.pos)) : Nat) := by
    rw [hans]
    rfl
  rw [readTurn, hret, if_pos (by omega), Int.toNat_natCast]

/-- From any turn: the loop ends, and has put the bytes between the two positions behind what it had.
The end of the file is reached unless a read fails. -/
theorem readLoop_returns (hpos : s.pos ≤ content.length) :
    ∃ t, Returns (loop (fun s => pure (readTurn content answers s)) s) t ∧ t.pos ≤ content.length ∧
      (∃ k, t.pos = s.pos + k ∧ t.str = s.str ++ (content.drop s.pos).take k) ∧
      ((∀ k, answers k ≠ none) → t.pos = content.length) := by
  induction hv : content.length - s.pos using Nat.strong_induction_on generalizing s with
  | _ v ih =>
    by_cases hend : content.length ≤ s.pos
    · have hexit : Returns (pure (readTurn content answers s) : Prog (Ctl ReadLoop ReadLoop))
          (.exit s) := by
        rw [readTurn_ends hend]
        exact .pure _
      exact ⟨s, .loop_exit hexit, hpos, ⟨0, rfl, by simp⟩, fun _ => Nat.le_antisymm hpos hend⟩
    · cases hans : answers s.turn with
      | none =>
        have hexit : Returns (pure (readTurn content answers s) : Prog (Ctl ReadLoop ReadLoop))
            (.exit s) := by
          rw [readTurn, hans]
          exact .pure _
        exact ⟨s, .loop_exit hexit, hpos, ⟨0, rfl, by simp⟩, fun hall => absurd hans (hall _)⟩
      | some n =>
        obtain ⟨k, hk, hkle, hturn⟩ := readTurn_goes_on (Nat.lt_of_not_le hend) hans
        have hagain : Returns (pure (readTurn content answers s) : Prog (Ctl ReadLoop ReadLoop))
            (.again ⟨s.pos + k, s.str ++ (content.drop s.pos).take k, s.turn + 1⟩) := by
          rw [hturn]
          exact .pure _
        obtain ⟨t, ht, htle, ⟨j, hj, hstr⟩, hall⟩ :=
          ih (content.length - (s.pos + k)) (by omega)
            (s := ⟨s.pos + k, s.str ++ (content.drop s.pos).take k, s.turn + 1⟩)
            (by show s.pos + k ≤ _; omega) rfl
        refine ⟨t, .loop_again hagain ht, htle, ⟨k + j, ?_, ?_⟩, hall⟩
        · rw [hj, Nat.add_assoc]
        · rw [hstr, List.append_assoc, ← List.drop_drop, List.take_add]

end Read

theorem readString_returns {content : List Byte} {pos : Nat} (hpos : pos ≤ content.length)
    (answers : Nat → Option Nat) :
    ∃ s, Returns (readString content pos answers) s ∧ pos ≤ s.pos ∧ s.pos ≤ content.length ∧
      s.str = (content.drop pos).take (s.pos - pos) ∧
      ((∀ k, answers k ≠ none) → s.pos = content.length ∧ s.str = content.drop pos) := by
  obtain ⟨s, hs, hle, ⟨k, hpos', hstr⟩, hall⟩ :=
    @readLoop_returns content answers ⟨pos, [], 0⟩ hpos
  have hk : s.pos - pos = k := by
    rw [hpos']
    exact Nat.add_sub_cancel_left pos k
  have hstr : s.str = (content.drop pos).take (s.pos - pos) := by
    rw [hk]
    exact hstr
  refine ⟨s, hs, ?_, hle, hstr, fun h => ⟨hall h, ?_⟩⟩
  · exact Nat.le.intro hpos'.symm
  · rw [hstr, hall h]
    exact List.take_of_length_le (Nat.le_of_eq List.length_drop)

/-! ## Sessions -/

/-- A call between opening the file for output and opening it for input. -/
inductive TextCall where
  | write (str : List Byte) (answer : Option Nat)
  | read (str : List Byte) (answers : Nat → Option Nat)

/-- What a call is to put into the file. -/
def TextCall.text : TextCall → List Byte
  | .write str _ => str
  | .read _ _ => []

/-- What the system takes of it. -/
def TextCall.taken : TextCall → List Byte
  | .write str answer => str.take (answer.getD 0)
  | .read _ _ => []

/-- The code, and for a read what was read. -/
def TextCall.run (call : TextCall) (h : HFileStr ν) (fs : Files ν) :
    Prog ((FileRet × List Byte) × HFileStr ν × Files ν) :=
  match call with
  | .write str answer =>
    let (ret, h, fs) := h.writeFromString fs str answer
    pure ((ret, []), h, fs)
  | .read str answers => do
    let (ret, str, h) ← h.readToString fs str answers
    return ((ret, str), h, fs)

def runCalls : List TextCall → HFileStr ν → Files ν →
    Prog (List (FileRet × List Byte) × HFileStr ν × Files ν)
  | [], h, fs => pure ([], h, fs)
  | call :: calls, h, fs => do
    let (r, h, fs) ← call.run h fs
    let (rs, h, fs) ← runCalls calls h fs
    return (r :: rs, h, fs)

/-- An object at the end of a file that it may write. -/
def atEnd (fs : Files ν) (name : ν) : HFileStr ν := some ⟨name, (fs.content name).length, true⟩

variable {fs : Files ν} {name : ν}

theorem writeFromString_end (hfile : fs name = some (fs.content name)) (str : List Byte)
    (answer : Option Nat) :
    let fs' := Function.update fs name (some (fs.content name ++ str.take (answer.getD 0)))
    (atEnd fs name).writeFromString fs str answer = (.OK, atEnd fs' name, fs') := by
  intro fs'
  have hend : atEnd fs' name
      = some ⟨name, (fs.content name ++ str.take (answer.getD 0)).length, true⟩ := by
    rw [atEnd, Files.content_update]
  rw [hend]
  cases answer with
  | none =>
    have hfs : fs' = fs := by
      show Function.update fs name (some (fs.content name ++ [])) = fs
      rw [List.append_nil, ← hfile]
      exact Function.update_eq_self name fs
    rw [hfs, Option.getD_none, List.take_zero, List.append_nil]
    rfl
  | some n =>
    have hwrite := @Files.write_end ν _ fs ⟨name, (fs.content name).length, true⟩ rfl str n
    exact congrArg (fun r : Opened ν × Files ν => (FileRet.OK, some r.1, r.2)) hwrite

omit [DecidableEq ν] in
theorem readToString_end (str : List Byte) (answers : Nat → Option Nat) :
    Returns ((atEnd fs name).readToString fs str answers) (.OK, [], atEnd fs name) := by
  obtain ⟨s, hs, hge, hle, hstr, -⟩ := readString_returns (Nat.le_refl (fs.content name).length) answers
  have hpos : s.pos = (fs.content name).length := Nat.le_antisymm hle hge
  have hstr : s.str = [] := by rw [hstr, hpos, Nat.sub_self, List.take_zero]
  have hret : Returns (pure (FileRet.OK, s.str, some { name := name, pos := s.pos, writable := true }) :
      Prog (FileRet × List Byte × HFileStr ν)) (.OK, [], atEnd fs name) := by
    rw [hstr, hpos]
    exact .pure _
  exact hs.bind hret

/-- The invariant of a session: the descriptor stays at the end of the file. -/
theorem TextCall.run_returns (call : TextCall) (hfile : fs name = some (fs.content name)) :
    let fs' := Function.update fs name (some (fs.content name ++ call.taken))
    Returns (call.run (atEnd fs name) fs) ((.OK, []), atEnd fs' name, fs') := by
  intro fs'
  cases call with
  | write str answer =>
    simp only [TextCall.run, writeFromString_end hfile str answer]
    exact .pure _
  | read str answers =>
    have hfs : fs' = fs := by
      show Function.update fs name (some (fs.content name ++ [])) = fs
      rw [List.append_nil, ← hfile]
      exact Function.update_eq_self name fs
    rw [hfs]
    exact (readToString_end str answers).bind (.pure _)

theorem runCalls_returns (calls : List TextCall) (hfile : fs name = some (fs.content name)) :
    let fs' := Function.update fs name (some (fs.content name ++ calls.flatMap TextCall.taken))
    Returns (runCalls calls (atEnd fs name) fs)
      (calls.map fun _ => (.OK, []), atEnd fs' name, fs') := by
  induction calls generalizing fs with
  | nil =>
    have hsame : Function.update fs name (some (fs.content name ++ [])) = fs := by
      rw [List.append_nil, ← hfile]
      exact Function.update_eq_self name fs
    intro fs'
    rw [show fs' = fs from hsame]
    exact .pure _
  | cons call calls ih =>
    have hcall := call.run_returns hfile
    have htaken : Function.update fs name (some (fs.content name ++ call.taken)) name
        = some (Files.content (Function.update fs name (some (fs.content name ++ call.taken))) name) := by
      rw [Files.content_update, Function.update_self]
    have hrest := ih htaken
    simp only [Files.content_update, Function.update_idem] at hrest
    rw [List.flatMap_cons, ← List.append_assoc]
    exact hcall.bind (hrest.bind (.pure _))

theorem taken_eq_text_iff (calls : List TextCall) :
    calls.flatMap TextCall.taken = calls.flatMap TextCall.text ↔
      ∀ call ∈ calls, call.taken = call.text := by
  have hle : ∀ call : TextCall, call.taken.length ≤ call.text.length := fun call => by
    cases call with
    | write str answer => exact List.length_take_le' _ _
    | read str answers => exact Nat.le_refl 0
  have hall : ∀ cs : List TextCall,
      (cs.flatMap TextCall.taken).length ≤ (cs.flatMap TextCall.text).length := fun cs => by
    induction cs with
    | nil => exact Nat.le_refl 0
    | cons c cs ih =>
      rw [List.flatMap_cons, List.flatMap_cons, List.length_append, List.length_append]
      exact Nat.add_le_add (hle c) ih
  induction calls with
  | nil => simp
  | cons call calls ih =>
    rw [List.flatMap_cons, List.flatMap_cons, List.forall_mem_cons]
    refine Iff.trans ?_ (and_congr_right' ih)
    constructor
    · intro h
      have hlen := congrArg List.length h
      rw [List.length_append, List.length_append] at hlen
      have hcall := hle call
      have hcalls := hall calls
      exact List.append_inj h (by omega)
    · rintro ⟨hcall, hcalls⟩
      rw [hcall, hcalls]

theorem outOpen_opened (h : HFileStr ν) (fs : Files ν) (name : ν) :
    let fs' := Function.update fs name (some [])
    h.outOpen fs name true true = (.OK, atEnd fs' name, fs') := by
  have hopen := @Files.sysOpen_creat ν _ fs name rdwrCreat rfl
  simp only [HFileStr.outOpen, HFileStr.openFile, HFileStr.handleOpen, hopen, if_true,
    Files.truncate, Function.update_idem, atEnd, Files.content_update]
  rfl

theorem inOpen_opened (h : HFileStr ν) {bytes : List Byte} (hfile : fs name = some bytes) :
    h.inOpen fs name true = (.OK, some ⟨name, 0, false⟩, fs) := by
  simp only [HFileStr.inOpen, HFileStr.openFile, HFileStr.handleOpen,
    Files.sysOpen_there rdonly hfile]
  rfl

/-- **Text files.** A file is opened for output, then there are writes and reads in any order, then it is
opened for input and read. All calls return OK, whatever the system answers to `write` and `read`, and no
other file is touched. The file holds what the system took of the strings, one behind the other; what
is read is that or, if a read fails, a prefix of it. It is what was to be written exactly if the system
took all of every string. -/
theorem text_written_read (h : HFileStr ν) (fs : Files ν) (name : ν) (calls : List TextCall)
    (str : List Byte) (answers : Nat → Option Nat) :
    ∃ h₁ fs₁ h₂ fs₂ h₃,
      h.outOpen fs name true true = (.OK, h₁, fs₁) ∧
      Returns (runCalls calls h₁ fs₁) (calls.map fun _ => (.OK, []), h₂, fs₂) ∧
      fs₂ = Function.update fs name (some (calls.flatMap TextCall.taken)) ∧
      h₂.inOpen fs₂ name true = (.OK, h₃, fs₂) ∧
      ∃ text h₄, Returns (h₃.readToString fs₂ str answers) (.OK, text, h₄) ∧
        text <+: calls.flatMap TextCall.taken ∧
        ((∀ k, answers k ≠ none) →
          text = calls.flatMap TextCall.taken ∧
          (text = calls.flatMap TextCall.text ↔ ∀ call ∈ calls, call.taken = call.text)) := by
  have hempty : (Function.update fs name (some [])) name
      = some (Files.content (Function.update fs name (some [])) name) := by
    rw [Files.content_update, Function.update_self]
  have hrun := runCalls_returns calls hempty
  simp only [Files.content_update, Function.update_idem, List.nil_append] at hrun
  have hfile : (Function.update fs name (some (calls.flatMap TextCall.taken))) name
      = some (calls.flatMap TextCall.taken) := Function.update_self _ _ _
  refine ⟨_, _, _, _, _, outOpen_opened h fs name, hrun, rfl, inOpen_opened _ hfile, ?_⟩
  obtain ⟨s, hs, -, -, hpart, hwhole⟩ :=
    readString_returns (Nat.zero_le (calls.flatMap TextCall.taken).length) answers
  have hcontent : Files.content (Function.update fs name (some (calls.flatMap TextCall.taken))) name
      = calls.flatMap TextCall.taken := Files.content_update _
  rw [← hcontent] at hs
  refine ⟨s.str, _, hs.bind (.pure _), ?_, fun hall => ?_⟩
  · rw [hpart]
    exact List.take_prefix _ _
  · rw [(hwhole hall).2]
    exact ⟨rfl, taken_eq_text_iff calls⟩

end Utils
end Huicpp
