import Mathlib
import Huicpp.Cxx.FdSet

/-!
# Net.NonBlocking

The status flags of a descriptor: a word whose sign bit is clear, of which `F_SETFL` replaces the
settable bits. `SetNonblocked(false)` means to clear `O_NONBLOCK` with `flags | ~O_NONBLOCK`, which
sets every other bit and leaves this one, so that `ConnectWithTimeOut` gives the flags back as they
were only if it had no need to change them. A connection that is not made at once is waited for with
an `fd_set`, whatever the number of the descriptor.
-/

namespace Huicpp
namespace Net

open Cxx

/-- The codes of the functions of a socket. `threw` stands for an exception. -/
inductive SockRet where
  | ok
  | errStatus
  | srcErr
  | sysFailed
  | timeOut
  | networkError
  | threw
  deriving DecidableEq, Repr

def oAppend : BitVec 32 := 0o2000
def oNonblock : BitVec 32 := BitVec.twoPow 32 11
def oAsync : BitVec 32 := 0o20000
def oDirect : BitVec 32 := 0o40000
def oNoatime : BitVec 32 := 0o1000000

/-- The flags that `F_SETFL` can change. -/
def settable : BitVec 32 := oAppend ||| oNonblock ||| oAsync ||| oDirect ||| oNoatime

/-- What `F_SETFL` with `given` makes of the flags. -/
def setFl (flags given : BitVec 32) : BitVec 32 :=
  (flags &&& ~~~settable) ||| (given &&& settable)

theorem getLsbD_setFl (flags given : BitVec 32) {i : Nat} (hi : i < 32) :
    (setFl flags given).getLsbD i =
      if settable.getLsbD i then given.getLsbD i else flags.getLsbD i := by
  simp only [setFl, BitVec.getLsbD_or, BitVec.getLsbD_and, BitVec.getLsbD_not, hi, decide_true,
    Bool.true_and]
  cases settable.getLsbD i with
  | false => simp
  | true => simp

theorem setFl_msb {flags : BitVec 32} (h : flags.msb = false) (given : BitVec 32) :
    (setFl flags given).msb = false := by
  rw [BitVec.msb_eq_getLsbD_last] at h ⊢
  rw [getLsbD_setFl _ _ (by decide)]
  exact h

/-- A descriptor. Its flags are no negative number. -/
structure IoFd where
  fd : Int
  flags : BitVec 32
  nonneg : flags.msb = false

namespace IoFd

def isInvalid (s : IoFd) : Bool := s.fd = -1

/-- `fcntl(Fd(), F_SETFL, given)`, with its result. -/
def fcntlSetFl (s : IoFd) (given : BitVec 32) : Int × IoFd :=
  (0, { s with flags := setFl s.flags given, nonneg := setFl_msb s.nonneg given })

/-- `IsNonblocked` of a valid descriptor. -/
def isNonblocked (s : IoFd) : Bool := s.flags &&& oNonblock ≠ 0

def setNonblocked (s : IoFd) (bFlag : Bool) : SockRet × IoFd :=
  if s.isInvalid then (.srcErr, s)
  else if s.flags.toInt < 0 then (.sysFailed, s)
  else if bFlag && s.isNonblocked then (.ok, s)
  else if !bFlag && !s.isNonblocked then (.ok, s)
  else if bFlag then
    let (ret, s') := s.fcntlSetFl (s.flags ||| oNonblock)
    if 0 ≤ ret then (.ok, s') else (.sysFailed, s')
  else
    let (ret, s') := s.fcntlSetFl (s.flags ||| ~~~oNonblock)
    if 0 < ret then (.ok, s') else (.sysFailed, s')

end IoFd

/-! ## Connecting -/

/-- How `addr.Connect` ends. -/
inductive ConnectResult where
  | ok
  | failed
  | throws
  deriving DecidableEq, Repr

inductive Errno where
  | eintr
  | ehostunreach
  | other
  deriving DecidableEq, Repr

structure SelectResult where
  cb : Int
  errno : Errno
  deriving DecidableEq, Repr

/-- What the system answers in one round of the loop: `errno` and `iError` are what the code finds
after `select`. -/
structure Answers where
  connect : ConnectResult
  selects : List SelectResult
  errno : Errno
  iError : Int
  deriving DecidableEq, Repr

/-- The inner loop, which calls `select` again when it was interrupted. `none`: the answers do not
suffice for it to end. -/
def selectLoop : List SelectResult → Option (Except SockRet Int)
  | [] => none
  | r :: rs =>
    if r.cb < 0 then
      if r.errno = .eintr then selectLoop rs else some (.error .sysFailed)
    else some (.ok r.cb)

/-- `FD_SET` comes before the first `select` of a round, and writes behind a set that has no bit for the
descriptor. -/
def connectLoop (fd : Int) : List Answers → Option (Outcome SockRet)
  | [] => none
  | a :: as =>
    match a.connect with
    | .ok => some (.ok .ok)
    | .throws => some (.ok .threw)
    | .failed =>
      if InFdSet fd then
        match selectLoop a.selects with
        | none => none
        | some (.error ret) => some (.ok ret)
        | some (.ok cb) =>
          if cb = 0 then some (.ok .timeOut)
          else if a.errno = .ehostunreach then some (.ok .networkError)
          else if a.iError = 0 then connectLoop fd as
          else some (.ok .networkError)
      else some (.undef .outOfBounds)

/-- The guard restores the mode on every way out of the loop. -/
def connectWithTimeOut (s : IoFd) (answers : List Answers) : Option (Outcome (SockRet × IoFd)) :=
  if s.isInvalid then some (.ok (.errStatus, s))
  else
    let bHasSet := !s.isNonblocked
    let s' := if bHasSet then (s.setNonblocked true).2 else s
    match connectLoop s.fd answers with
    | none => none
    | some o => some do
      let ret ← o
      pure (ret, if bHasSet then (s'.setNonblocked false).2 else s')

/-- The first `Connect` does not fail. -/
def AtOnce (answers : List Answers) : Prop := ∃ a as, answers = a :: as ∧ a.connect ≠ .failed

/-! ## Which modes are set -/

namespace IoFd

variable {s : IoFd}

theorem isNonblocked_eq (s : IoFd) : s.isNonblocked = s.flags.getLsbD 11 := by
  rw [isNonblocked, oNonblock, BitVec.and_twoPow]
  cases s.flags.getLsbD 11 with
  | false => rfl
  | true => rfl

theorem flags_nonneg (s : IoFd) : ¬ s.flags.toInt < 0 :=
  not_lt.mpr (BitVec.toInt_nonneg_of_msb_false s.nonneg)

/-- Every flag but `O_NONBLOCK` is the same. -/
def SameButMode (s s' : IoFd) : Prop :=
  ∀ i < 32, i ≠ 11 → s'.flags.getLsbD i = s.flags.getLsbD i

/-- Success, with the mode as asked for and the other flags as they were. -/
def ModeSet (s : IoFd) (b : Bool) : Prop :=
  (s.setNonblocked b).1 = .ok ∧ (s.setNonblocked b).2.isNonblocked = b ∧
    SameButMode s (s.setNonblocked b).2

theorem setNonblocked_same {b : Bool} (hvalid : s.isInvalid = false) (h : s.isNonblocked = b) :
    s.setNonblocked b = (.ok, s) := by
  rw [setNonblocked, hvalid, if_neg Bool.false_ne_true, if_neg s.flags_nonneg, h]
  cases b with
  | false => rfl
  | true => rfl

theorem setNonblocked_true (hvalid : s.isInvalid = false) (h : s.isNonblocked = false) :
    s.setNonblocked true = (.ok, (s.fcntlSetFl (s.flags ||| oNonblock)).2) := by
  rw [setNonblocked, hvalid, if_neg Bool.false_ne_true, if_neg s.flags_nonneg, h]
  rfl

theorem setNonblocked_false (hvalid : s.isInvalid = false) (h : s.isNonblocked = true) :
    s.setNonblocked false = (.sysFailed, (s.fcntlSetFl (s.flags ||| ~~~oNonblock)).2) := by
  rw [setNonblocked, hvalid, if_neg Bool.false_ne_true, if_neg s.flags_nonneg, h]
  rfl

theorem getLsbD_fcntlSetFl (s : IoFd) (given : BitVec 32) {i : Nat} (hi : i < 32) :
    (s.fcntlSetFl given).2.flags.getLsbD i =
      if settable.getLsbD i then given.getLsbD i else s.flags.getLsbD i :=
  getLsbD_setFl _ _ hi

theorem settable_mode : settable.getLsbD 11 = true := by decide

theorem modeSet_true (hvalid : s.isInvalid = false) (h : s.isNonblocked = false) :
    ModeSet s true := by
  have hset := setNonblocked_true hvalid h
  refine ⟨by rw [hset], ?_, fun i hi hne => ?_⟩
  · rw [hset, isNonblocked_eq, getLsbD_fcntlSetFl _ _ (by decide), settable_mode, if_pos rfl,
      BitVec.getLsbD_or, oNonblock, BitVec.getLsbD_twoPow, Bool.or_eq_true]
    exact .inr rfl
  · rw [hset, getLsbD_fcntlSetFl _ _ hi, BitVec.getLsbD_or, oNonblock, BitVec.getLsbD_twoPow,
      decide_eq_false hne.symm, Bool.and_false, Bool.or_false, ite_self]

/-- Clearing it leaves the descriptor in non-blocking mode. -/
theorem setNonblocked_false_mode (hvalid : s.isInvalid = false) (h : s.isNonblocked = true) :
    (s.setNonblocked false).2.isNonblocked = true := by
  rw [setNonblocked_false hvalid h, isNonblocked_eq, getLsbD_fcntlSetFl _ _ (by decide),
    settable_mode, if_pos rfl, BitVec.getLsbD_or, ← isNonblocked_eq, h, Bool.true_or]

theorem modeSet_iff (hvalid : s.isInvalid = false) (b : Bool) :
    ModeSet s b ↔ b = true ∨ s.isNonblocked = false := by
  by_cases hsame : s.isNonblocked = b
  · have hset := setNonblocked_same hvalid hsame
    refine iff_of_true ⟨by rw [hset], by rw [hset, hsame], fun i _ _ => by rw [hset]⟩ ?_
    cases b with
    | false => exact .inr hsame
    | true => exact .inl rfl
  · cases b with
    | true => exact iff_of_true (modeSet_true hvalid (Bool.eq_false_of_not_eq_true hsame)) (.inl rfl)
    | false =>
      have hnon : s.isNonblocked = true := Bool.eq_true_of_not_eq_false hsame
      refine iff_of_false (fun hset => ?_) (by simp [hnon])
      rw [ModeSet, setNonblocked_false_mode hvalid hnon] at hset
      exact Bool.false_ne_true hset.2.1.symm

theorem connectLoop_ends {fd : Int} {answers : List Answers} {o : Outcome SockRet}
    (h : connectLoop fd answers = some o) (hdef : AtOnce answers ∨ InFdSet fd) : ∃ ret, o = .ok ret := by
  induction answers with
  | nil => cases h
  | cons a as ih =>
    rw [connectLoop] at h
    split at h
    · exact ⟨_, (Option.some.inj h).symm⟩
    · exact ⟨_, (Option.some.inj h).symm⟩
    · rename_i hfailed
      have hfd : InFdSet fd := by
        refine hdef.resolve_left ?_
        rintro ⟨a', as', heq, hne⟩
        obtain ⟨rfl, rfl⟩ := List.cons.inj heq
        exact hne hfailed
      rw [if_pos hfd] at h
      split at h
      · cases h
      · exact ⟨_, (Option.some.inj h).symm⟩
      · split_ifs at h
        · exact ⟨_, (Option.some.inj h).symm⟩
        · exact ⟨_, (Option.some.inj h).symm⟩
        · exact ih h (.inr hfd)
        · exact ⟨_, (Option.some.inj h).symm⟩

theorem connectLoop_undef {fd : Int} {a : Answers} {as : List Answers} (hfd : ¬ InFdSet fd)
    (hfailed : a.connect = .failed) : connectLoop fd (a :: as) = some (.undef .outOfBounds) := by
  rw [connectLoop, hfailed]
  exact if_neg hfd

/-- The call ends with the flags that it found. -/
def Restores (s : IoFd) (o : Outcome (SockRet × IoFd)) : Prop :=
  ∃ ret s', o = .ok (ret, s') ∧ s'.flags = s.flags

theorem not_restored (hvalid : s.isInvalid = false) (hmode : s.isNonblocked = false) :
    ((s.setNonblocked true).2.setNonblocked false).2.flags ≠ s.flags := by
  intro hsame
  have hset := modeSet_true hvalid hmode
  have hvalid' : (s.setNonblocked true).2.isInvalid = false := by
    rw [setNonblocked_true hvalid hmode]
    exact hvalid
  have hend := setNonblocked_false_mode hvalid' hset.2.1
  rw [isNonblocked_eq, hsame, ← isNonblocked_eq, hmode] at hend
  cases hend

/-- The way out is defined, and the flags are those that were found, exactly if the descriptor was in
non-blocking mode and the connection is made at once or can be waited for. -/
theorem restored_iff (hvalid : s.isInvalid = false) {answers : List Answers}
    {o : Outcome (SockRet × IoFd)} (h : connectWithTimeOut s answers = some o) :
    Restores s o ↔ s.isNonblocked = true ∧ (AtOnce answers ∨ InFdSet s.fd) := by
  rw [connectWithTimeOut, hvalid, if_neg Bool.false_ne_true] at h
  cases hloop : connectLoop s.fd answers with
  | none =>
    simp only [hloop] at h
    cases h
  | some o' =>
    simp only [hloop, Option.some.injEq] at h
    by_cases hdef : AtOnce answers ∨ InFdSet s.fd
    · obtain ⟨ret, rfl⟩ := connectLoop_ends hloop hdef
      cases hmode : s.isNonblocked with
      | true =>
        rw [hmode] at h
        exact iff_of_true ⟨ret, s, h.symm, rfl⟩ ⟨rfl, hdef⟩
      | false =>
        rw [hmode] at h
        refine iff_of_false ?_ fun hboth => Bool.false_ne_true hboth.1
        rintro ⟨ret', s', rfl, hflags⟩
        obtain ⟨-, rfl⟩ := Prod.mk.inj (Outcome.ok.inj h)
        exact not_restored hvalid hmode hflags
    · refine iff_of_false ?_ fun hboth => hdef hboth.2
      rintro ⟨ret', s', rfl, -⟩
      rw [not_or] at hdef
      cases answers with
      | nil => cases hloop
      | cons a as =>
        have hfailed : a.connect = .failed := by
          by_contra hne
          exact hdef.1 ⟨a, as, rfl, hne⟩
        rw [connectLoop_undef hdef.2 hfailed] at hloop
        obtain rfl := Option.some.inj hloop
        cases h

end IoFd

/-- The mode is set as asked for exactly if it is to be set or is clear already. Connecting gives the
flags back exactly if the descriptor is in non-blocking mode, and the connection is made at once or an
`fd_set` has a bit for the descriptor. -/
theorem blocking_mode_restored (s : IoFd) (hvalid : s.isInvalid = false) :
    (∀ b, s.ModeSet b ↔ b = true ∨ s.isNonblocked = false) ∧
    ∀ answers o, connectWithTimeOut s answers = some o →
      (s.Restores o ↔ s.isNonblocked = true ∧ (AtOnce answers ∨ InFdSet s.fd)) :=
  ⟨IoFd.modeSet_iff hvalid, fun _ _ h => IoFd.restored_iff hvalid h⟩

/-- A descriptor in non-blocking mode gets its flags back from a connection that times out. -/
theorem blocking_mode_restored_timeOut :
    IoFd.Restores ⟨3, 0o4002, by decide⟩ (.ok (.timeOut, ⟨3, 0o4002, by decide⟩)) :=
  ((blocking_mode_restored ⟨3, 0o4002, by decide⟩ (by decide)).2
    [⟨.failed, [⟨-1, .eintr⟩, ⟨0, .other⟩], .other, 0⟩] _ rfl).mpr ⟨by decide, .inr (by decide)⟩

/-- A descriptor in blocking mode with the flag `O_RDWR` connects, and afterwards is in non-blocking
mode and has every flag that can be set. -/
theorem blocking_mode_lost :
    ¬ ∀ s : IoFd, s.isInvalid = false →
      (∀ b, s.ModeSet b) ∧
      ∀ answers o, connectWithTimeOut s answers = some o → s.Restores o := by
  intro hall
  obtain ⟨ret, s', hret, hflags⟩ :=
    (hall ⟨3, 2, by decide⟩ (by decide)).2 [⟨.ok, [], .other, 0⟩] _ rfl
  obtain ⟨-, rfl⟩ := Prod.mk.inj (Outcome.ok.inj hret)
  revert hflags
  decide

end Net
end Huicpp
