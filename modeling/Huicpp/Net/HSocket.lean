import Mathlib
import Huicpp.Cxx.FdSet
import Huicpp.Cxx.LoopRuns
import Huicpp.Cxx.Words

/-!
# Net.HSocket

`HSocket::WriteAll` and `SendAll`, which hand a buffer to the socket piece by piece. What the system
answers is a sequence of turns, each with a result of `select` and one of the write. A call with a
time-out puts the descriptor into an `fd_set`, whatever its number.

* `Accurate`: what the counter, the pointer and the log say of the bytes that the socket accepted.
* `sendStep_spec`: one iteration keeps this, if the set has a bit for the descriptor.
* `sends_exactly_iff`: when both calls send exactly the buffer, or a beginning of it.
-/

namespace Huicpp
namespace Net

open Cxx

/-- What `select` signals. -/
inductive SelectAnswer where
  | ready
  | timeOut
  | failed
  deriving DecidableEq, Repr

/-- What a write of `n` bytes comes to: a result that is no count, or so many bytes accepted. -/
inductive WriteAnswer (n : Nat) where
  | failed (ret : Int) (h : ret ≤ 0)
  | accepted (k : Nat) (h : 0 < k ∧ k ≤ n)
  deriving DecidableEq, Repr

/-- What the system answers in one iteration. -/
structure Turn where
  select : SelectAnswer
  write : (n : Nat) → WriteAnswer n
  send : (flags : Int) → (n : Nat) → WriteAnswer n

/-- How a call ends: with a result, or with an `HSocketException`. -/
inductive SockResult where
  | returned (ret : Int)
  | threw (what : String)
  deriving DecidableEq, Repr

/-- A buffer. No object is larger than an `off_t` can count. -/
structure Buffer where
  bytes : List Byte
  countable : bytes.length < 2 ^ 63

/-- The conversion of `HSIZE` to `HOFF`. -/
def toHOFF (n : Nat) : Int := (n + 2 ^ 63) % 2 ^ 64 - 2 ^ 63

theorem toHOFF_of_lt {n : Nat} (h : n < 2 ^ 63) : toHOFF n = n := by
  rw [toHOFF]
  omega

def isGoodSocket (fd : Int) : Bool := fd ≠ -1

/-- The text that `SOCK_FD_CHECK` throws. -/
def notGoodSocket (fd : Int) : String := "It not a good socket. Socket:[" ++ toString fd ++ "]"

/-- `iofd_in::Write`. -/
def Turn.writeTo (t : Turn) (fd : Int) (n : Nat) : WriteAnswer n :=
  if isGoodSocket fd then t.write n else .failed (-1) (by decide)

/-- `FD_ZERO`, `FD_SET` and `select`, which a call makes if it has a time-out. -/
def selectFor (fd timeout : Int) (answer : SelectAnswer) : Outcome SelectAnswer :=
  if 0 < timeout then do
    let _ ← fdSet fd fdZero
    pure answer
  else pure .ready

/-- The descriptors that a call with this time-out can wait for. -/
def Selectable (fd timeout : Int) : Prop := 0 < timeout → InFdSet fd

instance (fd timeout : Int) : Decidable (Selectable fd timeout) :=
  inferInstanceAs (Decidable (_ → _))

/-- A write that was attempted: how many bytes the socket had accepted before, and what it got. -/
structure Attempt where
  before : Nat
  request : List Byte
  deriving DecidableEq, Repr

/-- The variables of the loop, `pos` relative to the buffer, and what the socket has seen. -/
structure Sending where
  sentBytes : Nat
  pos : Nat
  socket : List Byte
  attempts : List Attempt
  turn : Nat
  deriving DecidableEq, Repr

def Sending.start : Sending := ⟨0, 0, [], [], 0⟩

/-- One iteration of the loop, which `WriteAll` and `SendAll` have in common. -/
def sendStep (put : Turn → (n : Nat) → WriteAnswer n) (fd : Int) (buf : Buffer) (timeout : Int)
    (turns : Nat → Turn) (s : Sending) : Outcome (Ctl Sending (SockResult × Sending)) :=
  if s.sentBytes < buf.bytes.length then do
    match ← selectFor fd timeout (turns s.turn).select with
    | .timeOut => pure (.exit (.threw "write all time out", s))
    | .failed => pure (.exit (.threw "select failed", s))
    | .ready =>
      let request ← loadAt buf.bytes s.pos (buf.bytes.length - s.sentBytes)
      let attempts := s.attempts ++ [⟨s.socket.length, request⟩]
      match put (turns s.turn) (buf.bytes.length - s.sentBytes) with
      | .failed ret _ => pure (.exit (.returned ret, { s with attempts := attempts }))
      | .accepted k _ =>
        pure (.again ⟨s.sentBytes + k, s.pos + k, s.socket ++ request.take k, attempts, s.turn + 1⟩)
  else pure (.exit (.returned (toHOFF s.sentBytes), s))

/-- A call on a socket. -/
def sendCall (put : Turn → (n : Nat) → WriteAnswer n) (fd : Int) (buf : Buffer) (timeout : Int)
    (turns : Nat → Turn) : Prog (SockResult × Sending) :=
  if isGoodSocket fd then Prog.loopOf (sendStep put fd buf timeout turns) .start
  else pure (.threw (notGoodSocket fd), .start)

def writeAll (fd : Int) (buf : Buffer) (timeout : Int) (turns : Nat → Turn) :
    Prog (SockResult × Sending) :=
  sendCall (fun t => t.writeTo fd) fd buf timeout turns

def sendAll (fd : Int) (buf : Buffer) (flags timeout : Int) (turns : Nat → Turn) :
    Prog (SockResult × Sending) :=
  sendCall (fun t => t.send flags) fd buf timeout turns

/-- The socket has accepted the first `sentBytes` bytes, and every write it was asked for began where
they ended and had something to write. -/
structure Accurate (buf : Buffer) (s : Sending) : Prop where
  socket : s.socket = buf.bytes.take s.sentBytes
  sent_le : s.sentBytes ≤ buf.bytes.length
  attempts : ∀ a ∈ s.attempts, a.before < buf.bytes.length ∧ a.request = buf.bytes.drop a.before

/-- A call sends exactly: at each start of an iteration and at the end, what was accepted is accurate,
and for a buffer that is not empty the call returns its length if and only if all was accepted. -/
structure SendsExactly (put : Turn → (n : Nat) → WriteAnswer n) (fd : Int) (buf : Buffer)
    (timeout : Int) (turns : Nat → Turn) (call : Prog (SockResult × Sending)) : Prop where
  points : ∀ s, Prog.Passes (sendStep put fd buf timeout turns) .start s → Accurate buf s
  ends : ∃ r s, call.Returns (r, s) ∧ Accurate buf s ∧
    (0 < buf.bytes.length → (r = .returned buf.bytes.length ↔ s.socket = buf.bytes))

/-! ## Waiting -/

theorem selectFor_waits {fd timeout : Int} (h : InFdSet fd) (hpos : 0 < timeout) (answer : SelectAnswer) :
    selectFor fd timeout answer = .ok answer := by
  rw [selectFor, if_pos hpos, fdSet_ok h]
  rfl

theorem selectFor_ok {fd timeout : Int} (h : Selectable fd timeout) (answer : SelectAnswer) :
    ∃ a, selectFor fd timeout answer = .ok a := by
  by_cases hpos : 0 < timeout
  · exact ⟨answer, selectFor_waits (h hpos) hpos answer⟩
  · exact ⟨.ready, if_neg hpos⟩

theorem selectFor_undef {fd timeout : Int} (h : ¬ Selectable fd timeout) (answer : SelectAnswer) :
    selectFor fd timeout answer = .undef .outOfBounds := by
  obtain ⟨hpos, hfd⟩ := Classical.not_imp.mp h
  rw [selectFor, if_pos hpos, fdSet_undef hfd]
  rfl

/-! ## The loop -/

section Loop

variable {put : Turn → (n : Nat) → WriteAnswer n} {fd : Int} {buf : Buffer} {timeout : Int}
  {turns : Nat → Turn} {s : Sending}

/-- The invariant: the pointer is where the counter says. -/
def InStep (buf : Buffer) (s : Sending) : Prop := Accurate buf s ∧ s.pos = s.sentBytes

theorem inStep_start (buf : Buffer) : InStep buf .start :=
  ⟨⟨rfl, Nat.zero_le _, List.forall_mem_nil _⟩, rfl⟩

theorem Accurate.socket_length (h : Accurate buf s) : s.socket.length = s.sentBytes := by
  rw [h.socket, List.length_take, Nat.min_eq_left h.sent_le]

theorem Accurate.all_iff (h : Accurate buf s) :
    s.socket = buf.bytes ↔ s.sentBytes = buf.bytes.length := by
  constructor
  · intro hall
    rw [← h.socket_length, hall]
  · intro hsent
    rw [h.socket, hsent, List.take_length]

theorem InStep.request (h : InStep buf s) :
    loadAt buf.bytes s.pos (buf.bytes.length - s.sentBytes) = .ok (buf.bytes.drop s.sentBytes) := by
  obtain ⟨hacc, hpos⟩ := h
  have hle := hacc.sent_le
  rw [loadAt, if_pos (by omega), hpos, List.take_of_length_le (by rw [List.length_drop])]

theorem InStep.attempt (h : InStep buf s) (hmore : s.sentBytes < buf.bytes.length) :
    Accurate buf { s with
      attempts := s.attempts ++ [⟨s.socket.length, buf.bytes.drop s.sentBytes⟩] } := by
  refine ⟨h.1.socket, h.1.sent_le, fun a ha => ?_⟩
  rcases List.mem_append.mp ha with hold | hnew
  · exact h.1.attempts a hold
  · obtain rfl := List.mem_singleton.mp hnew
    rw [h.1.socket_length]
    exact ⟨hmore, rfl⟩

theorem InStep.accept (h : InStep buf s) (hmore : s.sentBytes < buf.bytes.length) {k : Nat}
    (hk : k ≤ buf.bytes.length - s.sentBytes) :
    InStep buf ⟨s.sentBytes + k, s.pos + k, s.socket ++ (buf.bytes.drop s.sentBytes).take k,
      s.attempts ++ [⟨s.socket.length, buf.bytes.drop s.sentBytes⟩], s.turn + 1⟩ := by
  refine ⟨⟨?_, ?_, (h.attempt hmore).attempts⟩, ?_⟩
  · show s.socket ++ (buf.bytes.drop s.sentBytes).take k = buf.bytes.take (s.sentBytes + k)
    rw [h.1.socket, ← List.take_add]
  · show s.sentBytes + k ≤ buf.bytes.length
    omega
  · show s.pos + k = s.sentBytes + k
    rw [h.2]

/-- What a call may end with: the length of the buffer, and only when all of it was accepted. -/
def GoodEnd (buf : Buffer) (e : SockResult × Sending) : Prop :=
  Accurate buf e.2 ∧
    (0 < buf.bytes.length → (e.1 = .returned buf.bytes.length ↔ e.2.socket = buf.bytes))

theorem GoodEnd.early {r : SockResult} (h : Accurate buf s) (hmore : s.sentBytes < buf.bytes.length)
    (hr : 0 < buf.bytes.length → r ≠ .returned buf.bytes.length) : GoodEnd buf (r, s) := by
  refine ⟨h, fun hpos => iff_of_false (hr hpos) fun hall => ?_⟩
  exact absurd (h.all_iff.mp hall) hmore.ne

theorem sendStep_undef (hsel : ¬ Selectable fd timeout) (hmore : s.sentBytes < buf.bytes.length) :
    sendStep put fd buf timeout turns s = .undef .outOfBounds := by
  rw [sendStep, if_pos hmore, selectFor_undef hsel, Outcome.undef_bind]

/-- One iteration goes on with more bytes accepted, or ends the call. -/
theorem sendStep_spec (h : InStep buf s) (hsel : Selectable fd timeout ∨ buf.bytes = []) :
    (∃ s', sendStep put fd buf timeout turns s = .ok (.again s') ∧ InStep buf s' ∧
      buf.bytes.length - s'.sentBytes < buf.bytes.length - s.sentBytes) ∨
    ∃ e, sendStep put fd buf timeout turns s = .ok (.exit e) ∧ GoodEnd buf e := by
  by_cases hmore : s.sentBytes < buf.bytes.length
  · have hne : buf.bytes ≠ [] := List.ne_nil_of_length_pos (Nat.zero_lt_of_lt hmore)
    obtain ⟨a, ha⟩ := selectFor_ok (hsel.resolve_right hne) (turns s.turn).select
    rw [sendStep, if_pos hmore, ha, Outcome.ok_bind]
    cases a with
    | timeOut => exact .inr ⟨_, rfl, .early h.1 hmore fun _ => nofun⟩
    | failed => exact .inr ⟨_, rfl, .early h.1 hmore fun _ => nofun⟩
    | ready =>
      simp only [h.request, Outcome.ok_bind]
      cases put (turns s.turn) (buf.bytes.length - s.sentBytes) with
      | failed ret hret =>
        refine .inr ⟨_, rfl, .early (h.attempt hmore) hmore fun hpos hr => ?_⟩
        have hlen : ret = buf.bytes.length := SockResult.returned.inj hr
        omega
      | accepted k hk =>
        refine .inl ⟨_, rfl, h.accept hmore hk.2, ?_⟩
        show buf.bytes.length - (s.sentBytes + k) < buf.bytes.length - s.sentBytes
        omega
  · have hall : s.sentBytes = buf.bytes.length := le_antisymm h.1.sent_le (not_lt.mp hmore)
    rw [sendStep, if_neg hmore]
    refine .inr ⟨_, rfl, h.1, fun _ => iff_of_true ?_ (h.1.all_iff.mpr hall)⟩
    show SockResult.returned (toHOFF s.sentBytes) = .returned buf.bytes.length
    rw [hall, toHOFF_of_lt buf.countable]

theorem inStep_of_passes (hsel : Selectable fd timeout ∨ buf.bytes = [])
    (h : Prog.Passes (sendStep put fd buf timeout turns) .start s) : InStep buf s := by
  refine h.inv (InStep buf) (fun t t' ht hagain => ?_) (inStep_start buf)
  rcases @sendStep_spec put fd buf timeout turns t ht hsel with ⟨t'', hok, ht'', _⟩ | ⟨e, hexit, _⟩
  · rw [hok] at hagain
    cases hagain
    exact ht''
  · rw [hexit] at hagain
    cases hagain

/-- Where an iteration is not defined there is no second one. -/
theorem points_accurate (h : Prog.Passes (sendStep put fd buf timeout turns) .start s) :
    Accurate buf s := by
  by_cases hsel : Selectable fd timeout ∨ buf.bytes = []
  · exact (inStep_of_passes hsel h).1
  · rw [not_or] at hsel
    have hmore : 0 < buf.bytes.length := List.length_pos_of_ne_nil hsel.2
    have hstart : s = .start := by
      refine h.inv (· = .start) (fun t t' ht hagain => ?_) rfl
      rw [ht, sendStep_undef hsel.1 hmore] at hagain
      cases hagain
    rw [hstart]
    exact (inStep_start buf).1

end Loop

section Call

variable (put : Turn → (n : Nat) → WriteAnswer n) {fd : Int} {buf : Buffer} {timeout : Int}
  (turns : Nat → Turn)

theorem sendCall_threw (hgood : isGoodSocket fd = false) :
    SendsExactly put fd buf timeout turns (sendCall put fd buf timeout turns) := by
  refine ⟨fun s => points_accurate, .threw (notGoodSocket fd), .start, ?_, (inStep_start buf).1,
    fun hpos => ?_⟩
  · rw [sendCall, hgood]
    exact .pure _
  · exact iff_of_false nofun fun hall => absurd (congrArg List.length hall) hpos.ne

theorem sendCall_exact (hgood : isGoodSocket fd = true) (hsel : Selectable fd timeout ∨ buf.bytes = []) :
    SendsExactly put fd buf timeout turns (sendCall put fd buf timeout turns) := by
  refine ⟨fun s => points_accurate, ?_⟩
  obtain ⟨⟨r, s⟩, hrun, hacc, hret⟩ := Prog.Returns.loop_ends (InStep buf) (GoodEnd buf)
    (fun s => buf.bytes.length - s.sentBytes)
    (fun s hs => @sendStep_spec put fd buf timeout turns s hs hsel) .start (inStep_start buf)
  refine ⟨r, s, ?_, hacc, hret⟩
  rw [sendCall, hgood]
  exact hrun

theorem sendCall_faults (hgood : isGoodSocket fd = true) (hsel : ¬ Selectable fd timeout)
    (hmore : 0 < buf.bytes.length) :
    (sendCall put fd buf timeout turns).Faults .outOfBounds := by
  rw [sendCall, hgood]
  exact .loop_step (sendStep_undef hsel hmore)

theorem sendCall_exact_iff :
    SendsExactly put fd buf timeout turns (sendCall put fd buf timeout turns) ↔
      isGoodSocket fd = false ∨ Selectable fd timeout ∨ buf.bytes = [] := by
  constructor
  · rintro ⟨-, r, s, hrun, -⟩
    by_contra hnot
    rw [not_or, not_or] at hnot
    obtain ⟨hgood, hsel, hmore⟩ := hnot
    exact (sendCall_faults put turns (Bool.eq_true_of_not_eq_false hgood) hsel
      (List.length_pos_of_ne_nil hmore)).not_returns _ hrun
  · rintro (hgood | hsel)
    · exact sendCall_threw put turns hgood
    · cases hgood : isGoodSocket fd with
      | false => exact sendCall_threw put turns hgood
      | true => exact sendCall_exact put turns hgood hsel

end Call

/-- **Complete sends.** Whatever the system answers, `WriteAll` and `SendAll` send exactly, if they do not
have to wait for a descriptor that an `fd_set` has no bit for. -/
theorem sends_exactly_iff (fd : Int) (buf : Buffer) (flags timeout : Int) (turns : Nat → Turn) :
    (SendsExactly (fun t => t.writeTo fd) fd buf timeout turns (writeAll fd buf timeout turns) ∧
      SendsExactly (fun t => t.send flags) fd buf timeout turns (sendAll fd buf flags timeout turns)) ↔
      isGoodSocket fd = false ∨ Selectable fd timeout ∨ buf.bytes = [] := by
  rw [writeAll, sendAll, sendCall_exact_iff, sendCall_exact_iff, and_self_iff]

/-- The first descriptor behind the set, and a socket that takes every byte. -/
theorem sends_outside_set :
    ¬ ∀ (fd : Int) (buf : Buffer) (flags timeout : Int) (turns : Nat → Turn),
      SendsExactly (fun t => t.writeTo fd) fd buf timeout turns (writeAll fd buf timeout turns) ∧
        SendsExactly (fun t => t.send flags) fd buf timeout turns
          (sendAll fd buf flags timeout turns) := by
  intro hall
  obtain ⟨⟨-, r, s, hrun, -⟩, -⟩ := hall 1024 ⟨[7], by decide⟩ 0 1500 fun _ =>
    ⟨.ready, fun n => if h : 0 < n then .accepted n ⟨h, le_refl n⟩ else .failed 0 (by decide),
      fun _ _ => .failed 0 (by decide)⟩
  exact (sendCall_faults _ _ (by decide) (by decide) (by decide)).not_returns _ hrun

end Net
end Huicpp
