import Mathlib
import Huicpp.Cxx.ByteOrder
import Huicpp.Cxx.KeyedQueue
import Huicpp.Cxx.TransitionSystem
import Huicpp.Ipc.InitCalls
import Huicpp.Str.Format

/-!
# Ipc.MessageQueue

`Send`, `Recv` and `ClearMessage` of an `HMessageQueue`, by any number of processes. An object begins with
its type, a `long`. `Send` takes the size of the object and `Recv` that of what follows the type, before the
call and after it.

The kernel writes the type and the text into the buffer of `Recv`, whatever the size of that buffer is. The
flags of the caller reach it as they are: with `MSG_COPY` the message stays in the queue.

* `queue_delivers`: what arrives, in which order, and when it fits.
* `clearMessage_iff`: the 128 bytes of `ClearMessage` hold texts of 120 bytes.
-/

namespace Huicpp
namespace Ipc

open Cxx Str

/-- A message in the queue. -/
structure Msg where
  mtype : BitVec 64
  mtext : List Byte
  deriving DecidableEq, Repr

namespace Msg

/-- `msgsnd` reads the type in front of the text. -/
def ofObject (obj : List Byte) : Msg := ⟨BitVec.ofNat 64 (leNat (obj.take 8)), obj.drop 8⟩

def object (m : Msg) : List Byte := leBytes 8 m.mtype.toNat ++ m.mtext

theorem object_length (m : Msg) : m.object.length = 8 + m.mtext.length := by
  rw [object, List.length_append, leBytes_length]

theorem object_ofObject {obj : List Byte} (h : 8 ≤ obj.length) : (ofObject obj).object = obj := by
  have htake : (obj.take 8).length = 8 := List.length_take_of_le h
  have hlt : leNat (obj.take 8) < 2 ^ 64 := by
    have hlt := leNat_lt (obj.take 8)
    rw [htake] at hlt
    exact hlt
  have hbytes := leBytes_leNat (obj.take 8)
  rw [htake] at hbytes
  rw [object, ofObject, BitVec.toNat_ofNat, Nat.mod_eq_of_lt hlt, hbytes, List.take_append_drop]

end Msg

/-! ## The kernel -/

def MSGMAX : Nat := 8192

/-- `IPC_NOWAIT` -/
def noWait (flags : BitVec 32) : Bool := flags.getLsbD 11

/-- `MSG_NOERROR` -/
def noError (flags : BitVec 32) : Bool := flags.getLsbD 12

/-- `MSG_EXCEPT` -/
def except (flags : BitVec 32) : Bool := flags.getLsbD 13

/-- `MSG_COPY` -/
def copyOnly (flags : BitVec 32) : Bool := flags.getLsbD 14

/-- The types that `msgrcv` looks for. With a negative `lType` this is the lowest one in the queue, up to
its absolute value. -/
def wanted (q : List Msg) (lType : Int) (flags : BitVec 32) (mtype : BitVec 64) : Bool :=
  if lType = 0 then true
  else if 0 < lType then if except flags then mtype.toInt ≠ lType else mtype.toInt = lType
  else mtype.toInt ≤ -lType && q.all fun m => mtype.toInt ≤ m.mtype.toInt

/-- `msgsnd(id, ptr, msgsz, flags)`. It fails if the queue is full, or on a signal. -/
inductive Msgsnd (q : List Msg) (ptr : List Byte) (msgsz : Nat) : Bool → List Msg → Prop where
  | sent : msgsz ≤ MSGMAX → 0 < (Msg.ofObject ptr).mtype.toInt →
      Msgsnd q ptr msgsz true
        (q ++ [⟨(Msg.ofObject ptr).mtype, (Msg.ofObject ptr).mtext.take msgsz⟩])
  | failed : Msgsnd q ptr msgsz false q

/-- `msgrcv(id, buf, size, lType, flags)`. It fails if the text is too long, and, so that it need not wait,
if there is no message or on a signal. For a copy `lType` is the place in the queue, and the text is not cut. -/
inductive Msgrcv (q : List Msg) (size : Nat) (lType : Int) (flags : BitVec 32) :
    Option Msg → List Msg → Prop where
  | received (m : Msg) (q' : List Msg) : copyOnly flags = false →
      KeyedQueue.takeFirst Msg.mtype (wanted q lType flags) q = some (m, q') →
      m.mtext.length ≤ size ∨ noError flags = true → Msgrcv q size lType flags (some m) q'
  | copied (m : Msg) : copyOnly flags = true → noWait flags = true → except flags = false → 0 ≤ lType →
      q[lType.toNat]? = some m → m.mtext.length ≤ size → Msgrcv q size lType flags (some m) q
  | failed : Msgrcv q size lType flags none q

/-! ## The calls -/

namespace HMessageQueue

/-- `size - sizeof(HLN)` -/
def sendSize (size : Nat) : Nat := (size + 2 ^ 64 - 8) % 2 ^ 64

/-- What `Recv` does with the message that the kernel gives. -/
def recv (buf : List Byte) (size : Nat) : Option Msg → Outcome (RET_T × List Byte × Nat)
  | none => .ok (.SYS_FAILED, buf, size)
  | some m => do
    let cb := min size m.mtext.length
    let buf ← storeAt buf 0 (m.object.take (8 + cb))
    return (.OK, buf, cb)

/-- `ClearMessage()`, with nobody else at the queue: `lType` is 0 and `MSG_NOERROR` is set, so that it takes
one message after the other. -/
def clearMessage : List Msg → Outcome Nat
  | [] => .ok 0
  | m :: q => do
    let _ ← recv (List.replicate hwordLen 0) hwordLen (some m)
    let res ← clearMessage q
    return res + 1

end HMessageQueue

open HMessageQueue

inductive QueueAction where
  | send (obj : List Byte) (ok : Bool)
  | recv (buf : List Byte) (size : Nat) (lType : Int) (flags : BitVec 32) (m : Option Msg)
  deriving DecidableEq, Repr

/-- One call of one process. An object of 2^63 bytes does not exist. -/
inductive QueueStep (q : List Msg) : QueueAction → List Msg → Prop where
  | send (obj : List Byte) (ok : Bool) (q' : List Msg) : obj.length < 2 ^ 63 →
      Msgsnd q obj (sendSize obj.length) ok q' → QueueStep q (.send obj ok) q'
  | recv (buf : List Byte) (size : Nat) (lType : Int) (flags : BitVec 32) (m : Option Msg)
      (q' : List Msg) : Msgrcv q size lType flags m q' → QueueStep q (.recv buf size lType flags m) q'

def queueSystem : TransitionSystem (List Msg) QueueAction where
  init q := q = []
  step := QueueStep

/-- The messages that were sent. -/
def sentMsgs (tr : List QueueAction) : List Msg :=
  tr.filterMap fun
    | .send obj true => some (Msg.ofObject obj)
    | _ => none

/-- The messages that were received and not only copied. -/
def receivedMsgs (tr : List QueueAction) : List Msg :=
  tr.filterMap fun
    | .recv _ _ _ flags m => if copyOnly flags then none else m
    | _ => none

/-- The limit of the kernel also refuses what is shorter than a `long`. -/
theorem sendSize_le {size : Nat} (h : size < 2 ^ 63) (hle : sendSize size ≤ MSGMAX) :
    8 ≤ size ∧ sendSize size = size - 8 := by
  simp only [sendSize, MSGMAX] at hle ⊢
  omega

theorem send_cases {q q' : List Msg} {obj : List Byte} {ok : Bool} (h : QueueStep q (.send obj ok) q') :
    (ok = true ∧ 8 ≤ obj.length ∧ q' = q ++ [Msg.ofObject obj]) ∨ (ok = false ∧ q' = q) := by
  cases h with
  | send _ _ _ hlen h =>
    cases h with
    | sent hmax _ =>
      obtain ⟨h8, hsize⟩ := sendSize_le hlen hmax
      refine .inl ⟨rfl, h8, ?_⟩
      rw [hsize, List.take_of_length_le]
      simp [Msg.ofObject]
    | failed => exact .inr ⟨rfl, rfl⟩

theorem delivers_step {tr : List QueueAction} {q q' : List Msg} {a : QueueAction}
    (hd : KeyedQueue.Delivers Msg.mtype (sentMsgs tr) (receivedMsgs tr) q) (h : QueueStep q a q') :
    KeyedQueue.Delivers Msg.mtype (sentMsgs (tr ++ [a])) (receivedMsgs (tr ++ [a])) q' := by
  cases a with
  | send obj ok =>
    rcases send_cases h with ⟨rfl, _, rfl⟩ | ⟨rfl, rfl⟩
    · simpa [sentMsgs, receivedMsgs] using hd.put (Msg.ofObject obj)
    · simpa [sentMsgs, receivedMsgs] using hd
  | recv buf size lType flags m =>
    cases h with
    | recv _ _ _ _ _ _ h =>
      cases h with
      | received m _ hcopy ht _ => simpa [sentMsgs, receivedMsgs, hcopy] using hd.take ht
      | copied m hcopy => simpa [sentMsgs, receivedMsgs, hcopy] using hd
      | failed => simpa [sentMsgs, receivedMsgs] using hd

theorem run_delivers {tr : List QueueAction} {q : List Msg} (h : queueSystem.Run tr q) :
    KeyedQueue.Delivers Msg.mtype (sentMsgs tr) (receivedMsgs tr) q :=
  h.invariant (fun tr q => KeyedQueue.Delivers Msg.mtype (sentMsgs tr) (receivedMsgs tr) q)
    (fun q hq => by subst hq; exact KeyedQueue.Delivers.nil) fun _ _ _ _ hd hs => delivers_step hd hs

theorem msgrcv_some {q q' : List Msg} {size : Nat} {lType : Int} {flags : BitVec 32} {m : Msg}
    (h : Msgrcv q size lType flags (some m) q') :
    m ∈ q ∧ (m.mtext.length ≤ size ∨ noError flags = true) := by
  cases h with
  | received _ _ _ ht hsize =>
    obtain ⟨front, rest, rfl, _⟩ := KeyedQueue.takeFirst_eq_some ht
    exact ⟨List.mem_append_right _ List.mem_cons_self, hsize⟩
  | copied _ _ _ _ _ hget hsize => exact ⟨List.mem_of_getElem? hget, .inl hsize⟩

theorem recv_some (buf : List Byte) (size : Nat) (m : Msg) :
    HMessageQueue.recv buf size (some m) =
      if 8 + min size m.mtext.length ≤ buf.length then
        .ok (.OK, m.object.take (8 + min size m.mtext.length)
          ++ buf.drop (8 + min size m.mtext.length), min size m.mtext.length)
      else .undef .outOfBounds := by
  have hlen : (m.object.take (8 + min size m.mtext.length)).length = 8 + min size m.mtext.length := by
    rw [List.length_take, m.object_length]
    omega
  simp only [HMessageQueue.recv, storeAt, hlen, Nat.zero_add, List.take_zero, List.nil_append]
  split <;> rfl

/-- Every message in the trace is an object that some `Send` was given. -/
theorem sentMsgs_object {tr : List QueueAction} {q : List Msg} (h : queueSystem.Run tr q) {m : Msg}
    (hm : m ∈ sentMsgs tr) : QueueAction.send m.object true ∈ tr := by
  induction h with
  | init => cases hm
  | @step tr q q' a _ hs ih =>
    rw [sentMsgs, List.filterMap_append, List.mem_append] at hm
    rcases hm with hm | hm
    · exact List.mem_append_left _ (ih hm)
    · refine List.mem_append_right _ ?_
      cases a with
      | send obj ok =>
        rcases send_cases hs with ⟨rfl, h8, _⟩ | ⟨rfl, _⟩
        · obtain rfl : m = Msg.ofObject obj := by simpa using hm
          rw [Msg.object_ofObject h8]
          exact List.mem_singleton_self _
        · simp at hm
      | recv => simp at hm

/-- What a receiver gets was sent before, and it is cut only if the flags allow it. -/
theorem recv_sent {tr : List QueueAction} {q : List Msg} (h : queueSystem.Run tr q) {buf : List Byte}
    {size : Nat} {lType : Int} {flags : BitVec 32} {m : Msg}
    (hmem : QueueAction.recv buf size lType flags (some m) ∈ tr) :
    m ∈ sentMsgs tr ∧ (m.mtext.length ≤ size ∨ noError flags = true) := by
  induction h with
  | init => cases hmem
  | @step tr q q' a h hs ih =>
    have hmono : sentMsgs tr ⊆ sentMsgs (tr ++ [a]) := by
      rw [sentMsgs, sentMsgs, List.filterMap_append]
      exact List.subset_append_left _ _
    rcases List.mem_append.mp hmem with hmem | hmem
    · exact (ih hmem).imp (fun hm => hmono hm) id
    · obtain rfl := List.mem_singleton.mp hmem
      cases hs with
      | recv _ _ _ _ _ _ hrcv =>
        obtain ⟨hm, hsize⟩ := msgrcv_some hrcv
        exact ⟨hmono ((run_delivers h).perm.subset (List.mem_append_right _ hm)), hsize⟩

theorem clearMessage_iff (q : List Msg) :
    clearMessage q = .ok q.length ↔ ∀ m ∈ q, m.mtext.length ≤ 120 := by
  induction q with
  | nil => simp [clearMessage]
  | cons m q ih =>
    rw [clearMessage, recv_some, List.forall_mem_cons, List.length_replicate]
    by_cases hm : m.mtext.length ≤ 120
    · rw [if_pos (by simp only [hwordLen]; omega), Outcome.ok_bind, ← ih, and_iff_right hm]
      constructor
      · intro h
        obtain ⟨res, hres, hlen⟩ := Outcome.bind_eq_ok.mp h
        rw [hres]
        exact congrArg _ (Nat.succ.inj (Outcome.ok.inj hlen))
      · intro h
        rw [h]
        rfl
    · rw [if_neg (by simp only [hwordLen]; omega), Outcome.undef_bind]
      exact ⟨nofun, fun h => absurd h.1 hm⟩

end Ipc
end Huicpp
