import Mathlib
import Huicpp.Cxx.Bytes
import Huicpp.Cxx.Words

/-!
# Buffers.HOutputPacketBuffer

A block to which bytes and words are appended, and in which words are written and read at places that
the caller gives. The length of the block is stored, and no operation looks at it.

* `right_of_inside`, `inside_of_exec`: a call is right if it stays inside the block, and only then.
* `packet_runs_right_iff`: so is a run.
-/

namespace Huicpp
namespace Buffers

open Cxx

structure HOutputPacketBuffer where
  length : UInt32
  currentPos : UInt32
  buf : List Byte
  deriving DecidableEq, Repr

namespace HOutputPacketBuffer

/-- The object that the constructor makes when it gets its block. -/
def fresh (length : UInt32) : HOutputPacketBuffer where
  length := length
  currentPos := 0
  buf := List.replicate length.toNat 0

/-- The constructor -/
def new (available : Nat → Bool) (length : UInt32) : Outcome HOutputPacketBuffer :=
  match malloc available length.toNat with
  | none => .undef .nullAccess
  | some _ => .ok (fresh length)

/-- `Enqueue(data, len)` -/
def enqueue {len : UInt32} (data : Vector Byte len.toNat) (s : HOutputPacketBuffer) :
    Outcome HOutputPacketBuffer := do
  let buf ← storeAt s.buf s.currentPos.toNat data.toList
  return { s with buf := buf, currentPos := s.currentPos + len }

/-- `sizeof(dword_t)` -/
def sizeofDword : UInt32 := 4

/-- The bytes of `htonl(word)` -/
def dword (word : BitVec 32) : Vector Byte sizeofDword.toNat :=
  ⟨(netBytes word).toArray, netBytes_length word⟩

def enqueueWord (word : BitVec 32) (s : HOutputPacketBuffer) : Outcome HOutputPacketBuffer :=
  enqueue (dword word) s

def extractWord (position : UInt32) (s : HOutputPacketBuffer) : Outcome (BitVec 32) := do
  let word ← loadAt s.buf position.toNat 4
  return ofNetBytes word

def insertWord (word : BitVec 32) (toPosition : UInt32) (s : HOutputPacketBuffer) :
    Outcome HOutputPacketBuffer := do
  let buf ← storeAt s.buf toPosition.toNat (netBytes word)
  return { s with buf := buf }

def reset (s : HOutputPacketBuffer) : HOutputPacketBuffer := { s with currentPos := 0 }

def dataLength (s : HOutputPacketBuffer) : UInt32 := s.currentPos

inductive Call where
  | enqueue (len : UInt32) (data : Vector Byte len.toNat)
  | enqueueWord (word : BitVec 32)
  | insertWord (word : BitVec 32) (toPosition : UInt32)
  | extractWord (position : UInt32)
  | reset

def exec : Call → HOutputPacketBuffer → Outcome HOutputPacketBuffer
  | .enqueue _ data, s => s.enqueue data
  | .enqueueWord word, s => s.enqueueWord word
  | .insertWord word toPosition, s => s.insertWord word toPosition
  | .extractWord position, s => do
    let _ ← s.extractWord position
    return s
  | .reset, s => .ok s.reset

end HOutputPacketBuffer

open HOutputPacketBuffer

/-! ## What the calls have to do -/

/-- The block has its length, and what was appended is in it. -/
structure Sound (s : HOutputPacketBuffer) : Prop where
  block : s.buf.length = s.length.toNat
  inside : s.dataLength.toNat ≤ s.length.toNat

/-- After a word was written at `p`, it is read there, and what is read elsewhere is what was. -/
structure WordWritten (word : BitVec 32) (p : UInt32) (s s' : HOutputPacketBuffer) : Prop where
  here : s'.extractWord p = .ok word
  elsewhere : ∀ q : UInt32, q.toNat + 4 ≤ p.toNat ∨ p.toNat + 4 ≤ q.toNat →
    s'.extractWord q = s.extractWord q

/-- A call accesses only the block, and words are independent. -/
def Right (c : Call) (s s' : HOutputPacketBuffer) : Prop :=
  exec c s = .ok s' ∧ Sound s' ∧
    match c with
    | .enqueueWord word => WordWritten word s.dataLength s s'
    | .insertWord word toPosition => WordWritten word toPosition s s'
    | _ => True

/-- All calls of a run are right. -/
inductive RunsRight : List Call → HOutputPacketBuffer → Prop where
  | done {s : HOutputPacketBuffer} : Sound s → RunsRight [] s
  | step {c : Call} {cs : List Call} {s s' : HOutputPacketBuffer} : Right c s s' → RunsRight cs s' →
      RunsRight (c :: cs) s

namespace HOutputPacketBuffer.Call

/-- The call stays inside a block of `length` bytes, of which `pos` are taken. -/
def Inside (length pos : Nat) : Call → Prop
  | .enqueue len _ => pos + len.toNat ≤ length
  | .enqueueWord _ => pos + 4 ≤ length
  | .insertWord _ toPosition => toPosition.toNat + 4 ≤ length
  | .extractWord position => position.toNat + 4 ≤ length
  | .reset => True

/-- How many bytes are taken after the call. -/
def advance (pos : Nat) : Call → Nat
  | .enqueue len _ => pos + len.toNat
  | .enqueueWord _ => pos + 4
  | .reset => 0
  | _ => pos

def AllInside (length : Nat) : Nat → List Call → Prop
  | _, [] => True
  | pos, c :: cs => c.Inside length pos ∧ AllInside length (c.advance pos) cs

end HOutputPacketBuffer.Call

/-! ## The calls -/

section Calls

variable {s s' : HOutputPacketBuffer} {c : Call}

/-- The constructor makes its object exactly if it gets the block. -/
theorem new_eq_ok_iff {available : Nat → Bool} {length : UInt32} :
    new available length = .ok s ↔ available length.toNat = true ∧ s = fresh length := by
  have hlt := length.toNat_lt
  rw [new]
  by_cases hmem : available length.toNat = true
  · rw [malloc_ok (by omega) hmem]
    exact ⟨fun h => ⟨hmem, (Outcome.ok.inj h).symm⟩, fun h => congrArg Outcome.ok h.2.symm⟩
  · rw [malloc_none hmem]
    exact ⟨nofun, fun h => absurd h.1 hmem⟩

theorem fresh_sound (length : UInt32) : Sound (.fresh length) where
  block := List.length_replicate
  inside := Nat.zero_le _

theorem currentPos_add {length pos n : UInt32} (h : pos.toNat + n.toNat ≤ length.toNat) :
    (pos + n).toNat = pos.toNat + n.toNat := by
  have hlt := length.toNat_lt
  rw [UInt32.toNat_add]
  exact Nat.mod_eq_of_lt (by omega)

theorem storeAt_inside {v xs : List Byte} {i : Nat} (h : i + xs.length ≤ v.length) :
    ∃ v', storeAt v i xs = .ok v' :=
  ⟨_, storeAt_eq_ok.mpr ⟨h, rfl⟩⟩

theorem enqueue_inside (hs : Sound s) {len : UInt32} (data : Vector Byte len.toNat)
    (hin : s.currentPos.toNat + len.toNat ≤ s.length.toNat) :
    ∃ buf, storeAt s.buf s.currentPos.toNat data.toList = .ok buf ∧
      s.enqueue data = .ok ⟨s.length, s.currentPos + len, buf⟩ ∧
      Sound ⟨s.length, s.currentPos + len, buf⟩ := by
  have hroom : s.currentPos.toNat + data.toList.length ≤ s.buf.length := by
    rw [Vector.length_toList, hs.block]
    exact hin
  obtain ⟨buf, hstore⟩ := storeAt_inside hroom
  refine ⟨buf, hstore, ?_, ?_, ?_⟩
  · rw [enqueue, hstore]
    rfl
  · exact (storeAt_length hstore).trans hs.block
  · show (s.currentPos + len).toNat ≤ s.length.toNat
    rw [currentPos_add hin]
    exact hin

theorem wordWritten_of_storeAt {word : BitVec 32} {p : UInt32}
    (hstore : storeAt s.buf p.toNat (netBytes word) = .ok s'.buf) : WordWritten word p s s' where
  here := by
    have hload := loadAt_self hstore
    rw [netBytes_length] at hload
    rw [extractWord, hload, Outcome.ok_bind, ofNetBytes_netBytes]
    rfl
  elsewhere q hapart := by
    have hload := @loadAt_elsewhere _ _ _ _ _ q.toNat 4 hstore (by rwa [netBytes_length])
    rw [extractWord, extractWord, hload]

/-- A call that is carried out stays inside the block. -/
theorem inside_of_exec (hs : Sound s) (h : exec c s = .ok s') :
    c.Inside s.length.toNat s.currentPos.toNat := by
  cases c with
  | enqueue len data =>
    obtain ⟨buf, hstore, _⟩ := Outcome.bind_eq_ok.mp h
    have hroom := (storeAt_eq_ok.mp hstore).1
    rwa [Vector.length_toList, hs.block] at hroom
  | enqueueWord word =>
    obtain ⟨buf, hstore, _⟩ := Outcome.bind_eq_ok.mp h
    have hroom := (storeAt_eq_ok.mp hstore).1
    rwa [Vector.length_toList, hs.block] at hroom
  | insertWord word toPosition =>
    obtain ⟨buf, hstore, _⟩ := Outcome.bind_eq_ok.mp h
    have hroom := (storeAt_eq_ok.mp hstore).1
    rwa [netBytes_length, hs.block] at hroom
  | extractWord position =>
    obtain ⟨word, hload, _⟩ := Outcome.bind_eq_ok.mp h
    obtain ⟨bytes, hbytes, _⟩ := Outcome.bind_eq_ok.mp hload
    rw [loadAt] at hbytes
    split at hbytes
    · rename_i hroom
      rwa [hs.block] at hroom
    · cases hbytes
  | reset => trivial

theorem right_of_inside (hs : Sound s) (hin : c.Inside s.length.toNat s.currentPos.toNat) :
    ∃ s', Right c s s' ∧ s'.length = s.length ∧
      s'.currentPos.toNat = c.advance s.currentPos.toNat := by
  cases c with
  | enqueue len data =>
    obtain ⟨buf, _, hexec, hsound⟩ := enqueue_inside hs data hin
    exact ⟨_, ⟨hexec, hsound, trivial⟩, rfl, currentPos_add hin⟩
  | enqueueWord word =>
    obtain ⟨buf, hstore, hexec, hsound⟩ := enqueue_inside hs (dword word) hin
    exact ⟨_, ⟨hexec, hsound, wordWritten_of_storeAt hstore⟩, rfl, currentPos_add hin⟩
  | insertWord word toPosition =>
    have hroom : toPosition.toNat + (netBytes word).length ≤ s.buf.length := by
      rw [netBytes_length, hs.block]
      exact hin
    obtain ⟨buf, hstore⟩ := storeAt_inside hroom
    have hsound : Sound { s with buf := buf } := ⟨(storeAt_length hstore).trans hs.block, hs.inside⟩
    refine ⟨{ s with buf := buf }, ⟨?_, hsound, wordWritten_of_storeAt hstore⟩, rfl, rfl⟩
    rw [exec, insertWord, hstore]
    rfl
  | extractWord position =>
    have hroom : position.toNat + 4 ≤ s.buf.length := by
      rw [hs.block]
      exact hin
    refine ⟨s, ⟨?_, hs, trivial⟩, rfl, rfl⟩
    rw [exec, extractWord, loadAt, if_pos hroom]
    rfl
  | reset => exact ⟨_, ⟨rfl, ⟨hs.block, Nat.zero_le _⟩, trivial⟩, rfl, rfl⟩

end Calls

theorem runsRight_of_sound {s : HOutputPacketBuffer} (hs : Sound s) (cs : List Call) :
    RunsRight cs s ↔ Call.AllInside s.length.toNat s.currentPos.toNat cs := by
  induction cs generalizing s with
  | nil => exact iff_of_true (.done hs) trivial
  | cons c cs ih =>
    constructor
    · intro h
      cases h with
      | step hright hrest =>
        have hin := inside_of_exec hs hright.1
        obtain ⟨s', hright', hlength, hpos⟩ := right_of_inside hs hin
        obtain rfl := Outcome.ok.inj (hright.1.symm.trans hright'.1)
        rw [ih hright.2.1, hlength, hpos] at hrest
        exact ⟨hin, hrest⟩
    · rintro ⟨hin, hlater⟩
      obtain ⟨s', hright, hlength, hpos⟩ := right_of_inside hs hin
      refine .step hright ((ih hright.2.1).mpr ?_)
      rw [hlength, hpos]
      exact hlater

/-- **Inside the block.** An object is made, and in a run all calls on it are right, reading and writing
inside the block and keeping words apart, exactly if there is memory for the block and the ranges that
the calls are given are inside it. -/
theorem packet_runs_right_iff (available : Nat → Bool) (length : UInt32) (cs : List Call) :
    (∃ s, new available length = .ok s ∧ RunsRight cs s) ↔
      available length.toNat = true ∧ Call.AllInside length.toNat 0 cs := by
  simp only [new_eq_ok_iff]
  constructor
  · rintro ⟨s, ⟨hmem, rfl⟩, hruns⟩
    exact ⟨hmem, (runsRight_of_sound (fresh_sound length) cs).mp hruns⟩
  · rintro ⟨hmem, hin⟩
    exact ⟨_, ⟨hmem, rfl⟩, (runsRight_of_sound (fresh_sound length) cs).mpr hin⟩

/-- 33 words for the header of 128 bytes. -/
theorem header_overruns : ∃ s, new (fun _ => true) 128 = .ok s ∧
    ¬ RunsRight (List.replicate 33 (.enqueueWord 0)) s := by
  refine ⟨_, new_eq_ok_iff.mpr ⟨rfl, rfl⟩, ?_⟩
  rw [runsRight_of_sound (fresh_sound 128)]
  simp [List.replicate, Call.AllInside, Call.Inside, Call.advance, fresh]

end Buffers
end Huicpp
