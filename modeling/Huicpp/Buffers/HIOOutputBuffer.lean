import Mathlib
import Huicpp.Buffers.HOutputPacketBuffer

/-!
# Buffers.HIOOutputBuffer

A header and up to nine blocks of its user, written with one call of `writev`. The first entry of the
vector is for the header, and `WriteIo` alone fills it.

* `run_holds`: the vector after every run.
* `announced_iff`: `GetDataLength` is the length that `WriteIo` writes as long as the header has not
  changed its length since the last `WriteIo`, and the sum is not too large.
-/

namespace Huicpp
namespace Buffers

open Cxx

/-- `iov_base`: null, the data of the header, or a pointer that was added. -/
inductive IovBase where
  | null
  | header
  | ptr (p : Nat)
  deriving DecidableEq, Repr

structure Iovec where
  iovBase : IovBase
  iovLen : Nat
  deriving DecidableEq, Repr

structure HIOOutputBuffer where
  header : HOutputPacketBuffer
  index : Nat
  vec : List Iovec
  deriving DecidableEq, Repr

namespace HIOOutputBuffer

def ioCount : Nat := 10

def headerLength : UInt32 := 128

/-- `m_vec` when it is zero. -/
def zeroVec : List Iovec := List.replicate ioCount ⟨.null, 0⟩

/-- The object that the constructor makes, after which the header has its block. -/
def new : HIOOutputBuffer := ⟨.fresh headerLength, 1, zeroVec⟩

def addIo (ptr : Nat) (length : UInt32) (s : HIOOutputBuffer) : Bool × HIOOutputBuffer :=
  if s.index ≥ ioCount then (false, s)
  else (true, { s with vec := s.vec.set s.index ⟨.ptr ptr, length.toNat⟩, index := s.index + 1 })

/-- What `WriteIo` gives to `WriteV`, with the object after it. -/
def writeIo (s : HIOOutputBuffer) : List Iovec × HIOOutputBuffer :=
  let vec := s.vec.set 0 ⟨.header, s.header.dataLength.toNat⟩
  (vec.take s.index, { s with vec := vec })

/-- The sum is one of 32 bits. -/
def getDataLength (s : HIOOutputBuffer) : UInt32 :=
  (s.vec.take s.index).foldl (fun res io => UInt32.ofNat (res.toNat + io.iovLen)) 0

def reset (s : HIOOutputBuffer) : HIOOutputBuffer := ⟨s.header.reset, 1, zeroVec⟩

inductive Call where
  | header (c : HOutputPacketBuffer.Call)
  | addIo (ptr : Nat) (length : UInt32)
  | writeIo
  | reset

def exec : Call → HIOOutputBuffer → Outcome HIOOutputBuffer
  | .header c, s => do
    let header ← HOutputPacketBuffer.exec c s.header
    return { s with header := header }
  | .addIo ptr length, s => .ok (s.addIo ptr length).2
  | .writeIo, s => .ok s.writeIo.2
  | .reset, s => .ok s.reset

def run : List Call → HIOOutputBuffer → Outcome HIOOutputBuffer
  | [], s => .ok s
  | c :: cs, s => do
    let s ← exec c s
    run cs s

end HIOOutputBuffer

open HIOOutputBuffer

/-! ## What was called -/

/-- The length of the header, that at the last `WriteIo` or `Reset`, and the blocks that were added
since the last `Reset`. -/
structure Gathered where
  header : UInt32
  handed : UInt32
  blocks : List (Nat × UInt32)
  deriving DecidableEq, Repr

namespace HIOOutputBuffer.Call

def advanceHeader (pos : UInt32) : HOutputPacketBuffer.Call → UInt32
  | .enqueue len _ => pos + len
  | .enqueueWord _ => pos + 4
  | .reset => 0
  | _ => pos

def effect : Call → Gathered → Gathered
  | .header c, g => { g with header := advanceHeader g.header c }
  | .addIo ptr length, g =>
    if g.blocks.length < 9 then { g with blocks := g.blocks ++ [(ptr, length)] } else g
  | .writeIo, g => { g with handed := g.header }
  | .reset, _ => ⟨0, 0, []⟩

def effects : List Call → Gathered → Gathered
  | [], g => g
  | c :: cs, g => effects cs (effect c g)

end HIOOutputBuffer.Call

namespace Gathered

def entry (b : Nat × UInt32) : Iovec := ⟨.ptr b.1, b.2.toNat⟩

/-- The header, followed by the blocks in the order in which they were added. -/
def whole (g : Gathered) : List Iovec := ⟨.header, g.header.toNat⟩ :: g.blocks.map entry

/-- The length of all of it -/
def total (g : Gathered) : Nat := g.header.toNat + (g.blocks.map fun b => b.2.toNat).sum

end Gathered

/-- The lengths that are given to `writev`. -/
def lengthOf (vec : List Iovec) : Nat := (vec.map Iovec.iovLen).sum

/-- What `GetDataLength` announces is what `WriteIo` writes: the header and then the blocks. -/
structure Announced (g : Gathered) (s : HIOOutputBuffer) : Prop where
  length : s.getDataLength.toNat = lengthOf s.writeIo.1
  total : lengthOf s.writeIo.1 = g.total
  order : s.writeIo.1 = g.whole

/-- The object after such calls. The first entry has the length that was handed over last. -/
structure Holds (g : Gathered) (s : HIOOutputBuffer) : Prop where
  header : s.header.dataLength = g.header
  index : s.index = g.blocks.length + 1
  room : g.blocks.length ≤ 9
  vec : ∃ base rest, s.vec = ⟨base, g.handed.toNat⟩ :: (g.blocks.map Gathered.entry ++ rest) ∧
    g.blocks.length + rest.length = 9

/-! ## The calls -/

section Calls

variable {g : Gathered} {s s' : HIOOutputBuffer}

theorem new_holds : Holds ⟨0, 0, []⟩ .new where
  header := rfl
  index := rfl
  room := Nat.zero_le _
  vec := ⟨.null, List.replicate 9 ⟨.null, 0⟩, rfl, rfl⟩

theorem exec_advanceHeader {c : HOutputPacketBuffer.Call} {header header' : HOutputPacketBuffer}
    (h : HOutputPacketBuffer.exec c header = .ok header') :
    header'.dataLength = Call.advanceHeader header.dataLength c := by
  cases c with
  | enqueue len data =>
    obtain ⟨buf, _, hheader⟩ := Outcome.bind_eq_ok.mp h
    cases hheader
    rfl
  | enqueueWord word =>
    obtain ⟨buf, _, hheader⟩ := Outcome.bind_eq_ok.mp h
    cases hheader
    rfl
  | insertWord word toPosition =>
    obtain ⟨buf, _, hheader⟩ := Outcome.bind_eq_ok.mp h
    cases hheader
    rfl
  | extractWord position =>
    obtain ⟨word, _, hheader⟩ := Outcome.bind_eq_ok.mp h
    cases hheader
    rfl
  | reset =>
    cases h
    rfl

theorem Holds.addIo (h : Holds g s) (ptr : Nat) (length : UInt32) :
    Holds (Call.effect (.addIo ptr length) g) (s.addIo ptr length).2 := by
  obtain ⟨base, rest, hvec, hlen⟩ := h.vec
  by_cases hroom : g.blocks.length < 9
  · have hindex : ¬ s.index ≥ ioCount := by
      rw [h.index, ioCount]
      omega
    cases rest with
    | nil =>
      rw [List.length_nil] at hlen
      omega
    | cons io rest =>
      rw [List.length_cons] at hlen
      rw [Call.effect, if_pos hroom, HIOOutputBuffer.addIo, if_neg hindex]
      refine ⟨h.header, ?_, ?_, base, rest, ?_, ?_⟩
      · rw [List.length_append, List.length_singleton]
        exact congrArg (· + 1) h.index
      · rw [List.length_append, List.length_singleton]
        exact hroom
      · have hplace : s.index = (g.blocks.map Gathered.entry).length + 1 := by
          rw [List.length_map, h.index]
        dsimp only
        rw [hvec, hplace, List.set_cons_succ, List.set_append_right _ _ (le_refl _), Nat.sub_self,
          List.set_cons_zero, List.map_append, List.append_assoc]
        rfl
      · rw [List.length_append, List.length_singleton]
        omega
  · have hindex : s.index ≥ ioCount := by
      rw [h.index, ioCount]
      omega
    rw [Call.effect, if_neg hroom, HIOOutputBuffer.addIo, if_pos hindex]
    exact h

theorem Holds.exec (h : Holds g s) {c : Call} (hexec : HIOOutputBuffer.exec c s = .ok s') :
    Holds (c.effect g) s' := by
  obtain ⟨base, rest, hvec, hlen⟩ := h.vec
  cases c with
  | header c =>
    obtain ⟨header, hheader, hs'⟩ := Outcome.bind_eq_ok.mp hexec
    cases hs'
    refine ⟨?_, h.index, h.room, h.vec⟩
    rw [Call.effect, ← h.header]
    exact exec_advanceHeader hheader
  | addIo ptr length =>
    cases hexec
    exact h.addIo ptr length
  | writeIo =>
    cases hexec
    refine ⟨h.header, h.index, h.room, .header, rest, ?_, hlen⟩
    rw [HIOOutputBuffer.writeIo, hvec, List.set_cons_zero, h.header]
    rfl
  | reset =>
    cases hexec
    exact ⟨rfl, rfl, Nat.zero_le _, .null, List.replicate 9 ⟨.null, 0⟩, rfl, rfl⟩

theorem run_holds (h : Holds g s) {cs : List Call} (hrun : run cs s = .ok s') :
    Holds (Call.effects cs g) s' := by
  induction cs generalizing s g with
  | nil =>
    cases hrun
    exact h
  | cons c cs ih =>
    obtain ⟨s₁, hexec, hrest⟩ := Outcome.bind_eq_ok.mp hrun
    exact ih (h.exec hexec) hrest

/-! ## The lengths -/

theorem Holds.writeIo_eq (h : Holds g s) : s.writeIo.1 = g.whole := by
  obtain ⟨base, rest, hvec, _⟩ := h.vec
  have hindex : s.index = (g.blocks.map Gathered.entry).length + 1 := by
    rw [List.length_map, h.index]
  rw [HIOOutputBuffer.writeIo, hvec, List.set_cons_zero, hindex, List.take_succ_cons,
    List.take_left, h.header]
  rfl

theorem lengthOf_blocks (blocks : List (Nat × UInt32)) :
    lengthOf (blocks.map Gathered.entry) = (blocks.map fun b => b.2.toNat).sum := by
  rw [lengthOf, List.map_map]
  rfl

theorem lengthOf_whole (g : Gathered) : lengthOf g.whole = g.total := by
  rw [Gathered.total, ← lengthOf_blocks]
  rfl

theorem foldl_lengths (vec : List Iovec) (res : UInt32) :
    (vec.foldl (fun res io => UInt32.ofNat (res.toNat + io.iovLen)) res).toNat =
      (res.toNat + lengthOf vec) % 2 ^ 32 := by
  induction vec generalizing res with
  | nil => exact (Nat.mod_eq_of_lt res.toNat_lt).symm
  | cons io vec ih =>
    have hsum : lengthOf (io :: vec) = io.iovLen + lengthOf vec := rfl
    rw [List.foldl_cons, ih, UInt32.toNat_ofNat', Nat.mod_add_mod, hsum, Nat.add_assoc]

theorem Holds.getDataLength_eq (h : Holds g s) :
    s.getDataLength.toNat =
      (g.handed.toNat + (g.blocks.map fun b => b.2.toNat).sum) % 2 ^ 32 := by
  obtain ⟨base, rest, hvec, _⟩ := h.vec
  have hindex : s.index = (g.blocks.map Gathered.entry).length + 1 := by
    rw [List.length_map, h.index]
  have hsum : lengthOf (⟨base, g.handed.toNat⟩ :: g.blocks.map Gathered.entry) =
      g.handed.toNat + lengthOf (g.blocks.map Gathered.entry) := rfl
  rw [getDataLength, hvec, hindex, List.take_succ_cons, List.take_left, foldl_lengths, hsum,
    lengthOf_blocks]
  exact congrArg (· % 2 ^ 32) (Nat.zero_add _)

theorem Holds.announced_iff (h : Holds g s) :
    Announced g s ↔ g.handed = g.header ∧ g.total < 2 ^ 32 := by
  have hlt := g.header.toNat_lt
  have hlt' := g.handed.toNat_lt
  constructor
  · intro hann
    have hlength := hann.length
    rw [hann.total, h.getDataLength_eq, Gathered.total] at hlength
    have hsmall := Nat.mod_lt (g.handed.toNat + (g.blocks.map fun b => b.2.toNat).sum)
      (by decide : 0 < 2 ^ 32)
    refine ⟨UInt32.toNat_inj.mp ?_, ?_⟩
    · omega
    · rw [Gathered.total]
      omega
  · rintro ⟨hsame, hsmall⟩
    refine ⟨?_, by rw [h.writeIo_eq, lengthOf_whole], h.writeIo_eq⟩
    rw [h.writeIo_eq, lengthOf_whole, h.getDataLength_eq, hsame]
    exact Nat.mod_eq_of_lt hsmall

end Calls

/-- **The announced length.** After every run it is the length that `WriteIo` writes exactly if the
header is as long as it was at the last `WriteIo` or `Reset`, and everything together is shorter than
`2 ^ 32` bytes. -/
theorem announced_length_iff (cs : List Call) (s : HIOOutputBuffer) (hrun : run cs .new = .ok s) :
    s.writeIo.1 = (Call.effects cs ⟨0, 0, []⟩).whole ∧
    (Announced (Call.effects cs ⟨0, 0, []⟩) s ↔
      (Call.effects cs ⟨0, 0, []⟩).handed = (Call.effects cs ⟨0, 0, []⟩).header ∧
        (Call.effects cs ⟨0, 0, []⟩).total < 2 ^ 32) := by
  have hs := run_holds new_holds hrun
  exact ⟨hs.writeIo_eq, hs.announced_iff⟩

/-- A block, and no header -/
theorem announced_length_iff_block :
    Announced ⟨0, 0, [(7, 5)]⟩ (HIOOutputBuffer.new.addIo 7 5).2 :=
  (announced_length_iff [.addIo 7 5] _ rfl).2.mpr ⟨rfl, by decide⟩

/-- A word in the header is not announced before it has been written. -/
theorem header_not_announced : ¬ ∀ (cs : List Call) (s : HIOOutputBuffer), run cs .new = .ok s →
    Announced (Call.effects cs ⟨0, 0, []⟩) s := by
  intro hall
  obtain ⟨header, hright, _⟩ := @right_of_inside (.fresh headerLength) (.enqueueWord 1)
    (fresh_sound headerLength) (by decide : 0 + 4 ≤ 128)
  have hrun : run [.header (.enqueueWord 1)] .new = .ok { HIOOutputBuffer.new with header := header } := by
    have hexec : HIOOutputBuffer.exec (.header (.enqueueWord 1)) .new =
        .ok { HIOOutputBuffer.new with header := header } := by
      rw [HIOOutputBuffer.exec, HIOOutputBuffer.new, hright.1]
      rfl
    rw [run, hexec]
    rfl
  have hsame := (run_holds new_holds hrun).announced_iff.mp (hall _ _ hrun)
  exact absurd hsame.1 (by decide)

end Buffers
end Huicpp
