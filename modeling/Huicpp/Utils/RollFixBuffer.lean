import Mathlib
import Huicpp.Cxx.Bytes
import Huicpp.Cxx.TransitionSystem

/-!
# Utils.RollFixBuffer

A block of memory cut into groups of items of one size, and for each group a queue of the references
to its items that nobody uses. An address is counted from `m_data`.
-/

namespace Huicpp
namespace Utils

open Cxx

inductive RollError where
  | invlPara
  | srcErr
  | memoryOut
  deriving DecidableEq, Repr

/-- What does not change of a reference. `ptr` is the address of its item. -/
structure BufferItemRef where
  iGroupId : Int32
  index : Int32
  iSize : Int32
  ptr : Int
  deriving DecidableEq

structure Geometry where
  iGroupCount : Int32
  iGroupItemCount : Int32
  iItemSize : Int32
  deriving DecidableEq

/-- `block` is the number of bytes from `m_data` on. `buffer` tells which references know the
buffer, and `datalen` how much each one holds. -/
structure RollFixBuffer where
  geometry : Geometry
  block : Nat
  queues : List (List BufferItemRef)
  allRefPts : List BufferItemRef
  buffer : BufferItemRef → Bool
  datalen : BufferItemRef → Int32
  mem : Int → Byte

namespace Geometry

structure Positive (geo : Geometry) : Prop where
  groupCount : 0 < geo.iGroupCount
  groupItemCount : 0 < geo.iGroupItemCount
  itemSize : 0 < geo.iItemSize

/-- The argument of `malloc` as the code computes it. -/
def blockSize (geo : Geometry) : Int32 :=
  geo.iGroupCount * geo.iGroupItemCount * geo.iItemSize

def getMemItem (geo : Geometry) (iGroupId index : Int32) : Except RollError Int :=
  if iGroupId < geo.iGroupCount then
    if index < geo.iGroupItemCount then
      .ok (iGroupId * geo.iGroupItemCount * geo.iItemSize + index * geo.iItemSize).toInt
    else .error .invlPara
  else .error .invlPara

/-- The inner loop of the constructor, from item `j` on. -/
def createItems (geo : Geometry) (i : Int32) : List Nat → Except RollError (List BufferItemRef)
  | [] => .ok []
  | j :: js => do
    let ptr ← geo.getMemItem i (Int32.ofNat j)
    let refs ← createItems geo i js
    return ⟨i, Int32.ofNat j, geo.iItemSize, ptr⟩ :: refs

/-- The outer loop, from group `i` on: a queue for each group. -/
def createQueues (geo : Geometry) : List Nat → Except RollError (List (List BufferItemRef))
  | [] => .ok []
  | i :: is => do
    let queue ← geo.createItems (Int32.ofNat i) (List.range geo.iGroupItemCount.toNatClampNeg)
    let queues ← createQueues geo is
    return queue :: queues

end Geometry

namespace RollFixBuffer

def construct (available : Nat → Bool) (mem : Int → Byte) (geo : Geometry) :
    Except RollError RollFixBuffer :=
  match malloc available (toSizeT geo.blockSize) with
  | none => .error .memoryOut
  | some block => do
    let queues ← geo.createQueues (List.range geo.iGroupCount.toNatClampNeg)
    return {
      geometry := geo
      block := block
      queues := queues
      allRefPts := queues.flatten
      buffer := fun _ => false
      datalen := fun _ => 0
      mem := mem }

/-- `outOfBounds`: `m_queues` is indexed before its beginning. -/
inductive PopResult where
  | returns (r : BufferItemRef) (s : RollFixBuffer)
  | waits
  | throws (e : RollError)
  | outOfBounds

def pop (s : RollFixBuffer) (iGroupId : Int32) : PopResult :=
  if iGroupId < s.geometry.iGroupCount then
    if 0 ≤ iGroupId then
      match s.queues[iGroupId.toInt.toNat]? with
      | none => .outOfBounds
      | some [] => .waits
      | some (r :: rest) => .returns r { s with
          queues := s.queues.set iGroupId.toInt.toNat rest
          buffer := Function.update s.buffer r true }
    else .outOfBounds
  else .throws .invlPara

end RollFixBuffer

namespace BufferItemRef

def write (r : BufferItemRef) (s : RollFixBuffer) (pdata : Nat → Byte) (len : Int32) :
    Except RollError RollFixBuffer :=
  if len < r.iSize then
    .ok { s with
      mem := memcpy s.mem r.ptr pdata (toSizeT len)
      datalen := Function.update s.datalen r len }
  else .error .invlPara

def pullBack (r : BufferItemRef) (s : RollFixBuffer) : Except RollError RollFixBuffer :=
  if s.buffer r then
    .ok { s with queues := s.queues.modify r.iGroupId.toInt.toNat fun q => q ++ [r] }
  else .error .srcErr

/-- The bytes of the item. -/
def region (r : BufferItemRef) : Set Int := Set.Ico r.ptr (r.ptr + r.iSize.toInt)

/-- The bytes that `Write` stores to. -/
def stored (r : BufferItemRef) (len : Int32) : Set Int := Set.Ico r.ptr (r.ptr + toSizeT len)

end BufferItemRef

end Utils
end Huicpp
