import Mathlib
import Huicpp.Serialize.Stream

/-!
# Serialize.DataStream

`CDataStream`: a byte vector with a 32-bit read position. Iterators are positions in the vector,
so `begin()` is `nReadPos`. Reading never moves bytes; reading everything clears the buffer.

A `memcpy` or an iterator range that leaves the vector is undefined behaviour, `Ub.outOfBounds`.

* `read_ok`, `read_wrap`: the two things a `read` can do, depending on whether the 32-bit sum of
  position and length wraps.
* `CDataStream` is a lawful stream as long as its buffer stays below 2^32 bytes.
-/

namespace Huicpp
namespace Serialize

open Cxx

structure CDataStream where
  vch : List Byte
  nReadPos : Nat
  deriving DecidableEq, Repr

/-- `vector::resize`: cut, or fill up with `c`. -/
def resizeTo {α : Type} (l : List α) (n : Nat) (c : α) : List α :=
  l.take n ++ List.replicate (n - l.length) c

@[simp] theorem resizeTo_length {α : Type} (l : List α) (n : Nat) (c : α) :
    (resizeTo l n c).length = n := by
  simp [resizeTo]
  omega

namespace CDataStream

/-- The state after any constructor: the given bytes, nothing read yet. -/
def init (bytes : List Byte) : CDataStream := ⟨bytes, 0⟩

/-- The bytes of `[begin(), end())`. -/
def unread (s : CDataStream) : List Byte := s.vch.drop s.nReadPos

/-- The consumed bytes that are still in the buffer. -/
def past (s : CDataStream) : List Byte := s.vch.take s.nReadPos

/-- `size()`, a subtraction in `size_type`. -/
def size (s : CDataStream) : Nat := (s.vch.length + 2 ^ 64 - s.nReadPos) % 2 ^ 64

def clear (_ : CDataStream) : CDataStream := ⟨[], 0⟩

/-- The source bytes of `memcpy(dst, &vch[pos], n)`. -/
def copyOut (vch : List Byte) (pos n : Nat) : Outcome (List Byte) :=
  if pos + n ≤ vch.length then .ok ((vch.drop pos).take n) else .undef .outOfBounds

def read (s : CDataStream) (nSize : Nat) : Outcome (List Byte × CDataStream) :=
  let nReadPosNext := (s.nReadPos + nSize) % 2 ^ 32
  if s.vch.length ≤ nReadPosNext then
    if s.vch.length < nReadPosNext then
      if nSize < s.size then .undef .outOfBounds
      else do
        let pch ← copyOut s.vch s.nReadPos s.size
        return (pch ++ List.replicate (nSize - s.size) 0, ⟨[], 0⟩)
    else do
      let pch ← copyOut s.vch s.nReadPos nSize
      return (pch, ⟨[], 0⟩)
  else do
    let pch ← copyOut s.vch s.nReadPos nSize
    return (pch, ⟨s.vch, nReadPosNext⟩)

/-- `ignore(int nSize)`. The inner `if` governs only the reset of the position: the buffer is
cleared either way. -/
def ignore (s : CDataStream) (nSize : Int) : CDataStream :=
  let nReadPosNext := ((s.nReadPos + nSize) % 2 ^ 32).toNat
  if s.vch.length ≤ nReadPosNext then
    ⟨[], if s.vch.length < nReadPosNext then 0 else s.nReadPos⟩
  else ⟨s.vch, nReadPosNext⟩

def write (s : CDataStream) (bytes : List Byte) : CDataStream := ⟨s.vch ++ bytes, s.nReadPos⟩

/-- `operator+=`: appends `[b.begin(), b.end())`. -/
def append (s b : CDataStream) : Outcome CDataStream :=
  if b.nReadPos ≤ b.vch.length then .ok ⟨s.vch ++ b.unread, s.nReadPos⟩
  else .undef .outOfBounds

def resize (s : CDataStream) (n : Nat) (c : Byte) : CDataStream :=
  ⟨resizeTo s.vch ((n + s.nReadPos) % 2 ^ 64) c, s.nReadPos⟩

/-- `vch.insert(it, first, last)`. -/
def vchInsert (s : CDataStream) (it : Nat) (bytes : List Byte) : Outcome CDataStream :=
  if it ≤ s.vch.length then .ok ⟨s.vch.take it ++ bytes ++ s.vch.drop it, s.nReadPos⟩
  else .undef .outOfBounds

/-- `vch.erase(first, last)`. -/
def vchErase (s : CDataStream) (first last : Nat) : Outcome CDataStream :=
  if first ≤ last ∧ last ≤ s.vch.length then
    .ok ⟨s.vch.take first ++ s.vch.drop last, s.nReadPos⟩
  else .undef .outOfBounds

/-- `insert(it, x)`. -/
def insertOne (s : CDataStream) (it : Nat) (x : Byte) : Outcome CDataStream := s.vchInsert it [x]

/-- `insert(it, n, x)`. -/
def insertFill (s : CDataStream) (it n : Nat) (x : Byte) : Outcome CDataStream :=
  s.vchInsert it (List.replicate n x)

/-- `insert(it, first, last)` with `bytes` the content of `[first, last)`. Inserting at the front
writes over consumed bytes when there is room. -/
def insertRange (s : CDataStream) (it : Nat) (bytes : List Byte) : Outcome CDataStream :=
  if it = s.nReadPos ∧ bytes.length % 2 ^ 32 ≤ s.nReadPos then
    let nReadPos := s.nReadPos - bytes.length % 2 ^ 32
    if nReadPos + bytes.length ≤ s.vch.length then
      .ok ⟨s.vch.take nReadPos ++ bytes ++ s.vch.drop (nReadPos + bytes.length), nReadPos⟩
    else .undef .outOfBounds
  else s.vchInsert it bytes

/-- `erase(it)`. -/
def eraseOne (s : CDataStream) (it : Nat) : Outcome CDataStream :=
  if it = s.nReadPos then
    let nReadPos := (s.nReadPos + 1) % 2 ^ 32
    if s.vch.length ≤ nReadPos then .ok ⟨[], 0⟩ else .ok ⟨s.vch, nReadPos⟩
  else if it < s.vch.length then s.vchErase it (it + 1)
  else .undef .outOfBounds

/-- `erase(first, last)`. -/
def eraseRange (s : CDataStream) (first last : Nat) : Outcome CDataStream :=
  if first = s.nReadPos then
    if last = s.vch.length then .ok ⟨[], 0⟩ else .ok ⟨s.vch, last % 2 ^ 32⟩
  else s.vchErase first last

def compact (s : CDataStream) : Outcome CDataStream := do
  let s' ← s.vchErase 0 s.nReadPos
  return { s' with nReadPos := 0 }

def rewind (s : CDataStream) (n : Nat) : Bool × CDataStream :=
  if n > s.nReadPos then (false, s) else (true, { s with nReadPos := s.nReadPos - n })

/-- `GetAndClear(data)`, with what it appends to `data`. -/
def getAndClear (s : CDataStream) : Outcome (List Byte × CDataStream) :=
  if s.nReadPos ≤ s.vch.length then .ok (s.unread, s.clear) else .undef .outOfBounds

/-! ## Reading -/

/-- The representation invariant. -/
def Valid (s : CDataStream) : Prop := s.nReadPos ≤ s.vch.length

instance (s : CDataStream) : Decidable s.Valid := inferInstanceAs (Decidable (_ ≤ _))

/-- The stream after `n` of its bytes were consumed, or all of them if there are fewer. -/
def consume (s : CDataStream) (n : Nat) : CDataStream :=
  if n < s.unread.length then ⟨s.vch, s.nReadPos + n⟩ else ⟨[], 0⟩

theorem unread_length (s : CDataStream) : s.unread.length = s.vch.length - s.nReadPos := by
  simp [unread]

theorem unread_eq_nil_iff (s : CDataStream) : s.unread = [] ↔ s.vch.length ≤ s.nReadPos :=
  List.drop_eq_nil_iff

theorem past_append_unread (s : CDataStream) : s.past ++ s.unread = s.vch :=
  List.take_append_drop _ _

theorem Valid.past_length {s : CDataStream} (h : s.Valid) : s.past.length = s.nReadPos := by
  have hv : s.nReadPos ≤ s.vch.length := h
  simpa [past] using hv

theorem consume_unread (s : CDataStream) (n : Nat) : (s.consume n).unread = s.unread.drop n := by
  rw [consume]
  split
  · simp [unread, List.drop_drop]
  · rename_i h
    rw [List.drop_eq_nil_of_le (by omega)]
    rfl

theorem consume_valid (s : CDataStream) (n : Nat) : (s.consume n).Valid := by
  rw [consume]
  split
  · rename_i h
    rw [unread_length] at h
    simp only [Valid]
    omega
  · exact Nat.le_refl 0

theorem consume_length_le (s : CDataStream) (n : Nat) :
    (s.consume n).vch.length ≤ s.vch.length := by
  rw [consume]
  split
  · exact Nat.le_refl _
  · exact Nat.zero_le _

theorem size_eq {s : CDataStream} (hs : s.Valid) (hlen : s.vch.length < 2 ^ 32) :
    s.size = s.unread.length := by
  rw [size, unread_length]
  simp only [Valid] at hs
  omega

theorem copyOut_eq {s : CDataStream} {n : Nat} (hs : s.Valid) (h : n ≤ s.unread.length) :
    copyOut s.vch s.nReadPos n = .ok (s.unread.take n) := by
  rw [unread_length] at h
  simp only [Valid] at hs
  exact if_pos (by omega)

/-- As long as position and length add up below 2^32, a read delivers the next bytes. -/
theorem read_ok {s : CDataStream} {n : Nat} (hs : s.Valid) (hlen : s.vch.length < 2 ^ 32)
    (h : s.nReadPos + n < 2 ^ 32) : s.read n = .ok (padTake n s.unread, s.consume n) := by
  have hu := s.unread_length
  have hv : s.nReadPos ≤ s.vch.length := hs
  simp only [read, Nat.mod_eq_of_lt h, size_eq hs hlen]
  split
  · split
    · -- past the end: zeros, then what is left
      rw [if_neg (by omega), copyOut_eq hs (by omega), consume, if_neg (by omega)]
      simp [padTake, List.take_of_length_le (show s.unread.length ≤ n by omega)]
    · -- exactly at the end
      rw [copyOut_eq hs (by omega), consume, if_neg (by omega)]
      simp [padTake, show n - s.unread.length = 0 by omega]
  · rw [copyOut_eq hs (by omega), consume, if_pos (by omega)]
    simp [padTake, show n - s.unread.length = 0 by omega]

/-- When the sum wraps, the wrapped position lies inside the buffer and `memcpy` copies `n` bytes
that are not there. -/
theorem read_wrap {s : CDataStream} {n : Nat} (hs : s.Valid) (hlen : s.vch.length < 2 ^ 32)
    (hn : n < 2 ^ 32) (h : 2 ^ 32 ≤ s.nReadPos + n) : s.read n = .undef .outOfBounds := by
  have hv : s.nReadPos ≤ s.vch.length := hs
  have hnext : (s.nReadPos + n) % 2 ^ 32 < s.vch.length := by omega
  simp only [read]
  rw [if_neg (by omega), copyOut, if_neg (by omega), Outcome.undef_bind]

instance : Stream CDataStream where
  read := read
  write := write

instance : LawfulStream CDataStream where
  Holds s bs := s.Valid ∧ s.vch.length < 2 ^ 32 ∧ s.unread = bs
  read_holds := by
    rintro s a b ⟨hs, hlen, hu⟩
    have hv : s.nReadPos ≤ s.vch.length := hs
    have hl := s.unread_length
    rw [hu, List.length_append] at hl
    refine ⟨s.consume a.length, ?_, s.consume_valid _,
      Nat.lt_of_le_of_lt (s.consume_length_le _) hlen, ?_⟩
    · show s.read a.length = _
      rw [read_ok hs hlen (by omega), hu, padTake_append]
    · rw [consume_unread, hu, List.drop_left]
  write_nil s := by
    show (⟨s.vch ++ [], s.nReadPos⟩ : CDataStream) = s
    rw [List.append_nil]
  write_append s a b := by
    show (⟨s.vch ++ a ++ b, s.nReadPos⟩ : CDataStream) = ⟨s.vch ++ (a ++ b), s.nReadPos⟩
    rw [List.append_assoc]

end CDataStream

end Serialize
end Huicpp
