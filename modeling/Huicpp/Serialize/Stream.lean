import Mathlib
import Huicpp.Cxx.Memory
import Huicpp.Cxx.Prog

/-!
# Serialize.Stream

The serialization templates take any type with `.read(char*, size_t)` and `.write(char*, size_t)`.
`Stream` is that interface and `LawfulStream` is what the templates rely on: `Holds s bs` says that
the unread bytes of `s` are `bs`, and reading at most that many bytes delivers them in order.

The list of bytes itself is the ideal stream: it has no read position and no size limit.

On top of it come `writeCompactSize` and `readCompactSize`, the length prefix of every string and
container: 1, 3, 5 or 9 bytes.
-/

namespace Huicpp
namespace Serialize

open Cxx

/-- Anything that looks like a stream. `read s nSize` gives the content of the caller's buffer
after the call; every `read` of the library assigns all `nSize` bytes of it. -/
class Stream (σ : Type) where
  read : σ → Nat → Outcome (List Byte × σ)
  write : σ → List Byte → σ

class LawfulStream (σ : Type) [Stream σ] where
  Holds : σ → List Byte → Prop
  read_holds : ∀ {s : σ} {a b : List Byte}, Holds s (a ++ b) →
    ∃ s', Stream.read s a.length = .ok (a, s') ∧ Holds s' b
  write_nil : ∀ s : σ, Stream.write s [] = s
  write_append : ∀ (s : σ) (a b : List Byte),
    Stream.write (Stream.write s a) b = Stream.write s (a ++ b)

/-- The bytes a read of `n` bytes delivers from `bs`: what is missing is zero. -/
def padTake (n : Nat) (bs : List Byte) : List Byte := bs.take n ++ List.replicate (n - bs.length) 0

@[simp] theorem padTake_length (n : Nat) (bs : List Byte) : (padTake n bs).length = n := by
  simp [padTake]; omega

theorem padTake_append (a b : List Byte) : padTake a.length (a ++ b) = a := by
  simp [padTake]

instance : Stream (List Byte) where
  read s n := .ok (padTake n s, s.drop n)
  write s bs := s ++ bs

instance : LawfulStream (List Byte) where
  Holds s bs := s = bs
  read_holds := by
    rintro s a b rfl
    exact ⟨b, by simp [Stream.read, padTake_append], rfl⟩
  write_nil s := List.append_nil s
  write_append s a b := List.append_assoc s a b

@[simp] theorem write_list (s bs : List Byte) : Stream.write s bs = s ++ bs := rfl

section Lawful

variable {σ : Type} [Stream σ] [LawfulStream σ]

theorem read_exact {s : σ} {n : Nat} {a b : List Byte} (hn : a.length = n)
    (h : LawfulStream.Holds s (a ++ b)) :
    ∃ s', Stream.read s n = .ok (a, s') ∧ LawfulStream.Holds s' b := by
  subst hn
  exact LawfulStream.read_holds h

end Lawful

/-! ## Compact sizes -/

section CompactSize

variable {σ : Type} [Stream σ]

def writeCompactSize (os : σ) (nSize : Nat) : σ :=
  if nSize < 253 then Stream.write os (leBytes 1 nSize)
  else if nSize ≤ 0xFFFF then Stream.write (Stream.write os (leBytes 1 253)) (leBytes 2 nSize)
  else if nSize ≤ 0xFFFFFFFF then Stream.write (Stream.write os (leBytes 1 254)) (leBytes 4 nSize)
  else Stream.write (Stream.write os (leBytes 1 255)) (leBytes 8 nSize)

def readCompactSize (is : σ) : Outcome (Nat × σ) := do
  let (ch, is) ← Stream.read is 1
  let chSize := leNat ch
  if chSize < 253 then
    return (chSize, is)
  else if chSize = 253 then
    let (xSize, is) ← Stream.read is 2
    return (leNat xSize, is)
  else if chSize = 254 then
    let (xSize, is) ← Stream.read is 4
    return (leNat xSize, is)
  else
    let (xSize, is) ← Stream.read is 8
    return (leNat xSize, is)

/-- `ReadCompactSize` assigned to an `unsigned int`, as every `Unserialize` does. -/
def readSize32 (is : σ) : Outcome (Nat × σ) := do
  let (nSize, is) ← readCompactSize is
  return (nSize % 2 ^ 32, is)

theorem readSize32_lt {s is : σ} {nSize : Nat} (h : readSize32 s = .ok (nSize, is)) :
    nSize < 2 ^ 32 := by
  rw [readSize32] at h
  obtain ⟨⟨n, is'⟩, _, h'⟩ := Outcome.bind_eq_ok.mp h
  cases h'
  exact Nat.mod_lt _ (Nat.two_pow_pos 32)

/-- The bytes of a compact size. -/
def compactSize (nSize : Nat) : List Byte := writeCompactSize [] nSize

variable [LawfulStream σ]

theorem writeCompactSize_eq (os : σ) (nSize : Nat) :
    writeCompactSize os nSize = Stream.write os (compactSize nSize) := by
  unfold compactSize writeCompactSize
  split
  · rfl
  · split
    · rw [LawfulStream.write_append]; rfl
    · split
      · rw [LawfulStream.write_append]; rfl
      · rw [LawfulStream.write_append]; rfl

theorem compactSize_length_pos (nSize : Nat) : 0 < (compactSize nSize).length := by
  unfold compactSize writeCompactSize
  split
  · simp
  · split
    · simp
    · split <;> simp

theorem leNat_leBytes_of_lt {k n : Nat} (h : n < 256 ^ k) : leNat (leBytes k n) = n := by
  rw [leNat_leBytes, Nat.mod_eq_of_lt h]

theorem read_marker {s : σ} {k m n : Nat} {r : List Byte} (hm : m < 256)
    (h : LawfulStream.Holds s (leBytes 1 m ++ leBytes k n ++ r)) :
    ∃ s' s'', Stream.read s 1 = .ok (leBytes 1 m, s') ∧ leNat (leBytes 1 m) = m ∧
      Stream.read s' k = .ok (leBytes k n, s'') ∧ LawfulStream.Holds s'' r := by
  rw [List.append_assoc] at h
  obtain ⟨s', h1, h2⟩ := read_exact (leBytes_length 1 m) h
  obtain ⟨s'', h3, h4⟩ := read_exact (leBytes_length k n) h2
  exact ⟨s', s'', h1, leNat_leBytes_of_lt (by omega), h3, h4⟩

theorem readCompactSize_compactSize {s : σ} {nSize : Nat} {r : List Byte} (hn : nSize < 2 ^ 64)
    (h : LawfulStream.Holds s (compactSize nSize ++ r)) :
    ∃ s', readCompactSize s = .ok (nSize, s') ∧ LawfulStream.Holds s' r := by
  unfold compactSize writeCompactSize at h
  split at h
  · rename_i hlt
    obtain ⟨s', h1, h2⟩ := read_exact (leBytes_length 1 nSize) h
    have hv : leNat (leBytes 1 nSize) = nSize := leNat_leBytes_of_lt (by omega)
    exact ⟨s', by simp [readCompactSize, h1, hv, hlt], h2⟩
  · split at h
    · obtain ⟨s', s'', h1, hm, h2, h3⟩ := read_marker (by omega) h
      have hv : leNat (leBytes 2 nSize) = nSize := leNat_leBytes_of_lt (by omega)
      exact ⟨s'', by simp [readCompactSize, h1, hm, h2, hv], h3⟩
    · split at h
      · obtain ⟨s', s'', h1, hm, h2, h3⟩ := read_marker (by omega) h
        have hv : leNat (leBytes 4 nSize) = nSize := leNat_leBytes_of_lt (by omega)
        exact ⟨s'', by simp [readCompactSize, h1, hm, h2, hv], h3⟩
      · obtain ⟨s', s'', h1, hm, h2, h3⟩ := read_marker (by omega) h
        have hv : leNat (leBytes 8 nSize) = nSize := leNat_leBytes_of_lt (by omega)
        exact ⟨s'', by simp [readCompactSize, h1, hm, h2, hv], h3⟩

theorem readSize32_compactSize {s : σ} {nSize : Nat} {r : List Byte} (hn : nSize < 2 ^ 32)
    (h : LawfulStream.Holds s (compactSize nSize ++ r)) :
    ∃ s', readSize32 s = .ok (nSize, s') ∧ LawfulStream.Holds s' r := by
  obtain ⟨s', h1, h2⟩ := readCompactSize_compactSize (by omega) h
  exact ⟨s', by simp [readSize32, h1]; omega, h2⟩

end CompactSize

end Serialize
end Huicpp
