import Mathlib
import Huicpp.Serialize.Overloads

/-!
# Serialize.HostileRead

Reading what an adversary wrote. A length taken from the wire can be anything below 2^32, and
`CDataStream::read` adds it to a 32-bit position.

* `read_eq`: a read delivers the next bytes if that sum stays below 2^32 and leaves the buffer
  otherwise.
* `boundedReads_iff`: the same for single reads and for whole strings.
-/

namespace Huicpp
namespace Serialize

open Cxx

namespace CDataStream

/-- What a read of `n` bytes promises: the first `min(n, size())` unread bytes, then zeros, and
these bytes consumed. A copy from outside the buffer has no value. -/
def BoundedRead (s : CDataStream) (n : Nat) : Prop :=
  ∃ s', s.read n = .ok (padTake n s.unread, s') ∧ s'.unread = s.unread.drop n ∧ s'.Valid

theorem read_eq {s : CDataStream} {n : Nat} (hs : s.Valid) (hlen : s.vch.length < 2 ^ 32)
    (hn : n < 2 ^ 32) :
    s.read n = if s.nReadPos + n < 2 ^ 32 then .ok (padTake n s.unread, s.consume n)
      else .undef .outOfBounds := by
  split
  · rename_i h
    exact read_ok hs hlen h
  · rename_i h
    exact read_wrap hs hlen hn (by omega)

theorem boundedRead_iff {s : CDataStream} {n : Nat} (hs : s.Valid) (hlen : s.vch.length < 2 ^ 32)
    (hn : n < 2 ^ 32) : s.BoundedRead n ↔ s.nReadPos + n < 2 ^ 32 := by
  constructor
  · rintro ⟨s', hr, _⟩
    by_contra hwrap
    rw [read_eq hs hlen hn, if_neg hwrap] at hr
    cases hr
  · intro h
    exact ⟨s.consume n, read_ok hs hlen h, s.consume_unread n, s.consume_valid n⟩

/-! ## The length prefix -/

/-- The bytes that follow the first byte `chSize` of a compact size. -/
def markerWidth (chSize : Nat) : Nat :=
  if chSize < 253 then 0 else if chSize = 253 then 2 else if chSize = 254 then 4 else 8

/-- The length of the compact size at the head of `u`. -/
def headerLength (u : List Byte) : Nat := 1 + markerWidth (leNat (padTake 1 u))

/-- The 32-bit length that the compact size at the head of `u` declares. -/
def declaredSize (u : List Byte) : Nat :=
  let chSize := leNat (padTake 1 u)
  (if chSize < 253 then chSize else leNat (padTake (markerWidth chSize) (u.drop 1))) % 2 ^ 32

theorem markerWidth_le (chSize : Nat) : markerWidth chSize ≤ 8 := by
  unfold markerWidth
  split
  · omega
  · split
    · omega
    · split <;> omega

theorem consume_consume (s : CDataStream) (a b : Nat) :
    (s.consume a).consume b = s.consume (a + b) := by
  have hu := s.consume_unread a
  rw [consume, hu, List.length_drop]
  by_cases ha : a < s.unread.length
  · by_cases hb : b < s.unread.length - a
    · rw [if_pos hb, consume, if_pos ha, consume, if_pos (by omega), Nat.add_assoc]
    · rw [if_neg hb, consume, if_neg (by omega)]
  · have hc : s.consume a = ⟨[], 0⟩ := if_neg ha
    have hc' : s.consume (a + b) = ⟨[], 0⟩ := if_neg (by omega)
    rw [hc, hc']
    split <;> first | rfl | omega

theorem fits_consume {s : CDataStream} (k : Nat) {n : Nat} (hn : n < 2 ^ 32) :
    (s.consume k).nReadPos + n < 2 ^ 32 ↔
      (k < s.unread.length → s.nReadPos + k + n < 2 ^ 32) := by
  rw [consume]
  split
  · rename_i h
    exact ⟨fun hlt _ => hlt, fun hlt => hlt h⟩
  · rename_i h
    exact ⟨fun _ hlt => absurd hlt h, fun _ => by simpa using hn⟩

theorem read_consume {s : CDataStream} (hlen : s.vch.length < 2 ^ 32) (k : Nat) {n : Nat}
    (hn : n < 2 ^ 32) :
    (s.consume k).read n =
      if k < s.unread.length → s.nReadPos + k + n < 2 ^ 32 then
        .ok (padTake n (s.unread.drop k), s.consume (k + n))
      else .undef .outOfBounds := by
  rw [read_eq (s.consume_valid k) (Nat.lt_of_le_of_lt (s.consume_length_le k) hlen) hn,
    consume_unread, consume_consume]
  simp only [fits_consume k hn]

/-- The two reads of a compact size stay in the buffer. -/
def HeaderFits (s : CDataStream) : Prop :=
  s.nReadPos + 1 < 2 ^ 32 ∧
    (1 < s.unread.length → s.nReadPos + headerLength s.unread < 2 ^ 32)

/-- All reads of a string stay in the buffer. -/
def StringFits (s : CDataStream) : Prop :=
  s.HeaderFits ∧
    (headerLength s.unread < s.unread.length →
      s.nReadPos + headerLength s.unread + declaredSize s.unread < 2 ^ 32)

instance (s : CDataStream) : Decidable s.HeaderFits := inferInstanceAs (Decidable (_ ∧ _))

instance (s : CDataStream) : Decidable s.StringFits := inferInstanceAs (Decidable (_ ∧ _))

/-- The four cases of `ReadCompactSize` as two: a short form and a long one. -/
theorem readCompactSize_eq (s : CDataStream) :
    readCompactSize s = (do
      let (ch, s) ← s.read 1
      if leNat ch < 253 then return (leNat ch, s)
      else do
        let (xSize, s) ← s.read (markerWidth (leNat ch))
        return (leNat xSize, s)) := by
  show (s.read 1 >>= _) = (s.read 1 >>= _)
  congr 1
  funext ⟨ch, s'⟩
  by_cases h1 : leNat ch < 253
  · simp [h1]
  · by_cases h2 : leNat ch = 253
    · simp [h2, markerWidth, Stream.read]
    · by_cases h3 : leNat ch = 254
      · simp [h3, markerWidth, Stream.read]
      · simp [h1, h2, h3, markerWidth, Stream.read]

theorem readSize32_eq {s : CDataStream} (hs : s.Valid) (hlen : s.vch.length < 2 ^ 32) :
    readSize32 s = if s.HeaderFits then
        .ok (declaredSize s.unread, s.consume (headerLength s.unread))
      else .undef .outOfBounds := by
  have hw := markerWidth_le (leNat (padTake 1 s.unread))
  rw [readSize32, readCompactSize_eq, read_eq hs hlen (by decide)]
  by_cases h1 : s.nReadPos + 1 < 2 ^ 32
  · rw [if_pos h1, Outcome.ok_bind]
    simp only [HeaderFits, h1, true_and, headerLength, declaredSize]
    by_cases hch : leNat (padTake 1 s.unread) < 253
    · have hw0 : markerWidth (leNat (padTake 1 s.unread)) = 0 := if_pos hch
      rw [if_pos hch, if_pos hch, hw0, if_pos fun _ => h1]
      rfl
    · rw [if_neg hch, if_neg hch, read_consume hlen 1 (by omega)]
      simp only [Nat.add_assoc]
      split <;> rfl
  · rw [if_neg h1, if_neg fun h : s.HeaderFits => h1 h.1]
    rfl

/-- Reading a string: the header, then the declared number of bytes. -/
theorem unserializeString_inBounds_iff {s : CDataStream} (hs : s.Valid)
    (hlen : s.vch.length < 2 ^ 32) (str : List Byte) :
    unserializeString s str ≠ .undef .outOfBounds ↔ s.StringFits := by
  have hn : declaredSize s.unread < 2 ^ 32 := Nat.mod_lt _ (by decide)
  rw [unserializeString, readSize32_eq hs hlen]
  by_cases hh : s.HeaderFits
  · rw [if_pos hh, Outcome.ok_bind]
    simp only [StringFits, hh, true_and]
    by_cases h0 : declaredSize s.unread = 0
    · -- nothing more is read, and the header itself lies inside the buffer
      have hu := s.unread_length
      simp only [h0, ne_eq, not_true_eq_false, if_false]
      exact ⟨fun _ _ => by omega, fun _ h => by cases h⟩
    · have hR : Stream.read (s.consume (headerLength s.unread)) (declaredSize s.unread) =
          (s.consume (headerLength s.unread)).read (declaredSize s.unread) := rfl
      rw [if_pos h0, hR, read_consume hlen _ hn]
      split
      · rename_i hfit
        exact ⟨fun _ => hfit, fun _ h => by cases h⟩
      · rename_i hfit
        exact ⟨fun h => absurd rfl h, fun h => absurd h hfit⟩
  · rw [if_neg hh]
    exact ⟨fun h => absurd rfl h, fun h => absurd h.1 hh⟩

end CDataStream

open CDataStream

/-- **Reads of hostile lengths.** A read keeps its promise exactly when position and length add up
below 2^32, and so does every string whose header and content do. -/
theorem boundedReads_iff (s : CDataStream) (hs : s.Valid) (hlen : s.vch.length < 2 ^ 32) :
    (∀ n < 2 ^ 32, s.BoundedRead n ↔ s.nReadPos + n < 2 ^ 32) ∧
      ∀ str, unserializeString s str ≠ .undef .outOfBounds ↔ s.StringFits :=
  ⟨fun _ hn => boundedRead_iff hs hlen hn, unserializeString_inBounds_iff hs hlen⟩

theorem boundedReads_init :
    ((CDataStream.init [0x02, 0x61, 0x62]).BoundedRead 7 ↔ 0 + 7 < 2 ^ 32) ∧
      unserializeString (CDataStream.init [0x02, 0x61, 0x62]) [] ≠ .undef .outOfBounds :=
  have h := boundedReads_iff (.init [0x02, 0x61, 0x62]) (Nat.zero_le _) (by decide)
  ⟨h.1 7 (by decide), (h.2 []).mpr (by decide)⟩

/-- A string that declares 2^32 - 1 bytes: the header takes 5 bytes, and 5 + (2^32 - 1) wraps to
4, which is inside the buffer of 6. -/
theorem boundedReads_wrap :
    ¬ (CDataStream.mk [0xFE, 0xFF, 0xFF, 0xFF, 0xFF, 0x61] 5).BoundedRead (2 ^ 32 - 1) ∧
      unserializeString (CDataStream.init [0xFE, 0xFF, 0xFF, 0xFF, 0xFF, 0x61]) [] =
        .undef .outOfBounds := by
  refine ⟨?_, by decide⟩
  rintro ⟨s', hr, _⟩
  have hwrap : (CDataStream.mk [0xFE, 0xFF, 0xFF, 0xFF, 0xFF, 0x61] 5).read (2 ^ 32 - 1) =
      .undef .outOfBounds := read_wrap (by decide) (by decide) (by decide) (by decide)
  rw [hwrap] at hr
  cases hr

end Serialize
end Huicpp
