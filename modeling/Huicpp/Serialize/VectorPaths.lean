import Mathlib
import Huicpp.Serialize.Containers
import Huicpp.Serialize.HostileRead

/-!
# Serialize.VectorPaths

A vector of a fundamental type could go through either overload: as blocks of memory
(`true_type`) or element by element (`false_type`).

* `serializeRange_scalar`: both write the same bytes.
* `decodeVector`: what both read from a stream, cut off anywhere: the declared number of elements
  out of the bytes that are there and zeros.
* `bulk_returns`, `elems_returns`: each path reads that.
-/

namespace Huicpp
namespace Serialize

open Cxx Prog CDataStream

/-! ## Writing -/

section Write

variable {t : IntTy} {σ : Type} [Stream σ] [LawfulStream σ]

theorem serializeRange_scalar (os : σ) (v : List t.Val) :
    serializeRange (SerTy.scalar t) os v = serializeBulk os v := by
  rw [SerTy.serializeRange_eq (SerTy.emits_scalar t), SerTy.serializeBulk_eq]
  rfl

end Write

/-! ## Bytes and elements -/

theorem padTake_eq (n : Nat) (bs : List Byte) :
    padTake n bs = (bs ++ List.replicate n 0).take n := by
  rw [padTake, List.take_append, List.take_replicate, Nat.min_eq_left (Nat.sub_le _ _)]

theorem padTake_window {a b n : Nat} (h : a + b ≤ n) (bs : List Byte) :
    ((padTake n bs).drop a).take b = padTake b (bs.drop a) := by
  rw [padTake_eq, List.drop_take, List.take_take, Nat.min_eq_left (by omega), List.drop_append,
    List.drop_replicate, List.take_append, List.take_replicate, padTake, List.length_drop]
  congr 2
  omega

namespace IntTy

variable {t : IntTy}

theorem Val.ofMemArray_take {k n : Nat} (h : k ≤ n) (bs : List Byte) :
    (Val.ofMemArray n bs : List t.Val).take k = Val.ofMemArray k bs := by
  induction k generalizing n bs with
  | zero => rfl
  | succ k ih =>
    obtain ⟨m, rfl⟩ : ∃ m, n = m + 1 := ⟨n - 1, by omega⟩
    rw [ofMemArray, ofMemArray, List.take_succ_cons, ih (by omega)]

theorem Val.ofMemArray_drop (i n : Nat) (bs : List Byte) :
    (Val.ofMemArray n bs : List t.Val).drop i = Val.ofMemArray (n - i) (bs.drop (i * t.size)) := by
  induction i generalizing n bs with
  | zero => simp
  | succ i ih =>
    cases n with
    | zero => simp [ofMemArray]
    | succ n =>
      rw [ofMemArray, List.drop_succ_cons, ih, List.drop_drop, Nat.add_sub_add_right,
        Nat.succ_mul, Nat.add_comm]

theorem Val.ofMemArray_bytes (k : Nat) (bs : List Byte) :
    (Val.ofMemArray k (bs.take (k * t.size)) : List t.Val) = Val.ofMemArray k bs := by
  induction k generalizing bs with
  | zero => rfl
  | succ k ih =>
    have hsize : (k + 1) * t.size - t.size = k * t.size := by
      rw [Nat.succ_mul, Nat.add_sub_cancel]
    rw [ofMemArray, ofMemArray, List.take_take, Nat.min_eq_left (by rw [Nat.succ_mul]; omega),
      List.drop_take, hsize, ih]

end IntTy

/-- The `n` elements that the bytes `u` stand for; bytes that are missing are zero. -/
def decoded (t : IntTy) (u : List Byte) (n : Nat) : List t.Val :=
  IntTy.Val.ofMemArray n (padTake (n * t.size) u)

section Decoded

variable {t : IntTy} {u : List Byte} {n : Nat}

@[simp] theorem decoded_length : (decoded t u n).length = n := IntTy.Val.ofMemArray_length _ _

theorem decoded_block {i k : Nat} (h : i + k ≤ n) :
    ((decoded t u n).drop i).take k =
      IntTy.Val.ofMemArray k (padTake (k * t.size) (u.drop (i * t.size))) := by
  have hbytes : i * t.size + k * t.size ≤ n * t.size := by
    rw [← Nat.add_mul]
    exact Nat.mul_le_mul_right _ h
  rw [decoded, IntTy.Val.ofMemArray_drop, IntTy.Val.ofMemArray_take (by omega),
    ← IntTy.Val.ofMemArray_bytes, padTake_window hbytes]

theorem decoded_getElem {i : Nat} (hi : i < (decoded t u n).length) :
    (decoded t u n)[i] = IntTy.Val.ofMem (padTake t.size (u.drop (i * t.size))) := by
  have hblk : ((decoded t u n).drop i).take 1 = _ := decoded_block (by rwa [decoded_length] at hi)
  have hall : (padTake t.size (u.drop (i * t.size))).length ≤ t.size := by rw [padTake_length]
  rw [List.drop_eq_getElem_cons hi, List.take_succ_cons, IntTy.Val.ofMemArray, Nat.one_mul,
    List.take_of_length_le hall] at hblk
  exact (List.cons.inj hblk).1

end Decoded

/-! ## Reading -/

/-- What either path makes of a stream: the declared elements, and the stream behind them. -/
def decodeVector (t : IntTy) (s : CDataStream) : List t.Val × CDataStream :=
  let n := declaredSize s.unread
  let header := headerLength s.unread
  (decoded t (s.unread.drop header) n, s.consume (header + n * t.size))

theorem size_le_eight (t : IntTy) : t.size ≤ 8 :=
  Nat.pow_le_pow_right (by omega) (Nat.le_of_lt_succ t.log2Size.isLt)

section Read

variable {t : IntTy} {s : CDataStream}

theorem read_far (hlen : s.vch.length < 2 ^ 31) (k : Nat) {m : Nat} (hm : m < 2 ^ 31) :
    Stream.read (s.consume k) m = .ok (padTake m (s.unread.drop k), s.consume (k + m)) := by
  have hu := s.unread_length
  have hread : Stream.read (s.consume k) m = (s.consume k).read m := rfl
  rw [hread, read_consume (by omega) k (by omega), if_pos (by omega)]

theorem header_fits (hs : s.Valid) (hlen : s.vch.length < 2 ^ 31) : s.HeaderFits := by
  have hv : s.nReadPos ≤ s.vch.length := hs
  have hw := markerWidth_le (leNat (padTake 1 s.unread))
  refine ⟨by omega, fun _ => ?_⟩
  rw [headerLength]
  omega

/-- After `i` of `n` elements that start `k` bytes into the stream. -/
def DecodedTo (s : CDataStream) (k n i : Nat) (v : List t.Val) (is : CDataStream) : Prop :=
  i ≤ n ∧ v = (decoded t (s.unread.drop k) n).take i ∧ is = s.consume (k + i * t.size)

theorem readBlock_decoded (hlen : s.vch.length < 2 ^ 31) {k n i : Nat} {v : List t.Val}
    {is : CDataStream} (hn : n < 2 ^ 32) (h : DecodedTo s k n i v is) (hi : i < n) :
    ∃ i' v' is', Returns (readBlock n (i, v, is)) (i', v', is') ∧ DecodedTo s k n i' v' is' ∧
      i < i' := by
  obtain ⟨_, rfl, rfl⟩ := h
  have hmax := SerTy.maxBlock_pos t
  obtain ⟨blk, hblk⟩ : ∃ blk, blk = min (n - i) (maxBlock t) := ⟨_, rfl⟩
  have hle : i + blk ≤ n := by omega
  have hbytes : blk * t.size ≤ 5000000 :=
    Nat.le_trans (Nat.mul_le_mul_right _ (by omega)) (maxBlock_mul t).le
  have hread := read_far hlen (k + i * t.size) (m := blk * t.size) (by omega)
  have hnext : k + i * t.size + blk * t.size = k + (i + blk) * t.size := by
    rw [Nat.add_mul, Nat.add_assoc]
  refine ⟨i + blk, _, s.consume (k + (i + blk) * t.size), ?_, ⟨hle, rfl, rfl⟩, by omega⟩
  simp only [readBlock, ← hblk, Nat.mod_eq_of_lt (by omega : i + blk < 2 ^ 32)]
  rw [hnext] at hread
  refine .bind (.lift hread) ?_
  simp only [← List.drop_drop, ← decoded_block (t := t) hle]
  exact .bind (.lift (storeAt_block _ (by rwa [decoded_length]))) (.pure _)

theorem DecodedTo.all {i : Nat} {v : List t.Val} {is : CDataStream}
    (h : DecodedTo s (headerLength s.unread) (declaredSize s.unread) i v is)
    (hend : ¬ i < declaredSize s.unread) : (v, is) = decodeVector t s := by
  obtain ⟨hi, hv, his⟩ := h
  obtain rfl : i = declaredSize s.unread := by omega
  rw [List.take_of_length_le (by rw [decoded_length])] at hv
  rw [hv, his]
  rfl

theorem bulk_returns (hs : s.Valid) (hlen : s.vch.length < 2 ^ 31) :
    Returns (unserializeBulk s) (decodeVector t s) := by
  have hn : declaredSize s.unread < 2 ^ 32 := Nat.mod_lt _ (by omega)
  have hsize := readSize32_eq hs (Nat.lt_trans hlen (by omega))
  rw [if_pos (header_fits hs hlen)] at hsize
  obtain ⟨⟨i, v, is⟩, hr, hdecoded, hc⟩ := Returns.while_inv
    (fun (i, _, _) => decide (i < declaredSize s.unread)) (readBlock (declaredSize s.unread))
    (fun (i, v, is) => DecodedTo (t := t) s (headerLength s.unread) (declaredSize s.unread) i v is)
    (fun x => declaredSize s.unread - x.1)
    (by
      rintro ⟨i, v, is⟩ h hc
      have hi : i < declaredSize s.unread := by simpa using hc
      obtain ⟨i', v', is', hr, h', hlt⟩ := readBlock_decoded hlen hn h hi
      exact ⟨(i', v', is'), hr, h', by simp only; omega⟩)
    (0, [], s.consume (headerLength s.unread))
    ⟨Nat.zero_le _, rfl, by rw [Nat.zero_mul, Nat.add_zero]⟩
  have hall := hdecoded.all (by simpa using hc)
  rw [← hall]
  exact .bind (.lift hsize) (hr.bind (.pure _))

/-- The chunk that ends at `nMid`, with `j` elements of the vector read. -/
def ChunkDecoded (s : CDataStream) (k n nMid j : Nat) : List t.Val × CDataStream → Prop
  | (v, is) => v = (decoded t (s.unread.drop k) n).take j ++ List.replicate (nMid - j) ⟨0⟩ ∧
      is = s.consume (k + j * t.size)

theorem readElem_decoded (hlen : s.vch.length < 2 ^ 31) {k n nMid j : Nat} (hj : j < nMid)
    (hm : nMid ≤ n) {x : List t.Val × CDataStream} (h : ChunkDecoded s k n nMid j x) :
    ∃ x', Returns (readElem (SerTy.scalar t) j x) x' ∧ ChunkDecoded s k n nMid (j + 1) x' := by
  obtain ⟨v, is⟩ := x
  obtain ⟨rfl, rfl⟩ := h
  have hjn : j < (decoded t (s.unread.drop k) n).length := by
    rw [decoded_length]
    omega
  have h8 := size_le_eight t
  have hread := read_far hlen (k + j * t.size) (m := t.size) (by omega)
  have hnext : k + j * t.size + t.size = k + (j + 1) * t.size := by
    rw [Nat.succ_mul, Nat.add_assoc]
  have hget := SerTy.chunk_getElem (e := SerTy.scalar t) hj
    (show nMid ≤ (decoded t (s.unread.drop k) n).length by rwa [decoded_length])
  have hset := SerTy.chunk_set (e := SerTy.scalar t) hj hjn
  rw [decoded_getElem (by omega), List.drop_drop] at hset
  rw [hnext] at hread
  refine ⟨(_, s.consume (k + (j + 1) * t.size)), ?_, hset, rfl⟩
  rw [readElem, hget]
  exact Returns.bind (.bind (.lift hread) (.pure _)) (.pure _)

theorem readChunk_decoded (hlen : s.vch.length < 2 ^ 31) {k n i : Nat} {v : List t.Val}
    {is : CDataStream} (hn : n + 5000000 < 2 ^ 32) (h : DecodedTo s k n i v is) (hi : i < n) :
    ∃ i' v' is', Returns (readChunk (SerTy.scalar t) n (i, i, v, is)) (i', i', v', is') ∧
      DecodedTo s k n i' v' is' ∧ i < i' := by
  obtain ⟨_, rfl, rfl⟩ := h
  have h8 := size_le_eight t
  obtain ⟨hlt, hle⟩ := SerTy.nextMid_spec (e := SerTy.scalar t) t.size_pos
    (Nat.le_trans h8 (by omega)) hi hn
  obtain ⟨nMid, hmid⟩ : ∃ m, m = nextMid (SerTy.scalar t) n i := ⟨_, rfl⟩
  rw [← hmid] at hlt hle
  have hend : i + (nMid - i) = nMid := by omega
  have hstart : ChunkDecoded s k n nMid i
      (resizeTo ((decoded t (s.unread.drop k) n).take i) nMid ⟨0⟩, s.consume (k + i * t.size)) :=
    ⟨resizeTo_take _ (Nat.le_of_lt hlt) (by rwa [decoded_length]), rfl⟩
  obtain ⟨⟨v', is'⟩, hr, hv', his'⟩ := Returns.forUp_inv (readElem (SerTy.scalar t))
    (ChunkDecoded s k n nMid) (nMid - i) i _
    (fun j x _ hj hx => readElem_decoded hlen (by omega) hle hx) hstart
  rw [hend] at hv' his'
  rw [Nat.sub_self, List.replicate_zero, List.append_nil] at hv'
  refine ⟨nMid, v', is', ?_, ⟨hle, hv', his'⟩, hlt⟩
  simp only [readChunk, ← hmid]
  refine Returns.bind hr ?_
  show Returns (pure (i + (nMid - i), nMid, v', is')) _
  rw [hend]
  exact .pure _

theorem elems_returns (hs : s.Valid) (hlen : s.vch.length < 2 ^ 31)
    (hn : declaredSize s.unread + 5000000 < 2 ^ 32) :
    Returns (unserializeElems (SerTy.scalar t) s) (decodeVector t s) := by
  have hsize := readSize32_eq hs (Nat.lt_trans hlen (by omega))
  rw [if_pos (header_fits hs hlen)] at hsize
  obtain ⟨⟨i, nMid, v, is⟩, hr, ⟨rfl, hdecoded⟩, hc⟩ := Returns.while_inv
    (fun (_, nMid, _, _) => decide (nMid < declaredSize s.unread))
    (readChunk (SerTy.scalar t) (declaredSize s.unread))
    (fun (i, nMid, v, is) => i = nMid ∧
      DecodedTo (t := t) s (headerLength s.unread) (declaredSize s.unread) i v is)
    (fun x => declaredSize s.unread - x.2.1)
    (by
      rintro ⟨i, nMid, v, is⟩ ⟨rfl, h⟩ hc
      have hi : i < declaredSize s.unread := by simpa using hc
      obtain ⟨i', v', is', hr, h', hlt⟩ := readChunk_decoded hlen hn h hi
      exact ⟨(i', i', v', is'), hr, ⟨rfl, h'⟩, by simp only; omega⟩)
    (0, 0, [], s.consume (headerLength s.unread))
    ⟨rfl, Nat.zero_le _, rfl, by rw [Nat.zero_mul, Nat.add_zero]⟩
  have hall := hdecoded.all (by simpa using hc)
  rw [← hall]
  exact .bind (.lift hsize) (hr.bind (.pure _))

/-- With the read position behind the end of the buffer, the first read leaves it. -/
theorem readSize32_past_end (hs : ¬ s.Valid) (hpos : s.nReadPos < 2 ^ 32)
    (hlen : s.vch.length < 2 ^ 31) : readSize32 s = .undef .outOfBounds := by
  have hv : ¬ s.nReadPos ≤ s.vch.length := hs
  have hsz : 1 < s.size := by
    rw [size]
    omega
  have hone : s.read 1 = .undef .outOfBounds := by
    simp only [CDataStream.read]
    split
    · split
      · rfl
      · rw [copyOut, if_neg (by omega), Outcome.undef_bind]
    · rw [copyOut, if_neg (by omega), Outcome.undef_bind]
  rw [readSize32, readCompactSize_eq, hone]
  rfl

end Read

/-- **The two paths of a vector.** They write the same bytes. They read the same elements and leave
the stream in the same state; when the read position lies outside the buffer, both leave it. -/
theorem vectorPaths_agree (t : IntTy) :
    (∀ (σ : Type) [Stream σ] [LawfulStream σ] (os : σ) (v : List t.Val),
      serializeRange (SerTy.scalar t) os v = serializeBulk os v) ∧
    ∀ s : CDataStream, s.vch.length < 2 ^ 31 → s.nReadPos < 2 ^ 32 →
      (∀ nSize is, readSize32 s = .ok (nSize, is) → nSize ≤ 2 ^ 32 - 5000001) →
      if s.Valid then
        Returns (unserializeBulk s) (decodeVector t s) ∧
          Returns (unserializeElems (SerTy.scalar t) s) (decodeVector t s)
      else
        Faults (unserializeBulk s : Prog (List t.Val × CDataStream)) .outOfBounds ∧
          Faults (unserializeElems (SerTy.scalar t) s) .outOfBounds := by
  refine ⟨fun σ _ _ os v => serializeRange_scalar os v, fun s hlen hpos hn => ?_⟩
  by_cases hs : s.Valid
  · have hsize := readSize32_eq hs (Nat.lt_trans hlen (by omega))
    rw [if_pos (header_fits hs hlen)] at hsize
    have hle := hn _ _ hsize
    rw [if_pos hs]
    exact ⟨bulk_returns hs hlen, elems_returns hs hlen (by omega)⟩
  · have hsize := readSize32_past_end hs hpos hlen
    rw [if_neg hs]
    constructor
    · rw [unserializeBulk, hsize]
      exact (Faults.lift _).bind
    · rw [unserializeElems, hsize]
      exact (Faults.lift _).bind

/-- Two declared 16-bit elements, of which one and a half are there. -/
theorem vectorPaths_agree_cut :
    if (CDataStream.init [0x02, 0x61, 0x62, 0x63]).Valid then
      Returns (unserializeBulk (CDataStream.init [0x02, 0x61, 0x62, 0x63]))
          (decodeVector ⟨1, false⟩ (CDataStream.init [0x02, 0x61, 0x62, 0x63])) ∧
        Returns (unserializeElems (SerTy.scalar ⟨1, false⟩) (CDataStream.init [0x02, 0x61, 0x62, 0x63]))
          (decodeVector ⟨1, false⟩ (CDataStream.init [0x02, 0x61, 0x62, 0x63]))
    else
      Faults (unserializeBulk (CDataStream.init [0x02, 0x61, 0x62, 0x63]) :
          Prog (List (IntTy.Val ⟨1, false⟩) × CDataStream)) .outOfBounds ∧
        Faults (unserializeElems (SerTy.scalar ⟨1, false⟩) (CDataStream.init [0x02, 0x61, 0x62, 0x63]))
          .outOfBounds :=
  (vectorPaths_agree ⟨1, false⟩).2 (CDataStream.init [0x02, 0x61, 0x62, 0x63]) (by decide) (by decide)
    (by
      intro nSize is h
      have hsize : readSize32 (CDataStream.init [0x02, 0x61, 0x62, 0x63]) =
          .ok (2, ⟨[0x02, 0x61, 0x62, 0x63], 1⟩) := by decide
      rw [hsize] at h
      cases h
      decide)

end Serialize
end Huicpp
