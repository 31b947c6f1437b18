import Mathlib
import Huicpp.Cxx.Iterations
import Huicpp.Serialize.VectorPaths

/-!
# Serialize.BogusLength

A vector of a fundamental type is read in blocks of 5000000 bytes, "so bogus size value won't
cause out of memory". The loop does not look at the stream: it goes on to the declared size, and
reads zeros once the bytes have run out.

* `BoundedGrowth`: the loop reads few blocks, the vector stays small, and no block is read from an
  empty stream.
* `Fed`: the declared size is such that every block starts on bytes that are there.
* `boundedGrowth_iff`: these are the same, up to the sizes of a buffer of 2^32 bytes or more, in
  which the read position starts over.
-/

namespace Huicpp
namespace Serialize

open Cxx Prog CDataStream

/-- A run of the loop of `Unserialize_impl(is, v, true_type)` after the size was read. -/
def BulkRun (t : IntTy) (nSize : Nat) (is : CDataStream) :
    List (Nat × List t.Val × CDataStream) → Nat × List t.Val × CDataStream → Prop :=
  Iterations (fun (i, _, _) => decide (i < nSize)) (readBlock nSize) (0, [], is)

/-- With `n` unread bytes at the start, the vector has at most
`n / sizeof(T) + 1 + (1 + 4999999 / sizeof(T))` elements at any time, at most `n / 5000000 + 2`
blocks are read, and none of them from an empty stream. -/
def BoundedGrowth (t : IntTy) (s : CDataStream) : Prop :=
  let n := s.unread.length
  ∃ nSize is l x, readSize32 s = .ok (nSize, is) ∧ BulkRun t nSize is l x ∧
    (∀ y ∈ l ++ [x], y.2.1.length ≤ n / t.size + 1 + (1 + 4999999 / t.size)) ∧
    l.length ≤ n / 5000000 + 2 ∧
    ∀ y ∈ l, y.2.2.unread ≠ []

theorem BulkRun.returns {t : IntTy} {s is is' : CDataStream} {nSize i : Nat} {v : List t.Val}
    {l : List (Nat × List t.Val × CDataStream)} (hsize : readSize32 s = .ok (nSize, is))
    (h : BulkRun t nSize is l (i, v, is')) : Returns (unserializeBulk s) (v, is') :=
  .bind (.lift hsize) ((Iterations.returns h).bind (.pure _))

/-! ## The condition -/

/-- Where block `k` starts: the position is a 32-bit number. -/
def blockPos (is : CDataStream) (k : Nat) : Nat := (is.nReadPos + k * 5000000) % 2 ^ 32

/-- The bytes of block `k`. -/
def blockBytes (t : IntTy) (nSize k : Nat) : Nat :=
  min (nSize - k * maxBlock t) (maxBlock t) * t.size

/-- Block `k` starts on a byte of the buffer, and its end is below 2^32 or all of it is there. -/
def FedAt (t : IntTy) (nSize : Nat) (is : CDataStream) (k : Nat) : Prop :=
  blockPos is k < is.vch.length ∧
    (blockPos is k + blockBytes t nSize k < 2 ^ 32 ∨
      blockPos is k + blockBytes t nSize k ≤ is.vch.length)

def Fed (t : IntTy) (nSize : Nat) (is : CDataStream) : Prop :=
  ∀ k, k * maxBlock t < nSize → FedAt t nSize is k

/-- The declared size against the `n` bytes that were there. -/
def FewBlocks (t : IntTy) (nSize n : Nat) : Prop :=
  nSize ≤ n / t.size + 1 + maxBlock t ∧ nSize ≤ (n / 5000000 + 2) * maxBlock t

/-! ## One block -/

section Block

variable {t : IntTy} {vch : List Byte} {q n : Nat}

/-- A block that is fed moves the position on, or empties the stream. -/
theorem read_fed (hq : q < vch.length) (h : q + n < 2 ^ 32 ∨ q + n ≤ vch.length) :
    ∃ bs s', Stream.read (CDataStream.mk vch q) n = .ok (bs, s') ∧ bs.length = n ∧
      s' = if (q + n) % 2 ^ 32 < vch.length then ⟨vch, (q + n) % 2 ^ 32⟩ else ⟨[], 0⟩ := by
  by_cases hnext : (q + n) % 2 ^ 32 < vch.length
  · have hcopy : q + n ≤ vch.length := by omega
    refine ⟨(vch.drop q).take n, ⟨vch, (q + n) % 2 ^ 32⟩, ?_, ?_, (if_pos hnext).symm⟩
    · simp only [Stream.read, CDataStream.read, copyOut]
      rw [if_neg (by omega), if_pos hcopy]
      rfl
    · rw [List.length_take, List.length_drop]
      omega
  · have hlen : vch.length < 2 ^ 32 := by omega
    have hlt : q + n < 2 ^ 32 := by omega
    refine ⟨padTake n (vch.drop q), ⟨[], 0⟩, ?_, padTake_length _ _, (if_neg hnext).symm⟩
    have hv : (CDataStream.mk vch q).Valid := Nat.le_of_lt hq
    have hc : (CDataStream.mk vch q).consume n = ⟨[], 0⟩ := by
      refine if_neg ?_
      rw [unread_length]
      simp only
      omega
    show (CDataStream.mk vch q).read n = _
    rw [read_ok hv hlen hlt, hc]
    rfl

/-- A block that is not fed, but starts inside the buffer, is copied from outside of it. -/
theorem read_unfed (hq : q < vch.length) (hq' : q < 2 ^ 32) (hn : n ≤ 5000000)
    (h1 : 2 ^ 32 ≤ q + n) (h2 : vch.length < q + n) :
    Stream.read (CDataStream.mk vch q) n = .undef .outOfBounds := by
  have hnext : (q + n) % 2 ^ 32 < vch.length := by omega
  simp only [Stream.read, CDataStream.read, copyOut]
  rw [if_neg (by omega), if_neg (by omega), Outcome.undef_bind]

theorem readBlock_ok {nSize i : Nat} {v : List t.Val} {is is' : CDataStream} {bs : List Byte}
    (hi : i < nSize) (hn : nSize < 2 ^ 32)
    (hread : Stream.read is (min (nSize - i) (maxBlock t) * t.size) = .ok (bs, is')) :
    ∃ v', Returns (readBlock nSize (i, v, is)) (i + min (nSize - i) (maxBlock t), v', is') ∧
      v'.length = i + min (nSize - i) (maxBlock t) := by
  obtain ⟨blk, hblk⟩ : ∃ blk, blk = min (nSize - i) (maxBlock t) := ⟨_, rfl⟩
  rw [← hblk] at hread ⊢
  have hlt : (i + blk) % 2 ^ 32 = i + blk := Nat.mod_eq_of_lt (by omega)
  obtain ⟨w, hw⟩ : ∃ w, w = resizeTo v (i + blk) (⟨0⟩ : t.Val) := ⟨_, rfl⟩
  have hwl : w.length = i + blk := by rw [hw, resizeTo_length]
  have harr : (IntTy.Val.ofMemArray blk bs : List t.Val).length = blk :=
    IntTy.Val.ofMemArray_length blk bs
  have hstore : storeAt w i (IntTy.Val.ofMemArray blk bs) =
      .ok (w.take i ++ IntTy.Val.ofMemArray blk bs ++ w.drop (i + blk)) := by
    rw [storeAt, if_pos (by rw [harr, hwl]), harr]
  refine ⟨w.take i ++ IntTy.Val.ofMemArray blk bs ++ w.drop (i + blk), ?_, ?_⟩
  · simp only [readBlock, ← hblk, hlt, ← hw]
    exact .bind (.lift hread) (.bind (.lift hstore) (.pure _))
  · simp only [List.length_append, List.length_take, List.length_drop, harr, hwl]
    omega

theorem readBlock_read {nSize i : Nat} {v : List t.Val} {is : CDataStream}
    {x : Nat × List t.Val × CDataStream} (h : Returns (readBlock nSize (i, v, is)) x) :
    ∃ bs is', Stream.read is (min (nSize - i) (maxBlock t) * t.size) = .ok (bs, is') := by
  obtain ⟨m, hm⟩ := h
  have hx := hm m (Nat.le_refl m)
  simp only [readBlock] at hx
  obtain ⟨⟨bs, is'⟩, hr, _⟩ := Outcome.bind_eq_ok.mp hx
  exact ⟨bs, is', hr⟩

end Block

/-! ## The loop -/

section Loop

variable {t : IntTy} {nSize : Nat} {is : CDataStream}

theorem read_pos {s s' : CDataStream} {n : Nat} {bs : List Byte} (h : s.read n = .ok (bs, s')) :
    s'.nReadPos < 2 ^ 32 := by
  have hmod : (s.nReadPos + n) % 2 ^ 32 < 2 ^ 32 := Nat.mod_lt _ (by omega)
  simp only [CDataStream.read] at h
  split at h
  · split at h
    · split at h
      · cases h
      · obtain ⟨_, _, h'⟩ := Outcome.bind_eq_ok.mp h
        cases h'
        exact Nat.two_pow_pos 32
    · obtain ⟨_, _, h'⟩ := Outcome.bind_eq_ok.mp h
      cases h'
      exact Nat.two_pow_pos 32
  · obtain ⟨_, _, h'⟩ := Outcome.bind_eq_ok.mp h
    cases h'
    exact hmod

theorem readSize32_pos {s : CDataStream} (h : readSize32 s = .ok (nSize, is)) :
    is.nReadPos < 2 ^ 32 := by
  rw [readSize32, readCompactSize_eq] at h
  obtain ⟨⟨n, is'⟩, hr, h'⟩ := Outcome.bind_eq_ok.mp h
  cases h'
  obtain ⟨⟨ch, is1⟩, hr1, hr'⟩ := Outcome.bind_eq_ok.mp hr
  simp only at hr'
  split at hr'
  · cases hr'
    exact read_pos hr1
  · obtain ⟨⟨xSize, is2⟩, hr2, h2⟩ := Outcome.bind_eq_ok.mp hr'
    cases h2
    exact read_pos hr2

theorem blockBytes_le (t : IntTy) (nSize k : Nat) : blockBytes t nSize k ≤ 5000000 := by
  rw [← maxBlock_mul t]
  exact Nat.mul_le_mul_right _ (Nat.min_le_right _ _)

/-- The stream in front of block `k`. -/
def atBlock (is : CDataStream) (k : Nat) : CDataStream := ⟨is.vch, blockPos is k⟩

theorem atBlock_zero (h : is.nReadPos < 2 ^ 32) : atBlock is 0 = is := by
  rw [atBlock, blockPos, Nat.zero_mul, Nat.add_zero, Nat.mod_eq_of_lt h]

theorem blockPos_succ (is : CDataStream) (k : Nat) :
    (blockPos is k + 5000000) % 2 ^ 32 = blockPos is (k + 1) := by
  simp only [blockPos]
  omega

theorem unread_ne_nil_iff {s : CDataStream} : s.unread ≠ [] ↔ s.nReadPos < s.vch.length := by
  rw [ne_eq, unread_eq_nil_iff, Nat.not_le]

theorem atBlock_unread {k : Nat} :
    (atBlock is k).unread ≠ [] ↔ blockPos is k < is.vch.length := by
  rw [unread_ne_nil_iff, atBlock]

theorem readBlock_fed (hn : nSize < 2 ^ 32) {k i : Nat} (hi : i = k * maxBlock t) (hlt : i < nSize)
    (h : FedAt t nSize is k) (v : List t.Val) :
    ∃ i' v' is', Returns (readBlock nSize (i, v, atBlock is k)) (i', v', is') ∧
      i' = min nSize ((k + 1) * maxBlock t) ∧ v'.length = i' ∧
      (i' < nSize → is' = if blockPos is (k + 1) < is.vch.length then atBlock is (k + 1)
        else ⟨[], 0⟩) := by
  obtain ⟨bs, is', hread, _, his'⟩ := read_fed h.1 h.2
  rw [blockBytes, ← hi] at hread
  obtain ⟨v', hret, hlen⟩ := readBlock_ok (v := v) hlt hn hread
  have hend : i + min (nSize - i) (maxBlock t) = min nSize ((k + 1) * maxBlock t) := by
    rw [Nat.succ_mul, ← hi]
    omega
  rw [hend] at hret hlen
  refine ⟨_, v', is', hret, rfl, hlen, fun hmore => ?_⟩
  have hfull : blockBytes t nSize k = 5000000 := by
    rw [Nat.succ_mul] at hmore
    rw [blockBytes, Nat.min_eq_right (by omega), maxBlock_mul]
  rw [hfull, blockPos_succ] at his'
  exact his'

theorem bulkRun_of_fed (hn : nSize < 2 ^ 32) (h : Fed t nSize is) :
    ∀ (m k i : Nat) (v : List t.Val), i = k * maxBlock t → v.length = i → i < nSize →
      nSize ≤ (k + m) * maxBlock t →
      ∃ l x, Iterations (fun (i, _, _) => decide (i < nSize)) (readBlock nSize)
          (i, v, atBlock is k) l x ∧
        (∀ y ∈ l ++ [x], y.2.1.length ≤ nSize) ∧ l.length ≤ m ∧ ∀ y ∈ l, y.2.2.unread ≠ [] := by
  intro m
  induction m with
  | zero =>
    intro k i v hi _ hlt hm
    rw [Nat.add_zero, ← hi] at hm
    omega
  | succ m ih =>
    intro k i v hi hv hlt hm
    have hfed := h k (hi ▸ hlt)
    obtain ⟨i', v', is', hret, hi', hlen, hnext⟩ := readBlock_fed hn hi hlt hfed v
    have hhead : (atBlock is k).unread ≠ [] := atBlock_unread.mpr hfed.1
    by_cases hmore : i' < nSize
    · -- more blocks: the next one is fed as well
      have hk : i' = (k + 1) * maxBlock t := by omega
      rw [hnext hmore, if_pos (h (k + 1) (hk ▸ hmore)).1] at hret
      obtain ⟨l, x, hrun, hsizes, hl, hfull⟩ := ih (k + 1) i' v' hk hlen hmore
        (by rwa [Nat.add_assoc, Nat.add_comm 1 m])
      refine ⟨_ :: l, x, .step (decide_eq_true hlt) hret hrun, ?_, ?_, ?_⟩
      · exact List.forall_mem_cons.mpr ⟨Nat.le_trans (Nat.le_of_eq hv) (Nat.le_of_lt hlt), hsizes⟩
      · rw [List.length_cons]
        omega
      · exact List.forall_mem_cons.mpr ⟨hhead, hfull⟩
    · have hend : i' = nSize := by omega
      refine ⟨[_], _, .step (decide_eq_true hlt) hret (.done (decide_eq_false hmore)), ?_, ?_, ?_⟩
      · refine List.forall_mem_cons.mpr ⟨Nat.le_trans (Nat.le_of_eq hv) (Nat.le_of_lt hlt), ?_⟩
        exact List.forall_mem_singleton.mpr (Nat.le_of_eq (hlen.trans hend))
      · rw [List.length_singleton]
        omega
      · exact List.forall_mem_singleton.mpr hhead

theorem fed_of_bulkRun (hn : nSize < 2 ^ 32) {s x : Nat × List t.Val × CDataStream}
    {l : List (Nat × List t.Val × CDataStream)}
    (h : Iterations (fun (i, _, _) => decide (i < nSize)) (readBlock nSize) s l x) :
    ∀ (k i : Nat) (v : List t.Val), s = (i, v, atBlock is k) → i = k * maxBlock t →
      (∀ y ∈ l, y.2.2.unread ≠ []) → ∀ j, k ≤ j → j * maxBlock t < nSize → FedAt t nSize is j := by
  induction h with
  | done hc =>
    rintro k i v rfl hi _ j hkj hj
    have hk : ¬ i < nSize := of_decide_eq_false hc
    have hle := Nat.mul_le_mul_right (maxBlock t) hkj
    omega
  | @step s s' _ l hc hb hrun ih =>
    rintro k i v rfl hi hl j hkj hj
    have hlt : i < nSize := of_decide_eq_true hc
    obtain ⟨hhead, hrest⟩ := List.forall_mem_cons.mp hl
    have hfed : FedAt t nSize is k := by
      have hpos := atBlock_unread.mp hhead
      refine ⟨hpos, ?_⟩
      by_contra hout
      obtain ⟨bs, is', hread⟩ := readBlock_read hb
      have hundef := read_unfed hpos (Nat.mod_lt _ (by omega)) (blockBytes_le t nSize k) (by omega)
        (by omega)
      rw [blockBytes, ← hi] at hundef
      have heq := hread.symm.trans hundef
      cases heq
    by_cases hjk : j = k
    · rw [hjk]
      exact hfed
    · have hmul := Nat.mul_le_mul_right (maxBlock t) (show k + 1 ≤ j by omega)
      obtain ⟨i', v', is', hret, hi', _, hnext⟩ := readBlock_fed hn hi hlt hfed v
      have hmore : i' < nSize := by omega
      obtain rfl := hb.unique hret
      have hmem := hrest _ (hrun.head_mem (decide_eq_true hmore))
      have his' := hnext hmore
      split at his'
      · subst his'
        exact ih (k + 1) i' v' rfl (by omega) hrest j (by omega) hj
      · subst his'
        exact absurd rfl hmem

/-- Along a run the vector has as many elements as the counter says. -/
theorem readBlock_counts (hn : nSize < 2 ^ 32) {i : Nat} {v : List t.Val} {str : CDataStream}
    {x : Nat × List t.Val × CDataStream} (hi : i < nSize)
    (h : Returns (readBlock nSize (i, v, str)) x) :
    x.1 = i + min (nSize - i) (maxBlock t) ∧ x.2.1.length = x.1 := by
  obtain ⟨bs, is', hread⟩ := readBlock_read h
  obtain ⟨v', hret, hlen⟩ := readBlock_ok (v := v) hi hn hread
  obtain rfl := h.unique hret
  exact ⟨rfl, hlen⟩

theorem bulkRun_counts (hn : nSize < 2 ^ 32) {x : Nat × List t.Val × CDataStream}
    {l : List (Nat × List t.Val × CDataStream)} (h : BulkRun t nSize is l x) :
    x.2.1.length = nSize ∧ nSize ≤ l.length * maxBlock t := by
  have hinv := (Iterations.inv (fun y => y.2.1.length = y.1 ∧ y.1 ≤ nSize)
    (by
      rintro ⟨i, v, str⟩ y ⟨_, _⟩ hc hb
      obtain ⟨h1, h2⟩ := readBlock_counts hn (of_decide_eq_true hc) hb
      exact ⟨h2, by omega⟩)
    h ⟨rfl, Nat.zero_le _⟩).2
  have hend : ¬ x.1 < nSize := of_decide_eq_false h.test_false
  have hsteps := Iterations.le_length (fun y => nSize - y.1) (maxBlock t)
    (by
      rintro ⟨i, v, str⟩ y hc hb
      have h1 := (readBlock_counts hn (of_decide_eq_true hc) hb).1
      simp only
      omega)
    h
  simp only at hsteps
  omega

end Loop

/-- **Bogus lengths.** Reading a vector stays within its bounds exactly when every block of the
declared size finds bytes. -/
theorem boundedGrowth_iff (t : IntTy) (s : CDataStream) :
    BoundedGrowth t s ↔ ∃ nSize is, readSize32 s = .ok (nSize, is) ∧ Fed t nSize is ∧
      FewBlocks t nSize s.unread.length := by
  constructor
  · rintro ⟨nSize, is, l, x, hsize, hrun, hsizes, hl, hne⟩
    have hn := readSize32_lt hsize
    obtain ⟨hlen, hcount⟩ := bulkRun_counts hn hrun
    have hx := hsizes x (List.mem_append_right l (List.mem_singleton_self x))
    have hblocks := Nat.mul_le_mul_right (maxBlock t) hl
    refine ⟨nSize, is, hsize, fun j hj => ?_, ?_, Nat.le_trans hcount hblocks⟩
    · have hstart : (0, [], is) = ((0, [], atBlock is 0) : Nat × List t.Val × CDataStream) := by
        rw [atBlock_zero (readSize32_pos hsize)]
      exact fed_of_bulkRun hn hrun 0 0 [] hstart (Nat.zero_mul _).symm hne j (Nat.zero_le j) hj
    · rwa [hlen, ← maxBlock_eq] at hx
  · rintro ⟨nSize, is, hsize, hfed, hbound, hblocks⟩
    have hn := readSize32_lt hsize
    by_cases h0 : nSize = 0
    · refine ⟨nSize, is, [], _, hsize, .done (by simp [h0]), ?_, Nat.zero_le _,
        List.forall_mem_nil _⟩
      intro y hy
      rw [List.mem_singleton.mp hy]
      exact Nat.zero_le _
    · obtain ⟨l, x, hrun, hsizes, hl, hne⟩ := bulkRun_of_fed hn hfed (s.unread.length / 5000000 + 2)
        0 0 [] (Nat.zero_mul _).symm rfl (by omega) (by rwa [Nat.zero_add])
      rw [atBlock_zero (readSize32_pos hsize)] at hrun
      rw [maxBlock_eq] at hbound
      exact ⟨nSize, is, l, x, hsize, hrun, fun y hy => Nat.le_trans (hsizes y hy) hbound, hl, hne⟩

/-- Five bytes that declare 2^32 - 1 characters, with nothing behind them: the vector grows to that
size. -/
theorem boundedGrowth_header :
    ¬ BoundedGrowth ⟨0, true⟩ (.init [0xFE, 0xFF, 0xFF, 0xFF, 0xFF]) ∧
      ∃ (v : List (IntTy.Val ⟨0, true⟩)) (is : CDataStream),
        Returns (unserializeBulk (CDataStream.init [0xFE, 0xFF, 0xFF, 0xFF, 0xFF])) (v, is) ∧
          v.length = 2 ^ 32 - 1 := by
  have hsize : readSize32 (CDataStream.init [0xFE, 0xFF, 0xFF, 0xFF, 0xFF]) =
      .ok (2 ^ 32 - 1, ⟨[], 0⟩) := by decide
  constructor
  · rintro ⟨nSize, is, l, x, h, hrun, hsizes, _⟩
    obtain ⟨hlen, _⟩ := bulkRun_counts (readSize32_lt h) hrun
    rw [hsize] at h
    cases h
    have hx := hsizes x (List.mem_append_right l (List.mem_singleton_self x))
    rw [hlen, ← maxBlock_eq] at hx
    have hmax : maxBlock ⟨0, true⟩ ≤ 5000000 :=
      Nat.le_trans (Nat.le_mul_of_pos_right _ (IntTy.size_pos _)) (Nat.le_of_eq (maxBlock_mul _))
    have hn : (CDataStream.init [0xFE, 0xFF, 0xFF, 0xFF, 0xFF]).unread.length /
        IntTy.size ⟨0, true⟩ ≤ 5 := Nat.div_le_self _ _
    omega
  · exact ⟨_, _, bulk_returns (by decide) (by decide), decoded_length⟩

end Serialize
end Huicpp
