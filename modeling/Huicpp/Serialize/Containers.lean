import Mathlib
import Huicpp.Serialize.RoundTrip

/-!
# Serialize.Containers

Reading vectors, maps and sets. Every reader keeps the same invariant: after `i` elements it holds
`xs.take i`, and the stream holds the bytes of `xs.drop i` followed by what comes after.

* `reads_bulkVector`: blocks of fundamental elements, any number of blocks.
* `reads_vector`: elements one by one, in chunks of `5000000 / sizeof(T)`.
* `stuck_vector_size`, `stuck_vector_elem`: the two ways this can hang.
* `reads_tree`, `stuck_tree`: maps and sets; the hint never matters.
-/

namespace Huicpp
namespace Serialize

open Cxx Prog

theorem take_add_drop {α : Type} (xs : List α) (i k : Nat) :
    xs.take (i + k) = xs.take i ++ (xs.drop i).take k := List.take_add

theorem resizeTo_take {α : Type} {xs : List α} {i n : Nat} (c : α) (h1 : i ≤ n)
    (h2 : n ≤ xs.length) : resizeTo (xs.take i) n c = xs.take i ++ List.replicate (n - i) c := by
  rw [resizeTo, List.take_take, List.length_take, Nat.min_eq_right h1,
    Nat.min_eq_left (by omega : i ≤ xs.length)]

theorem storeAt_block {α : Type} {xs : List α} {i blk : Nat} (c : α) (h : i + blk ≤ xs.length) :
    storeAt (resizeTo (xs.take i) (i + blk) c) i ((xs.drop i).take blk) =
      .ok (xs.take (i + blk)) := by
  have hlen : ((xs.drop i).take blk).length = blk := by
    rw [List.length_take, List.length_drop]
    omega
  have hti : (xs.take i).length = i := by
    rw [List.length_take]
    omega
  have htl : (xs.take i ++ List.replicate blk c).drop (i + blk) = [] :=
    List.drop_eq_nil_of_le (by rw [List.length_append, hti, List.length_replicate])
  rw [storeAt, if_pos (by rw [resizeTo_length, hlen]), resizeTo_take _ (by omega) h, hlen,
    Nat.add_sub_cancel_left, List.take_left' hti, htl, List.append_nil, take_add_drop]

theorem maxBlock_eq (t : IntTy) : maxBlock t = 1 + 4999999 / t.size := by
  have h : 4999999 / t.size ≤ 4999999 := Nat.div_le_self _ _
  rw [maxBlock, Nat.mod_eq_of_lt (by omega)]

theorem maxBlock_mul (t : IntTy) : maxBlock t * t.size = 5000000 := by
  rw [maxBlock_eq]
  have hsize : t.size = 1 ∨ t.size = 2 ∨ t.size = 4 ∨ t.size = 8 := by
    obtain ⟨⟨k, hk⟩, signed⟩ := t
    interval_cases k
    · exact .inl rfl
    · exact .inr (.inl rfl)
    · exact .inr (.inr (.inl rfl))
    · exact .inr (.inr (.inr rfl))
  rcases hsize with h | h | h | h
  · rw [h]
  · rw [h]
  · rw [h]
  · rw [h]

namespace SerTy

section Bulk

variable {t : IntTy} {σ : Type} [Stream σ] [LawfulStream σ]

theorem flatMap_toMem_length (xs : List t.Val) :
    (xs.flatMap IntTy.Val.toMem).length = xs.length * t.size := by
  induction xs with
  | nil => simp
  | cons x xs ih =>
    rw [List.flatMap_cons, List.length_append, ih, IntTy.Val.toMem_length, List.length_cons,
      Nat.add_mul]
    omega

theorem maxBlock_pos (t : IntTy) : 0 < maxBlock t := by
  rw [maxBlock_eq]
  exact Nat.add_pos_left Nat.one_pos _

/-- The invariant of the block loop. -/
def BulkInv (xs : List t.Val) (r : List Byte) : Nat × List t.Val × σ → Prop
  | (i, v, is) => i ≤ xs.length ∧ v = xs.take i ∧
      LawfulStream.Holds is ((xs.drop i).flatMap IntTy.Val.toMem ++ r)

theorem readBlock_returns {xs : List t.Val} {r : List Byte} (hn : xs.length < 2 ^ 32)
    {i : Nat} {v : List t.Val} {is : σ} (h : BulkInv xs r (i, v, is)) (hi : i < xs.length) :
    ∃ i' v' is', Returns (readBlock xs.length (i, v, is)) (i', v', is') ∧
      BulkInv xs r (i', v', is') ∧ i < i' := by
  obtain ⟨_, rfl, hh⟩ := h
  have hmax := maxBlock_pos t
  obtain ⟨blk, hblk⟩ : ∃ blk, blk = min (xs.length - i) (maxBlock t) := ⟨_, rfl⟩
  have hpos : 0 < blk := by omega
  have hle : i + blk ≤ xs.length := by omega
  have hsplit : (xs.drop i).flatMap IntTy.Val.toMem =
      ((xs.drop i).take blk).flatMap IntTy.Val.toMem ++
        (xs.drop (i + blk)).flatMap IntTy.Val.toMem := by
    rw [← List.flatMap_append, ← List.drop_drop, List.take_append_drop]
  have hlen : ((xs.drop i).take blk).length = blk := by
    rw [List.length_take, List.length_drop]
    omega
  rw [hsplit, List.append_assoc] at hh
  obtain ⟨is', h1, h2⟩ := read_exact (flatMap_toMem_length _) hh
  rw [hlen] at h1
  have hmem : IntTy.Val.ofMemArray blk (((xs.drop i).take blk).flatMap IntTy.Val.toMem) =
      (xs.drop i).take blk := by
    have := IntTy.Val.ofMemArray_toMem ((xs.drop i).take blk)
    rwa [hlen] at this
  refine ⟨i + blk, xs.take (i + blk), is', ?_, ⟨hle, rfl, h2⟩, by omega⟩
  simp only [readBlock, ← hblk, Nat.mod_eq_of_lt (by omega : i + blk < 2 ^ 32)]
  refine .bind (.lift h1) ?_
  simp only [hmem]
  exact .bind (.lift (storeAt_block _ hle)) (.pure _)

theorem reads_bulkVector (xs : List t.Val) : (bulkVector t).Reads xs := by
  intro σ _ _ is r prev hlen h
  rw [bytes_bulkVector, List.append_assoc] at hlen h
  have hn : xs.length < 2 ^ 32 := by
    rw [List.length_append, List.length_append, flatMap_toMem_length] at hlen
    have := Nat.le_mul_of_pos_right xs.length t.size_pos
    omega
  obtain ⟨is1, h1, h2⟩ := readSize32_compactSize hn h
  obtain ⟨⟨i, v, is'⟩, hr, ⟨hi, hv, hh⟩, hc⟩ := Returns.while_inv
    (fun (i, _, _) => decide (i < xs.length)) (readBlock xs.length)
    (BulkInv xs r) (fun s => xs.length - s.1)
    (by
      rintro ⟨i, v, is⟩ hs hc
      have hi : i < xs.length := by simpa using hc
      obtain ⟨i', v', is', hr, hs', hlt⟩ := readBlock_returns hn hs hi
      exact ⟨(i', v', is'), hr, hs', by have := hs'.1; simp only; omega⟩)
    (0, [], is1) ⟨Nat.zero_le _, rfl, h2⟩
  have hi' : i = xs.length := by
    have : ¬ i < xs.length := by simpa using hc
    omega
  subst hi'
  rw [List.take_length] at hv
  subst hv
  refine ⟨is', .bind (.lift h1) (hr.bind (.pure _)), ?_⟩
  simpa using hh

end Bulk

section Elems

variable {e : SerTy} {σ : Type} [Stream σ] [LawfulStream σ]

/-- The stream part of every element-wise invariant. -/
def Rest (e : SerTy) (xs : List e.T) (r : List Byte) (i : Nat) (is : σ) : Prop :=
  LawfulStream.Holds is ((xs.drop i).flatMap e.bytes ++ r)

theorem rest_length {xs : List e.T} {r : List Byte} (hlen : (xs.flatMap e.bytes ++ r).length < 2 ^ 31)
    (i : Nat) : ((xs.drop i).flatMap e.bytes ++ r).length < 2 ^ 31 := by
  have h : xs.flatMap e.bytes =
      (xs.take i).flatMap e.bytes ++ (xs.drop i).flatMap e.bytes := by
    rw [← List.flatMap_append, List.take_append_drop]
  rw [h, List.append_assoc, List.length_append] at hlen
  omega

theorem rest_cons {xs : List e.T} {i : Nat} (hi : i < xs.length) (r : List Byte) :
    (xs.drop i).flatMap e.bytes ++ r =
      e.bytes xs[i] ++ ((xs.drop (i + 1)).flatMap e.bytes ++ r) := by
  rw [List.drop_eq_getElem_cons hi, List.flatMap_cons, List.append_assoc]

theorem rest_reads {xs : List e.T} {r : List Byte}
    (hlen : (xs.flatMap e.bytes ++ r).length < 2 ^ 31) {i : Nat} (hi : i < xs.length) {is : σ}
    (hx : e.Reads xs[i]) (h : Rest e xs r i is) (prev : e.T) :
    ∃ is', Returns (e.unserialize is prev) (xs[i], is') ∧ Rest e xs r (i + 1) is' := by
  have hl := rest_length hlen i
  rw [rest_cons hi] at hl
  rw [Rest, rest_cons hi] at h
  exact hx is _ prev hl h

theorem rest_stuck {xs : List e.T} {r : List Byte}
    (hlen : (xs.flatMap e.bytes ++ r).length < 2 ^ 31) {i : Nat} (hi : i < xs.length) {is : σ}
    (hx : e.Stuck xs[i]) (h : Rest e xs r i is) (prev : e.T) :
    Hangs (e.unserialize is prev) := by
  have hl := rest_length hlen i
  rw [rest_cons hi] at hl
  rw [Rest, rest_cons hi] at h
  exact hx is _ prev hl h

/-- The invariant of the loop over one chunk that ends at `nMid`. -/
def ChunkInv (e : SerTy) (xs : List e.T) (r : List Byte) (nMid i : Nat) : List e.T × σ → Prop
  | (v, is) => v = xs.take i ++ List.replicate (nMid - i) e.dflt ∧ Rest e xs r i is

theorem chunk_getElem {xs : List e.T} {nMid i : Nat} (hi : i < nMid) (hm : nMid ≤ xs.length) :
    (xs.take i ++ List.replicate (nMid - i) e.dflt)[i]? = some e.dflt := by
  have hti : (xs.take i).length = i := by
    rw [List.length_take]
    omega
  rw [List.getElem?_append_right (by omega), hti, Nat.sub_self, List.getElem?_replicate,
    if_pos (by omega)]

theorem chunk_set {xs : List e.T} {nMid i : Nat} (hi : i < nMid) (hix : i < xs.length) :
    (xs.take i ++ List.replicate (nMid - i) e.dflt).set i xs[i] =
      xs.take (i + 1) ++ List.replicate (nMid - (i + 1)) e.dflt := by
  have hti : (xs.take i).length = i := by
    rw [List.length_take]
    omega
  rw [List.set_append_right _ _ (by omega), hti, Nat.sub_self,
    show nMid - i = nMid - (i + 1) + 1 by omega, List.replicate_succ, List.set_cons_zero,
    List.take_succ_eq_append_getElem (by omega), List.append_assoc, List.singleton_append]

theorem readElem_returns {xs : List e.T} {r : List Byte}
    (hlen : (xs.flatMap e.bytes ++ r).length < 2 ^ 31) {nMid i : Nat} (hi : i < nMid)
    (hm : nMid ≤ xs.length) (hix : i < xs.length) (hx : e.Reads xs[i]) {s : List e.T × σ}
    (h : ChunkInv e xs r nMid i s) :
    ∃ s', Returns (readElem e i s) s' ∧ ChunkInv e xs r nMid (i + 1) s' := by
  obtain ⟨v, is⟩ := s
  obtain ⟨rfl, hh⟩ := h
  obtain ⟨is', hr, hh'⟩ := rest_reads hlen hix hx hh e.dflt
  refine ⟨(_, is'), ?_, chunk_set hi hix, hh'⟩
  rw [readElem, chunk_getElem hi hm]
  exact hr.bind (.pure _)

theorem readElem_hangs {xs : List e.T} {r : List Byte}
    (hlen : (xs.flatMap e.bytes ++ r).length < 2 ^ 31) {nMid i : Nat} (hi : i < nMid)
    (hm : nMid ≤ xs.length) (hix : i < xs.length) (hx : e.Stuck xs[i]) {s : List e.T × σ}
    (h : ChunkInv e xs r nMid i s) : Hangs (readElem e i s) := by
  obtain ⟨v, is⟩ := s
  obtain ⟨rfl, hh⟩ := h
  rw [readElem, chunk_getElem hi hm]
  exact (rest_stuck hlen hix hx hh e.dflt).bind

theorem nextMid_spec {nSize nMid : Nat} (hpos : 0 < e.sizeof) (hsz : e.sizeof ≤ 5000000)
    (hn : nMid < nSize) (hlt : nSize + 5000000 < 2 ^ 32) :
    nMid < nextMid e nSize nMid ∧ nextMid e nSize nMid ≤ nSize := by
  have h1 : 0 < 5000000 / e.sizeof := Nat.div_pos hsz hpos
  have h2 : 5000000 / e.sizeof ≤ 5000000 := Nat.div_le_self _ _
  rw [nextMid, Nat.mod_eq_of_lt (by omega)]
  split <;> omega

/-- The invariant of the `nMid` loop. -/
def ElemsInv (e : SerTy) (xs : List e.T) (r : List Byte) : Nat × Nat × List e.T × σ → Prop
  | (i, nMid, v, is) => i = nMid ∧ nMid ≤ xs.length ∧ v = xs.take nMid ∧ Rest e xs r nMid is

theorem chunkInv_start {xs : List e.T} {r : List Byte} {nMid nMid' : Nat} {is : σ}
    (h1 : nMid ≤ nMid') (h2 : nMid' ≤ xs.length) (hh : Rest e xs r nMid is) :
    ChunkInv e xs r nMid' nMid (resizeTo (xs.take nMid) nMid' e.dflt, is) :=
  ⟨resizeTo_take _ h1 h2, hh⟩

theorem readChunk_returns {xs : List e.T} {r : List Byte}
    (hlen : (xs.flatMap e.bytes ++ r).length < 2 ^ 31) {i nMid : Nat} {v : List e.T} {is : σ}
    (h : ElemsInv e xs r (i, nMid, v, is)) (h1 : nMid ≤ nextMid e xs.length nMid)
    (h2 : nextMid e xs.length nMid ≤ xs.length)
    (hx : ∀ j (hj : j < xs.length), j < nextMid e xs.length nMid → e.Reads xs[j]) :
    ∃ v' is', Returns (readChunk e xs.length (i, nMid, v, is))
        (nextMid e xs.length nMid, nextMid e xs.length nMid, v', is') ∧
      ElemsInv e xs r (nextMid e xs.length nMid, nextMid e xs.length nMid, v', is') := by
  obtain ⟨rfl, _, rfl, hh⟩ := h
  have hend : i + (nextMid e xs.length i - i) = nextMid e xs.length i := by omega
  obtain ⟨⟨v', is'⟩, hr, hv', hh'⟩ := Returns.forUp_inv (readElem e)
    (ChunkInv e xs r (nextMid e xs.length i)) (nextMid e xs.length i - i) i _
    (fun j s hj1 hj2 hs =>
      readElem_returns hlen (by omega) h2 (by omega) (hx j (by omega) (by omega)) hs)
    (chunkInv_start h1 h2 hh)
  rw [hend] at hv' hh'
  rw [Nat.sub_self, List.replicate_zero, List.append_nil] at hv'
  refine ⟨v', is', ?_, rfl, h2, hv', hh'⟩
  refine Returns.bind hr ?_
  show Returns (pure (i + (nextMid e xs.length i - i), nextMid e xs.length i, v', is')) _
  rw [hend]
  exact .pure _

theorem readChunk_hangs {xs : List e.T} {r : List Byte}
    (hlen : (xs.flatMap e.bytes ++ r).length < 2 ^ 31) {i nMid : Nat} {v : List e.T} {is : σ}
    (h : ElemsInv e xs r (i, nMid, v, is)) {j : Nat} (hj : j < xs.length) (hij : nMid ≤ j)
    (hjm : j < nextMid e xs.length nMid) (h2 : nextMid e xs.length nMid ≤ xs.length)
    (hx : ∀ l (hl : l < xs.length), l < j → e.Reads xs[l]) (hbad : e.Stuck xs[j]) :
    Hangs (readChunk e xs.length (i, nMid, v, is)) := by
  obtain ⟨rfl, _, rfl, hh⟩ := h
  refine Hangs.bind (Hangs.forUp_inv (ChunkInv e xs r (nextMid e xs.length i))
    (fun s hs => readElem_hangs hlen hjm h2 hj hbad hs) _ i _ hij (by omega)
    (fun l s hl1 hl2 hs =>
      readElem_returns hlen (by omega) h2 (by omega) (hx l (by omega) hl2) hs)
    (chunkInv_start (by omega) h2 hh))

theorem elems_start (he : e.Emits) {xs : List e.T} {is : σ} {r : List Byte}
    (hlen : (compactSize xs.length ++ xs.flatMap e.bytes ++ r).length < 2 ^ 31)
    (h : LawfulStream.Holds is (compactSize xs.length ++ xs.flatMap e.bytes ++ r)) :
    (xs.flatMap e.bytes ++ r).length < 2 ^ 31 ∧ xs.length < 2 ^ 31 ∧
      ∃ is', readSize32 is = .ok (xs.length, is') ∧ Rest e xs r 0 is' := by
  rw [List.append_assoc] at hlen h
  rw [List.length_append] at hlen
  have hle := length_le_flatMap he xs
  have hn : xs.length < 2 ^ 31 := by
    rw [List.length_append] at hlen
    omega
  obtain ⟨is', h1, h2⟩ := readSize32_compactSize (by omega) h
  exact ⟨by omega, hn, is', h1, by rwa [Rest, List.drop_zero]⟩

end Elems

/-! ## Vectors of class types -/

section Vector

variable {e : SerTy} {xs : List e.T}

theorem reads_vector (he : e.Emits) (hpos : 0 < e.sizeof)
    (hsz : xs ≠ [] → e.sizeof ≤ 5000000) (hx : ∀ x ∈ xs, e.Reads x) : (vector e).Reads xs := by
  intro σ _ _ is r prev hlen h
  rw [bytes_vector he] at hlen h
  obtain ⟨hl, hn, is1, h1, h2⟩ := elems_start he hlen h
  obtain ⟨⟨i, nMid, v, is'⟩, hr, ⟨rfl, hm, hv, hh⟩, hc⟩ := Returns.while_inv
    (fun (_, nMid, _, _) => decide (nMid < xs.length)) (readChunk e xs.length)
    (ElemsInv e xs r) (fun s => xs.length - s.2.1)
    (by
      rintro ⟨i, nMid, v, is⟩ hs hc
      have hi : nMid < xs.length := by simpa using hc
      obtain ⟨hlt, hle⟩ := nextMid_spec hpos
        (hsz (by rintro rfl; exact absurd hi (Nat.not_lt_zero _))) hi (by omega)
      obtain ⟨v', is', hr, hs'⟩ := readChunk_returns hl hs (by omega) hle
        (fun j hj _ => hx _ (List.getElem_mem hj))
      exact ⟨_, hr, hs', by simp only; omega⟩)
    (0, 0, [], is1) ⟨rfl, Nat.zero_le _, rfl, h2⟩
  have hi : i = xs.length := by
    have : ¬ i < xs.length := by simpa using hc
    omega
  subst hi
  rw [List.take_length] at hv
  subst hv
  refine ⟨is', .bind (.lift h1) (hr.bind (.pure _)), ?_⟩
  rwa [Rest, List.drop_length] at hh

/-- An element larger than 5000000 bytes: the chunk is empty, and the loop repeats its first
iteration for ever. -/
theorem stuck_vector_size (he : e.Emits) (hne : xs ≠ []) (hsz : 5000000 < e.sizeof) :
    (vector e).Stuck xs := by
  intro σ _ _ is r prev hlen h
  rw [bytes_vector he] at hlen h
  obtain ⟨hl, hn, is1, h1, h2⟩ := elems_start he hlen h
  have hmid : nextMid e xs.length 0 = 0 := by
    simp [nextMid, Nat.div_eq_of_lt hsz]
  refine Returns.bind_hangs (.lift h1) (Hangs.bind (Hangs.while_stuck ?_ fun m => ?_))
  · simpa using List.length_pos_iff.mpr hne
  · show (forUp (readElem e) 0 (nextMid e xs.length 0 - 0) _ m >>= _) = _
    rw [hmid]
    rfl

theorem stuck_vector_elem (he : e.Emits) (hpos : 0 < e.sizeof) (hsz : e.sizeof ≤ 5000000) {j : Nat}
    (hj : j < xs.length) (hx : ∀ l (hl : l < xs.length), l < j → e.Reads xs[l])
    (hbad : e.Stuck xs[j]) : (vector e).Stuck xs := by
  intro σ _ _ is r prev hlen h
  rw [bytes_vector he] at hlen h
  obtain ⟨hl, hn, is1, h1, h2⟩ := elems_start he hlen h
  refine Returns.bind_hangs (.lift h1) (Hangs.bind (Hangs.while_inv
    (fun s => ElemsInv e xs r s ∧ s.2.1 ≤ j) (fun s => xs.length - s.2.1) ?_ ?_ (0, 0, [], is1)
    ⟨⟨rfl, Nat.zero_le _, rfl, h2⟩, Nat.zero_le j⟩))
  · rintro ⟨i, nMid, v, is⟩ ⟨_, hs⟩
    simp only at hs
    simp only [decide_eq_true_eq]
    omega
  · rintro ⟨i, nMid, v, is⟩ ⟨hs, hij⟩
    simp only at hij
    have hi : nMid < xs.length := by omega
    obtain ⟨hlt, hle⟩ := nextMid_spec hpos hsz hi (by omega)
    by_cases hjm : j < nextMid e xs.length nMid
    · exact .inl (readChunk_hangs hl hs hj hij hjm hle hx hbad)
    · obtain ⟨v', is', hr, hs'⟩ := readChunk_returns hl hs (by omega) hle
        (fun l hl1 hl2 => hx l hl1 (by omega))
      exact .inr ⟨_, hr, ⟨hs', by simp only; omega⟩, by simp only; omega⟩

end Vector

/-! ## Maps and sets -/

section Tree

variable {e : SerTy} {κ : Type} [LinearOrder κ] {key : e.T → κ} {m : OrdTree key}

/-- The invariant of the item loop. -/
def TreeInv (m : OrdTree key) (r : List Byte) {σ : Type} [Stream σ] [LawfulStream σ] (i : Nat) :
    OrdTree key × Nat × σ → Prop
  | (t, _, is) => t.elems = m.elems.take i ∧ Rest e m.elems r i is

theorem insert_next {t : OrdTree key} {i : Nat} (hi : i < m.elems.length)
    (ht : t.elems = m.elems.take i) :
    (t.insert m.elems[i]).elems = m.elems.take (i + 1) := by
  have hlast : ∀ y ∈ t.elems, key y < key m.elems[i] := by
    intro y hy
    rw [ht, List.mem_take_iff_getElem] at hy
    obtain ⟨l, hl, rfl⟩ := hy
    exact List.pairwise_iff_getElem.mp m.sorted l i (by omega) hi (by omega)
  rw [OrdTree.insert_last hlast, ht, List.take_succ_eq_append_getElem hi]

theorem readItem_returns {r : List Byte} (hlen : (m.elems.flatMap e.bytes ++ r).length < 2 ^ 31)
    {i : Nat} (hi : i < m.elems.length) (hx : e.Reads m.elems[i]) {σ : Type} [Stream σ]
    [LawfulStream σ] {s : OrdTree key × Nat × σ} (h : TreeInv m r i s) :
    ∃ s', Returns (readItem e key i s) s' ∧ TreeInv m r (i + 1) s' := by
  obtain ⟨t, mi, is⟩ := s
  obtain ⟨ht, hh⟩ := h
  obtain ⟨is', hr, hh'⟩ := rest_reads hlen hi hx hh e.dflt
  refine ⟨_, Returns.bind hr (.pure _), ?_, hh'⟩
  show (t.insertHint mi m.elems[i]).1.elems = _
  rw [OrdTree.insertHint_fst, insert_next hi ht]

theorem readItem_hangs {r : List Byte} (hlen : (m.elems.flatMap e.bytes ++ r).length < 2 ^ 31)
    {i : Nat} (hi : i < m.elems.length) (hx : e.Stuck m.elems[i]) {σ : Type} [Stream σ]
    [LawfulStream σ] {s : OrdTree key × Nat × σ} (h : TreeInv m r i s) :
    Hangs (readItem e key i s) := by
  obtain ⟨t, mi, is⟩ := s
  exact (rest_stuck hlen hi hx h.2 e.dflt).bind

theorem reads_tree (he : e.Emits) (hx : ∀ x ∈ m.elems, e.Reads x) : (tree e key).Reads m := by
  intro σ _ _ is r prev hlen h
  rw [bytes_tree he] at hlen h
  obtain ⟨hl, hn, is1, h1, h2⟩ := elems_start he hlen h
  obtain ⟨⟨t, mi, is'⟩, hr, ht, hh⟩ := Returns.forUp_inv (readItem e key) (TreeInv m r)
    m.elems.length 0 (.empty, 0, is1)
    (fun j s _ hj hs => readItem_returns hl (by omega) (hx _ (List.getElem_mem _)) hs)
    ⟨rfl, h2⟩
  rw [Nat.zero_add] at ht hh
  obtain rfl : t = m := OrdTree.ext (by rw [ht, List.take_length])
  refine ⟨is', .bind (.lift h1) (hr.bind (.pure _)), ?_⟩
  rwa [Rest, List.drop_length] at hh

theorem stuck_tree (he : e.Emits) {j : Nat} (hj : j < m.elems.length)
    (hx : ∀ l (hl : l < m.elems.length), l < j → e.Reads m.elems[l])
    (hbad : e.Stuck m.elems[j]) : (tree e key).Stuck m := by
  intro σ _ _ is r prev hlen h
  rw [bytes_tree he] at hlen h
  obtain ⟨hl, hn, is1, h1, h2⟩ := elems_start he hlen h
  exact Returns.bind_hangs (.lift h1) (Hangs.bind (Hangs.forUp_inv (TreeInv m r)
    (fun s hs => readItem_hangs hl hj hbad hs) _ 0 (.empty, 0, is1) (Nat.zero_le j) (by omega)
    (fun l s _ hlj hs => readItem_returns hl (by omega) (hx l (by omega) hlj) hs) ⟨rfl, h2⟩))

end Tree

end SerTy

end Serialize
end Huicpp
