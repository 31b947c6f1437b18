import Mathlib
import Huicpp.Cxx.ByteOrder

/-!
# Cxx.Words

Parts of a block: what is stored at a place is loaded from there, and elsewhere nothing changes
(`loadAt_self`, `loadAt_elsewhere`). A word of 32 bits is stored in network order, most significant
byte first (`netBytes`).
-/

namespace Cxx

section Parts

variable {α : Type} {v v' xs : List α} {i j n : Nat}

/-- `n` elements from `v[i]` on. -/
def loadAt (v : List α) (i n : Nat) : Outcome (List α) :=
  if i + n ≤ v.length then .ok ((v.drop i).take n) else .undef .outOfBounds

theorem storeAt_eq_ok : storeAt v i xs = .ok v' ↔
    i + xs.length ≤ v.length ∧ v.take i ++ xs ++ v.drop (i + xs.length) = v' := by
  rw [storeAt]
  split
  · rename_i hroom
    rw [Outcome.ok.injEq, and_iff_right hroom]
  · rename_i hroom
    exact iff_of_false (fun h => by cases h) fun h => hroom h.1

theorem storeAt_length (h : storeAt v i xs = .ok v') : v'.length = v.length := by
  obtain ⟨hroom, rfl⟩ := storeAt_eq_ok.mp h
  rw [List.length_append, List.length_append, List.length_take, List.length_drop]
  omega

theorem getElem?_storeAt (h : storeAt v i xs = .ok v') (k : Nat) :
    v'[k]? = if i ≤ k ∧ k < i + xs.length then xs[k - i]? else v[k]? := by
  obtain ⟨hroom, rfl⟩ := storeAt_eq_ok.mp h
  have htake : (v.take i).length = i := by
    rw [List.length_take]
    omega
  rw [List.append_assoc, List.getElem?_append, htake]
  by_cases hk : k < i
  · rw [if_pos hk, if_neg (by omega), List.getElem?_take_of_lt hk]
  · rw [if_neg hk, List.getElem?_append]
    by_cases hin : k - i < xs.length
    · rw [if_pos hin, if_pos (by omega)]
    · rw [if_neg hin, if_neg (by omega), List.getElem?_drop]
      congr 1
      omega

theorem loadAt_self (h : storeAt v i xs = .ok v') : loadAt v' i xs.length = .ok xs := by
  have hlen := storeAt_length h
  obtain ⟨hroom, _⟩ := storeAt_eq_ok.mp h
  rw [loadAt, if_pos (by omega)]
  congr 1
  refine List.ext_getElem? fun k => ?_
  rw [List.getElem?_take]
  split
  · rw [List.getElem?_drop, getElem?_storeAt h, if_pos (by omega), Nat.add_sub_cancel_left]
  · rename_i hk
    exact (List.getElem?_eq_none (not_lt.mp hk)).symm

theorem loadAt_elsewhere (h : storeAt v i xs = .ok v') (hapart : j + n ≤ i ∨ i + xs.length ≤ j) :
    loadAt v' j n = loadAt v j n := by
  have hsame : (v'.drop j).take n = (v.drop j).take n := by
    refine List.ext_getElem? fun k => ?_
    rw [List.getElem?_take, List.getElem?_take]
    split
    · rw [List.getElem?_drop, List.getElem?_drop, getElem?_storeAt h, if_neg (by omega)]
    · rfl
  rw [loadAt, loadAt, storeAt_length h, hsame]

end Parts

/-! ## Network order -/

/-- The bytes of `htonl(word)` in memory. -/
def netBytes (word : BitVec 32) : List Byte := leBytes 4 (htonl word).toNat

/-- `ntohl` of the number in such bytes. -/
def ofNetBytes (bs : List Byte) : BitVec 32 := ntohl (BitVec.ofNat 32 (leNat bs))

@[simp] theorem netBytes_length (word : BitVec 32) : (netBytes word).length = 4 := leBytes_length 4 _

@[simp] theorem ofNetBytes_netBytes (word : BitVec 32) : ofNetBytes (netBytes word) = word := by
  have hback : BitVec.ofNat 32 (leNat (netBytes word)) = htonl word := by
    apply BitVec.eq_of_toNat_eq
    have hlt := (htonl word).isLt
    rw [netBytes, leNat_leBytes, BitVec.toNat_ofNat]
    omega
  rw [ofNetBytes, hback, ntohl_htonl]

end Cxx
