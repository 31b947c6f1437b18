import Mathlib
import Huicpp.Cxx.HashStream

/-!
# Cxx.BlockHash

A hash function that works on blocks of 64 bytes. The context keeps what does not fill a block, and the length
of all that it was given goes into the last block.

* `BlockHash.stream`: it does not matter how the input is cut.
-/

namespace Cxx

def hashCblock : Nat := 64

/-- `lenBytes` is the number of bits in front of which the last block is padded. -/
structure BlockHash (n : Nat) where
  State : Type
  init : State
  block : State → List Byte → State
  lenBytes : Nat → List Byte
  makeString : State → List Byte
  makeString_length : ∀ h, (makeString h).length = n

namespace BlockHash

variable {n : Nat} (H : BlockHash n)

/-- `HASH_BLOCK_DATA_ORDER(c, data, num)`, and the data behind these blocks. -/
def blockDataOrder : Nat → H.State → List Byte → H.State × List Byte
  | 0, h, data => (h, data)
  | num + 1, h, data => blockDataOrder num (H.block h (data.take hashCblock)) (data.drop hashCblock)

theorem blockDataOrder_append (rest : List Byte) {num : Nat} {h : H.State} {data : List Byte}
    (hnum : num * hashCblock ≤ data.length) :
    H.blockDataOrder num h (data ++ rest) =
      ((H.blockDataOrder num h data).1, (H.blockDataOrder num h data).2 ++ rest) := by
  induction num generalizing h data with
  | zero => rfl
  | succ num ih =>
    rw [Nat.succ_mul] at hnum
    have hfull : hashCblock ≤ data.length := Nat.le_of_add_left_le hnum
    have hrest : num * hashCblock ≤ (data.drop hashCblock).length := by
      rw [List.length_drop]
      omega
    rw [blockDataOrder, List.take_append_of_le_length hfull, List.drop_append_of_le_length hfull]
    exact ih hrest

theorem blockDataOrder_add (m num : Nat) (h : H.State) (data : List Byte) :
    H.blockDataOrder (m + num) h data =
      H.blockDataOrder num (H.blockDataOrder m h data).1 (H.blockDataOrder m h data).2 := by
  induction m generalizing h data with
  | zero => rw [Nat.zero_add, blockDataOrder]
  | succ m ih =>
    rw [Nat.succ_add]
    exact ih _ _

theorem blockDataOrder_length (num : Nat) (h : H.State) (data : List Byte) :
    (H.blockDataOrder num h data).2.length = data.length - num * hashCblock := by
  induction num generalizing h data with
  | zero => simp [blockDataOrder]
  | succ num ih =>
    rw [blockDataOrder, ih, List.length_drop, Nat.succ_mul]
    omega

/-- `data` is what does not fill a block yet. -/
@[ext]
structure Ctx where
  h : H.State
  len : Nat
  data : List Byte
  data_lt : data.length < hashCblock

def ctxInit : H.Ctx := ⟨H.init, 0, [], by decide⟩

/-- `HASH_UPDATE(c, data, len)` -/
def update (c : H.Ctx) (data : List Byte) : H.Ctx :=
  let all := c.data ++ data
  let r := H.blockDataOrder (all.length / hashCblock) c.h all
  ⟨r.1, c.len + data.length, r.2, by
    have hlen := H.blockDataOrder_length (all.length / hashCblock) c.h all
    have hmod := Nat.mod_lt all.length (show 0 < hashCblock by decide)
    rw [Nat.mod_eq_sub_div_mul] at hmod
    exact hlen ▸ hmod⟩

/-- `HASH_FINAL(md, c)`. The length takes eight bytes, for which a block of its own may be needed. -/
def final (c : H.Ctx) : List Byte :=
  let p := c.data ++ [0x80]
  let filled := p ++ List.replicate (hashCblock - p.length) 0
  let r := if hashCblock - 8 < p.length then (H.block c.h filled, []) else (c.h, p)
  let last := r.2 ++ List.replicate (hashCblock - 8 - r.2.length) 0 ++ H.lenBytes (8 * c.len)
  H.makeString (H.block r.1 last)

theorem update_nil (c : H.Ctx) : H.update c [] = c := by
  have hzero : c.data.length / hashCblock = 0 := Nat.div_eq_of_lt c.data_lt
  apply Ctx.ext <;> simp [update, hzero, blockDataOrder]

theorem update_append (c : H.Ctx) (a b : List Byte) :
    H.update (H.update c a) b = H.update c (a ++ b) := by
  set first := c.data ++ a with hfirst
  set m := first.length / hashCblock with hm
  set r := H.blockDataOrder m c.h first with hr
  have hle : m * hashCblock ≤ first.length := Nat.div_mul_le_self _ _
  have hall : c.data ++ (a ++ b) = first ++ b := by rw [hfirst, List.append_assoc]
  have hlen : r.2.length = first.length - m * hashCblock := H.blockDataOrder_length m c.h first
  -- the blocks of the whole are those of the first part and those of what is left of it with the rest
  have hnum : (first ++ b).length / hashCblock = m + (r.2 ++ b).length / hashCblock := by
    have hwhole : (first ++ b).length = first.length + b.length := List.length_append
    have hleft : (r.2 ++ b).length = r.2.length + b.length := List.length_append
    have hsplit : (first ++ b).length = (r.2 ++ b).length + hashCblock * m := by
      rw [hwhole, hleft, hlen, Nat.mul_comm hashCblock m]
      omega
    rw [hsplit, Nat.add_mul_div_left _ _ (by decide), Nat.add_comm]
  have hblocks : H.blockDataOrder ((first ++ b).length / hashCblock) c.h (first ++ b) =
      H.blockDataOrder ((r.2 ++ b).length / hashCblock) r.1 (r.2 ++ b) := by
    rw [hnum, blockDataOrder_add, H.blockDataOrder_append b hle]
  apply Ctx.ext
  · simp only [update, hall]
    rw [hblocks]
  · simp only [update, List.length_append, Nat.add_assoc]
  · simp only [update, hall]
    rw [hblocks]

def stream : StreamHash n where
  Ctx := H.Ctx
  init := H.ctxInit
  update := H.update
  final := H.final
  update_nil := H.update_nil
  update_append := H.update_append
  final_length _ := H.makeString_length _

end BlockHash
end Cxx
