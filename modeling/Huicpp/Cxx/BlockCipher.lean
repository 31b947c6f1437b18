import Mathlib
import Huicpp.Cxx.Memory

/-!
# Cxx.BlockCipher

Electronic codebook mode with PKCS#7 padding, over an arbitrary permutation of 8-byte blocks.

* `ecb f n bs`: the first `n` blocks of `bs`, each mapped by `f`.
* `encrypt`, `decrypt`: with padding. `decrypt_encrypt` is the round trip.
-/

namespace Cxx

abbrev Block := { b : List Byte // b.length = 8 }

namespace Block

/-- The first 8 bytes, filled up with zeros. -/
def ofBytes (bs : List Byte) : Block :=
  ⟨bs.take 8 ++ List.replicate (8 - bs.length) 0, by simp; omega⟩

theorem ofBytes_val {bs : List Byte} (h : 8 ≤ bs.length) : (ofBytes bs).val = bs.take 8 := by
  show bs.take 8 ++ List.replicate (8 - bs.length) 0 = bs.take 8
  rw [Nat.sub_eq_zero_of_le h, List.replicate_zero, List.append_nil]

theorem ofBytes_append (b : Block) (bs : List Byte) : ofBytes (b.val ++ bs) = b := by
  have hb := b.property
  apply Subtype.ext
  rw [ofBytes_val (by rw [List.length_append]; omega), List.take_left' hb]

end Block

namespace BlockCipher

def ecb (f : Block → Block) : Nat → List Byte → List Byte
  | 0, _ => []
  | n + 1, bs => (f (Block.ofBytes bs)).val ++ ecb f n (bs.drop 8)

@[simp] theorem ecb_length (f : Block → Block) (n : Nat) (bs : List Byte) :
    (ecb f n bs).length = 8 * n := by
  induction n generalizing bs with
  | zero => rfl
  | succ n ih =>
    rw [ecb, List.length_append, (f _).property, ih]
    omega

theorem ecb_symm (f : Equiv.Perm Block) (n : Nat) (bs : List Byte) (h : bs.length = 8 * n) :
    ecb f.symm n (ecb f n bs) = bs := by
  induction n generalizing bs with
  | zero => exact (List.length_eq_zero_iff.mp h).symm
  | succ n ih =>
    rw [ecb, ecb, Block.ofBytes_append, Equiv.symm_apply_apply, List.drop_left' (f _).property,
      ih (bs.drop 8) (by rw [List.length_drop]; omega), Block.ofBytes_val (by omega),
      List.take_append_drop]

theorem ecb_append (f : Block → Block) (m n : Nat) (as bs : List Byte) (h : as.length = 8 * m) :
    ecb f (m + n) (as ++ bs) = ecb f m as ++ ecb f n bs := by
  induction m generalizing as with
  | zero =>
    obtain rfl := List.length_eq_zero_iff.mp h
    rw [Nat.zero_add]
    rfl
  | succ m ih =>
    have hfirst : Block.ofBytes (as ++ bs) = Block.ofBytes as := by
      apply Subtype.ext
      rw [Block.ofBytes_val (by rw [List.length_append]; omega), Block.ofBytes_val (by omega),
        List.take_append_of_le_length (by omega)]
    rw [Nat.succ_add_eq_add_succ, Nat.add_succ, ecb, ecb, hfirst,
      List.drop_append_of_le_length (by omega), ih (as.drop 8) (by rw [List.length_drop]; omega),
      List.append_assoc]

theorem ecb_take (f : Block → Block) (m : Nat) (bs : List Byte) (h : 8 * m ≤ bs.length) :
    ecb f m (bs.take (8 * m)) = ecb f m bs := by
  have hsplit := ecb_append f m 0 (bs.take (8 * m)) (bs.drop (8 * m)) (List.length_take_of_le h)
  rw [List.take_append_drop, Nat.add_zero] at hsplit
  rw [hsplit, ecb, List.append_nil]

/-- The number of bytes PKCS#7 adds to a message of `n` bytes. -/
def padLength (n : Nat) : Nat := 8 - n % 8

def pad (bs : List Byte) : List Byte :=
  bs ++ List.replicate (padLength bs.length) (BitVec.ofNat 8 (padLength bs.length))

/-- Removes the padding, if the last byte `k` is between 1 and 8 and the last `k` bytes are `k`. -/
def unpad (bs : List Byte) : Option (List Byte) :=
  match bs.getLast? with
  | none => none
  | some k =>
    let n := bs.length - k.toNat
    if 1 ≤ k.toNat ∧ k.toNat ≤ 8 ∧ bs.drop n = List.replicate k.toNat k then some (bs.take n)
    else none

theorem padLength_pos (n : Nat) : 1 ≤ padLength n ∧ padLength n ≤ 8 := by
  rw [padLength]
  omega

theorem pad_length (bs : List Byte) : (pad bs).length = 8 * (bs.length / 8 + 1) := by
  rw [pad, List.length_append, List.length_replicate, padLength]
  omega

theorem unpad_pad (bs : List Byte) : unpad (pad bs) = some bs := by
  obtain ⟨h1, h8⟩ := padLength_pos bs.length
  have hk : (BitVec.ofNat 8 (padLength bs.length)).toNat = padLength bs.length := by
    rw [BitVec.toNat_ofNat]
    omega
  have hlast : (pad bs).getLast? = some (BitVec.ofNat 8 (padLength bs.length)) := by
    rw [pad, List.getLast?_append, List.getLast?_replicate, if_neg (by omega)]
    rfl
  have hn : (pad bs).length - padLength bs.length = bs.length := by
    rw [pad, List.length_append, List.length_replicate]
    omega
  rw [unpad, hlast]
  simp only [hk, hn]
  rw [pad, List.drop_left, List.take_left, if_pos ⟨h1, h8, rfl⟩]

def encrypt (f : Block → Block) (bs : List Byte) : List Byte := ecb f (bs.length / 8 + 1) (pad bs)

/-- The ciphertext must be a positive number of whole blocks. -/
def decrypt (g : Block → Block) (cs : List Byte) : Option (List Byte) :=
  if cs.length % 8 = 0 then unpad (ecb g (cs.length / 8) cs) else none

theorem encrypt_length (f : Block → Block) (bs : List Byte) :
    (encrypt f bs).length = 8 * (bs.length / 8 + 1) := ecb_length f _ _

theorem decrypt_length_le {g : Block → Block} {cs bs : List Byte} (h : decrypt g cs = some bs) :
    bs.length ≤ cs.length := by
  rw [decrypt] at h
  split at h
  · next hblocks =>
    rw [unpad] at h
    split at h
    · cases h
    · simp only at h
      split at h
      · cases h
        rw [List.length_take, ecb_length]
        omega
      · cases h
  · cases h

theorem encrypt_eq (f : Block → Block) (bs : List Byte) :
    encrypt f bs = ecb f (bs.length / 8) bs ++ encrypt f (bs.drop (8 * (bs.length / 8))) := by
  have hrest : (bs.drop (8 * (bs.length / 8))).length = bs.length % 8 := by
    rw [List.length_drop]
    omega
  have hpad : pad bs = bs.take (8 * (bs.length / 8)) ++ pad (bs.drop (8 * (bs.length / 8))) := by
    have hsame : padLength (bs.length % 8) = padLength bs.length := by
      rw [padLength, padLength, Nat.mod_mod]
    rw [pad, pad, hrest, hsame, ← List.append_assoc, List.take_append_drop]
  have hone : bs.length % 8 / 8 = 0 := Nat.div_eq_of_lt (Nat.mod_lt _ (by decide))
  rw [encrypt, encrypt, hrest, hone, hpad,
    ecb_append _ _ _ _ _ (List.length_take_of_le (by omega)), ecb_take _ _ _ (by omega)]

theorem decrypt_encrypt (f : Equiv.Perm Block) (bs : List Byte) :
    decrypt f.symm (encrypt f bs) = some bs := by
  rw [decrypt, encrypt_length, if_pos (by omega), Nat.mul_div_cancel_left _ (by decide), encrypt,
    ecb_symm f _ _ (pad_length bs), unpad_pad]

end BlockCipher
end Cxx
