import Mathlib
import Huicpp.Cxx.Memory

/-!
# Cxx.ByteOrder

Host and network byte order on a little-endian machine: `htons`, `ntohs`, `htonl` and `ntohl` turn
the bytes of a number round. Done twice, this does nothing.
-/

namespace Cxx

theorem leNat_lt (bs : List Byte) : leNat bs < 256 ^ bs.length := by
  induction bs with
  | nil => simp [leNat]
  | cons b bs ih =>
    have hb : b.toNat < 256 := b.isLt
    rw [leNat, List.length_cons, Nat.pow_succ']
    omega

theorem leBytes_leNat (bs : List Byte) : leBytes bs.length (leNat bs) = bs := by
  induction bs with
  | nil => rfl
  | cons b bs ih =>
    have hb : b.toNat < 256 := b.isLt
    have hdiv : (b.toNat + 256 * leNat bs) / 256 = leNat bs := by omega
    have hmod : BitVec.ofNat 8 (b.toNat + 256 * leNat bs) = b := by
      apply BitVec.eq_of_toNat_eq
      rw [BitVec.toNat_ofNat]
      omega
    rw [List.length_cons, leNat, leBytes, hdiv, hmod, ih]

/-- The number of `k` bytes with the bytes of `n` the other way round. -/
def swapBytes (k n : Nat) : Nat := leNat (leBytes k n).reverse

theorem swapBytes_lt (k n : Nat) : swapBytes k n < 256 ^ k := by
  have hlt := leNat_lt (leBytes k n).reverse
  rwa [List.length_reverse, leBytes_length] at hlt

theorem swapBytes_swapBytes (k n : Nat) : swapBytes k (swapBytes k n) = n % 256 ^ k := by
  have hbytes := leBytes_leNat (leBytes k n).reverse
  rw [List.length_reverse, leBytes_length] at hbytes
  rw [swapBytes, swapBytes, hbytes, List.reverse_reverse, leNat_leBytes]

def htons (n : BitVec 16) : BitVec 16 := BitVec.ofNat 16 (swapBytes 2 n.toNat)

def ntohs (n : BitVec 16) : BitVec 16 := htons n

def htonl (n : BitVec 32) : BitVec 32 := BitVec.ofNat 32 (swapBytes 4 n.toNat)

def ntohl (n : BitVec 32) : BitVec 32 := htonl n

theorem htons_toNat (n : BitVec 16) : (htons n).toNat = swapBytes 2 n.toNat := by
  rw [htons, BitVec.toNat_ofNat]
  exact Nat.mod_eq_of_lt (swapBytes_lt 2 n.toNat)

theorem htonl_toNat (n : BitVec 32) : (htonl n).toNat = swapBytes 4 n.toNat := by
  rw [htonl, BitVec.toNat_ofNat]
  exact Nat.mod_eq_of_lt (swapBytes_lt 4 n.toNat)

@[simp] theorem ntohs_htons (n : BitVec 16) : ntohs (htons n) = n := by
  apply BitVec.eq_of_toNat_eq
  rw [ntohs, htons_toNat, htons_toNat, swapBytes_swapBytes]
  exact Nat.mod_eq_of_lt n.isLt

@[simp] theorem ntohl_htonl (n : BitVec 32) : ntohl (htonl n) = n := by
  apply BitVec.eq_of_toNat_eq
  rw [ntohl, htonl_toNat, htonl_toNat, swapBytes_swapBytes]
  exact Nat.mod_eq_of_lt n.isLt

theorem htons_eq_self_iff (n : BitVec 16) : htons n = n ↔ n.toNat / 256 = n.toNat % 256 := by
  have hlt : n.toNat < 65536 := n.isLt
  have hswap : swapBytes 2 n.toNat = n.toNat / 256 + 256 * (n.toNat % 256) := by
    simp only [swapBytes, leBytes, List.reverse_cons, List.reverse_nil, List.nil_append,
      List.cons_append, leNat, BitVec.toNat_ofNat]
    omega
  rw [← BitVec.toNat_inj, htons_toNat, hswap]
  omega

end Cxx
