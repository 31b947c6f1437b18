import Mathlib
import Huicpp.Cxx.Memory

/-!
# Crypto.Hex

The three hex encoders, and the digests printed with them. The encoders share one loop; they differ
in the element type through which the byte becomes a table index. `HexMem` and `HexStr(string)` go
through `char`, which is signed, `HexStr(ptr, len)` through `unsigned char`.

* `hexLoop_ok`, `hexLoop_undef`: the loop writes the text of all bytes, or leaves the table at the
  first byte whose index is negative.
* `hexAgree_iff`: when the three agree with the hex text, and when the digests do.
-/

namespace Huicpp
namespace Crypto

open Cxx

def hexmap : List Byte :=
  ['0', '1', '2', '3', '4', '5', '6', '7', '8', '9', 'a', 'b', 'c', 'd', 'e', 'f'].map charByte

/-- `create_hexbyte_map`. -/
def hexbyteMap : List (Byte × Byte) :=
  (List.range 256).map fun i => (hexmap.getD (i >>> 4) 0, hexmap.getD (i &&& 15) 0)

/-- `hexbyte_map[i]`, where the `int` is converted to `size_t`. -/
def hexbyteAt (i : Int) : Outcome (Byte × Byte) :=
  match hexbyteMap[(i % 2 ^ 64).toNat]? with
  | some cvr => .ok cvr
  | none => .undef .outOfBounds

/-- The loop of all three encoders: `index` takes the byte to the table index. -/
def hexLoop (index : Byte → Int) : List Byte → Nat → List Byte → Outcome (List Byte)
  | [], _, rv => .ok rv
  | c :: cs, i, rv => do
    let cvr ← hexbyteAt (index c)
    let rv ← storeAt rv (i * 2) [cvr.1]
    let rv ← storeAt rv (i * 2 + 1) [cvr.2]
    hexLoop index cs (i + 1) rv

def hexMem (mem : List Byte) : Outcome (List Byte) :=
  hexLoop BitVec.toInt mem 0 (List.replicate (mem.length * 2) 0)

def hexStr (str : List Byte) : Outcome (List Byte) :=
  hexLoop BitVec.toInt str 0 (List.replicate (str.length * 2) 0)

/-- `HexStr(ptr, len)`. The `int` product `len * 2` must not overflow, and the string constructor
refuses a negative length. -/
def hexStrPtr (ptr : List Byte) (len : Int) : Outcome (List Byte) :=
  if len * 2 < -2 ^ 31 ∨ 2 ^ 31 ≤ len * 2 then .undef .overflow
  else if len < 0 then .throws .lengthError
  else if ptr.length < len.toNat then .undef .outOfBounds
  else hexLoop (fun c => c.toNat) (ptr.take len.toNat) 0 (List.replicate (len * 2).toNat 0)

/-! ## Digests -/

/-- A digest function of OpenSSL with an output buffer of `n` bytes. -/
structure Digest (n : Nat) where
  hash : List Byte → List Byte
  hash_length : ∀ s, (hash s).length = n

/-- `MD5_BUF_LEN`. -/
def md5BufLen : Nat := 16

/-- `SHA256_BUF_LEN`. -/
def sha256BufLen : Nat := 32

/-- `MD5(indata, outdata)`: the content of `outdata`. -/
def md5Mem (md5 : Digest md5BufLen) (indata : List Byte) : List Byte := md5.hash indata

def md5Str (md5 : Digest md5BufLen) (instr : List Byte) : Outcome (List Byte) :=
  hexMem (md5Mem md5 instr)

/-- `Sha256(indata, outdata)`: the content of `outdata`. -/
def sha256Mem (sha256 : Digest sha256BufLen) (indata : List Byte) : List Byte := sha256.hash indata

def sha256Str (sha256 : Digest sha256BufLen) (instr : List Byte) : Outcome (List Byte) :=
  hexMem (sha256Mem sha256 instr)

/-! ## Hex text -/

/-- The lowercase hex digit for `n < 16`. -/
def hexDigit (n : Nat) : Byte := BitVec.ofNat 8 (if n < 10 then 48 + n else 87 + n)

/-- Two digits for every byte, the high nibble first. -/
def hexText (b : List Byte) : List Byte :=
  b.flatMap fun c => [hexDigit (c.toNat / 16), hexDigit (c.toNat % 16)]

theorem hexText_length (b : List Byte) : (hexText b).length = b.length * 2 := by
  induction b with
  | nil => rfl
  | cons c cs ih =>
    rw [hexText, List.flatMap_cons, List.length_append, List.length_cons, ← hexText, ih]
    simp only [List.length_cons, List.length_nil]
    omega

theorem hexmap_getD : ∀ n < 16, hexmap.getD n 0 = hexDigit n := by decide

theorem hexbyteAt_toNat (c : Byte) :
    hexbyteAt c.toNat = .ok (hexDigit (c.toNat / 16), hexDigit (c.toNat % 16)) := by
  have hc := c.isLt
  have hidx : (((c.toNat : Int) % 2 ^ 64).toNat) = c.toNat := by omega
  have hshift : c.toNat >>> 4 = c.toNat / 16 := Nat.shiftRight_eq_div_pow _ _
  have hand : c.toNat &&& 15 = c.toNat % 16 := Nat.and_two_pow_sub_one_eq_mod _ 4
  rw [hexbyteAt, hidx, hexbyteMap, List.getElem?_map, List.getElem?_range hc, Option.map_some,
    hshift, hand, hexmap_getD _ (by omega), hexmap_getD _ (by omega)]

theorem hexbyteAt_neg {i : Int} (h1 : -128 ≤ i) (h2 : i < 0) :
    hexbyteAt i = .undef .outOfBounds := by
  have hlen : hexbyteMap.length = 256 := by simp [hexbyteMap]
  have hidx : hexbyteMap[(i % 2 ^ 64).toNat]? = none := by
    rw [List.getElem?_eq_none_iff, hlen]
    omega
  rw [hexbyteAt, hidx]

section Loop

variable {index : Byte → Int}

theorem replicate_cons_zeros (c : Byte) (cs : List Byte) :
    List.replicate ((c :: cs).length * 2) (0 : Byte) =
      0 :: 0 :: List.replicate (cs.length * 2) 0 := by
  rw [List.length_cons, Nat.add_mul]
  rfl

theorem hexLoop_cons {c : Byte} {cs done z : List Byte} {i : Nat} (hi : done.length = i * 2)
    (h : index c = c.toNat) :
    hexLoop index (c :: cs) i (done ++ 0 :: 0 :: z) =
      hexLoop index cs (i + 1)
        (done ++ [hexDigit (c.toNat / 16), hexDigit (c.toNat % 16)] ++ z) := by
  have hlen : (done ++ [hexDigit (c.toNat / 16)]).length = i * 2 + 1 := by
    rw [List.length_append, hi]
    rfl
  have hsplit : done ++ hexDigit (c.toNat / 16) :: 0 :: z =
      done ++ [hexDigit (c.toNat / 16)] ++ 0 :: z := by simp
  rw [hexLoop, h, hexbyteAt_toNat, Outcome.ok_bind, storeAt_cons hi, Outcome.ok_bind, hsplit,
    storeAt_cons hlen, Outcome.ok_bind]
  simp

/-- After `i` bytes `rv` holds their text, and zeros where the rest will be. -/
theorem hexLoop_ok (cs : List Byte) (h : ∀ c ∈ cs, index c = c.toNat) :
    ∀ (done : List Byte) (i : Nat), done.length = i * 2 →
      hexLoop index cs i (done ++ List.replicate (cs.length * 2) 0) = .ok (done ++ hexText cs) := by
  induction cs with
  | nil =>
    intro done i _
    rfl
  | cons c cs ih =>
    intro done i hi
    rw [replicate_cons_zeros, hexLoop_cons hi (h c List.mem_cons_self),
      ih (fun d hd => h d (List.mem_cons_of_mem _ hd)) _ (i + 1)
        (by rw [List.length_append, hi, Nat.add_mul]; rfl)]
    simp [hexText]

end Loop

/-! ## Signed characters -/

theorem toInt_of_lt {c : Byte} (h : c.toNat < 128) : c.toInt = c.toNat :=
  BitVec.toInt_eq_toNat_of_lt (by omega)

theorem toInt_of_le {c : Byte} (h : 128 ≤ c.toNat) : -128 ≤ c.toInt ∧ c.toInt < 0 := by
  have hc := c.isLt
  rw [BitVec.toInt_eq_toNat_cond]
  split <;> omega

/-- The loop over `char` leaves the table at the first byte from 128 on. -/
theorem hexLoop_undef (cs : List Byte) (h : ∃ c ∈ cs, 128 ≤ c.toNat) :
    ∀ (done : List Byte) (i : Nat), done.length = i * 2 →
      hexLoop BitVec.toInt cs i (done ++ List.replicate (cs.length * 2) 0) =
        .undef .outOfBounds := by
  induction cs with
  | nil =>
    obtain ⟨c, hc, _⟩ := h
    exact absurd hc List.not_mem_nil
  | cons c cs ih =>
    intro done i hi
    by_cases hc : c.toNat < 128
    · have h' : ∃ d ∈ cs, 128 ≤ d.toNat := by
        obtain ⟨d, hd, hd128⟩ := h
        rcases List.mem_cons.mp hd with rfl | hd
        · omega
        · exact ⟨d, hd, hd128⟩
      rw [replicate_cons_zeros, hexLoop_cons hi (toInt_of_lt hc)]
      exact ih h' _ (i + 1) (by rw [List.length_append, hi, Nat.add_mul]; rfl)
    · obtain ⟨h1, h2⟩ := toInt_of_le (Nat.le_of_not_lt hc)
      rw [hexLoop, hexbyteAt_neg h1 h2, Outcome.undef_bind]

theorem hexMem_eq (b : List Byte) :
    hexMem b = if ∀ c ∈ b, c.toNat < 128 then .ok (hexText b) else .undef .outOfBounds := by
  split
  · rename_i h
    exact hexLoop_ok b (fun c hc => toInt_of_lt (h c hc)) [] 0 rfl
  · rename_i h
    simp only [not_forall, Nat.not_lt] at h
    obtain ⟨c, hc, h128⟩ := h
    exact hexLoop_undef b ⟨c, hc, h128⟩ [] 0 rfl

theorem hexMem_ok_iff (b : List Byte) :
    hexMem b = .ok (hexText b) ↔ ∀ c ∈ b, c.toNat < 128 := by
  rw [hexMem_eq]
  split
  · rename_i h
    exact ⟨fun _ => h, fun _ => rfl⟩
  · rename_i h
    exact ⟨fun h' => (nomatch h'), fun h' => absurd h' h⟩

/-! ## Unsigned characters -/

theorem hexStrPtr_eq {b : List Byte} {len : Nat} (hb : len ≤ b.length) (hlen : len < 2 ^ 30) :
    hexStrPtr b len = .ok (hexText (b.take len)) := by
  have hz : ((len : Int) * 2).toNat = (b.take len).length * 2 := by
    rw [List.length_take, Nat.min_eq_left hb]
    omega
  rw [hexStrPtr, if_neg (by omega), if_neg (by omega), if_neg (by omega), Int.toNat_natCast, hz]
  exact hexLoop_ok _ (fun _ _ => rfl) [] 0 rfl

/-- From 2^30 bytes on the product overflows, or the length is truncated to 32 bits. -/
theorem hexStrPtr_ok_iff (b : List Byte) :
    hexStrPtr b (toHN b.length) = .ok (hexText b) ↔ b.length < 2 ^ 30 := by
  constructor
  · intro h
    by_contra hlen
    by_cases hsmall : 0 ≤ toHN b.length ∧ toHN b.length < 2 ^ 30
    · -- a shorter text
      obtain ⟨len, hl⟩ := Int.eq_ofNat_of_zero_le hsmall.1
      have hle : len ≤ b.length := by omega
      rw [hl, hexStrPtr_eq hle (by omega)] at h
      have hlens := congrArg List.length (Outcome.ok.inj h)
      rw [hexText_length, hexText_length, List.length_take] at hlens
      omega
    · rw [hexStrPtr] at h
      split at h
      · cases h
      · split at h
        · cases h
        · omega
  · intro hlen
    rw [toHN_of_lt (by omega), hexStrPtr_eq (Nat.le_refl _) hlen, List.take_length]

/-! ## All entry points -/

/-- **Hex encoding agrees across its entry points** exactly for short sequences of bytes below 128.
A digest is printed as its hex text exactly when all its bytes are below 128. -/
theorem hexAgree_iff (b : List Byte) :
    ((hexMem b = .ok (hexText b) ∧ hexStr b = .ok (hexText b) ∧
        hexStrPtr b (toHN b.length) = .ok (hexText b)) ↔
      (∀ c ∈ b, c.toNat < 128) ∧ b.length < 2 ^ 30) ∧
    (∀ md5 : Digest md5BufLen,
      md5Str md5 b = .ok (hexText (md5.hash b)) ↔ ∀ c ∈ md5.hash b, c.toNat < 128) ∧
    ∀ sha256 : Digest sha256BufLen,
      sha256Str sha256 b = .ok (hexText (sha256.hash b)) ↔ ∀ c ∈ sha256.hash b, c.toNat < 128 := by
  refine ⟨?_, fun md5 => hexMem_ok_iff _, fun sha256 => hexMem_ok_iff _⟩
  have hstr : hexStr b = hexMem b := rfl
  rw [hstr, hexStrPtr_ok_iff, hexMem_ok_iff]
  exact ⟨fun h => ⟨h.1, h.2.2⟩, fun h => ⟨h.1, h.1, h.2⟩⟩

/-- The byte 128, through its three entry points. -/
theorem hex_disagree :
    hexMem [0x80] = .undef .outOfBounds ∧ hexStr [0x80] = .undef .outOfBounds ∧
      hexStrPtr [0x80] 1 = .ok (hexText [0x80]) ∧ hexText [0x80] = ['8', '0'].map charByte := by
  decide

end Crypto
end Huicpp
