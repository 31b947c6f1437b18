import Mathlib
import Huicpp.Cxx.Memory

/-!
# Cxx.Block

Pointers to blocks of bytes, with checked accesses. A byte that has not been stored is `none`, and
so is a null pointer.
-/

namespace Cxx

abbrev ByteBlock := List (Option Byte)

/-- A pointer to the start of a block. -/
abbrev Ptr := Option ByteBlock

/-- A block that was just allocated. -/
def freshBlock (size : Nat) : ByteBlock := List.replicate size none

@[simp] theorem freshBlock_length (size : Nat) : (freshBlock size).length = size :=
  List.length_replicate

/-- `p[z] = b`. -/
def store (p : Ptr) (z : Int) (b : Byte) : Outcome Ptr :=
  match p with
  | none => .undef .nullAccess
  | some buf =>
    if 0 ≤ z ∧ z < buf.length then .ok (some (buf.set z.toNat (some b)))
    else .undef .outOfBounds

/-- The byte at `p + z`, whether it has been stored or not. -/
def fetch (p : Ptr) (z : Int) : Outcome (Option Byte) :=
  match p with
  | none => .undef .nullAccess
  | some buf =>
    if 0 ≤ z ∧ z < buf.length then .ok (buf.getD z.toNat none) else .undef .outOfBounds

/-- A byte that was fetched is put to `p + z`. -/
def put (p : Ptr) (z : Int) (b : Option Byte) : Outcome Ptr :=
  match p with
  | none => .undef .nullAccess
  | some buf =>
    if 0 ≤ z ∧ z < buf.length then .ok (some (buf.set z.toNat b)) else .undef .outOfBounds

/-- `memcpy` of `n` bytes from the start of one block to the start of another. -/
def copyBlock (dst src : Ptr) (n : Nat) : Outcome Ptr :=
  match dst, src with
  | some dstBuf, some srcBuf =>
    if n ≤ dstBuf.length ∧ n ≤ srcBuf.length then .ok (some (srcBuf.take n ++ dstBuf.drop n))
    else .undef .outOfBounds
  | _, _ => .undef .nullAccess

/-- `memcpy` of `n` bytes from the start of one block to the place `z` of another. -/
def copyInto (dst : Ptr) (z : Nat) (src : Ptr) (n : Nat) : Outcome Ptr :=
  match dst, src with
  | some dstBuf, some srcBuf =>
    if z + n ≤ dstBuf.length ∧ n ≤ srcBuf.length then
      .ok (some (dstBuf.take z ++ srcBuf.take n ++ dstBuf.drop (z + n)))
    else .undef .outOfBounds
  | _, _ => .undef .nullAccess

/-- `memmove` of the bytes `bs` to `p + z`. -/
def storeBytes (p : Ptr) (z : Int) (bs : List Byte) : Outcome Ptr :=
  match p with
  | none => .undef .nullAccess
  | some buf =>
    if 0 ≤ z ∧ z + bs.length ≤ buf.length then
      .ok (some (buf.take z.toNat ++ bs.map some ++ buf.drop (z.toNat + bs.length)))
    else .undef .outOfBounds

/-- `data[z]`. -/
def load (data : List Byte) (z : Int) : Outcome Byte :=
  if 0 ≤ z ∧ z < data.length then .ok (data.getD z.toNat 0) else .undef .outOfBounds

theorem store_ok {buf : ByteBlock} {k : Nat} (hk : k < buf.length) (b : Byte) :
    store (some buf) k b = .ok (some (buf.set k (some b))) :=
  if_pos ⟨Int.natCast_nonneg k, Int.ofNat_lt.mpr hk⟩

theorem store_eq_ok {p p' : Ptr} {z : Int} {b : Byte} (h : store p z b = .ok p') :
    ∃ buf, p = some buf ∧ 0 ≤ z ∧ z < buf.length ∧ p' = some (buf.set z.toNat (some b)) := by
  cases p with
  | none => cases h
  | some buf =>
    rw [store] at h
    split at h
    · rename_i hz
      cases h
      exact ⟨buf, rfl, hz.1, hz.2, rfl⟩
    · cases h

theorem put_some (p : Ptr) (z : Int) (b : Byte) : put p z (some b) = store p z b := by
  cases p with
  | none => rfl
  | some buf => rfl

theorem put_none (z : Int) (b : Option Byte) (p p' : Ptr) (h : put p z b = .ok p')
    (hp : p = none) : p' = none := by
  rw [hp] at h
  cases h

theorem copyBlock_all {d t : ByteBlock} {n : Nat} (hd : d.length = n) (ht : t.length = n) :
    copyBlock (some d) (some t) n = .ok (some t) := by
  rw [copyBlock, if_pos ⟨hd.ge, ht.ge⟩, List.take_of_length_le ht.le, List.drop_of_length_le hd.le,
    List.append_nil]

theorem copyBlock_eq_ok {dst src p : Ptr} {n : Nat} (h : copyBlock dst src n = .ok p) :
    ∃ d t, dst = some d ∧ src = some t ∧ n ≤ d.length ∧ n ≤ t.length ∧
      p = some (t.take n ++ d.drop n) := by
  cases dst with
  | none => cases h
  | some d =>
    cases src with
    | none => cases h
    | some t =>
      rw [copyBlock] at h
      split at h
      · rename_i hn
        cases h
        exact ⟨d, t, rfl, rfl, hn.1, hn.2, rfl⟩
      · cases h

theorem copyInto_append {front rest src : ByteBlock} {z n : Nat} (hz : front.length = z)
    (hrest : n ≤ rest.length) (hsrc : n ≤ src.length) :
    copyInto (some (front ++ rest)) z (some src) n =
      .ok (some (front ++ src.take n ++ rest.drop n)) := by
  have hroom : z + n ≤ (front ++ rest).length ∧ n ≤ src.length := by
    rw [List.length_append]
    omega
  rw [copyInto, if_pos hroom, ← hz, List.take_left, List.drop_length_add_append]

theorem storeBytes_append {front rest : ByteBlock} {bs : List Byte} (h : bs.length ≤ rest.length) :
    storeBytes (some (front ++ rest)) front.length bs =
      .ok (some (front ++ bs.map some ++ rest.drop bs.length)) := by
  have hroom : (0 : Int) ≤ front.length ∧
      (front.length : Int) + bs.length ≤ (front ++ rest).length := by
    rw [List.length_append]
    omega
  rw [storeBytes, if_pos hroom, Int.toNat_natCast, List.take_left, List.drop_length_add_append]

theorem storeBytes_outside {buf : ByteBlock} {z : Int} {bs : List Byte}
    (h : buf.length < z + bs.length) : storeBytes (some buf) z bs = .undef .outOfBounds := by
  rw [storeBytes, if_neg fun hroom => by omega]

/-- A block of `size` bytes. -/
def BlockOf (size : Nat) (p : Ptr) : Prop := ∃ buf, p = some buf ∧ buf.length = size

namespace BlockOf

variable {size : Nat} {p p' : Ptr}

theorem store {z : Int} {b : Byte} (h : BlockOf size p) (hs : Cxx.store p z b = .ok p') :
    BlockOf size p' := by
  obtain ⟨buf, rfl, hlen⟩ := h
  obtain ⟨buf', hbuf, -, -, rfl⟩ := store_eq_ok hs
  cases hbuf
  exact ⟨_, rfl, by rw [List.length_set, hlen]⟩

theorem put {z : Int} {b : Option Byte} (h : BlockOf size p) (hput : Cxx.put p z b = .ok p') :
    BlockOf size p' := by
  obtain ⟨buf, rfl, hlen⟩ := h
  rw [Cxx.put] at hput
  split at hput
  · cases hput
    exact ⟨_, rfl, by rw [List.length_set, hlen]⟩
  · cases hput

theorem copyBlock {src : Ptr} {n : Nat} (h : BlockOf size p)
    (hc : Cxx.copyBlock p src n = .ok p') : BlockOf size p' := by
  obtain ⟨dstBuf, rfl, hlen⟩ := h
  obtain ⟨d, t, hd, -, hn, hn', rfl⟩ := copyBlock_eq_ok hc
  cases hd
  refine ⟨_, rfl, ?_⟩
  rw [List.length_append, List.length_take, List.length_drop]
  omega

end BlockOf

theorem load_ok {data : List Byte} {k : Nat} (hk : k < data.length) :
    load data k = .ok (data.getD k 0) :=
  if_pos ⟨Int.natCast_nonneg k, Int.ofNat_lt.mpr hk⟩

/-- The byte at `k`, if there is one and it has been stored. -/
def byteAt (p : Ptr) (k : Nat) : Option Byte :=
  match p with
  | none => none
  | some buf => buf.getD k none

theorem byteAt_set_self {buf : ByteBlock} {k : Nat} (hk : k < buf.length) (b : Byte) :
    byteAt (some (buf.set k (some b))) k = some b := by
  rw [byteAt, List.getD_eq_getElem?_getD, List.getElem?_set_self hk]
  rfl

theorem byteAt_set_of_ne {buf : ByteBlock} {k m : Nat} (h : k ≠ m) (b : Option Byte) :
    byteAt (some (buf.set k b)) m = byteAt (some buf) m := by
  rw [byteAt, byteAt, List.getD_eq_getElem?_getD, List.getElem?_set_ne h,
    List.getD_eq_getElem?_getD]

theorem lt_of_byteAt {buf : ByteBlock} {k : Nat} {b : Byte} (h : byteAt (some buf) k = some b) :
    k < buf.length := by
  by_contra hk
  rw [byteAt, List.getD_eq_default _ _ (Nat.le_of_not_lt hk)] at h
  cases h

theorem fetch_ok {p : Ptr} {k : Nat} {b : Byte} (h : byteAt p k = some b) :
    fetch p k = .ok (some b) := by
  cases p with
  | none => cases h
  | some buf =>
    have hlt := lt_of_byteAt h
    rw [fetch, if_pos (by omega), Int.toNat_natCast]
    exact congrArg Outcome.ok h

theorem byteAt_freshBlock (size k : Nat) : byteAt (some (freshBlock size)) k = none := by
  rw [byteAt, freshBlock, List.getD_eq_getElem?_getD, List.getElem?_replicate]
  split
  · rfl
  · rfl

end Cxx
