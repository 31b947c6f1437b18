import Mathlib
import Huicpp.Serialize.Overloads

/-!
# Serialize.RoundTrip

Each overload pair, given what is known of its parts.

* `Emits e`: `Serialize` appends the same bytes to every stream, at least one.
* `Reads e x`: `Unserialize` gives `x` back from these bytes and leaves what follows them.
* `Stuck e x`: `Unserialize` of these bytes runs for ever. Vectors of class types do that when the
  element is larger than 5000000 bytes, since the loop then advances `nMid` by zero.
-/

namespace Huicpp
namespace Serialize

open Cxx Prog

namespace SerTy

/-- The bytes of a value. -/
def bytes (e : SerTy) (x : e.T) : List Byte := e.serialize ([] : List Byte) x

structure Emits (e : SerTy) : Prop where
  eq : ∀ {σ : Type} [Stream σ] [LawfulStream σ] (os : σ) (x : e.T),
    e.serialize os x = Stream.write os (e.bytes x)
  pos : ∀ x : e.T, 0 < (e.bytes x).length

def Reads (e : SerTy) (x : e.T) : Prop :=
  ∀ {σ : Type} [Stream σ] [LawfulStream σ] (is : σ) (r : List Byte) (prev : e.T),
    (e.bytes x ++ r).length < 2 ^ 31 → LawfulStream.Holds is (e.bytes x ++ r) →
      ∃ is', Returns (e.unserialize is prev) (x, is') ∧ LawfulStream.Holds is' r

def Stuck (e : SerTy) (x : e.T) : Prop :=
  ∀ {σ : Type} [Stream σ] [LawfulStream σ] (is : σ) (r : List Byte) (prev : e.T),
    (e.bytes x ++ r).length < 2 ^ 31 → LawfulStream.Holds is (e.bytes x ++ r) →
      Hangs (e.unserialize is prev)

/-! ## Writing -/

section Emit

variable {σ : Type} [Stream σ] [LawfulStream σ] {e : SerTy}

theorem foldl_serialize (he : e.Emits) (v : List e.T) (os : σ) :
    v.foldl e.serialize os = Stream.write os (v.flatMap e.bytes) := by
  induction v generalizing os with
  | nil => exact (LawfulStream.write_nil os).symm
  | cons x v ih =>
    rw [List.foldl_cons, ih, he.eq, LawfulStream.write_append, List.flatMap_cons]

theorem serializeRange_eq (he : e.Emits) (os : σ) (v : List e.T) :
    serializeRange e os v = Stream.write os (compactSize v.length ++ v.flatMap e.bytes) := by
  rw [serializeRange, foldl_serialize he, writeCompactSize_eq, LawfulStream.write_append]

theorem serializeString_eq (os : σ) (str : List Byte) :
    serializeString os str = Stream.write os (compactSize str.length ++ str) := by
  rw [serializeString, writeCompactSize_eq]
  cases str with
  | nil => rw [List.append_nil]; rfl
  | cons b bs => exact LawfulStream.write_append _ _ _

theorem serializeBulk_eq {t : IntTy} (os : σ) (v : List t.Val) :
    serializeBulk os v = Stream.write os (compactSize v.length ++ v.flatMap IntTy.Val.toMem) := by
  rw [serializeBulk, writeCompactSize_eq]
  cases v with
  | nil => simp
  | cons b bs => exact LawfulStream.write_append _ _ _

end Emit

theorem bytes_scalar {t : IntTy} (x : t.Val) : (scalar t).bytes x = x.toMem := rfl

theorem bytes_bool (b : Bool) : bool.bytes b = leBytes 1 b.toNat := rfl

theorem bytes_string (str : List Byte) : string.bytes str = compactSize str.length ++ str := by
  show serializeString ([] : List Byte) str = _
  rw [serializeString_eq, write_list, List.nil_append]

theorem bytes_bulkVector {t : IntTy} (v : List t.Val) :
    (bulkVector t).bytes v = compactSize v.length ++ v.flatMap IntTy.Val.toMem := by
  show serializeBulk ([] : List Byte) v = _
  rw [serializeBulk_eq, write_list, List.nil_append]

theorem bytes_pair {a b : SerTy} (hb : b.Emits) (x : a.T × b.T) :
    (pair a b).bytes x = a.bytes x.1 ++ b.bytes x.2 := hb.eq (a.bytes x.1) x.2

theorem bytes_vector {e : SerTy} (he : e.Emits) (v : List e.T) :
    (vector e).bytes v = compactSize v.length ++ v.flatMap e.bytes := by
  show serializeRange e ([] : List Byte) v = _
  rw [serializeRange_eq he, write_list, List.nil_append]

theorem bytes_tree {e : SerTy} {κ : Type} [LinearOrder κ] {key : e.T → κ} (he : e.Emits)
    (m : OrdTree key) :
    (tree e key).bytes m = compactSize m.elems.length ++ m.elems.flatMap e.bytes :=
  bytes_vector he m.elems

theorem prefixed_pos (n : Nat) (bs : List Byte) : 0 < (compactSize n ++ bs).length := by
  have := compactSize_length_pos n
  rw [List.length_append]
  omega

theorem emits_scalar (t : IntTy) : (scalar t).Emits where
  eq _ _ := rfl
  pos x := by
    rw [bytes_scalar, IntTy.Val.toMem_length]
    exact t.size_pos

theorem emits_bool : bool.Emits where
  eq _ _ := rfl
  pos b := by simp [bytes_bool]

theorem emits_string : string.Emits where
  eq os x := by
    rw [bytes_string]
    exact serializeString_eq os x
  pos x := by
    rw [bytes_string]
    exact prefixed_pos _ _

theorem emits_bulkVector (t : IntTy) : (bulkVector t).Emits where
  eq os x := by
    rw [bytes_bulkVector]
    exact serializeBulk_eq os x
  pos x := by
    rw [bytes_bulkVector]
    exact prefixed_pos _ _

theorem emits_pair {a b : SerTy} (ha : a.Emits) (hb : b.Emits) : (pair a b).Emits where
  eq os x := by
    rw [bytes_pair hb]
    show b.serialize (a.serialize os x.1) x.2 = _
    rw [ha.eq, hb.eq, LawfulStream.write_append]
  pos x := by
    have := ha.pos x.1
    rw [bytes_pair hb, List.length_append]
    omega

theorem emits_vector {e : SerTy} (he : e.Emits) : (vector e).Emits where
  eq os x := by
    rw [bytes_vector he]
    exact serializeRange_eq he os x
  pos x := by
    rw [bytes_vector he]
    exact prefixed_pos _ _

theorem emits_tree {e : SerTy} {κ : Type} [LinearOrder κ] {key : e.T → κ} (he : e.Emits) :
    (tree e key).Emits where
  eq os x := by
    rw [bytes_tree he]
    exact serializeRange_eq he os x.elems
  pos x := by
    rw [bytes_tree he]
    exact prefixed_pos _ _

/-- Every element takes at least one byte, so lengths that fit the stream fit 32 bits. -/
theorem length_le_flatMap {e : SerTy} (he : e.Emits) (v : List e.T) :
    v.length ≤ (v.flatMap e.bytes).length := by
  induction v with
  | nil => exact Nat.le_refl 0
  | cons x v ih =>
    have := he.pos x
    rw [List.flatMap_cons, List.length_append, List.length_cons]
    omega

/-! ## Reading scalars, strings and pairs -/

theorem reads_scalar {t : IntTy} (x : t.Val) : (scalar t).Reads x := by
  intro σ _ _ is r prev _ h
  obtain ⟨is', h1, h2⟩ := read_exact x.toMem_length h
  refine ⟨is', .bind (.lift h1) ?_, h2⟩
  show Returns (pure (IntTy.Val.ofMem x.toMem, is')) (x, is')
  rw [IntTy.Val.ofMem_toMem]
  exact .pure _

theorem reads_bool (b : Bool) : bool.Reads b := by
  intro σ _ _ is r prev _ h
  obtain ⟨is', h1, h2⟩ := read_exact (leBytes_length 1 b.toNat) h
  refine ⟨is', .bind (.lift h1) ?_, h2⟩
  have hb : (leNat (leBytes 1 b.toNat) != 0) = b := by cases b <;> rfl
  show Returns (pure (leNat (leBytes 1 b.toNat) != 0, is')) (b, is')
  rw [hb]
  exact .pure _

theorem unserializeString_eq {σ : Type} [Stream σ] [LawfulStream σ] {is : σ} {x r : List Byte}
    (prev : List Byte) (hlen : (compactSize x.length ++ x ++ r).length < 2 ^ 31)
    (h : LawfulStream.Holds is (compactSize x.length ++ x ++ r)) :
    ∃ is', unserializeString is prev = .ok (x, is') ∧ LawfulStream.Holds is' r := by
  rw [List.append_assoc] at h
  have hn : x.length < 2 ^ 32 := by
    rw [List.length_append, List.length_append] at hlen
    omega
  obtain ⟨is1, h1, h2⟩ := readSize32_compactSize hn h
  by_cases hx : x = []
  · subst hx
    exact ⟨is1, by simp [unserializeString, h1, resizeTo], h2⟩
  · have hx0 : x.length ≠ 0 := fun h => hx (List.length_eq_zero_iff.mp h)
    obtain ⟨is2, h3, h4⟩ := LawfulStream.read_holds h2
    exact ⟨is2, by simp [unserializeString, h1, hx0, h3], h4⟩

theorem reads_string (x : List Byte) : string.Reads x := by
  intro σ _ _ is r prev hlen h
  rw [bytes_string] at hlen h
  obtain ⟨is', h1, h2⟩ := unserializeString_eq prev hlen h
  exact ⟨is', .lift h1, h2⟩

section Pair

variable {a b : SerTy} {x : a.T × b.T}

theorem reads_pair (hb : b.Emits) (h₁ : a.Reads x.1) (h₂ : b.Reads x.2) : (pair a b).Reads x := by
  intro σ _ _ is r prev hlen h
  rw [bytes_pair hb, List.append_assoc] at hlen h
  obtain ⟨is1, hr1, h1⟩ := h₁ is _ prev.1 hlen h
  rw [List.length_append] at hlen
  obtain ⟨is2, hr2, h2⟩ := h₂ is1 r prev.2 (by omega) h1
  exact ⟨is2, hr1.bind (hr2.bind (.pure _)), h2⟩

theorem stuck_pair_left (hb : b.Emits) (h₁ : a.Stuck x.1) : (pair a b).Stuck x := by
  intro σ _ _ is r prev hlen h
  rw [bytes_pair hb, List.append_assoc] at hlen h
  exact (h₁ is _ prev.1 hlen h).bind

theorem stuck_pair_right (hb : b.Emits) (h₁ : a.Reads x.1) (h₂ : b.Stuck x.2) :
    (pair a b).Stuck x := by
  intro σ _ _ is r prev hlen h
  rw [bytes_pair hb, List.append_assoc] at hlen h
  obtain ⟨is1, hr1, h1⟩ := h₁ is _ prev.1 hlen h
  rw [List.length_append] at hlen
  exact hr1.bind_hangs (h₂ is1 r prev.2 (by omega) h1).bind

end Pair

end SerTy

end Serialize
end Huicpp
