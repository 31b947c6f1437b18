import Mathlib
import Huicpp.Cxx.OrdTree
import Huicpp.Serialize.DataStream

/-!
# Serialize.Overloads

The overload family `Serialize` / `Unserialize`. What the templates use of a type `T` is collected
in a `SerTy`: its values, `std::less<T>`, the value `T()`, its size and alignment on linux64, and
the two overloads the call resolves to. Every template of the header is a function on `SerTy`.

`Unserialize(is, a)` takes the previous content of `a` and returns the new one.
-/

namespace Huicpp
namespace Serialize

open Cxx Prog

structure SerTy where
  T : Type
  ord : LinearOrder T
  dflt : T
  sizeof : Nat
  alignof : Nat
  serialize : {σ : Type} → [Stream σ] → σ → T → σ
  unserialize : {σ : Type} → [Stream σ] → σ → T → Prog (T × σ)

/-! ## Scalars -/

/-- The integer types, by size and signedness: `HCH`, `HSN`, `HN`, `HLN`, `HLL` are the signed and
`HUCH`, `HUSN`, `HUN`, `HULN`, `HULL` the unsigned ones of 1, 2, 4, 8 and 8 bytes. -/
structure IntTy where
  log2Size : Fin 4
  signed : Bool
  deriving DecidableEq, Repr

namespace IntTy

/-- `sizeof(T)`. -/
def size (t : IntTy) : Nat := 2 ^ t.log2Size.val

theorem size_pos (t : IntTy) : 0 < t.size := Nat.two_pow_pos _

/-- A value of the type, as its object representation. -/
structure Val (t : IntTy) where
  rep : BitVec (8 * t.size)
  deriving DecidableEq, Repr

variable {t : IntTy}

def Val.toInt (x : t.Val) : Int := if t.signed then x.rep.toInt else x.rep.toNat

theorem Val.toInt_injective : Function.Injective (Val.toInt : t.Val → Int) := by
  rintro ⟨x⟩ ⟨y⟩ h
  simp only [Val.toInt] at h
  congr 1
  split at h
  · exact BitVec.toInt_inj.mp h
  · exact BitVec.toNat_inj.mp (by exact_mod_cast h)

instance : LinearOrder t.Val := LinearOrder.lift' Val.toInt Val.toInt_injective

/-- The bytes of the object. -/
def Val.toMem (x : t.Val) : List Byte := leBytes t.size x.rep.toNat

/-- The object with the given bytes. -/
def Val.ofMem (bs : List Byte) : t.Val := ⟨BitVec.ofNat _ (leNat bs)⟩

/-- An array of `k` objects with the given bytes. -/
def Val.ofMemArray : Nat → List Byte → List t.Val
  | 0, _ => []
  | k + 1, bs => Val.ofMem (bs.take t.size) :: Val.ofMemArray k (bs.drop t.size)

@[simp] theorem Val.toMem_length (x : t.Val) : x.toMem.length = t.size := leBytes_length _ _

theorem Val.ofMem_toMem (x : t.Val) : Val.ofMem x.toMem = x := by
  have h := x.rep.isLt
  rw [Nat.pow_mul] at h
  obtain ⟨rep⟩ := x
  simp only [Val.ofMem, Val.toMem, leNat_leBytes]
  rw [Nat.mod_eq_of_lt h, BitVec.ofNat_toNat, BitVec.setWidth_eq]

@[simp] theorem Val.ofMemArray_length (k : Nat) (bs : List Byte) :
    (Val.ofMemArray k bs : List t.Val).length = k := by
  induction k generalizing bs with
  | zero => rfl
  | succ k ih => simp [ofMemArray, ih]

theorem Val.ofMemArray_toMem (xs : List t.Val) :
    Val.ofMemArray xs.length (xs.flatMap Val.toMem) = xs := by
  induction xs with
  | nil => rfl
  | cons x xs ih =>
    have hlen : t.size = x.toMem.length := x.toMem_length.symm
    rw [List.flatMap_cons, List.length_cons, ofMemArray, hlen, List.take_left, List.drop_left,
      ofMem_toMem, ih]

end IntTy

section Code

variable {σ : Type} [Stream σ]

def IntTy.serialize {t : IntTy} (s : σ) (a : t.Val) : σ := Stream.write s a.toMem

def IntTy.unserialize {t : IntTy} (s : σ) : Prog (t.Val × σ) := do
  let (bs, s) ← liftM (Stream.read s t.size)
  return (.ofMem bs, s)

def serializeBool (s : σ) (a : Bool) : σ := Stream.write s (leBytes 1 a.toNat)

def unserializeBool (s : σ) : Prog (Bool × σ) := do
  let (f, s) ← liftM (Stream.read s 1)
  return (leNat f != 0, s)

/-! ## Strings -/

def serializeString (os : σ) (str : List Byte) : σ :=
  let os := writeCompactSize os str.length
  if str.isEmpty then os else Stream.write os str

def unserializeString (is : σ) (str : List Byte) : Outcome (List Byte × σ) := do
  let (nSize, is) ← readSize32 is
  let str := resizeTo str nSize 0
  if nSize ≠ 0 then
    let (bs, is) ← Stream.read is nSize
    return (bs ++ str.drop nSize, is)
  else return (str, is)

/-! ## Vectors -/

/-- `Serialize_impl(os, v, true_type)`: fundamental elements, as one block of memory. -/
def serializeBulk {t : IntTy} (os : σ) (v : List t.Val) : σ :=
  let os := writeCompactSize os v.length
  if v.isEmpty then os else Stream.write os (v.flatMap IntTy.Val.toMem)

/-- The most elements one block may have. -/
def maxBlock (t : IntTy) : Nat := (1 + 4999999 / t.size) % 2 ^ 32

/-- One block of `Unserialize_impl(is, v, true_type)`. -/
def readBlock {t : IntTy} (nSize : Nat) :
    Nat × List t.Val × σ → Prog (Nat × List t.Val × σ)
  | (i, v, is) => do
    let blk := min (nSize - i) (maxBlock t)
    let v := resizeTo v ((i + blk) % 2 ^ 32) ⟨0⟩
    let (bs, is) ← liftM (Stream.read is (blk * t.size))
    let v ← liftM (storeAt v i (IntTy.Val.ofMemArray blk bs))
    return ((i + blk) % 2 ^ 32, v, is)

def unserializeBulk {t : IntTy} (is : σ) : Prog (List t.Val × σ) := do
  let (nSize, is) ← liftM (readSize32 is)
  let (_, v, is) ← whileDo (fun (i, _, _) => i < nSize) (readBlock nSize) (0, [], is)
  return (v, is)

/-- `Serialize_impl(os, v, false_type)`, and the same loop of maps and sets: the elements one by
one. -/
def serializeRange (e : SerTy) (os : σ) (v : List e.T) : σ :=
  v.foldl e.serialize (writeCompactSize os v.length)

/-- `Unserialize(is, v[i])`. -/
def readElem (e : SerTy) (i : Nat) : List e.T × σ → Prog (List e.T × σ)
  | (v, is) =>
    match v[i]? with
    | some x => do
      let (x, is) ← e.unserialize is x
      return (v.set i x, is)
    | none => liftM (Outcome.undef .outOfBounds)

/-- `nMid += 5000000 / sizeof(T); if (nMid > nSize) nMid = nSize;`. -/
def nextMid (e : SerTy) (nSize nMid : Nat) : Nat :=
  let nMid := (nMid + 5000000 / e.sizeof) % 2 ^ 32
  if nSize < nMid then nSize else nMid

/-- One pass of the `nMid` loop of `Unserialize_impl(is, v, false_type)`. -/
def readChunk (e : SerTy) (nSize : Nat) :
    Nat × Nat × List e.T × σ → Prog (Nat × Nat × List e.T × σ)
  | (i, nMid, v, is) => do
    let nMid := nextMid e nSize nMid
    let v := resizeTo v nMid e.dflt
    let (v, is) ← forUp (readElem e) i (nMid - i) (v, is)
    return (i + (nMid - i), nMid, v, is)

def unserializeElems (e : SerTy) (is : σ) : Prog (List e.T × σ) := do
  let (nSize, is) ← liftM (readSize32 is)
  let (_, _, v, is) ← whileDo (fun (_, nMid, _, _) => nMid < nSize) (readChunk e nSize)
    (0, 0, [], is)
  return (v, is)

/-! ## Maps and sets -/

/-- One item of a map or set: read into a fresh variable, then inserted at the hint. The variable
is not initialised for a set of scalars; `dflt` stands for whatever it holds. -/
def readItem (e : SerTy) {κ : Type} [LinearOrder κ] (key : e.T → κ) (_ : Nat) :
    OrdTree key × Nat × σ → Prog (OrdTree key × Nat × σ)
  | (m, mi, is) => do
    let (item, is) ← e.unserialize is e.dflt
    let (m, mi) := m.insertHint mi item
    return (m, mi, is)

def unserializeTree (e : SerTy) {κ : Type} [LinearOrder κ] (key : e.T → κ) (is : σ) :
    Prog (OrdTree key × σ) := do
  let (nSize, is) ← liftM (readSize32 is)
  let (m, _, is) ← forUp (readItem e key) 0 nSize (.empty, 0, is)
  return (m, is)

end Code

/-! ## The overloads, type by type -/

/-- The next multiple of `align`. -/
def roundUp (n align : Nat) : Nat := (n + align - 1) / align * align

namespace SerTy

@[reducible] def scalar (t : IntTy) : SerTy where
  T := t.Val
  ord := inferInstance
  dflt := ⟨0⟩
  sizeof := t.size
  alignof := t.size
  serialize s a := IntTy.serialize s a
  unserialize s _ := IntTy.unserialize s

@[reducible] def bool : SerTy where
  T := Bool
  ord := inferInstance
  dflt := false
  sizeof := 1
  alignof := 1
  serialize s a := serializeBool s a
  unserialize s _ := unserializeBool s

/-- `std::string`; `char_traits<char>` compares bytes as unsigned numbers. -/
@[reducible] def string : SerTy where
  T := List Byte
  ord := LinearOrder.lift' (List.map BitVec.toNat)
    (List.map_injective_iff.mpr fun _ _ h => BitVec.toNat_inj.mp h)
  dflt := []
  sizeof := 32
  alignof := 8
  serialize s a := serializeString s a
  unserialize s a := liftM (unserializeString s a)

/-- `std::pair<K, T>`, ordered and laid out component by component. -/
@[reducible] def pair (a b : SerTy) : SerTy where
  T := a.T × b.T
  ord :=
    letI := a.ord
    letI := b.ord
    LinearOrder.lift' toLex toLex.injective
  dflt := (a.dflt, b.dflt)
  sizeof := roundUp (roundUp a.sizeof b.alignof + b.sizeof) (max a.alignof b.alignof)
  alignof := max a.alignof b.alignof
  serialize s x := b.serialize (a.serialize s x.1) x.2
  unserialize s x := do
    let (x₁, s) ← a.unserialize s x.1
    let (x₂, s) ← b.unserialize s x.2
    return ((x₁, x₂), s)

/-- `std::vector` of a fundamental type. -/
@[reducible] def bulkVector (t : IntTy) : SerTy where
  T := List t.Val
  ord := inferInstance
  dflt := []
  sizeof := 24
  alignof := 8
  serialize s v := serializeBulk s v
  unserialize s _ := unserializeBulk s

/-- `std::vector` of a class type. -/
@[reducible] def vector (e : SerTy) : SerTy where
  T := List e.T
  ord :=
    letI := e.ord
    inferInstance
  dflt := []
  sizeof := 24
  alignof := 8
  serialize s v := serializeRange e s v
  unserialize s _ := unserializeElems e s

/-- The search tree under `std::map` and `std::set`, compared item by item. -/
@[reducible] def tree (e : SerTy) {κ : Type} [LinearOrder κ] (key : e.T → κ) : SerTy where
  T := OrdTree key
  ord :=
    letI := e.ord
    LinearOrder.lift' OrdTree.elems fun _ _ h => OrdTree.ext h
  dflt := .empty
  sizeof := 48
  alignof := 8
  serialize s m := serializeRange e s m.elems
  unserialize s _ := unserializeTree e key s

@[reducible] def map (k v : SerTy) : SerTy :=
  letI := k.ord
  tree (pair k v) (fun x : k.T × v.T => x.1)

@[reducible] def set (k : SerTy) : SerTy :=
  letI := k.ord
  tree k (fun x : k.T => x)

end SerTy

end Serialize
end Huicpp
