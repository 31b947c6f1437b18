import Mathlib
import Huicpp.Serialize.Grammar
import Huicpp.Serialize.VarInt

/-!
# Serialize.Sizes

The two other overload families: `GetSerializeSize`, and `Serialize` to a `CSizeComputer`, which is a
stream that only counts. Sizes are 64-bit numbers.

What the templates use of a type is collected in a `Sized`. Here a map or a set is the sequence of
its items, whatever their order, since the templates only iterate over it. `READWRITE` statements
are a type of their own, `Statements`: with one tag they add to `nSerSize`, with another they write.
-/

namespace Huicpp
namespace Serialize

open Cxx Prog

abbrev HSIZE := BitVec 64

/-- A `sizeof` or a `size()`. -/
def hsize (n : Nat) : HSIZE := BitVec.ofNat 64 n

def getSizeOfCompactSize (nSize : Nat) : HSIZE :=
  if nSize < 253 then hsize 1
  else if nSize ≤ 0xFFFF then hsize 1 + hsize 2
  else if nSize ≤ 0xFFFFFFFF then hsize 1 + hsize 4
  else hsize 1 + hsize 8

structure CSizeComputer where
  nSize : HSIZE
  deriving DecidableEq, Repr

namespace CSizeComputer

def init : CSizeComputer := ⟨0⟩

def size (c : CSizeComputer) : HSIZE := c.nSize

def write (c : CSizeComputer) (bytes : List Byte) : CSizeComputer :=
  ⟨c.nSize + hsize bytes.length⟩

/-- There is no `read`. -/
instance : Stream CSizeComputer where
  read _ _ := .undef .assertFailed
  write := write

end CSizeComputer

/-- The types with overloads of their own, by value. `float` and `double` are written as they lie in
memory, so a value of one is its object representation. -/
inductive ScalarTy where
  | int (t : IntTy)
  | HFLD
  | HDBE
  deriving DecidableEq, Repr

/-- The unsigned integer with the same bytes. -/
def ScalarTy.rep : ScalarTy → IntTy
  | .int t => t
  | .HFLD => ⟨2, false⟩
  | .HDBE => ⟨3, false⟩

/-- What `Serialize(s, a)` and `GetSerializeSize(a)` resolve to. -/
structure Sized where
  T : Type
  serialize : {σ : Type} → [Stream σ] → σ → T → Prog σ
  getSerializeSize : T → Prog HSIZE

/-- The statements of `IMPLEMENT_SERIALIZE`: what they write, and what `nSerSize` is after them. -/
structure Statements where
  T : Type
  serialize : {σ : Type} → [Stream σ] → σ → T → Prog σ
  addSize : HSIZE → T → Prog HSIZE

/-- A type whose `Serialize` is modelled already, with the size of its values. -/
@[reducible] def SerTy.sized (e : SerTy) (size : e.T → HSIZE) : Sized where
  T := e.T
  serialize s x := pure (e.serialize s x)
  getSerializeSize x := pure (size x)

/-! ## Loops over containers -/

/-- The elements one by one, after their number. -/
def serializeEach (e : Sized) {σ : Type} [Stream σ] (os : σ) (v : List e.T) : Prog σ :=
  v.foldlM e.serialize (writeCompactSize os v.length)

/-- `nSize += GetSerializeSize((*vi))` -/
def addElemSize (e : Sized) (nSize : HSIZE) (x : e.T) : Prog HSIZE := do
  let n ← e.getSerializeSize x
  pure (nSize + n)

def getSizeOfEach (e : Sized) (v : List e.T) : Prog HSIZE :=
  v.foldlM (addElemSize e) (getSizeOfCompactSize v.length)

namespace Sized

/-! ## The overloads, type by type -/

@[reducible] def scalar (t : ScalarTy) : Sized :=
  (SerTy.scalar t.rep).sized fun _ => hsize t.rep.size

@[reducible] def bool : Sized :=
  SerTy.bool.sized fun _ => hsize 1

@[reducible] def string : Sized :=
  SerTy.string.sized fun str => getSizeOfCompactSize str.length + hsize str.length * hsize 1

/-- `std::vector` of a fundamental type. -/
@[reducible] def bulkVector (t : ScalarTy) : Sized :=
  (SerTy.bulkVector t.rep).sized fun v =>
    getSizeOfCompactSize v.length + hsize v.length * hsize t.rep.size

@[reducible] def pair (a b : Sized) : Sized where
  T := a.T × b.T
  serialize s x := do
    let s ← a.serialize s x.1
    b.serialize s x.2
  getSerializeSize x := do
    let m ← a.getSerializeSize x.1
    let n ← b.getSerializeSize x.2
    pure (m + n)

/-- `std::vector` of a class type, and `std::set`. -/
@[reducible] def range (e : Sized) : Sized where
  T := List e.T
  serialize s v := serializeEach e s v
  getSerializeSize v := getSizeOfEach e v

@[reducible] def map (k v : Sized) : Sized := range (pair k v)

/-- `CVarInt`, the wrapper of `VARINT(n)`. -/
@[reducible] def varInt (t : UIntTy) : Sized where
  T := BitVec t.bits
  serialize s n := writeVarInt s n
  getSerializeSize n := do
    let nRet ← sizeOfVarInt n
    pure (hsize nRet)

/-- A class with `IMPLEMENT_SERIALIZE(statements)`. -/
@[reducible] def implementSerialize (statements : Statements) : Sized where
  T := statements.T
  serialize s x := statements.serialize s x
  getSerializeSize x := statements.addSize 0 x

end Sized

namespace Statements

@[reducible] def nil : Statements where
  T := Unit
  serialize s _ := pure s
  addSize nSerSize _ := pure nSerSize

/-- `READWRITE(obj);` and what follows. -/
@[reducible] def readWrite (obj : Sized) (rest : Statements) : Statements where
  T := obj.T × rest.T
  serialize s x := do
    let s ← obj.serialize s x.1
    rest.serialize s x.2
  addSize nSerSize x := do
    let n ← obj.getSerializeSize x.1
    rest.addSize (nSerSize + n) x.2

end Statements

/-! ## The grammar -/

mutual

inductive Obj : Kind → Type where
  | scalar (t : ScalarTy) : Obj .scalar
  | bool : Obj .bool
  | string : Obj .cls
  | pair {k₁ k₂ : Kind} (a : Obj k₁) (b : Obj k₂) : Obj .cls
  | map {k₁ k₂ : Kind} (k : Obj k₁) (v : Obj k₂) : Obj .cls
  | set {k₁ : Kind} (k : Obj k₁) : Obj .cls
  | scalarVector (t : ScalarTy) : Obj .vec
  | classVector (e : Obj .cls) : Obj .vec
  | varInt (t : UIntTy) : Obj .cls
  | struct (fields : Fields) : Obj .cls

inductive Fields : Type where
  | nil : Fields
  | readWrite {k : Kind} (obj : Obj k) (rest : Fields) : Fields

end

mutual

/-- The overloads that calls on this type resolve to. -/
def Obj.sem {k : Kind} : Obj k → Sized
  | .scalar t => .scalar t
  | .bool => .bool
  | .string => .string
  | .pair a b => .pair a.sem b.sem
  | .map k v => .map k.sem v.sem
  | .set k => .range k.sem
  | .scalarVector t => .bulkVector t
  | .classVector e => .range e.sem
  | .varInt t => .varInt t
  | .struct fields => .implementSerialize fields.sem

def Fields.sem : Fields → Statements
  | .nil => .nil
  | .readWrite obj rest => .readWrite obj.sem rest.sem

end

/-- `CSizeComputer() << obj` -/
def CSizeComputer.put (e : Sized) (c : CSizeComputer) (obj : e.T) : Prog CSizeComputer :=
  e.serialize c obj

end Serialize
end Huicpp
