import Mathlib
import Huicpp.Serialize.RoundTrip
import Huicpp.Serialize.Sizes

/-!
# Serialize.SizesAgree

The three families stay in step. `Agrees e`: every value has bytes that `Serialize` appends to any
stream, and `GetSerializeSize` is their number. Both loops of a container are inductions over its
elements, and the statements of a class an induction over its fields. A `CSizeComputer` is one of
the streams, on which appending bytes adds their number.
-/

namespace Huicpp
namespace Serialize

open Cxx Prog

theorem hsize_add (m n : Nat) : hsize m + hsize n = hsize (m + n) := (BitVec.ofNat_add m n).symm

theorem hsize_mul (m n : Nat) : hsize m * hsize n = hsize (m * n) := (BitVec.ofNat_mul m n).symm

theorem add_hsize_nil (n : HSIZE) : n + hsize ([] : List Byte).length = n := BitVec.add_zero n

instance : LawfulStream CSizeComputer where
  Holds _ _ := False
  read_holds h := h.elim
  write_nil c := congrArg CSizeComputer.mk (BitVec.add_zero c.nSize)
  write_append c a b := by
    refine congrArg CSizeComputer.mk ?_
    show c.nSize + hsize a.length + hsize b.length = c.nSize + hsize (a ++ b).length
    rw [BitVec.add_assoc, hsize_add, List.length_append]

theorem getSizeOfCompactSize_eq (nSize : Nat) :
    getSizeOfCompactSize nSize = hsize (compactSize nSize).length := by
  unfold getSizeOfCompactSize compactSize writeCompactSize
  split
  · simp
  · split
    · rw [hsize_add]
      simp
    · split
      · rw [hsize_add]
        simp
      · rw [hsize_add]
        simp

/-- What `Serialize` appends is `bs`, and `GetSerializeSize` returns its length. -/
structure Sized.Appends (e : Sized) (x : e.T) (bs : List Byte) : Prop where
  serialize : ∀ {σ : Type} [Stream σ] [LawfulStream σ] (s : σ),
    Returns (e.serialize s x) (Stream.write s bs)
  size : Returns (e.getSerializeSize x) (hsize bs.length)

def Sized.Agrees (e : Sized) : Prop := ∀ x, ∃ bs, e.Appends x bs

/-- The same of statements, from any `nSerSize`. -/
structure Statements.Appends (st : Statements) (x : st.T) (bs : List Byte) : Prop where
  serialize : ∀ {σ : Type} [Stream σ] [LawfulStream σ] (s : σ),
    Returns (st.serialize s x) (Stream.write s bs)
  size : ∀ nSerSize, Returns (st.addSize nSerSize x) (nSerSize + hsize bs.length)

def Statements.Agrees (st : Statements) : Prop := ∀ x, ∃ bs, st.Appends x bs

/-! ## Containers -/

/-- The loop that writes the elements is the one that the round trip is about. -/
theorem serializeEach_sized (e : SerTy) (size : e.T → HSIZE) {σ : Type} [Stream σ] (os : σ)
    (v : List e.T) : serializeEach (e.sized size) os v = pure (serializeRange e os v) := by
  rw [serializeEach, serializeRange]
  generalize writeCompactSize os v.length = s
  induction v generalizing s with
  | nil => rfl
  | cons x v ih =>
    rw [List.foldlM_cons, List.foldl_cons, ← ih]
    rfl

theorem Sized.Agrees.elems {e : Sized} (he : e.Agrees) (v : List e.T) :
    ∃ bs : List Byte,
      (∀ {σ : Type} [Stream σ] [LawfulStream σ] (s : σ),
        Returns (v.foldlM e.serialize s) (Stream.write s bs)) ∧
      ∀ n, Returns (v.foldlM (addElemSize e) n) (n + hsize bs.length) := by
  induction v with
  | nil =>
    refine ⟨[], fun s => ?_, fun n => ?_⟩
    · rw [LawfulStream.write_nil]
      exact .pure s
    · rw [add_hsize_nil]
      exact .pure n
  | cons x v ih =>
    obtain ⟨a, ha⟩ := he x
    obtain ⟨b, hser, hsize'⟩ := ih
    refine ⟨a ++ b, fun s => ?_, fun n => ?_⟩
    · rw [← LawfulStream.write_append, List.foldlM_cons]
      exact (ha.serialize s).bind (hser _)
    · rw [List.length_append, ← hsize_add, ← BitVec.add_assoc, List.foldlM_cons]
      exact Returns.bind (a := n + hsize a.length) (ha.size.bind (.pure _)) (hsize' _)

namespace Sized

theorem agrees_range {e : Sized} (he : e.Agrees) : (range e).Agrees := by
  intro v
  obtain ⟨bs, hser, hsz⟩ := he.elems v
  refine ⟨compactSize v.length ++ bs, ⟨fun s => ?_, ?_⟩⟩
  · show Returns (v.foldlM e.serialize (writeCompactSize s v.length)) _
    rw [← LawfulStream.write_append, writeCompactSize_eq]
    exact hser _
  · show Returns (v.foldlM (addElemSize e) (getSizeOfCompactSize v.length)) _
    rw [getSizeOfCompactSize_eq, List.length_append, ← hsize_add]
    exact hsz _

theorem agrees_pair {a b : Sized} (ha : a.Agrees) (hb : b.Agrees) : (pair a b).Agrees := by
  rintro ⟨x, y⟩
  obtain ⟨as, hx⟩ := ha x
  obtain ⟨bs, hy⟩ := hb y
  refine ⟨as ++ bs, ⟨fun s => ?_, ?_⟩⟩
  · rw [← LawfulStream.write_append]
    exact (hx.serialize s).bind (hy.serialize _)
  · rw [List.length_append, ← hsize_add]
    exact hx.size.bind (hy.size.bind (.pure _))

theorem agrees_map {k v : Sized} (hk : k.Agrees) (hv : v.Agrees) : (map k v).Agrees :=
  agrees_range (agrees_pair hk hv)

/-! ## The other types -/

theorem agrees_scalar (t : ScalarTy) : (scalar t).Agrees := by
  intro (x : t.rep.Val)
  refine ⟨x.toMem, ⟨fun s => .pure _, ?_⟩⟩
  rw [IntTy.Val.toMem_length]
  exact .pure _

theorem agrees_bool : bool.Agrees := by
  intro x
  refine ⟨leBytes 1 x.toNat, ⟨fun s => .pure _, ?_⟩⟩
  rw [leBytes_length]
  exact .pure _

theorem agrees_string : string.Agrees := by
  intro (str : List Byte)
  refine ⟨compactSize str.length ++ str, ⟨fun s => ?_, ?_⟩⟩
  · rw [← SerTy.serializeString_eq]
    exact .pure _
  · rw [List.length_append, ← hsize_add, ← getSizeOfCompactSize_eq]
    show Returns (pure (getSizeOfCompactSize str.length + hsize str.length * hsize 1)) _
    rw [hsize_mul, Nat.mul_one]
    exact .pure _

theorem agrees_bulkVector (t : ScalarTy) : (bulkVector t).Agrees := by
  intro (v : List t.rep.Val)
  refine ⟨compactSize v.length ++ v.flatMap IntTy.Val.toMem, ⟨fun s => ?_, ?_⟩⟩
  · rw [← SerTy.serializeBulk_eq]
    exact .pure _
  · rw [List.length_append, ← hsize_add, ← getSizeOfCompactSize_eq, SerTy.flatMap_toMem_length,
      ← hsize_mul]
    exact .pure _

theorem agrees_varInt (t : UIntTy) : (varInt t).Agrees := by
  intro n
  refine ⟨encode (BitVec.toNat n), ⟨fun s => writeVarInt_returns t.le_bits s n, ?_⟩⟩
  exact (sizeOfVarInt_returns t.le_bits n).bind (.pure _)

theorem agrees_implementSerialize {st : Statements} (h : st.Agrees) :
    (implementSerialize st).Agrees := by
  intro x
  obtain ⟨bs, hbs⟩ := h x
  refine ⟨bs, ⟨hbs.serialize, ?_⟩⟩
  have hsz := hbs.size 0
  rw [show (0 : HSIZE) + hsize bs.length = hsize bs.length from BitVec.zero_add _] at hsz
  exact hsz

end Sized

namespace Statements

theorem agrees_nil : nil.Agrees := by
  intro x
  refine ⟨[], ⟨fun s => ?_, fun n => ?_⟩⟩
  · rw [LawfulStream.write_nil]
    exact .pure s
  · rw [add_hsize_nil]
    exact .pure n

theorem agrees_readWrite {obj : Sized} {rest : Statements} (ho : obj.Agrees) (hr : rest.Agrees) :
    (readWrite obj rest).Agrees := by
  rintro ⟨x, y⟩
  obtain ⟨as, hx⟩ := ho x
  obtain ⟨bs, hy⟩ := hr y
  refine ⟨as ++ bs, ⟨fun s => ?_, fun n => ?_⟩⟩
  · rw [← LawfulStream.write_append]
    exact (hx.serialize s).bind (hy.serialize _)
  · rw [List.length_append, ← hsize_add, ← BitVec.add_assoc]
    exact hx.size.bind (hy.size _)

end Statements

/-! ## The grammar -/

mutual

theorem Obj.agrees {k : Kind} : (t : Obj k) → t.sem.Agrees
  | .scalar t => Sized.agrees_scalar t
  | .bool => Sized.agrees_bool
  | .string => Sized.agrees_string
  | .pair a b => Sized.agrees_pair a.agrees b.agrees
  | .map k v => Sized.agrees_map k.agrees v.agrees
  | .set k => Sized.agrees_range k.agrees
  | .scalarVector t => Sized.agrees_bulkVector t
  | .classVector e => Sized.agrees_range e.agrees
  | .varInt t => Sized.agrees_varInt t
  | .struct fields => Sized.agrees_implementSerialize fields.agrees

theorem Fields.agrees : (fs : Fields) → fs.sem.Agrees
  | .nil => Statements.agrees_nil
  | .readWrite obj rest => Statements.agrees_readWrite obj.agrees rest.agrees

end

/-- For every type of the grammar and every value: the bytes appended to a `CDataStream`, what
`GetSerializeSize` returns, and what a `CSizeComputer` has counted. -/
theorem serializeSize_agrees {k : Kind} (t : Obj k) (obj : t.sem.T) (s : CDataStream) :
    ∃ bs n c, Returns (t.sem.serialize s obj) (s.write bs) ∧
      Returns (t.sem.getSerializeSize obj) n ∧
      Returns (CSizeComputer.put t.sem .init obj) c ∧ c.size = n ∧
      n = hsize bs.length ∧ (bs.length < 2 ^ 64 → n.toNat = bs.length) := by
  obtain ⟨bs, h⟩ := t.agrees obj
  refine ⟨bs, hsize bs.length, _, h.serialize s, h.size, h.serialize CSizeComputer.init, ?_, rfl, ?_⟩
  · exact BitVec.zero_add _
  · intro hlen
    exact Nat.mod_eq_of_lt hlen

end Serialize
end Huicpp
