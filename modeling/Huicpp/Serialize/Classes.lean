import Mathlib
import Huicpp.Serialize.Sizes
import Huicpp.Serialize.VarIntCorrect

/-!
# Serialize.Classes

Classes with `IMPLEMENT_SERIALIZE`, whose `READWRITE` statements name members of any serializable
type, `VARINT(n)` and `FLATDATA(a)` among them. Such a class is itself a serializable type.

`ClassTy.sem` gives the values of a type, their bytes and the code that reads them; the code that
writes is `ClassTy.serialize`, and `serialize_returns` says that it writes these bytes.

* `classes_roundTrip_iff`: what was written to a `CDataStream` is read back, for every class and
  every value whose vectors fit; with a vector that does not, the reader never returns.
-/

namespace Huicpp
namespace Serialize

open Cxx Prog

namespace SerTy

/-- `CVarInt`. `WriteVarInt` writes the encoding of the number. -/
@[reducible] def varInt (t : UIntTy) : SerTy where
  T := BitVec t.bits
  ord := LinearOrder.lift' BitVec.toNat fun _ _ h => BitVec.toNat_inj.mp h
  dflt := 0
  sizeof := 8
  alignof := 8
  serialize os n := Stream.write os (encode n.toNat)
  unserialize is _ := readVarInt t.bits is

/-- `CFlatData`: the bytes of an array, as they lie in memory. -/
@[reducible] def flatData (n : ℕ+) : SerTy where
  T := { bs : List Byte // bs.length = n }
  ord := LinearOrder.lift' (fun bs => bs.val.map BitVec.toNat)
    fun _ _ h => Subtype.ext (List.map_injective_iff.mpr (fun _ _ h => BitVec.toNat_inj.mp h) h)
  dflt := ⟨List.replicate n 0, List.length_replicate⟩
  sizeof := 16
  alignof := 8
  serialize os bs := Stream.write os bs.val
  unserialize is prev := do
    let (bs, is) ← liftM (Stream.read is n)
    return (if h : bs.length = n then ⟨bs, h⟩ else prev, is)

/-- A class, given its members one after the other. Its size depends on members that are not
serialized, too. -/
@[reducible] def struct (size align : ℕ+) (members : SerTy) : SerTy :=
  { members with sizeof := size, alignof := align }

end SerTy

/-! ## The grammar -/

mutual

/-- `varInt` and `flatData` stand for the wrappers of a member. -/
inductive ClassTy : Kind → Type where
  | scalar (t : ScalarTy) : ClassTy .scalar
  | bool : ClassTy .bool
  | string : ClassTy .cls
  | pair {k₁ k₂ : Kind} (a : ClassTy k₁) (b : ClassTy k₂) : ClassTy .cls
  | map {k₁ k₂ : Kind} (k : Ty k₁) (v : ClassTy k₂) : ClassTy .cls
  | set {k₁ : Kind} (k : Ty k₁) : ClassTy .cls
  | scalarVector (t : ScalarTy) : ClassTy .vec
  | vector (e : ClassTy .cls) : ClassTy .vec
  | varInt (t : UIntTy) : ClassTy .vec
  | flatData (n : ℕ+) : ClassTy .vec
  | struct (size align : ℕ+) (members : Members) : ClassTy .cls

/-- The `READWRITE` statements. -/
inductive Members : Type where
  | last {k : Kind} (obj : ClassTy k) : Members
  | readWrite {k : Kind} (obj : ClassTy k) (rest : Members) : Members

end

mutual

def ClassTy.sem {k : Kind} : ClassTy k → SerTy
  | .scalar t => .scalar t.rep
  | .bool => .bool
  | .string => .string
  | .pair a b => .pair a.sem b.sem
  | .map k v => .map k.sem v.sem
  | .set k => .set k.sem
  | .scalarVector t => .bulkVector t.rep
  | .vector e => .vector e.sem
  | .varInt t => .varInt t
  | .flatData n => .flatData n
  | .struct size align members => .struct size align members.sem

def Members.sem : Members → SerTy
  | .last obj => obj.sem
  | .readWrite obj rest => .pair obj.sem rest.sem

end

abbrev ClassTy.Val {k : Kind} (t : ClassTy k) : Type := t.sem.T

abbrev Members.Val (ms : Members) : Type := ms.sem.T

mutual

/-- `Serialize(s, a)` -/
def ClassTy.serialize {σ : Type} [Stream σ] {k : Kind} : (t : ClassTy k) → σ → t.Val → Prog σ
  | .scalar _, s, a => pure (IntTy.serialize s a)
  | .bool, s, a => pure (serializeBool s a)
  | .string, s, a => pure (serializeString s a)
  | .pair a b, s, x => do
    let s ← a.serialize s x.1
    b.serialize s x.2
  | .map k v, s, m =>
    letI := k.sem.ord
    let m : OrdTree (fun x : k.sem.T × v.Val => x.1) := m
    m.elems.foldlM (fun s x => do v.serialize (k.sem.serialize s x.1) x.2)
      (writeCompactSize s m.elems.length)
  | .set k, s, m => pure ((SerTy.set k.sem).serialize s m)
  | .scalarVector _, s, v => pure (serializeBulk s v)
  | .vector e, s, (v : List e.Val) =>
    v.foldlM (fun s x => e.serialize s x) (writeCompactSize s v.length)
  | .varInt t, s, n => writeVarInt s (n : BitVec t.bits)
  | .flatData n, s, bs => pure (Stream.write s (bs : { bs : List Byte // bs.length = n }).val)
  | .struct _ _ members, s, a => members.serialize s a

def Members.serialize {σ : Type} [Stream σ] : (ms : Members) → σ → ms.Val → Prog σ
  | .last obj, s, a => obj.serialize s a
  | .readWrite obj rest, s, x => do
    let s ← obj.serialize s x.1
    rest.serialize s x.2

end

/-! ## Writing -/

section Writing

theorem returns_foldlM {α σ : Type} {f : σ → α → Prog σ} {g : σ → α → σ}
    (h : ∀ s x, Returns (f s x) (g s x)) (l : List α) (s : σ) :
    Returns (l.foldlM f s) (l.foldl g s) := by
  induction l generalizing s with
  | nil => exact .pure s
  | cons x l ih =>
    rw [List.foldlM_cons, List.foldl_cons]
    exact (h s x).bind (ih _)

variable {σ : Type} [Stream σ]

mutual

/-- The code writes the bytes of the value. -/
theorem ClassTy.serialize_returns [LawfulStream σ] {k : Kind} : ∀ (t : ClassTy k) (s : σ) (x : t.Val),
    Returns (t.serialize s x) (t.sem.serialize s x)
  | .scalar _, _, _ => .pure _
  | .bool, _, _ => .pure _
  | .string, _, _ => .pure _
  | .pair a b, s, x =>
    (a.serialize_returns s x.1).bind (b.serialize_returns _ x.2)
  | .map k v, s, m => by
    let _ := k.sem.ord
    exact returns_foldlM (fun s (x : k.sem.T × v.Val) => v.serialize_returns (k.sem.serialize s x.1) x.2)
      (@OrdTree.elems _ _ _ (fun x : k.sem.T × v.Val => x.1) m) _
  | .set _, _, _ => .pure _
  | .scalarVector _, _, _ => .pure _
  | .vector e, s, (v : List e.Val) => returns_foldlM (fun s x => e.serialize_returns s x) v _
  | .varInt t, s, n => writeVarInt_returns t.le_bits s n
  | .flatData _, _, _ => .pure _
  | .struct _ _ members, s, x => members.serialize_returns s x

theorem Members.serialize_returns [LawfulStream σ] : ∀ (ms : Members) (s : σ) (x : ms.Val),
    Returns (ms.serialize s x) (ms.sem.serialize s x)
  | .last obj, s, x => obj.serialize_returns s x
  | .readWrite obj rest, s, x =>
    (obj.serialize_returns s x.1).bind (rest.serialize_returns _ x.2)

end

end Writing

/-! ## Reading -/

namespace SerTy

variable {e : SerTy}

theorem bytes_varInt (t : UIntTy) (n : BitVec t.bits) : (varInt t).bytes n = encode n.toNat := by
  show Stream.write ([] : List Byte) (encode n.toNat) = encode n.toNat
  rw [write_list, List.nil_append]

theorem emits_varInt (t : UIntTy) : (varInt t).Emits where
  eq os n := by rw [bytes_varInt]
  pos n := by
    rw [bytes_varInt, encode_length]
    exact Nat.succ_pos _

theorem reads_varInt (t : UIntTy) (n : BitVec t.bits) : (varInt t).Reads n := by
  intro σ _ _ is r prev _ h
  rw [bytes_varInt] at h
  have hr := readVarInt_returns t.le_bits (complete_encode n.toNat) h
  rwa [denote_encode, BitVec.ofNat_toNat, BitVec.setWidth_eq] at hr

theorem bytes_flatData (n : ℕ+) (bs : (flatData n).T) : (flatData n).bytes bs = bs.val := by
  show Stream.write ([] : List Byte) bs.val = bs.val
  rw [write_list, List.nil_append]

theorem emits_flatData (n : ℕ+) : (flatData n).Emits where
  eq os bs := by rw [bytes_flatData]
  pos bs := by
    rw [bytes_flatData, bs.property]
    exact n.pos

theorem reads_flatData (n : ℕ+) (bs : (flatData n).T) : (flatData n).Reads bs := by
  intro σ _ _ is r prev _ h
  rw [bytes_flatData] at h
  obtain ⟨is', h1, h2⟩ := read_exact bs.property h
  refine ⟨is', .bind (.lift h1) ?_, h2⟩
  show Returns (pure (if h : bs.val.length = n then ⟨bs.val, h⟩ else prev, is')) _
  rw [dif_pos bs.property]
  exact .pure _

theorem emits_struct (size align : ℕ+) (he : e.Emits) : (struct size align e).Emits := ⟨he.eq, he.pos⟩

/-- A type whose values either are read back or hang the reader. -/
def Decides (e : SerTy) (P : e.T → Prop) : Prop :=
  ∀ x, (P x → e.Reads x) ∧ (¬ P x → e.Stuck x)

theorem Decides.of_reads (h : ∀ x, e.Reads x) : e.Decides fun _ => True :=
  fun x => ⟨fun _ => h x, fun hno => absurd trivial hno⟩

theorem Decides.vector {P : e.T → Prop} (h : e.Decides P) (he : e.Emits) (hpos : 0 < e.sizeof) :
    (vector e).Decides fun xs => (xs ≠ [] → e.sizeof ≤ 5000000) ∧ ∀ x ∈ xs, P x := by
  refine fun xs => ⟨fun hfit => reads_vector he hpos hfit.1 fun x hx => (h x).1 (hfit.2 x hx),
    fun hfit => ?_⟩
  by_cases hsz : xs ≠ [] → e.sizeof ≤ 5000000
  · -- the first element that is not read back
    obtain ⟨j, hj, hbad, hx⟩ := Ty.exists_first_not fun hall => hfit ⟨hsz, hall⟩
    have hne : xs ≠ [] := List.ne_nil_of_length_pos (Nat.zero_lt_of_lt hj)
    exact stuck_vector_elem he hpos (hsz hne) hj (fun l hl hlt => (h _).1 (hx l hl hlt)) ((h _).2 hbad)
  · obtain ⟨hne, hlt⟩ := Classical.not_imp.mp hsz
    exact stuck_vector_size he hne (not_le.mp hlt)

theorem Decides.iff {P : e.T → Prop} (h : e.Decides P) {x : e.T} {σ : Type} [Stream σ]
    [LawfulStream σ] {is : σ} {r : List Byte} (prev : e.T) (hlen : (e.bytes x ++ r).length < 2 ^ 31)
    (hh : LawfulStream.Holds is (e.bytes x ++ r)) :
    (∃ is', Returns (e.unserialize is prev) (x, is') ∧ LawfulStream.Holds is' r) ↔ P x := by
  constructor
  · rintro ⟨is', hr, -⟩
    by_contra hno
    exact ((h x).2 hno is r prev hlen hh).not_returns _ hr
  · exact fun hP => (h x).1 hP is r prev hlen hh

end SerTy

mutual

/-- Every non-empty vector in the value has elements of at most 5000000 bytes. -/
def ClassTy.VectorsFit {k : Kind} : (t : ClassTy k) → t.Val → Prop
  | .scalar _, _ => True
  | .bool, _ => True
  | .string, _ => True
  | .pair a b, x => a.VectorsFit x.1 ∧ b.VectorsFit x.2
  | .map k v, m =>
    letI := k.sem.ord
    let m : OrdTree (fun x : k.sem.T × v.Val => x.1) := m
    ∀ x ∈ m.elems, k.VectorsFit x.1 ∧ v.VectorsFit x.2
  | .set k, m => (Ty.set k).VectorsFit m
  | .scalarVector _, _ => True
  | .vector e, (xs : List e.Val) =>
    (xs ≠ [] → e.sem.sizeof ≤ 5000000) ∧ ∀ x ∈ xs, e.VectorsFit x
  | .varInt _, _ => True
  | .flatData _, _ => True
  | .struct _ _ members, x => members.VectorsFit x

def Members.VectorsFit : (ms : Members) → ms.Val → Prop
  | .last obj, x => obj.VectorsFit x
  | .readWrite obj rest, x => obj.VectorsFit x.1 ∧ rest.VectorsFit x.2

end

mutual

theorem ClassTy.emits {k : Kind} : (t : ClassTy k) → t.sem.Emits
  | .scalar t => SerTy.emits_scalar t.rep
  | .bool => SerTy.emits_bool
  | .string => SerTy.emits_string
  | .pair a b => SerTy.emits_pair a.emits b.emits
  | .map k v => @SerTy.emits_tree _ _ k.sem.ord _ (SerTy.emits_pair k.emits v.emits)
  | .set k => @SerTy.emits_tree _ _ k.sem.ord _ k.emits
  | .scalarVector t => SerTy.emits_bulkVector t.rep
  | .vector e => SerTy.emits_vector e.emits
  | .varInt t => SerTy.emits_varInt t
  | .flatData n => SerTy.emits_flatData n
  | .struct size align members => SerTy.emits_struct size align members.emits

theorem Members.emits : (ms : Members) → ms.sem.Emits
  | .last obj => obj.emits
  | .readWrite obj rest => SerTy.emits_pair obj.emits rest.emits

end

mutual

theorem ClassTy.size_pos {k : Kind} : (t : ClassTy k) → 0 < t.sem.sizeof ∧ 0 < t.sem.alignof
  | .scalar t => ⟨t.rep.size_pos, t.rep.size_pos⟩
  | .bool => ⟨Nat.one_pos, Nat.one_pos⟩
  | .string => ⟨Nat.succ_pos 31, Nat.succ_pos 7⟩
  | .pair a b => by
    have ha := a.size_pos.2
    have hb := b.size_pos
    have halign : 0 < max a.sem.alignof b.sem.alignof := by omega
    have h := Ty.le_roundUp (n := roundUp a.sem.sizeof b.sem.alignof + b.sem.sizeof) halign
    exact ⟨show 0 < roundUp _ _ by omega, halign⟩
  | .map _ _ => ⟨Nat.succ_pos 47, Nat.succ_pos 7⟩
  | .set _ => ⟨Nat.succ_pos 47, Nat.succ_pos 7⟩
  | .scalarVector _ => ⟨Nat.succ_pos 23, Nat.succ_pos 7⟩
  | .vector _ => ⟨Nat.succ_pos 23, Nat.succ_pos 7⟩
  | .varInt _ => ⟨Nat.succ_pos 7, Nat.succ_pos 7⟩
  | .flatData _ => ⟨Nat.succ_pos 15, Nat.succ_pos 7⟩
  | .struct size align _ => ⟨size.pos, align.pos⟩

end

mutual

theorem ClassTy.decides {k : Kind} : (t : ClassTy k) → t.sem.Decides t.VectorsFit
  | .scalar _ => .of_reads SerTy.reads_scalar
  | .bool => .of_reads SerTy.reads_bool
  | .string => .of_reads SerTy.reads_string
  | .pair a b => fun x => Ty.pair_reads_or_stuck b.emits a.decides b.decides x
  | .map k v => by
    let _ := k.sem.ord
    exact fun m => Ty.tree_reads_or_stuck (SerTy.emits_pair k.emits v.emits)
      (Ty.pair_reads_or_stuck v.emits k.reads_or_stuck v.decides) m
  | .set k => fun m => (Ty.set k).reads_or_stuck m
  | .scalarVector _ => .of_reads SerTy.reads_bulkVector
  | .vector e => .vector e.decides e.emits e.size_pos.1
  | .varInt t => .of_reads (SerTy.reads_varInt t)
  | .flatData n => .of_reads (SerTy.reads_flatData n)
  | .struct _ _ members => fun x => members.decides x

theorem Members.decides : (ms : Members) → ms.sem.Decides ms.VectorsFit
  | .last obj => fun x => obj.decides x
  | .readWrite obj rest => fun x => Ty.pair_reads_or_stuck rest.emits obj.decides rest.decides x

end

/-- **Classes round trip.** Whatever the members of a class are: the code appends the bytes of the
value to any stream, and from any stream in which these bytes come next, then `r`, the value is read
back and `r` is what comes next then, exactly if the vectors of the value fit. -/
theorem classes_roundTrip_iff {k : Kind} (t : ClassTy k) (x : t.Val) :
    (∀ (σ : Type) [Stream σ] [LawfulStream σ] (os : σ),
      Returns (t.serialize os x) (Stream.write os (t.sem.bytes x))) ∧
    ∀ (σ : Type) [Stream σ] [LawfulStream σ] (is : σ) (r : List Byte) (prev : t.Val),
      (t.sem.bytes x ++ r).length < 2 ^ 31 → LawfulStream.Holds is (t.sem.bytes x ++ r) →
        ((∃ is', Returns (t.sem.unserialize is prev) (x, is') ∧ LawfulStream.Holds is' r) ↔
          t.VectorsFit x) := by
  refine ⟨fun σ _ _ os => ?_, fun σ _ _ is r prev hlen hh => t.decides.iff prev hlen hh⟩
  rw [← t.emits.eq]
  exact t.serialize_returns os x

/-- `struct { HUN n; HCH tag[2]; std::vector<std::string> names; }` with `VARINT(n)` and
`FLATDATA(tag)`. -/
def tagged : ClassTy .cls :=
  .struct (Nat.toPNat' 32) (Nat.toPNat' 8)
    (.readWrite (.varInt .u32) (.readWrite (.flatData (Nat.toPNat' 2)) (.last (.vector .string))))

def taggedOne : tagged.Val := (300#32, ⟨[1, 2], rfl⟩, ([[7, 8]] : List (List Byte)))

theorem classes_roundTrip_tagged :
    ∃ is', Returns (tagged.sem.unserialize (CDataStream.init (tagged.sem.bytes taggedOne))
      tagged.sem.dflt) (taggedOne, is') ∧ LawfulStream.Holds is' [] := by
  have hbytes : tagged.sem.bytes taggedOne = [0x81, 0x2C, 1, 2, 1, 2, 7, 8] := by
    have henc : encode 300 = [0x81, 0x2C] := by simp [encode, bijDigits, contByte]
    show serializeRange .string ([] ++ encode 300 ++ [1, 2]) [[7, 8]] = _
    rw [henc]
    rfl
  have hlen : (tagged.sem.bytes taggedOne ++ []).length < 2 ^ 31 := by
    rw [hbytes]
    decide
  have hh : LawfulStream.Holds (CDataStream.init (tagged.sem.bytes taggedOne))
      (tagged.sem.bytes taggedOne ++ []) := by
    rw [hbytes]
    exact ⟨by decide, by decide, by decide⟩
  have hfit : tagged.VectorsFit taggedOne :=
    ⟨trivial, trivial, fun _ => by decide, fun _ _ => trivial⟩
  exact ((classes_roundTrip_iff tagged taggedOne).2 CDataStream _ [] _ hlen hh).mpr hfit

end Serialize
end Huicpp
