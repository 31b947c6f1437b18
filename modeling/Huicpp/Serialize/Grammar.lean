import Mathlib
import Huicpp.Serialize.Containers

/-!
# Serialize.Grammar

The serializable types, and the round trip for all of them.

`Ty` is indexed by what a vector may hold: a vector of scalars is read as one block of memory, a
vector of class types element by element. `vector<bool>` has no addressable elements and
`vector<vector<T>>` resolves to an overload that is declared but never defined, so neither is a
type here.

`roundTrip_iff`: reading back what was written gives the value, for every type and every value in
which no non-empty vector has elements of more than 5000000 bytes; with such a vector the reader
never returns.
-/

namespace Huicpp
namespace Serialize

open Cxx Prog

inductive Kind where
  | scalar
  | bool
  | cls
  | vec
  deriving DecidableEq, Repr

inductive Ty : Kind → Type where
  | scalar (t : IntTy) : Ty .scalar
  | bool : Ty .bool
  | string : Ty .cls
  | pair {k₁ k₂ : Kind} (a : Ty k₁) (b : Ty k₂) : Ty .cls
  | map {k₁ k₂ : Kind} (k : Ty k₁) (v : Ty k₂) : Ty .cls
  | set {k₁ : Kind} (k : Ty k₁) : Ty .cls
  | scalarVector (t : IntTy) : Ty .vec
  | classVector (e : Ty .cls) : Ty .vec

namespace Ty

/-- The overloads that calls on this type resolve to. -/
def sem {k : Kind} : Ty k → SerTy
  | .scalar t => .scalar t
  | .bool => .bool
  | .string => .string
  | .pair a b => .pair a.sem b.sem
  | .map k v => .map k.sem v.sem
  | .set k => .set k.sem
  | .scalarVector t => .bulkVector t
  | .classVector e => .vector e.sem

abbrev Val {k : Kind} (t : Ty k) : Type := t.sem.T

/-- Every non-empty vector in the value has elements of at most 5000000 bytes. -/
def VectorsFit {k : Kind} : (t : Ty k) → t.Val → Prop
  | .scalar _, _ => True
  | .bool, _ => True
  | .string, _ => True
  | .pair a b, x => a.VectorsFit x.1 ∧ b.VectorsFit x.2
  | .map k v, m =>
    letI := k.sem.ord
    let m : OrdTree (fun x : k.Val × v.Val => x.1) := m
    ∀ x ∈ m.elems, k.VectorsFit x.1 ∧ v.VectorsFit x.2
  | .set k, m =>
    letI := k.sem.ord
    let m : OrdTree (fun x : k.Val => x) := m
    ∀ x ∈ m.elems, k.VectorsFit x
  | .scalarVector _, _ => True
  | .classVector e, (xs : List e.Val) =>
    (xs ≠ [] → e.sem.sizeof ≤ 5000000) ∧ ∀ x ∈ xs, e.VectorsFit x

theorem emits {k : Kind} (t : Ty k) : t.sem.Emits := by
  induction t with
  | scalar t => exact SerTy.emits_scalar t
  | bool => exact SerTy.emits_bool
  | string => exact SerTy.emits_string
  | pair a b iha ihb => exact SerTy.emits_pair iha ihb
  | map k v ihk ihv => exact @SerTy.emits_tree _ _ k.sem.ord _ (SerTy.emits_pair ihk ihv)
  | set k ih => exact @SerTy.emits_tree _ _ k.sem.ord _ ih
  | scalarVector t => exact SerTy.emits_bulkVector t
  | classVector e ih => exact SerTy.emits_vector ih

theorem le_roundUp {n align : Nat} (h : 0 < align) : n ≤ roundUp n align := by
  rw [roundUp]
  have h1 := Nat.div_add_mod (n + align - 1) align
  have h2 := Nat.mod_lt (n + align - 1) h
  rw [Nat.mul_comm] at h1
  omega

theorem size_pos {k : Kind} (t : Ty k) : 0 < t.sem.sizeof ∧ 0 < t.sem.alignof := by
  induction t with
  | scalar t => exact ⟨t.size_pos, t.size_pos⟩
  | bool => exact ⟨Nat.one_pos, Nat.one_pos⟩
  | string => exact ⟨by decide, by decide⟩
  | pair a b iha ihb =>
    have halign : 0 < max a.sem.alignof b.sem.alignof := by omega
    have h := le_roundUp (n := roundUp a.sem.sizeof b.sem.alignof + b.sem.sizeof) halign
    exact ⟨show 0 < roundUp _ _ by omega, halign⟩
  | map k v => exact ⟨Nat.succ_pos 47, Nat.succ_pos 7⟩
  | set k => exact ⟨Nat.succ_pos 47, Nat.succ_pos 7⟩
  | scalarVector t => exact ⟨Nat.succ_pos 23, Nat.succ_pos 7⟩
  | classVector e => exact ⟨Nat.succ_pos 23, Nat.succ_pos 7⟩

theorem exists_first_not {α : Type} {P : α → Prop} {xs : List α} (h : ¬ ∀ x ∈ xs, P x) :
    ∃ j, ∃ hj : j < xs.length, ¬ P xs[j] ∧ ∀ l (hl : l < xs.length), l < j → P xs[l] := by
  classical
  have hex : ∃ j, ∃ hj : j < xs.length, ¬ P xs[j] := by
    simp only [not_forall] at h
    obtain ⟨x, hx, hP⟩ := h
    obtain ⟨j, hj, rfl⟩ := List.getElem_of_mem hx
    exact ⟨j, hj, hP⟩
  obtain ⟨hj, hP⟩ := Nat.find_spec hex
  refine ⟨Nat.find hex, hj, hP, fun l hl hlt => ?_⟩
  by_contra hne
  exact Nat.find_min hex hlt ⟨hl, hne⟩

theorem tree_reads_or_stuck {e : SerTy} {κ : Type} [LinearOrder κ] {key : e.T → κ} (he : e.Emits)
    {P : e.T → Prop} (hP : ∀ x, (P x → e.Reads x) ∧ (¬ P x → e.Stuck x)) (m : OrdTree key) :
    ((∀ x ∈ m.elems, P x) → (SerTy.tree e key).Reads m) ∧
      ((¬ ∀ x ∈ m.elems, P x) → (SerTy.tree e key).Stuck m) := by
  refine ⟨fun h => SerTy.reads_tree he fun x hx => (hP x).1 (h x hx), fun h => ?_⟩
  obtain ⟨j, hj, hbad, hx⟩ := exists_first_not h
  exact SerTy.stuck_tree he hj (fun l hl hlt => (hP _).1 (hx l hl hlt)) ((hP _).2 hbad)

theorem pair_reads_or_stuck {a b : SerTy} (hb : b.Emits) {P : a.T → Prop} {Q : b.T → Prop}
    (hP : ∀ x, (P x → a.Reads x) ∧ (¬ P x → a.Stuck x))
    (hQ : ∀ x, (Q x → b.Reads x) ∧ (¬ Q x → b.Stuck x)) (x : a.T × b.T) :
    ((P x.1 ∧ Q x.2) → (SerTy.pair a b).Reads x) ∧
      ((¬ (P x.1 ∧ Q x.2)) → (SerTy.pair a b).Stuck x) := by
  refine ⟨fun h => SerTy.reads_pair hb ((hP _).1 h.1) ((hQ _).1 h.2), fun h => ?_⟩
  by_cases h1 : P x.1
  · exact SerTy.stuck_pair_right hb ((hP _).1 h1) ((hQ _).2 fun h2 => h ⟨h1, h2⟩)
  · exact SerTy.stuck_pair_left hb ((hP _).2 h1)

/-- By induction on the type: a value reads back if its vectors fit, and hangs the reader if one
of them does not. -/
theorem reads_or_stuck {k : Kind} (t : Ty k) :
    ∀ x : t.Val, (t.VectorsFit x → t.sem.Reads x) ∧ (¬ t.VectorsFit x → t.sem.Stuck x) := by
  induction t with
  | scalar t => exact fun x => ⟨fun _ => SerTy.reads_scalar x, fun h => absurd trivial h⟩
  | bool => exact fun x => ⟨fun _ => SerTy.reads_bool x, fun h => absurd trivial h⟩
  | string => exact fun x => ⟨fun _ => SerTy.reads_string x, fun h => absurd trivial h⟩
  | pair a b iha ihb => exact fun x => pair_reads_or_stuck b.emits iha ihb x
  | map k v ihk ihv =>
    let _ := k.sem.ord
    exact fun m => tree_reads_or_stuck (SerTy.emits_pair k.emits v.emits)
      (pair_reads_or_stuck v.emits ihk ihv) m
  | set k ih =>
    let _ := k.sem.ord
    exact fun m => tree_reads_or_stuck k.emits ih m
  | scalarVector t => exact fun x => ⟨fun _ => SerTy.reads_bulkVector x, fun h => absurd trivial h⟩
  | classVector e ih =>
    intro xs
    refine ⟨fun h => SerTy.reads_vector e.emits e.size_pos.1 h.1 fun x hx => (ih x).1 (h.2 x hx),
      fun h => ?_⟩
    by_cases hsz : xs ≠ [] → e.sem.sizeof ≤ 5000000
    · obtain ⟨j, hj, hbad, hx⟩ := exists_first_not fun h' => h ⟨hsz, h'⟩
      have hne : xs ≠ [] := by
        rintro rfl
        exact absurd hj (Nat.not_lt_zero _)
      exact SerTy.stuck_vector_elem e.emits e.size_pos.1 (hsz hne) hj
        (fun l hl hlt => (ih _).1 (hx l hl hlt)) ((ih _).2 hbad)
    · rw [not_forall] at hsz
      obtain ⟨hne, hlt⟩ := hsz
      exact SerTy.stuck_vector_size e.emits hne (by omega)

end Ty

/-! ## The round trip on `CDataStream` -/

section DataStream

variable {k : Kind} (t : Ty k) (x : t.Val) (s : CDataStream) (r : List Byte)

/-- `x` is written to `s`, then `r`, and what was unread before is consumed. -/
def written : CDataStream := ((t.sem.serialize s x).write r).consume s.unread.length

theorem serialize_vch :
    ((t.sem.serialize s x).write r).vch = s.vch ++ t.sem.bytes x ++ r := by
  rw [t.emits.eq]
  rfl

theorem written_holds (hs : s.Valid) (hlen : ((t.sem.serialize s x).write r).vch.length < 2 ^ 31) :
    LawfulStream.Holds (written t x s r) (t.sem.bytes x ++ r) := by
  have hw : (t.sem.serialize s x).write r = ⟨s.vch ++ t.sem.bytes x ++ r, s.nReadPos⟩ := by
    rw [t.emits.eq]
    rfl
  have hv : s.nReadPos ≤ s.vch.length := hs
  refine ⟨CDataStream.consume_valid _ _, Nat.lt_of_le_of_lt (CDataStream.consume_length_le _ _)
    (by omega), ?_⟩
  rw [written, CDataStream.consume_unread, hw]
  simp only [CDataStream.unread, List.append_assoc]
  rw [List.drop_append_of_le_length hv, List.drop_left]

theorem bytes_length_lt (hlen : ((t.sem.serialize s x).write r).vch.length < 2 ^ 31) :
    (t.sem.bytes x ++ r).length < 2 ^ 31 := by
  rw [serialize_vch] at hlen
  simp only [List.length_append] at hlen ⊢
  omega

theorem unserialize_hangs (prev : t.Val) (hs : s.Valid)
    (hlen : ((t.sem.serialize s x).write r).vch.length < 2 ^ 31) (hfit : ¬ t.VectorsFit x) :
    Hangs (t.sem.unserialize (written t x s r) prev) :=
  (t.reads_or_stuck x).2 hfit _ _ prev (bytes_length_lt t x s r hlen) (written_holds t x s r hs hlen)

/-- **Serialization round trip.** -/
theorem roundTrip_iff (prev : t.Val) (hs : s.Valid)
    (hlen : ((t.sem.serialize s x).write r).vch.length < 2 ^ 31) :
    (∃ s', Returns (t.sem.unserialize (written t x s r) prev) (x, s') ∧ s'.Valid ∧
      s'.unread = r) ↔ t.VectorsFit x := by
  constructor
  · rintro ⟨s', hr, _⟩
    by_contra hfit
    exact (unserialize_hangs t x s r prev hs hlen hfit).not_returns _ hr
  · intro hfit
    obtain ⟨s', hr, hs', _, hu⟩ := (t.reads_or_stuck x).1 hfit _ _ prev
      (bytes_length_lt t x s r hlen) (written_holds t x s r hs hlen)
    exact ⟨s', hr, hs', hu⟩

/-- An instance: a vector of one string, between what is there and what follows. -/
theorem roundTrip_strings :
    ∃ s', Returns ((Ty.classVector .string).sem.unserialize
      (written (.classVector .string) [[0x61]] (.init []) [0xFF]) [[0x62, 0x63]])
        ([[0x61]], s') ∧ s'.Valid ∧ s'.unread = [0xFF] :=
  (roundTrip_iff (.classVector .string) [[0x61]] (.init []) [0xFF] [[0x62, 0x63]]
    (Nat.le_refl 0) (by decide)).mpr ⟨fun _ => by decide, fun _ _ => trivial⟩

/-- Pairs of pairs ... of strings, nested `n` deep: 2^n strings of 32 bytes. -/
def nestedPair : Nat → Ty .cls
  | 0 => .string
  | n + 1 => .pair (nestedPair n) (nestedPair n)

theorem nestedPair_layout (n : Nat) :
    (nestedPair n).sem.sizeof = 32 * 2 ^ n ∧ (nestedPair n).sem.alignof = 8 := by
  induction n with
  | zero => exact ⟨rfl, rfl⟩
  | succ n ih =>
    obtain ⟨h1, h2⟩ := ih
    have hs : (nestedPair (n + 1)).sem.sizeof =
        roundUp (roundUp (32 * 2 ^ n) 8 + 32 * 2 ^ n) 8 := by
      show roundUp (roundUp (nestedPair n).sem.sizeof (nestedPair n).sem.alignof +
        (nestedPair n).sem.sizeof) (max (nestedPair n).sem.alignof (nestedPair n).sem.alignof) = _
      rw [h1, h2]
      rfl
    refine ⟨?_, ?_⟩
    · rw [hs]
      simp only [roundUp, Nat.pow_succ]
      omega
    · show max (nestedPair n).sem.alignof (nestedPair n).sem.alignof = 8
      rw [h2]
      rfl

theorem nestedPair_bytes (n : Nat) :
    ((nestedPair n).sem.bytes (nestedPair n).sem.dflt).length = 2 ^ n := by
  induction n with
  | zero => rfl
  | succ n ih =>
    show ((SerTy.pair (nestedPair n).sem (nestedPair n).sem).bytes
      ((nestedPair n).sem.dflt, (nestedPair n).sem.dflt)).length = _
    rw [SerTy.bytes_pair (nestedPair n).emits, List.length_append, ih, Nat.pow_succ]
    omega

/-- A vector of one such pair, 18 deep: 8388608 bytes, all strings empty. -/
def oneNestedPair : (Ty.classVector (nestedPair 18)).Val := [(nestedPair 18).sem.dflt]

theorem oneNestedPair_not_fit : ¬ (Ty.classVector (nestedPair 18)).VectorsFit oneNestedPair := by
  rintro ⟨h, _⟩
  have := h (List.cons_ne_nil _ _)
  rw [(nestedPair_layout 18).1] at this
  exact absurd this (by decide)

theorem oneNestedPair_bytes :
    ((Ty.classVector (nestedPair 18)).sem.bytes oneNestedPair).length < 2 ^ 31 := by
  show ((SerTy.vector (nestedPair 18).sem).bytes [(nestedPair 18).sem.dflt]).length < 2 ^ 31
  rw [SerTy.bytes_vector (nestedPair 18).emits, List.flatMap_cons, List.flatMap_nil,
    List.append_nil, List.length_append, nestedPair_bytes]
  decide

/-- It is written but never read back. -/
theorem nestedPair_not_read :
    ¬ ∃ s', Returns ((Ty.classVector (nestedPair 18)).sem.unserialize
      (written (.classVector (nestedPair 18)) oneNestedPair (.init []) []) oneNestedPair)
        (oneNestedPair, s') ∧ s'.Valid ∧ s'.unread = [] := by
  rintro ⟨s', hr, _⟩
  have hlen : (((Ty.classVector (nestedPair 18)).sem.serialize (CDataStream.init []) oneNestedPair).write
      []).vch.length < 2 ^ 31 := by
    rw [serialize_vch, List.append_nil, CDataStream.init, List.nil_append]
    exact oneNestedPair_bytes
  exact (unserialize_hangs _ _ (.init []) [] _ (Nat.le_refl 0) hlen
    oneNestedPair_not_fit).not_returns _ hr

end DataStream

end Serialize
end Huicpp
