import Mathlib

/-!
# Cxx.SystemV

The kernel's table of System V objects of one kind (segments, semaphore sets or message queues), and
the calls on it. An object is found by its key, and the other calls name it by its id. Permissions
are left out.

`Answers T c x T'`: in the table `T` the call `c` can be answered with `x`, which leaves `T'`. The
kernel may refuse to create or to attach.
-/

namespace Cxx
namespace SystemV

inductive Errno where
  | EEXIST
  | EINVAL
  | ENOENT
  | ENOSPC
  | ENOMEM
  deriving DecidableEq, Repr

def IPC_PRIVATE : Int := 0

def IPC_CREAT : BitVec 32 := 0x200#32

def IPC_EXCL : BitVec 32 := 0x400#32

/-- `IPC_CREAT` is among the flags. -/
def hasCreat (flag : BitVec 32) : Bool := flag.getLsbD 9

/-- `IPC_CREAT` and `IPC_EXCL` are among the flags. -/
def exclusive (flag : BitVec 32) : Bool := flag.getLsbD 9 && flag.getLsbD 10

structure Obj where
  key : Int
  size : Nat
  contents : List Nat
  deriving DecidableEq, Repr

/-- The objects by their ids. -/
abbrev Table := Int → Option Obj

/-- What `shmat` gave: an address in the segment, or -1. -/
inductive Ptr where
  | null
  | failed
  | segment (id : Int)
  deriving DecidableEq, Repr

inductive Call where
  | get (key : Int) (size : Nat) (flag : BitVec 32)
  | shmat (id : Int)
  | shmdt (ptr : Ptr)
  | rmid (id : Int)
  /-- A write through the pointer; `size` zeros from its beginning on. -/
  | memset (ptr : Ptr) (size : Nat)
  deriving DecidableEq, Repr

/-- After a success `errno` is what it was before: anything. -/
structure Answer where
  value : Int
  errno : Errno
  deriving DecidableEq, Repr

namespace Table

def Keyed (T : Table) (key id : Int) (o : Obj) : Prop :=
  key ≠ IPC_PRIVATE ∧ 0 ≤ id ∧ T id = some o ∧ o.key = key

/-- The key has an object that is large enough. -/
def Joinable (T : Table) (key : Int) (size : Nat) : Prop := ∃ id o, T.Keyed key id o ∧ size ≤ o.size

def set (T : Table) (id : Int) (o : Option Obj) : Table := Function.update T id o

def zero (T : Table) (ptr : Ptr) (size : Nat) : Table :=
  match ptr with
  | .segment id =>
    T.set id ((T id).map fun o =>
      { o with contents := List.replicate size 0 ++ o.contents.drop size })
  | _ => T

/-- The objects that were there still are; their contents may have changed. -/
def Persists (T T' : Table) : Prop :=
  ∀ id o, T id = some o → ∃ o', T' id = some o' ∧ o'.key = o.key ∧ o'.size = o.size

/-- Some process writes to an object. -/
def Written (T T' : Table) : Prop :=
  ∃ id o contents, T id = some o ∧ T' = T.set id (some { o with contents := contents })

end Table

open Table

/-- What the calls answer: a `get`, `shmat` and `shmdt`, and a `control` with `IPC_RMID`. -/
inductive Answers (T : Table) : Call → Answer → Table → Prop where
  | found (key id : Int) (o : Obj) (size : Nat) (flag : BitVec 32) (errno : Errno) :
      T.Keyed key id o → size ≤ o.size → exclusive flag = false →
      Answers T (.get key size flag) ⟨id, errno⟩ T
  | exists' (key id : Int) (o : Obj) (size : Nat) (flag : BitVec 32) :
      T.Keyed key id o → exclusive flag = true →
      Answers T (.get key size flag) ⟨-1, .EEXIST⟩ T
  | tooSmall (key id : Int) (o : Obj) (size : Nat) (flag : BitVec 32) :
      T.Keyed key id o → ¬ T.Joinable key size →
      Answers T (.get key size flag) ⟨-1, .EINVAL⟩ T
  | created (key id : Int) (size : Nat) (flag : BitVec 32) (errno : Errno) :
      (∀ id o, ¬ T.Keyed key id o) → hasCreat flag = true ∨ key = IPC_PRIVATE →
      0 ≤ id → T id = none →
      Answers T (.get key size flag) ⟨id, errno⟩
        (T.set id (some ⟨key, size, List.replicate size 0⟩))
  | refused (key : Int) (size : Nat) (flag : BitVec 32) (errno : Errno) :
      (∀ id o, ¬ T.Keyed key id o) → hasCreat flag = true ∨ key = IPC_PRIVATE →
      errno ≠ .EEXIST → Answers T (.get key size flag) ⟨-1, errno⟩ T
  | notFound (key : Int) (size : Nat) (flag : BitVec 32) :
      (∀ id o, ¬ T.Keyed key id o) → hasCreat flag = false → key ≠ IPC_PRIVATE →
      Answers T (.get key size flag) ⟨-1, .ENOENT⟩ T
  | attached (id : Int) (o : Obj) (errno : Errno) :
      T id = some o → Answers T (.shmat id) ⟨0, errno⟩ T
  | notAttached (id : Int) (errno : Errno) : Answers T (.shmat id) ⟨-1, errno⟩ T
  | detached (id : Int) (errno : Errno) : Answers T (.shmdt (.segment id)) ⟨0, errno⟩ T
  | notDetached (ptr : Ptr) : (∀ id, ptr ≠ .segment id) → Answers T (.shmdt ptr) ⟨-1, .EINVAL⟩ T
  | removed (id : Int) (o : Obj) (errno : Errno) :
      T id = some o → Answers T (.rmid id) ⟨0, errno⟩ (T.set id none)
  | notRemoved (id : Int) : T id = none → Answers T (.rmid id) ⟨-1, .EINVAL⟩ T
  | memset (ptr : Ptr) (size : Nat) (errno : Errno) :
      Answers T (.memset ptr size) ⟨0, errno⟩ (T.zero ptr size)

theorem answered (T : Table) (c : Call) : ∃ x T', Answers T c x T' := by
  cases c with
  | get key size flag =>
    by_cases hkey : ∃ id o, T.Keyed key id o
    · obtain ⟨id, o, hk⟩ := hkey
      by_cases hj : T.Joinable key size
      · cases he : exclusive flag with
        | false =>
          obtain ⟨id, o, hk, hsize⟩ := hj
          exact ⟨_, _, .found key id o size flag .EINVAL hk hsize he⟩
        | true => exact ⟨_, _, .exists' key id o size flag hk he⟩
      · exact ⟨_, _, .tooSmall key id o size flag hk hj⟩
    · have hnone : ∀ id o, ¬ T.Keyed key id o := fun id o hk => hkey ⟨id, o, hk⟩
      by_cases hcreate : hasCreat flag = true ∨ key = IPC_PRIVATE
      · exact ⟨_, _, .refused key size flag .ENOSPC hnone hcreate (by decide)⟩
      · obtain ⟨hflag, hpriv⟩ := not_or.mp hcreate
        exact ⟨_, _, .notFound key size flag hnone (Bool.eq_false_of_not_eq_true hflag) hpriv⟩
  | shmat id => exact ⟨_, _, .notAttached id .EINVAL⟩
  | shmdt ptr =>
    cases ptr with
    | null => exact ⟨_, _, .notDetached .null fun _ h => by cases h⟩
    | failed => exact ⟨_, _, .notDetached .failed fun _ h => by cases h⟩
    | segment id => exact ⟨_, _, .detached id .EINVAL⟩
  | rmid id =>
    cases ho : T id with
    | none => exact ⟨_, _, .notRemoved id ho⟩
    | some o => exact ⟨_, _, .removed id o .EINVAL ho⟩
  | memset ptr size => exact ⟨_, _, .memset ptr size .EINVAL⟩

/-! ## What a call does -/

/-- Why a `get` fails: the object exists and that is not wanted, it is too small, or there is none
and none is made. -/
def Refusal (T : Table) (key : Int) (size : Nat) (flag : BitVec 32) (errno : Errno) : Prop :=
  (∃ id o, T.Keyed key id o) ∧
      (exclusive flag = true ∧ errno = .EEXIST ∨ ¬ T.Joinable key size ∧ errno = .EINVAL) ∨
    (∀ id o, ¬ T.Keyed key id o) ∧ errno ≠ .EEXIST

theorem get_cases {T T' : Table} {key : Int} {size : Nat} {flag : BitVec 32} {x : Answer}
    (h : Answers T (.get key size flag) x T') :
    (∃ o, T.Keyed key x.value o ∧ size ≤ o.size ∧ exclusive flag = false ∧ T' = T) ∨
      (x.value = -1 ∧ T' = T ∧ Refusal T key size flag x.errno) ∨
      ((∀ id o, ¬ T.Keyed key id o) ∧ 0 ≤ x.value ∧ T x.value = none ∧
        T' = T.set x.value (some ⟨key, size, List.replicate size 0⟩)) := by
  cases h with
  | found _ id o _ _ errno hk hsize hflag => exact .inl ⟨o, hk, hsize, hflag, rfl⟩
  | exists' _ id o _ _ hk hflag => exact .inr (.inl ⟨rfl, rfl, .inl ⟨⟨id, o, hk⟩, .inl ⟨hflag, rfl⟩⟩⟩)
  | tooSmall _ id o _ _ hk hj => exact .inr (.inl ⟨rfl, rfl, .inl ⟨⟨id, o, hk⟩, .inr ⟨hj, rfl⟩⟩⟩)
  | created _ id _ _ errno hnone _ hid hfree => exact .inr (.inr ⟨hnone, hid, hfree, rfl⟩)
  | refused _ _ _ errno hnone _ he => exact .inr (.inl ⟨rfl, rfl, .inr ⟨hnone, he⟩⟩)
  | notFound _ _ _ hnone _ _ =>
    exact .inr (.inl ⟨rfl, rfl, .inr ⟨hnone, fun he => by cases he⟩⟩)

theorem shmat_same {T T' : Table} {id : Int} {x : Answer} (h : Answers T (.shmat id) x T') :
    T' = T := by
  cases h <;> rfl

theorem shmdt_failed {T T' : Table} {x : Answer} (h : Answers T (.shmdt .failed) x T') :
    x.value = -1 ∧ T' = T := by
  cases h
  exact ⟨rfl, rfl⟩

theorem rmid_other {T T' : Table} {id : Int} {x : Answer} (h : Answers T (.rmid id) x T') {i : Int}
    (hi : i ≠ id) : T' i = T i := by
  cases h with
  | removed => exact Function.update_of_ne hi _ _
  | notRemoved => rfl

theorem memset_other {T T' : Table} {id : Int} {size : Nat} {x : Answer}
    (h : Answers T (.memset (.segment id) size) x T') {i : Int} (hi : i ≠ id) : T' i = T i := by
  cases h
  exact Function.update_of_ne hi _ _

namespace Table

variable {T T' : Table} {key id : Int} {size : Nat}

@[simp] theorem set_self (T : Table) (id : Int) (o : Option Obj) : T.set id o id = o :=
  Function.update_self _ _ _

theorem set_of_ne (T : Table) (o : Option Obj) {i id : Int} (h : i ≠ id) : T.set id o i = T i :=
  Function.update_of_ne h _ _

theorem Keyed.persists {o : Obj} (hk : T.Keyed key id o) (h : Persists T T') :
    ∃ o', T'.Keyed key id o' ∧ o'.size = o.size := by
  obtain ⟨hkey, hid, ho, rfl⟩ := hk
  obtain ⟨o', ho', hkey', hsize⟩ := h id o ho
  exact ⟨o', ⟨hkey, hid, ho', hkey'⟩, hsize⟩

theorem Joinable.persists (hj : T.Joinable key size) (h : Persists T T') :
    T'.Joinable key size := by
  obtain ⟨id, o, hk, hsize⟩ := hj
  obtain ⟨o', hk', hsize'⟩ := hk.persists h
  exact ⟨id, o', hk', hsize'.symm ▸ hsize⟩

theorem Persists.refl (T : Table) : Persists T T := fun _ o ho => ⟨o, ho, rfl, rfl⟩

theorem Persists.trans {T₁ T₂ T₃ : Table} (h₁ : Persists T₁ T₂) (h₂ : Persists T₂ T₃) :
    Persists T₁ T₃ := by
  intro id o ho
  obtain ⟨o₂, ho₂, hkey₂, hsize₂⟩ := h₁ id o ho
  obtain ⟨o₃, ho₃, hkey₃, hsize₃⟩ := h₂ id o₂ ho₂
  exact ⟨o₃, ho₃, hkey₃.trans hkey₂, hsize₃.trans hsize₂⟩

theorem Written.persists (h : Written T T') : Persists T T' := by
  obtain ⟨id, o, contents, ho, rfl⟩ := h
  intro i p hp
  by_cases hi : i = id
  · subst hi
    obtain rfl : o = p := Option.some.inj (ho.symm.trans hp)
    exact ⟨_, set_self _ _ _, rfl, rfl⟩
  · exact ⟨p, (set_of_ne T _ hi).trans hp, rfl, rfl⟩

end Table

end SystemV
end Cxx
