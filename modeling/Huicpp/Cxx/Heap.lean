import Mathlib
import Huicpp.Cxx.Prog

/-!
# Cxx.Heap

`malloc` and `free` in programs that may throw. A computation keeps the heap when it throws, so that
what it did not free on its way out can be seen.

* `Heap`: the blocks that are live, and a ledger of the frees.
* `HeapM`: computations on a heap. `onExit` is a scope guard.
* `Released`: every block allocated on the way from one heap to another was freed once.
-/

namespace Cxx

/-- The blocks, by their addresses. A cell that has not been stored is `none`. An address is not
used again, so that a dangling pointer stays dangling. -/
structure Heap (β : Type) where
  blocks : Nat → Option (List (Option β))
  fresh : Nat
  freed : List Nat

/-- A computation on a heap. -/
def HeapM (β α : Type) : Type := Heap β → Outcome α × Heap β

/-- A null pointer is `none`. -/
abbrev HeapPtr := Option Nat

/-- The conversion of an `int` to `size_t`. -/
def asSizeT (n : Int) : Nat := (n % 2 ^ 64).toNat

theorem asSizeT_natCast {n : Nat} (hn : n < 2 ^ 64) : asSizeT n = n := by
  rw [asSizeT]
  omega

theorem asSizeT_neg {n : Int} (hn : n < 0) (hlo : -2 ^ 31 ≤ n) : 2 ^ 63 ≤ asSizeT n := by
  rw [asSizeT]
  omega

variable {β α γ : Type}

namespace Heap

def empty : Heap β := ⟨fun _ => none, 0, []⟩

def allocate (size : Nat) (h : Heap β) : Heap β :=
  { h with
    blocks := Function.update h.blocks h.fresh (some (List.replicate size none))
    fresh := h.fresh + 1 }

def setBlock (p : Nat) (b : List (Option β)) (h : Heap β) : Heap β :=
  { h with blocks := Function.update h.blocks p (some b) }

def release (p : Nat) (h : Heap β) : Heap β :=
  { h with
    blocks := Function.update h.blocks p none
    freed := h.freed ++ [p] }

@[simp] theorem allocate_block (size : Nat) (h : Heap β) :
    (h.allocate size).blocks h.fresh = some (List.replicate size none) := Function.update_self ..

@[simp] theorem setBlock_block (p : Nat) (b : List (Option β)) (h : Heap β) :
    (h.setBlock p b).blocks p = some b := Function.update_self ..

@[simp] theorem release_freed (p : Nat) (h : Heap β) : (h.release p).freed = h.freed ++ [p] := rfl

end Heap

/-- What was allocated on the way from `h` to `h'` was freed once on this way, and nothing else. -/
def Released (h h' : Heap β) : Prop :=
  ∀ p, h'.freed.count p = h.freed.count p + if h.fresh ≤ p ∧ p < h'.fresh then 1 else 0

theorem Released.refl (h : Heap β) : Released h h := by
  intro p
  rw [if_neg (by omega)]
  rfl

theorem released_of_one {h h' : Heap β} (hfresh : h'.fresh = h.fresh + 1)
    (hfreed : h'.freed = h.freed ++ [h.fresh]) : Released h h' := by
  intro p
  rw [hfresh, hfreed, List.count_append, List.count_singleton]
  by_cases hp : p = h.fresh
  · subst hp
    rw [if_pos (beq_self_eq_true _), if_pos (by omega)]
  · have hne : ¬ (h.fresh == p) = true := fun heq => hp (beq_iff_eq.mp heq).symm
    rw [if_neg hne, if_neg (by omega)]

theorem not_released_of_leak {h h' : Heap β} (hfresh : h'.fresh = h.fresh + 1)
    (hfreed : h'.freed = h.freed) : ¬ Released h h' := by
  intro hall
  have hcount := hall h.fresh
  rw [hfresh, hfreed, if_pos (by omega)] at hcount
  omega

namespace HeapM

/-- Continue with `f` after a value; keep every other outcome, and the heap. -/
def andThen (p : HeapM β α) (f : α → HeapM β γ) : HeapM β γ := fun h =>
  match p h with
  | (.ok a, h') => f a h'
  | (.throws e, h') => (.throws e, h')
  | (.undef u, h') => (.undef u, h')
  | (.timeout, h') => (.timeout, h')

instance : Monad (HeapM β) where
  pure a := fun h => (.ok a, h)
  bind := andThen

instance : MonadLift Outcome (HeapM β) := ⟨fun o h => (o, h)⟩

/-- `malloc`. Memory does not run out below the largest size of an object. -/
def malloc (size : Nat) : HeapM β HeapPtr := fun h =>
  if size < 2 ^ 63 then (.ok (some h.fresh), h.allocate size) else (.ok none, h)

def free (p : HeapPtr) : HeapM β Unit := fun h =>
  match p with
  | none => (.ok (), h)
  | some p =>
    match h.blocks p with
    | none => (.undef .useAfterFree, h)
    | some _ => (.ok (), h.release p)

/-- Stores `xs` at `p + i`. -/
def store (p : HeapPtr) (i : Nat) (xs : List β) : HeapM β Unit := fun h =>
  match p with
  | none => (if xs.isEmpty then .ok () else .undef .nullAccess, h)
  | some p =>
    match h.blocks p with
    | none => (.undef .useAfterFree, h)
    | some b =>
      if i + xs.length ≤ b.length then
        (.ok (), h.setBlock p (b.take i ++ xs.map some ++ b.drop (i + xs.length)))
      else (.undef .outOfBounds, h)

/-- The first `n` objects at `p`. -/
def fetch (p : HeapPtr) (n : Nat) : HeapM β (List β) := fun h =>
  match p with
  | none => (if n = 0 then .ok [] else .undef .nullAccess, h)
  | some p =>
    match h.blocks p with
    | none => (.undef .useAfterFree, h)
    | some b =>
      if n ≤ b.length then
        match (b.take n).mapM id with
        | some xs => (.ok xs, h)
        | none => (.undef .uninitialised, h)
      else (.undef .outOfBounds, h)

/-- `v.assign(p, p + n)` for a vector of bytes. `n` is a `size_t`; a vector has less than `2 ^ 63`
elements, and nothing is read if there would be more. -/
def assign (p : HeapPtr) (n : Nat) : HeapM β (List β) :=
  if n < 2 ^ 63 then fetch p n else liftM (Outcome.throws .lengthError : Outcome (List β))

/-- `body`, with `cleanup` run on its way out. -/
def onExit (cleanup : HeapM β Unit) (body : HeapM β α) : HeapM β α := fun h =>
  match body h with
  | (.ok a, h') => (do cleanup; pure a) h'
  | (.throws e, h') => (do cleanup; liftM (Outcome.throws e : Outcome α)) h'
  | (.undef u, h') => (.undef u, h')
  | (.timeout, h') => (.timeout, h')

section Rules

variable {p : HeapM β α} {f : α → HeapM β γ} {h h' h'' : Heap β} {a : α}

theorem bind_ok (hp : p h = (.ok a, h')) : (p >>= f) h = f a h' := by
  show andThen p f h = _
  rw [andThen, hp]

theorem bind_throws {e : Exn} (hp : p h = (.throws e, h')) : (p >>= f) h = (.throws e, h') := by
  show andThen p f h = _
  rw [andThen, hp]

theorem bind_undef {u : Ub} (hp : p h = (.undef u, h')) : (p >>= f) h = (.undef u, h') := by
  show andThen p f h = _
  rw [andThen, hp]

theorem onExit_ok {cleanup : HeapM β Unit} (hp : p h = (.ok a, h'))
    (hc : cleanup h' = (.ok (), h'')) : onExit cleanup p h = (.ok a, h'') := by
  rw [onExit, hp]
  exact bind_ok hc

theorem onExit_undef {cleanup : HeapM β Unit} {u : Ub} (hp : p h = (.undef u, h')) :
    onExit cleanup p h = (.undef u, h') := by
  rw [onExit, hp]

end Rules

variable {h : Heap β} {p i : Nat} {b : List (Option β)} {xs : List β}

theorem malloc_ok {size : Nat} (hsize : size < 2 ^ 63) (h : Heap β) :
    malloc size h = (.ok (some h.fresh), h.allocate size) := if_pos hsize

theorem free_ok (hb : h.blocks p = some b) : free (some p) h = (.ok (), h.release p) := by
  rw [free]
  simp only [hb]

theorem store_ok (hb : h.blocks p = some b) (hlen : i + xs.length ≤ b.length) :
    store (some p) i xs h =
      (.ok (), h.setBlock p (b.take i ++ xs.map some ++ b.drop (i + xs.length))) := by
  rw [store]
  simp only [hb, if_pos hlen]

theorem store_append (done : List β) (hb : h.blocks p = some (done.map some ++ b))
    (hlen : xs.length ≤ b.length) : store (some p) done.length xs h =
      (.ok (), h.setBlock p ((done ++ xs).map some ++ b.drop xs.length)) := by
  have hdone : (done.map some).length = done.length := List.length_map ..
  rw [store_ok hb (by rw [List.length_append]; omega), ← hdone, List.take_left,
    List.drop_length_add_append, List.map_append]

theorem store_start (hb : h.blocks p = some b) (hlen : xs.length ≤ b.length) :
    store (some p) 0 xs h = (.ok (), h.setBlock p (xs.map some ++ b.drop xs.length)) :=
  store_append [] hb hlen

theorem store_outside (hb : h.blocks p = some b) (hlen : b.length < i + xs.length) :
    store (some p) i xs h = (.undef .outOfBounds, h) := by
  rw [store]
  simp only [hb, if_neg (not_le.mpr hlen)]

theorem mapM_id_map_some (xs : List β) : (xs.map some).mapM id = some xs := by
  induction xs with
  | nil => rfl
  | cons x xs ih => simp [List.mapM_cons, ih]

theorem fetch_ok (hb : h.blocks p = some (xs.map some ++ b)) :
    fetch (some p) xs.length h = (.ok xs, h) := by
  have htake : (xs.map some ++ b).take xs.length = xs.map some := List.take_left' (List.length_map ..)
  have hlen : xs.length ≤ (xs.map some ++ b).length := by
    rw [List.length_append, List.length_map]
    exact Nat.le_add_right ..
  rw [fetch]
  simp only [hb, if_pos hlen, htake, mapM_id_map_some]

theorem assign_ok (hlen : xs.length < 2 ^ 63) (hb : h.blocks p = some (xs.map some ++ b)) :
    assign (some p) xs.length h = (.ok xs, h) := by
  rw [assign, if_pos hlen]
  exact fetch_ok hb

theorem assign_huge {n : Nat} (hn : 2 ^ 63 ≤ n) (p : HeapPtr) (h : Heap β) :
    assign p n h = (.throws .lengthError, h) := by
  rw [assign, if_neg (not_lt.mpr hn)]
  rfl

end HeapM

end Cxx
