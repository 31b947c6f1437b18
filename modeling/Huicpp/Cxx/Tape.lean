import Mathlib

/-!
# Cxx.Tape

A sequence consumed from the front, which keeps what it consumed until it is told to forget it:
the abstract view of a buffer with a read position. `past` is what can be exposed again, `rest` is
what is still to come.
-/

namespace Cxx

structure Tape (α : Type) where
  past : List α
  rest : List α
  deriving DecidableEq, Repr

namespace Tape

variable {α : Type}

/-- The two parts as they lie in one buffer. -/
def layout (t : Tape α) : List α := t.past ++ t.rest

/-- Consume the next `n` elements, or all of them; once nothing is left the past is forgotten. -/
def skip (t : Tape α) (n : Nat) : Tape α where
  past := if n < t.rest.length then t.past ++ t.rest.take n else []
  rest := t.rest.drop n

def append (t : Tape α) (xs : List α) : Tape α where
  past := t.past
  rest := t.rest ++ xs

def insert (t : Tape α) (i : Nat) (xs : List α) : Tape α where
  past := t.past
  rest := t.rest.take i ++ xs ++ t.rest.drop i

/-- Insert at the front, over past elements if there are enough of them. -/
def prepend (t : Tape α) (xs : List α) : Tape α where
  past := if xs.length ≤ t.past.length then t.past.take (t.past.length - xs.length) else t.past
  rest := xs ++ t.rest

/-- Remove the elements from `i` up to `j`. -/
def erase (t : Tape α) (i j : Nat) : Tape α where
  past := t.past
  rest := t.rest.take i ++ t.rest.drop j

/-- Expose the last `n` past elements again. -/
def rewind (t : Tape α) (n : Nat) : Tape α where
  past := t.past.take (t.past.length - n)
  rest := t.past.drop (t.past.length - n) ++ t.rest

/-- Forget the past. -/
def compact (t : Tape α) : Tape α where
  past := []
  rest := t.rest

theorem layout_length (t : Tape α) : t.layout.length = t.past.length + t.rest.length :=
  List.length_append

theorem skip_of_lt {t : Tape α} {n : Nat} (h : n < t.rest.length) :
    t.skip n = ⟨t.past ++ t.rest.take n, t.rest.drop n⟩ := by
  rw [skip, if_pos h]

theorem skip_of_le {t : Tape α} {n : Nat} (h : t.rest.length ≤ n) : t.skip n = ⟨[], []⟩ := by
  rw [skip, if_neg (by omega), List.drop_eq_nil_of_le h]

theorem layout_rewind (t : Tape α) (n : Nat) : (t.rewind n).layout = t.layout := by
  rw [layout, rewind, ← List.append_assoc, List.take_append_drop, layout]

end Tape
end Cxx
