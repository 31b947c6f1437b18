import Mathlib
import Huicpp.Cxx.Prog
import Huicpp.Cxx.Memory

/-!
# Cxx.HashStream

A hash function that takes its input in pieces, and an input stream that is read block by block into it.

* `StreamHash`: it does not matter how the input is cut.
* `InStream`: `good()` until a read delivers less than it was asked for.
* `feed_returns`: the loop that reads blocks until the stream is not good any more hands over all that the
  reads deliver, and ends.
-/

namespace Cxx

open Prog

/-- A hash function with a context, and an output of `n` bytes. -/
structure StreamHash (n : Nat) where
  Ctx : Type
  init : Ctx
  update : Ctx → List Byte → Ctx
  final : Ctx → List Byte
  update_nil : ∀ c, update c [] = c
  update_append : ∀ c a b, update (update c a) b = update c (a ++ b)
  final_length : ∀ c, (final c).length = n

/-- In one go. -/
def StreamHash.hash {n : Nat} (H : StreamHash n) (s : List Byte) : List Byte :=
  H.final (H.update H.init s)

/-- `ahead` are the bytes that reads still deliver, before the file ends or one of them fails. -/
structure InStream where
  ahead : List Byte
  good : Bool

namespace InStream

def opened (ahead : List Byte) : InStream := ⟨ahead, true⟩

/-- `is.read(buf, n)`: the `gcount()` bytes that it puts into `buf`. -/
def read (is : InStream) (n : Nat) : List Byte × InStream :=
  if is.good then (is.ahead.take n, ⟨is.ahead.drop n, n ≤ is.ahead.length⟩) else ([], is)

variable {ahead : List Byte} {n : Nat}

theorem read_whole (h : n ≤ ahead.length) :
    (opened ahead).read n = (ahead.take n, opened (ahead.drop n)) := by
  simp [read, opened, h]

theorem read_short (h : ahead.length < n) : (opened ahead).read n = (ahead, ⟨[], false⟩) := by
  have htake : ahead.take n = ahead := List.take_of_length_le (Nat.le_of_lt h)
  have hdrop : ahead.drop n = [] := List.drop_of_length_le (Nat.le_of_lt h)
  simp [read, opened, htake, hdrop, Nat.not_le.mpr h]

end InStream

/-- What is in a zeroed buffer of `len` bytes after the bytes `got` were read into it. -/
def zeroedWith (len : Nat) (got : List Byte) : List Byte :=
  got ++ List.replicate (len - got.length) 0

theorem take_zeroedWith (len : Nat) (got : List Byte) : (zeroedWith len got).take got.length = got :=
  List.take_left

variable {n : Nat} (H : StreamHash n)

/-- One turn: `memset`, `read`, and the update with `gcount()` bytes of the buffer. -/
def feedStep (len : Nat) (s : InStream × H.Ctx) : InStream × H.Ctx :=
  let (got, is) := s.1.read len
  (is, H.update s.2 ((zeroedWith len got).take got.length))

/-- `while (is.good()) { .. }` -/
def feed (len : Nat) : InStream × H.Ctx → Prog (InStream × H.Ctx) :=
  whileDo (fun s => s.1.good) fun s => pure (feedStep H len s)

theorem feedStep_whole {len : Nat} {ahead : List Byte} (c : H.Ctx) (h : len ≤ ahead.length) :
    feedStep H len (.opened ahead, c) = (.opened (ahead.drop len), H.update c (ahead.take len)) := by
  rw [feedStep, InStream.read_whole h]
  exact congrArg (fun got => (InStream.opened (ahead.drop len), H.update c got)) (take_zeroedWith _ _)

theorem feedStep_short {len : Nat} {ahead : List Byte} (c : H.Ctx) (h : ahead.length < len) :
    feedStep H len (.opened ahead, c) = (⟨[], false⟩, H.update c ahead) := by
  rw [feedStep, InStream.read_short h]
  exact congrArg (fun got => ((⟨[], false⟩ : InStream), H.update c got)) (take_zeroedWith _ _)

/-- A file whose length is a multiple of the block ends with a turn that reads nothing. -/
theorem feed_returns {len : Nat} (hlen : 0 < len) (ahead : List Byte) (c : H.Ctx) :
    Returns (feed H len (.opened ahead, c)) (⟨[], false⟩, H.update c ahead) := by
  induction hn : ahead.length using Nat.strong_induction_on generalizing ahead c with
  | _ n ih =>
    by_cases h : len ≤ ahead.length
    · have hrest : (ahead.drop len).length = n - len := by rw [List.length_drop, hn]
      have hturns := ih (n - len) (by omega) (ahead.drop len) (H.update c (ahead.take len)) hrest
      rw [H.update_append, List.take_append_drop] at hturns
      refine .while_step rfl (.pure _) ?_
      rw [feedStep_whole H c h]
      exact hturns
    · refine .while_step rfl (.pure _) ?_
      rw [feedStep_short H c (Nat.lt_of_not_le h)]
      exact .while_done rfl

end Cxx
