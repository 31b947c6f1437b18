import Mathlib
import Huicpp.Cxx.LoopRuns
import Huicpp.Serialize.HostileRead
import Huicpp.Serialize.VarIntCorrect

/-!
# Serialize.VarIntCutOff

`ReadVarInt` on a `CDataStream` that holds any bytes. Its loop ends because a read behind the end of
the buffer gives a zero, in which bit 7 is not set, and leaves the stream empty.

* `digits u`: the bytes that are read from `u`, with a zero where `u` ends too early.
* `readVarInt_ends`: they are read one after the other, and none of them twice.
* `endsWithin_iff`: the bound on the reads, for every state but one, in which the 32-bit read
  position wraps.
-/

namespace Huicpp
namespace Serialize

open Cxx Prog

def digits : List Byte → List Byte
  | [] => [0]
  | b :: u => if Continues b then b :: digits u else [b]

theorem digits_ne_nil (u : List Byte) : digits u ≠ [] := by
  cases u with
  | nil => exact List.cons_ne_nil 0 []
  | cons b u =>
    rw [digits]
    split
    · exact List.cons_ne_nil b _
    · exact List.cons_ne_nil b []

theorem digits_length_le (u : List Byte) : (digits u).length ≤ u.length + 1 := by
  induction u with
  | nil => exact le_rfl
  | cons b u ih =>
    rw [digits]
    split
    · rw [List.length_cons, List.length_cons]
      omega
    · rw [List.length_singleton]
      omega

/-- A sequence that is cut off is completed by a zero byte. -/
theorem digits_of_cutOff {u : List Byte} (h : ∀ b ∈ u, Continues b) : digits u = u ++ [0] := by
  induction u with
  | nil => rfl
  | cons b u ih =>
    obtain ⟨hb, hu⟩ := List.forall_mem_cons.mp h
    rw [digits, if_pos hb, ih hu, List.cons_append]

theorem complete_cutOff {u : List Byte} (h : ∀ b ∈ u, Continues b) : Complete (u ++ [0]) :=
  ⟨u, 0, rfl, h, by decide⟩

/-- What the digits stand for behind those that were read before. -/
def valueFrom (acc : Nat) (a : List Byte) : Nat :=
  a.dropLast.foldl (fun n b => n * 128 + payload b + 1) acc * 128 + payload (a.getLastD 0)

theorem valueFrom_cons {a : List Byte} (ha : a ≠ []) (acc : Nat) (b : Byte) :
    valueFrom acc (b :: a) = valueFrom (acc * 128 + payload b + 1) a := by
  obtain ⟨c, a, rfl⟩ := List.exists_cons_of_ne_nil ha
  rfl

namespace CDataStream

variable {w : Nat} {s : CDataStream}

theorem read_one (hs : s.Valid) (hlen : s.vch.length < 2 ^ 32) (hfit : s.nReadPos + 1 < 2 ^ 32) :
    Stream.read s 1 = .ok ([s.unread.headD 0], s.consume 1) := by
  show s.read 1 = _
  rw [read_ok hs hlen hfit]
  cases s.unread with
  | nil => rfl
  | cons b u => simp [padTake]

theorem consume_fits (hlen : s.vch.length < 2 ^ 32) : (s.consume 1).nReadPos + 1 < 2 ^ 32 := by
  have hu := s.unread_length
  rw [consume]
  split
  · dsimp only
    omega
  · exact Nat.one_lt_two_pow (by decide)

theorem readDigits_ends (hw : 8 ≤ w) (u : List Byte) (acc : Nat) (hs : s.Valid)
    (hlen : s.vch.length < 2 ^ 32) (hfit : s.nReadPos + 1 < 2 ^ 32) (hu : s.unread = u) :
    EndsIn readDigit (BitVec.ofNat w acc, s) (digits u).length
      (BitVec.ofNat w (valueFrom acc (digits u)), s.consume (digits u).length) := by
  induction u generalizing s acc with
  | nil =>
    have hread := read_one hs hlen hfit
    rw [hu, List.headD_nil] at hread
    have hpass := readDigit_read hw acc hread
    rw [if_neg (by decide)] at hpass
    exact .exit hpass
  | cons b u ih =>
    have hread := read_one hs hlen hfit
    rw [hu, List.headD_cons] at hread
    have hpass := readDigit_read hw acc hread
    rw [digits]
    by_cases hb : Continues b
    · rw [if_pos hb] at hpass ⊢
      have hrest := ih (acc * 128 + payload b + 1) (s.consume_valid 1)
        (Nat.lt_of_le_of_lt (s.consume_length_le 1) hlen) (consume_fits hlen)
        (by rw [consume_unread, hu]; rfl)
      rw [consume_consume, Nat.add_comm 1] at hrest
      rw [valueFrom_cons (digits_ne_nil u), List.length_cons]
      exact .again hpass hrest
    · rw [if_neg hb] at hpass ⊢
      exact .exit hpass

theorem readVarInt_ends (hw : 8 ≤ w) (hs : s.Valid) (hlen : s.vch.length < 2 ^ 32)
    (hfit : s.nReadPos + 1 < 2 ^ 32) :
    EndsIn readDigit (0, s) (digits s.unread).length
      (BitVec.ofNat w (denote (digits s.unread)), s.consume (digits s.unread).length) :=
  readDigits_ends hw s.unread 0 hs hlen hfit rfl

/-- With the position at `2 ^ 32 - 1` the first read leaves the buffer. -/
theorem readVarInt_faults (hs : s.Valid) (hlen : s.vch.length < 2 ^ 32)
    (hwrap : 2 ^ 32 ≤ s.nReadPos + 1) : Faults (readVarInt w s) .outOfBounds := by
  have hread : Stream.read s 1 = .undef .outOfBounds := read_wrap hs hlen (by decide) hwrap
  refine Faults.loop_body (Faults.bind ?_)
  rw [hread]
  exact .lift .outOfBounds

/-- `ReadVarInt` returns. It reads `size() + 1` bytes at most, each by a `read` of its own, consumes
`size()` at most, and returns for a sequence that is cut off what it returns for the one that a zero
byte completes. -/
def EndsWithin (w : Nat) (s : CDataStream) : Prop :=
  ∃ k m v s', Returns (readVarInt w s) (v, s') ∧ EndsIn readDigit (0, s) k (v, s') ∧
    k ≤ s.size + 1 ∧ m ≤ s.size ∧ s'.unread = s.unread.drop m ∧ s'.Valid ∧
    ((∀ b ∈ s.unread, Continues b) → Decodes w (s.unread ++ [0]) v)

end CDataStream

open CDataStream

/-- **Cut off sequences.** The loop ends within its bound from every state of the stream whose read
position is not `2 ^ 32 - 1`. -/
theorem endsWithin_iff (t : UIntTy) (s : CDataStream) (hs : s.Valid) (hlen : s.vch.length < 2 ^ 32) :
    s.EndsWithin t.bits ↔ s.nReadPos ≠ 2 ^ 32 - 1 := by
  have hw := t.le_bits
  have hle : s.nReadPos ≤ s.vch.length := hs
  constructor
  · rintro ⟨k, m, v, s', hreturns, -⟩ hpos
    exact (readVarInt_faults hs hlen (by omega)).not_returns _ hreturns
  · intro hpos
    have hends := readVarInt_ends hw hs hlen (by omega)
    have hsize := size_eq hs hlen
    refine ⟨_, min (digits s.unread).length s.size, _, _, hends.returns, hends, ?_,
      Nat.min_le_right _ _, ?_, s.consume_valid _, fun hcut => ?_⟩
    · rw [hsize]
      exact digits_length_le s.unread
    · rw [consume_unread, hsize, List.drop_eq_drop_min]
    · rw [digits_of_cutOff hcut, decodes_iff hw (complete_cutOff hcut)]

/-- Two bytes with bit 7 set. -/
theorem endsWithin_iff_cutOff :
    (CDataStream.init [0x80, 0x80]).EndsWithin UIntTy.u8.bits ↔ 0 ≠ 2 ^ 32 - 1 :=
  endsWithin_iff .u8 (.init [0x80, 0x80]) (Nat.zero_le _) (by decide)

/-- All of `2 ^ 32 - 1` bytes have been read. -/
theorem readVarInt_wraps : ¬ ∀ (t : UIntTy) (s : CDataStream), s.Valid → s.vch.length < 2 ^ 32 →
    s.EndsWithin t.bits := by
  intro hall
  obtain ⟨vch, hlen⟩ : ∃ vch : List Byte, vch.length = 2 ^ 32 - 1 :=
    ⟨List.replicate (2 ^ 32 - 1) 0, List.length_replicate⟩
  have hs : (CDataStream.mk vch (2 ^ 32 - 1)).Valid := hlen.ge
  have hlt : vch.length < 2 ^ 32 := by omega
  exact (endsWithin_iff .u8 _ hs hlt).mp (hall .u8 _ hs hlt) rfl

end Serialize
end Huicpp
