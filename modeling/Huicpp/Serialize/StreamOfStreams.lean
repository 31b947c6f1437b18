import Mathlib
import Huicpp.Serialize.DataStream

/-!
# Serialize.StreamOfStreams

A stream written into a stream. `a += b` appends `[b.begin(), b.end())`, what is left to read of
`b`; `a << b` goes through `CDataStream::Serialize`, which hands over the whole vector under `b`.
The comment there says that both concatenate alike. In both the right operand is `const`.

* `append_unread_iff`, `shl_unread_iff`: when each of the two forms concatenates.
* `concatenates_iff`: when both do.
-/

namespace Huicpp
namespace Serialize

open Cxx

namespace CDataStream

section Code

variable {σ : Type} [Stream σ]

/-- `CDataStream::Serialize(s)`: `s.write(&vch[0], vch.size())`, whatever the read position is. -/
def serialize (b : CDataStream) (s : σ) : σ :=
  if b.vch.isEmpty then s else Stream.write s b.vch

end Code

/-- `a << b`. -/
def shl (a b : CDataStream) : CDataStream := b.serialize a

/-- `a << b` and `a += b` leave `a` with its unread bytes followed by those of `b`. -/
def Concatenates (a b : CDataStream) : Prop :=
  (a.shl b).unread = a.unread ++ b.unread ∧
    ∃ a', a.append b = .ok a' ∧ a'.unread = a.unread ++ b.unread

theorem shl_eq (a b : CDataStream) : a.shl b = ⟨a.vch ++ b.vch, a.nReadPos⟩ := by
  rw [shl, serialize]
  split
  · rename_i h
    rw [List.isEmpty_iff.mp h, List.append_nil]
  · rfl

/-- Bytes written at the end are unread, less those that a position past the end skips. -/
theorem write_unread (a : CDataStream) (bytes : List Byte) :
    (a.write bytes).unread = a.unread ++ bytes.drop (a.nReadPos - a.vch.length) :=
  List.drop_append

theorem drop_eq_self_iff {α : Type} (l : List α) (n : Nat) :
    l.drop n = l ↔ n = 0 ∨ l = [] := by
  constructor
  · intro h
    have hlen := congrArg List.length h
    rw [List.length_drop] at hlen
    rw [← List.length_eq_zero_iff]
    omega
  · rintro (rfl | rfl)
    · rfl
    · exact List.drop_nil

/-- `+=` concatenates onto every valid stream, and the end of a stream onto any stream. -/
theorem append_unread_iff {a b : CDataStream} (hb : b.Valid) :
    (∃ a', a.append b = .ok a' ∧ a'.unread = a.unread ++ b.unread) ↔
      a.Valid ∨ b.nReadPos = b.vch.length := by
  have happ : a.append b = .ok (a.write b.unread) := if_pos hb
  have hlen : b.nReadPos ≤ b.vch.length := hb
  have hdrop : (a.write b.unread).unread = a.unread ++ b.unread ↔
      a.nReadPos - a.vch.length = 0 ∨ b.unread = [] := by
    rw [write_unread, List.append_right_inj, drop_eq_self_iff]
  rw [happ]
  constructor
  · rintro ⟨a', ha', hu⟩
    cases ha'
    rcases hdrop.mp hu with h0 | hnil
    · exact .inl (Nat.sub_eq_zero_iff_le.mp h0)
    · exact .inr (Nat.le_antisymm hlen (b.unread_eq_nil_iff.mp hnil))
  · intro h
    refine ⟨_, rfl, hdrop.mpr ?_⟩
    rcases h with hv | hend
    · exact .inl (Nat.sub_eq_zero_of_le hv)
    · exact .inr (b.unread_eq_nil_iff.mpr (Nat.le_of_eq hend.symm))

/-- `<<` concatenates if nothing of the right operand was read, or if the left one stands so far
past its end that all of the right one is skipped. -/
theorem shl_unread_iff {a b : CDataStream} (hb : b.Valid) :
    (a.shl b).unread = a.unread ++ b.unread ↔
      a.nReadPos - a.vch.length = b.nReadPos ∨
        b.nReadPos = b.vch.length ∧ a.vch.length + b.vch.length ≤ a.nReadPos := by
  have hlen : b.nReadPos ≤ b.vch.length := hb
  have hshl : a.shl b = a.write b.vch := shl_eq a b
  rw [hshl, write_unread, List.append_right_inj, unread]
  constructor
  · intro h
    have hl := congrArg List.length h
    rw [List.length_drop, List.length_drop] at hl
    omega
  · rintro (h | ⟨hend, hfar⟩)
    · rw [h]
    · rw [List.drop_eq_nil_of_le (by omega), List.drop_eq_nil_of_le (by omega)]

end CDataStream

open CDataStream

/-- **Streaming a stream.** Both forms concatenate exactly when nothing of the right operand was
read and the left one is within its buffer; two streams at or past their ends have nothing to
concatenate. -/
theorem concatenates_iff (a b : CDataStream) :
    a.Concatenates b ↔
      a.nReadPos ≤ a.vch.length ∧ b.nReadPos = 0 ∨
        b.nReadPos = b.vch.length ∧ a.vch.length + b.vch.length ≤ a.nReadPos := by
  by_cases hb : b.Valid
  · have hlen : b.nReadPos ≤ b.vch.length := hb
    have hva : a.Valid ↔ a.nReadPos ≤ a.vch.length := Iff.rfl
    rw [Concatenates, append_unread_iff hb, shl_unread_iff hb, hva]
    omega
  · have hlen : ¬ b.nReadPos ≤ b.vch.length := hb
    constructor
    · rintro ⟨_, a', ha', _⟩
      rw [append, if_neg hlen] at ha'
      cases ha'
    · omega

/-- One of the two bytes of the right operand was read. `+=` appends the other one and `<<` both,
so that the byte that was read comes back. -/
theorem concatenates_partly_read :
    ¬ CDataStream.Concatenates (.init [0x61]) ⟨[0x62, 0x63], 1⟩ ∧
      (CDataStream.init [0x61]).append ⟨[0x62, 0x63], 1⟩ = .ok ⟨[0x61, 0x63], 0⟩ ∧
      (CDataStream.init [0x61]).shl ⟨[0x62, 0x63], 1⟩ = ⟨[0x61, 0x62, 0x63], 0⟩ := by
  refine ⟨?_, rfl, rfl⟩
  rintro ⟨h, _⟩
  exact absurd h (by decide)

end Serialize
end Huicpp
