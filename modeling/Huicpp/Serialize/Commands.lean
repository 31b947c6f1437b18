import Mathlib
import Huicpp.Cxx.Tape
import Huicpp.Serialize.DataStream

/-!
# Serialize.Commands

Sequences of operations on a `CDataStream`, with what each returns, and the same sequences on a
tape of bytes. `ofTape` is the stream that represents a tape.

* `Op`: one call, with iterator arguments given as offsets from `begin()`.
* `exec`, `run`: one call and a sequence of calls, on the stream.
* `Op.onTape`, `onTape`: the same on the tape.
-/

namespace Huicpp
namespace Serialize

open Cxx

inductive Op where
  | write (bytes : List Byte)
  | append (b : CDataStream)
  | read (n : Nat)
  | ignore (n : Nat)
  | eraseOne (i : Nat)
  | eraseRange (i j : Nat)
  | insertOne (i : Nat) (x : Byte)
  | insertFill (i n : Nat) (x : Byte)
  | insertRange (i : Nat) (bytes : List Byte)
  | compact
  | rewind (n : Nat)
  | resize (n : Nat) (c : Byte)
  | clear
  | getAndClear
  deriving DecidableEq, Repr

/-- What a call gives its caller. -/
inductive Out where
  | nothing
  | bytes (bs : List Byte)
  | flag (b : Bool)
  deriving DecidableEq, Repr

namespace CDataStream

def exec (s : CDataStream) : Op → Outcome (Out × CDataStream)
  | .write bytes => return (.nothing, s.write bytes)
  | .append b => do return (.nothing, ← s.append b)
  | .read n => do
    let (pch, s) ← s.read n
    return (.bytes pch, s)
  | .ignore n => return (.nothing, s.ignore n)
  | .eraseOne i => do return (.nothing, ← s.eraseOne (s.nReadPos + i))
  | .eraseRange i j => do return (.nothing, ← s.eraseRange (s.nReadPos + i) (s.nReadPos + j))
  | .insertOne i x => do return (.nothing, ← s.insertOne (s.nReadPos + i) x)
  | .insertFill i n x => do return (.nothing, ← s.insertFill (s.nReadPos + i) n x)
  | .insertRange i bytes => do return (.nothing, ← s.insertRange (s.nReadPos + i) bytes)
  | .compact => do return (.nothing, ← s.compact)
  | .rewind n => return (.flag (s.rewind n).1, (s.rewind n).2)
  | .resize n c => return (.nothing, s.resize n c)
  | .clear => return (.nothing, s.clear)
  | .getAndClear => do
    let (data, s) ← s.getAndClear
    return (.bytes data, s)

def run (s : CDataStream) : List Op → Outcome (List Out × CDataStream)
  | [] => return ([], s)
  | op :: ops => do
    let (o, s) ← s.exec op
    let (os, s) ← s.run ops
    return (o :: os, s)

/-- `P` holds before every call of the sequence. -/
def Along (P : CDataStream → Op → Prop) (s : CDataStream) : List Op → Prop
  | [] => True
  | op :: ops => P s op ∧ (s.exec op).Ensures fun r => r.2.Along P ops

instance decidableAlong (P : CDataStream → Op → Prop) [∀ s op, Decidable (P s op)] :
    ∀ (s : CDataStream) (ops : List Op), Decidable (s.Along P ops)
  | _, [] => isTrue trivial
  | _, _ :: ops =>
    have : ∀ r : Out × CDataStream, Decidable (r.2.Along P ops) :=
      fun r => decidableAlong P r.2 ops
    inferInstanceAs (Decidable (_ ∧ _))

/-- Iterators lie in `[begin(), end()]` and lengths fit their parameter types. -/
def ArgsInRange (s : CDataStream) : Op → Prop
  | .append b => b.Valid
  | .read n => n < 2 ^ 32
  | .ignore n => n < 2 ^ 31
  | .eraseOne i => i < s.unread.length
  | .eraseRange i j => i ≤ j ∧ j ≤ s.unread.length
  | .insertOne i _ => i ≤ s.unread.length
  | .insertFill i _ _ => i ≤ s.unread.length
  | .insertRange i bytes => i ≤ s.unread.length ∧ bytes.length < 2 ^ 31
  | .resize n _ => n < 2 ^ 31
  | _ => True

/-- A call with arguments in range, after which the buffer is below 2^31 bytes. -/
def InRange (s : CDataStream) (op : Op) : Prop :=
  s.ArgsInRange op ∧ (s.exec op).Ensures fun r => r.2.vch.length < 2 ^ 31

/-- The calls that do what they promise: an `ignore` does not land exactly on the end of a partly
consumed buffer, and a `read` does not wrap. -/
def Regular (s : CDataStream) : Op → Prop
  | .ignore n => s.nReadPos = 0 ∨ s.nReadPos + n ≠ s.vch.length
  | .read n => s.nReadPos + n < 2 ^ 32
  | _ => True

instance (s : CDataStream) : (op : Op) → Decidable (s.ArgsInRange op)
  | .append b => inferInstanceAs (Decidable b.Valid)
  | .read _ | .ignore _ | .resize _ _ => inferInstanceAs (Decidable (_ < _))
  | .eraseOne _ => inferInstanceAs (Decidable (_ < _))
  | .eraseRange _ _ | .insertRange _ _ => inferInstanceAs (Decidable (_ ∧ _))
  | .insertOne _ _ | .insertFill _ _ _ => inferInstanceAs (Decidable (_ ≤ _))
  | .write _ | .compact | .rewind _ | .clear | .getAndClear => inferInstanceAs (Decidable True)

instance (s : CDataStream) (op : Op) : Decidable (s.InRange op) :=
  inferInstanceAs (Decidable (_ ∧ _))

instance (s : CDataStream) : (op : Op) → Decidable (s.Regular op)
  | .ignore _ => inferInstanceAs (Decidable (_ ∨ _))
  | .read _ => inferInstanceAs (Decidable (_ < _))
  | .write _ | .append _ | .eraseOne _ | .eraseRange _ _ | .insertOne _ _ | .insertFill _ _ _
  | .insertRange _ _ | .compact | .rewind _ | .resize _ _ | .clear | .getAndClear =>
    inferInstanceAs (Decidable True)

end CDataStream

/-! ## The abstract side -/

namespace Op

def onTape (t : Tape Byte) : Op → Out × Tape Byte
  | .write bytes => (.nothing, t.append bytes)
  | .append b => (.nothing, t.append b.unread)
  | .read n => (.bytes (padTake n t.rest), t.skip n)
  | .ignore n => (.nothing, t.skip n)
  | .eraseOne i => (.nothing, if i = 0 then t.skip 1 else t.erase i (i + 1))
  | .eraseRange i j => (.nothing, if i = 0 then t.skip j else t.erase i j)
  | .insertOne i x => (.nothing, t.insert i [x])
  | .insertFill i n x => (.nothing, t.insert i (List.replicate n x))
  | .insertRange i bytes => (.nothing, if i = 0 then t.prepend bytes else t.insert i bytes)
  | .compact => (.nothing, t.compact)
  | .rewind n => if n ≤ t.past.length then (.flag true, t.rewind n) else (.flag false, t)
  | .resize n c => (.nothing, { t with rest := resizeTo t.rest n c })
  | .clear => (.nothing, ⟨[], []⟩)
  | .getAndClear => (.bytes t.rest, ⟨[], []⟩)

end Op

def onTape (t : Tape Byte) : List Op → List Out × Tape Byte
  | [] => ([], t)
  | op :: ops =>
    let (o, t) := op.onTape t
    let (os, t) := onTape t ops
    (o :: os, t)

/-- The stream whose consumed and unread bytes are those of the tape. -/
def ofTape (t : Tape Byte) : CDataStream := ⟨t.layout, t.past.length⟩

end Serialize
end Huicpp
