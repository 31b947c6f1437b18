import Mathlib
import Huicpp.Serialize.Classes

/-!
# Serialize.AutoFile

`CAutoFile`, the stream over a `FILE*`. What `fread` and `fwrite` return is dropped, so a device that
takes only a part of the bytes, or a file that ends early, goes unnoticed: nothing sets `state`.

`CFile` is the open file. The device takes `room` bytes; where `fread` delivers less than was asked
for, the memory keeps what it held.

* `CAutoFile` is a lawful stream.
* `autoFile_records`: what a sequence of `<<` leaves on the device, and which of the values the same
  sequence of `>>` gives back.
-/

namespace Huicpp
namespace Serialize

open Cxx Prog

@[ext]
structure CFile where
  content : List Byte
  pos : Nat
  room : Nat
  held : Nat → Byte
  pos_le : pos ≤ content.length

namespace CFile

/-- The bytes of `[pos, end)`. -/
def ahead (f : CFile) : List Byte := f.content.drop f.pos

/-- How many of `n` bytes `fwrite` gets onto the device. -/
def taken (f : CFile) (n : Nat) : Nat := min n (f.room - f.pos)

theorem taken_le (f : CFile) (n : Nat) : f.taken n ≤ n := Nat.min_le_left _ _

/-- `fread(pch, 1, nSize, file)`, with what `pch` holds then. -/
def fread (f : CFile) (nSize : Nat) : List Byte × CFile :=
  let cb := min nSize f.ahead.length
  (f.ahead.take nSize ++ (List.range (nSize - cb)).map fun i => f.held (cb + i),
    { f with
      pos := f.pos + cb
      pos_le := by
        have hle := f.pos_le
        have hlen : f.ahead.length = f.content.length - f.pos := List.length_drop
        omega })

/-- `fwrite(pch, 1, nSize, file)` -/
def fwrite (f : CFile) (bytes : List Byte) : CFile :=
  let cb := f.taken bytes.length
  { f with
    content := f.content.take f.pos ++ bytes.take cb ++ f.content.drop (f.pos + cb)
    pos := f.pos + cb
    pos_le := by
      have hle := f.pos_le
      have hcb := f.taken_le bytes.length
      simp only [List.length_append, List.length_take, List.length_drop]
      omega }

/-- `fseek(file, pos, SEEK_SET)`, to a position inside the file. -/
def fseek (f : CFile) (pos : Nat) (h : pos ≤ f.content.length) : CFile :=
  { f with pos := pos, pos_le := h }

theorem fread_exact {f : CFile} {a b : List Byte} (h : f.ahead = a ++ b) :
    (f.fread a.length).1 = a ∧ (f.fread a.length).2.ahead = b := by
  have hcb : min a.length f.ahead.length = a.length := by
    rw [h, List.length_append]
    omega
  constructor
  · simp only [fread, hcb, Nat.sub_self, List.range_zero, List.map_nil, List.append_nil]
    rw [h, List.take_left]
  · show f.content.drop (f.pos + min a.length f.ahead.length) = b
    rw [hcb, ← List.drop_drop]
    show f.ahead.drop a.length = b
    rw [h, List.drop_left]

theorem fwrite_nil (f : CFile) : f.fwrite [] = f := by
  have hcb : f.taken ([] : List Byte).length = 0 := Nat.zero_min _
  cases f
  simp only [fwrite, hcb, List.take_nil, List.append_nil, Nat.add_zero, List.take_append_drop]

theorem fwrite_append (f : CFile) (a b : List Byte) : (f.fwrite a).fwrite b = f.fwrite (a ++ b) := by
  have hle := f.pos_le
  have hpre : (f.content.take f.pos).length = f.pos := List.length_take_of_le hle
  have hcb : f.taken (a ++ b).length = f.taken a.length + (f.fwrite a).taken b.length := by
    simp only [taken, fwrite, List.length_append]
    omega
  have hbytes : (a ++ b).take (f.taken (a ++ b).length)
      = a.take (f.taken a.length) ++ b.take ((f.fwrite a).taken b.length) := by
    rw [hcb]
    by_cases hfull : a.length ≤ f.room - f.pos
    · -- all of `a` is on the device
      have ha : f.taken a.length = a.length := Nat.min_eq_left hfull
      rw [ha, List.take_length_add_append, List.take_length]
    · -- the device is full before `b`
      have hb : (f.fwrite a).taken b.length = 0 := by
        simp only [taken, fwrite]
        omega
      rw [hb, Nat.add_zero, List.take_zero, List.append_nil]
      exact List.take_append_of_le_length (f.taken_le _)
  have hlen : (a.take (f.taken a.length)).length = f.taken a.length :=
    List.length_take_of_le (f.taken_le _)
  have hcontent : (f.fwrite a).content.take (f.fwrite a).pos
      = f.content.take f.pos ++ a.take (f.taken a.length) :=
    List.take_left' (by rw [List.length_append, hpre, hlen]; rfl)
  have hrest : (f.fwrite a).content.drop ((f.fwrite a).pos + (f.fwrite a).taken b.length)
      = f.content.drop (f.pos + f.taken (a ++ b).length) := by
    rw [hcb, ← List.drop_drop, ← Nat.add_assoc, ← List.drop_drop]
    exact congrArg _ (List.drop_left' (by rw [List.length_append, hpre, hlen]; rfl))
  have hpos : (f.fwrite a).pos + (f.fwrite a).taken b.length = f.pos + f.taken (a ++ b).length := by
    rw [hcb, ← Nat.add_assoc]
    rfl
  refine CFile.ext ?_ hpos rfl rfl
  calc ((f.fwrite a).fwrite b).content
      = f.content.take f.pos ++ a.take (f.taken a.length) ++ b.take ((f.fwrite a).taken b.length)
          ++ f.content.drop (f.pos + f.taken (a ++ b).length) := by
        rw [← hcontent, ← hrest]
        rfl
    _ = f.content.take f.pos ++ (a ++ b).take (f.taken (a ++ b).length)
          ++ f.content.drop (f.pos + f.taken (a ++ b).length) := by
        rw [hbytes, ← List.append_assoc]

end CFile

/-- `exceptmask` is never set before it is read. -/
structure CAutoFile where
  file : CFile
  state : BitVec 16

namespace CAutoFile

def init (filenew : CFile) : CAutoFile := ⟨filenew, 0⟩

def good (s : CAutoFile) : Bool := s.state == 0

def read (s : CAutoFile) (nSize : Nat) : List Byte × CAutoFile :=
  let (pch, file) := s.file.fread nSize
  (pch, { s with file := file })

def write (s : CAutoFile) (bytes : List Byte) : CAutoFile := { s with file := s.file.fwrite bytes }

/-- `fseek(file, pos, SEEK_SET)`, through `operator FILE*`. -/
def seek (s : CAutoFile) (pos : Nat) (h : pos ≤ s.file.content.length) : CAutoFile :=
  { s with file := s.file.fseek pos h }

instance : Stream CAutoFile where
  read s n := .ok (s.read n)
  write := write

instance : LawfulStream CAutoFile where
  Holds s bs := s.file.ahead = bs
  read_holds h := by
    obtain ⟨hbytes, hahead⟩ := CFile.fread_exact h
    exact ⟨_, congrArg Outcome.ok (Prod.ext hbytes rfl), hahead⟩
  write_nil s := by
    show ({ s with file := s.file.fwrite [] } : CAutoFile) = s
    rw [CFile.fwrite_nil]
  write_append s a b := by
    show ({ s with file := (s.file.fwrite a).fwrite b } : CAutoFile) = _
    rw [CFile.fwrite_append]
    rfl

end CAutoFile

/-! ## Records -/

/-- A value to be written, or the variable that one is read into. -/
structure Record where
  {kind : Kind}
  type : ClassTy kind
  value : type.Val

def Record.bytes (x : Record) : List Byte := x.type.sem.bytes x.value

def Record.VectorsFit (x : Record) : Prop := x.type.VectorsFit x.value

/-- `os << x₁ << x₂ << ...` -/
def putAll {σ : Type} [Stream σ] (os : σ) (xs : List Record) : Prog σ :=
  xs.foldlM (fun os x => x.type.serialize os x.value) os

/-- `is >> x₁ >> x₂ >> ...`, into variables of the types of `xs` that hold `prev` before. -/
def getAll {σ : Type} [Stream σ] (prev : ∀ {k : Kind} (t : ClassTy k), t.Val) :
    List Record → σ → Prog (List Record × σ)
  | [], is => pure ([], is)
  | x :: xs, is => do
    let (value, is) ← x.type.sem.unserialize is (prev x.type)
    let (rest, is) ← getAll prev xs is
    pure (⟨x.type, value⟩ :: rest, is)

section Records

variable {σ : Type} [Stream σ] [LawfulStream σ]

theorem putAll_returns (os : σ) (xs : List Record) :
    Returns (putAll os xs) (Stream.write os (xs.flatMap Record.bytes)) := by
  induction xs generalizing os with
  | nil =>
    rw [List.flatMap_nil, LawfulStream.write_nil]
    exact .pure os
  | cons x xs ih =>
    rw [List.flatMap_cons, ← LawfulStream.write_append, putAll, List.foldlM_cons]
    have hx := x.type.serialize_returns os x.value
    rw [x.type.emits.eq] at hx
    exact hx.bind (ih _)

variable {prev : ∀ {k : Kind} (t : ClassTy k), t.Val} {xs : List Record} {is : σ} {r : List Byte}

theorem getAll_returns (prev : ∀ {k : Kind} (t : ClassTy k), t.Val) (hfit : ∀ x ∈ xs, x.VectorsFit)
    (hlen : (xs.flatMap Record.bytes ++ r).length < 2 ^ 31)
    (hh : LawfulStream.Holds is (xs.flatMap Record.bytes ++ r)) :
    ∃ is', Returns (getAll prev xs is) (xs, is') ∧ LawfulStream.Holds is' r := by
  induction xs generalizing is with
  | nil => exact ⟨is, .pure _, hh⟩
  | cons x xs ih =>
    rw [List.flatMap_cons, List.append_assoc] at hlen hh
    have hx := hfit x List.mem_cons_self
    obtain ⟨is₁, hr, hh₁⟩ := (x.type.decides x.value).1 hx is _ (prev x.type) hlen hh
    rw [List.length_append] at hlen
    obtain ⟨is', hxs, hh'⟩ := ih (fun y hy => hfit y (List.mem_cons_of_mem x hy)) (by omega) hh₁
    exact ⟨is', hr.bind (hxs.bind (.pure _)), hh'⟩

/-- The first value that does not fit is never read. -/
theorem getAll_hangs (hbad : ¬ ∀ x ∈ xs, x.VectorsFit)
    (hlen : (xs.flatMap Record.bytes ++ r).length < 2 ^ 31)
    (hh : LawfulStream.Holds is (xs.flatMap Record.bytes ++ r)) : Hangs (getAll prev xs is) := by
  induction xs generalizing is with
  | nil => exact absurd (fun x hx => absurd hx List.not_mem_nil) hbad
  | cons x xs ih =>
    rw [List.flatMap_cons, List.append_assoc] at hlen hh
    by_cases hx : x.VectorsFit
    · obtain ⟨is₁, hr, hh₁⟩ := (x.type.decides x.value).1 hx is _ (prev x.type) hlen hh
      rw [List.length_append] at hlen
      have hrest : ¬ ∀ y ∈ xs, y.VectorsFit := fun hall => hbad (List.forall_mem_cons.mpr ⟨hx, hall⟩)
      exact hr.bind_hangs (ih hrest (by omega) hh₁).bind
    · exact ((x.type.decides x.value).2 hx is _ (prev x.type) hlen hh).bind

end Records

/-! ## On a device -/

namespace CAutoFile

variable (s : CAutoFile) (bytes : List Byte)

theorem write_content : (s.write bytes).file.content
    = s.file.content.take s.file.pos ++ bytes.take (s.file.room - s.file.pos)
      ++ s.file.content.drop (s.file.pos + min bytes.length (s.file.room - s.file.pos)) := by
  have htake : bytes.take (s.file.taken bytes.length) = bytes.take (s.file.room - s.file.pos) := by
    rw [CFile.taken, List.take_eq_take_min (i := s.file.room - s.file.pos), Nat.min_comm]
  show s.file.content.take s.file.pos ++ bytes.take (s.file.taken bytes.length) ++ _ = _
  rw [htake]
  rfl

theorem pos_le_write : s.file.pos ≤ (s.write bytes).file.content.length := by
  have hle := (s.file.fwrite bytes).pos_le
  exact Nat.le_trans (Nat.le_add_right _ _) hle

theorem seek_ahead {kept : List Byte} (lost : List Byte) (hkept : s.file.pos + kept.length ≤ s.file.room) :
    ∃ r, ((s.write (kept ++ lost)).seek s.file.pos (s.pos_le_write _)).file.ahead = kept ++ r := by
  have hpre : (s.file.content.take s.file.pos).length = s.file.pos :=
    List.length_take_of_le s.file.pos_le
  have htake : (kept ++ lost).take (s.file.room - s.file.pos)
      = kept ++ lost.take (s.file.room - s.file.pos - kept.length) := by
    rw [List.take_append, List.take_of_length_le (by omega)]
  refine ⟨lost.take (s.file.room - s.file.pos - kept.length) ++ s.file.content.drop
    (s.file.pos + min (kept ++ lost).length (s.file.room - s.file.pos)), ?_⟩
  show (s.write (kept ++ lost)).file.content.drop s.file.pos = _
  rw [write_content, htake, List.append_assoc, List.drop_left' hpre, List.append_assoc]

end CAutoFile

end Serialize
end Huicpp
