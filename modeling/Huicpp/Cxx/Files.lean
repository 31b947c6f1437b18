import Mathlib
import Huicpp.Cxx.Memory

/-!
# Cxx.Files

The bytes of files, by name, and what descriptors with a position of their own make of them. Bytes written
at a position take the place of those that are there; behind the end of the file a gap is filled with
zeros.
-/

namespace Cxx

/-- The content of a file after `bytes` were written at `pos`. -/
def overlay (content : List Byte) (pos : Nat) (bytes : List Byte) : List Byte :=
  content.take pos ++ List.replicate (pos - content.length) 0 ++ bytes
    ++ content.drop (pos + bytes.length)

theorem overlay_end (content bytes : List Byte) :
    overlay content content.length bytes = content ++ bytes := by
  have hdrop : content.drop (content.length + bytes.length) = [] :=
    List.drop_of_length_le (Nat.le_add_right _ _)
  rw [overlay, hdrop, List.take_length, Nat.sub_self, List.replicate_zero, List.append_nil,
    List.append_nil]

theorem overlay_zero (content bytes : List Byte) :
    overlay content 0 bytes = bytes ++ content.drop bytes.length := by
  rw [overlay, List.take_zero, Nat.zero_sub, List.replicate_zero, List.nil_append, List.nil_append,
    Nat.zero_add]

/-- The files of a file system. -/
abbrev Files (ν : Type) := ν → Option (List Byte)

/-- A descriptor of a file. -/
structure Opened (ν : Type) where
  name : ν
  pos : Nat
  writable : Bool
  deriving DecidableEq, Repr

/-- What `open` is asked for. -/
structure OpenFlags where
  writable : Bool
  creat : Bool
  deriving DecidableEq, Repr

namespace Files

variable {ν : Type} [DecidableEq ν]

/-- `open(name, flags)`; `permitted` is false if it fails although there is such a file, or one may be
created. -/
def sysOpen (fs : Files ν) (name : ν) (flags : OpenFlags) (permitted : Bool) :
    Option (Opened ν) × Files ν :=
  if permitted && ((fs name).isSome || flags.creat) then
    (some ⟨name, 0, flags.writable⟩, Function.update fs name (some ((fs name).getD [])))
  else (none, fs)

def content (fs : Files ν) (name : ν) : List Byte := (fs name).getD []

/-- `ftruncate(fd, 0)` -/
def truncate (fs : Files ν) (fd : Opened ν) : Files ν := Function.update fs fd.name (some [])

/-- `write(fd, bytes, ..)`, of which the system takes `n` bytes at most. -/
def write (fs : Files ν) (fd : Opened ν) (bytes : List Byte) (n : Nat) : Opened ν × Files ν :=
  ({ fd with pos := fd.pos + (bytes.take n).length },
    Function.update fs fd.name (some (overlay (fs.content fd.name) fd.pos (bytes.take n))))

variable {fs : Files ν} {name : ν}

theorem sysOpen_creat {flags : OpenFlags} (h : flags.creat = true) :
    fs.sysOpen name flags true
      = (some ⟨name, 0, flags.writable⟩, Function.update fs name (some (fs.content name))) := by
  simp [sysOpen, h, content]

theorem sysOpen_there (flags : OpenFlags) {bytes : List Byte} (h : fs name = some bytes) :
    fs.sysOpen name flags true = (some ⟨name, 0, flags.writable⟩, fs) := by
  have hsame : Function.update fs name (some bytes) = fs := by
    rw [← h]
    exact Function.update_eq_self name fs
  simp [sysOpen, h, hsame]

theorem content_update (bytes : List Byte) :
    content (Function.update fs name (some bytes)) name = bytes := by
  simp [content]

theorem write_end {fd : Opened ν} (hpos : fd.pos = (fs.content fd.name).length) (bytes : List Byte)
    (n : Nat) :
    fs.write fd bytes n
      = ({ fd with pos := (fs.content fd.name ++ bytes.take n).length },
        Function.update fs fd.name (some (fs.content fd.name ++ bytes.take n))) := by
  rw [write, hpos, overlay_end, List.length_append]

end Files
end Cxx
