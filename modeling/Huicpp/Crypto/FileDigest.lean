import Mathlib
import Huicpp.Crypto.BlockHashes
import Huicpp.Crypto.Hex
import Huicpp.Cxx.HashStream
import Huicpp.Str.Format

/-!
# Crypto.FileDigest

The digest of a file, computed block by block. It is printed from the array, and not from an `HMEM` as the
digest of a string is.

* `fileDigest_returns`: for files of any length.
* `fileDigest_agrees_iff`: when a file and a string that holds the same bytes have the same digest.
-/

namespace Huicpp
namespace Crypto

open Cxx Prog Str

/-- The one-shot function, which is the three calls on a context. -/
def digestOf {n : Nat} (H : StreamHash n) : Digest n := ⟨H.hash, fun _ => H.final_length _⟩

/-- The size of an `HBLOCK_BUF` -/
def hblockLen : Nat := hwordLen * 1024

/-- What `Md5File` and `Sha256File` do. `file` is what can be read of the file, or `none` if it cannot be
opened. -/
def fileDigest {n : Nat} (H : StreamHash n) : Option (List Byte) → Prog (List Byte)
  | none => pure []
  | some ahead => do
    let s ← feed H hblockLen (.opened ahead, H.init)
    hexStrPtr (H.final s.2) n

def md5File (md5 : StreamHash md5BufLen) (file : Option (List Byte)) : Prog (List Byte) :=
  fileDigest md5 file

def sha256File (sha256 : StreamHash sha256BufLen) (file : Option (List Byte)) : Prog (List Byte) :=
  fileDigest sha256 file

theorem fileDigest_returns {n : Nat} (H : StreamHash n) (hn : n < 2 ^ 30) (s : List Byte) :
    Returns (fileDigest H (some s)) (hexText (H.hash s)) := by
  have houtbuf : (H.hash s).length = n := H.final_length _
  have hhex : hexStrPtr (H.hash s) n = .ok (hexText (H.hash s)) := by
    rw [hexStrPtr_eq (Nat.le_of_eq houtbuf.symm) hn, List.take_of_length_le (Nat.le_of_eq houtbuf)]
  exact (feed_returns H (by decide) s H.init).bind (.lift hhex)

theorem strDigest_agrees_iff {n : Nat} (H : StreamHash n) (hn : n < 2 ^ 30) (s : List Byte) :
    (∃ text, Returns (fileDigest H (some s)) text ∧ hexMem (H.hash s) = .ok text) ↔
      ∀ c ∈ H.hash s, c.toNat < 128 := by
  rw [← hexMem_ok_iff]
  constructor
  · rintro ⟨text, hfile, hstr⟩
    rwa [(fileDigest_returns H hn s).unique hfile]
  · intro hstr
    exact ⟨_, fileDigest_returns H hn s, hstr⟩

/-- **Digests of files.** The digest of a file of any length is the hex text of the hash of all that can be
read of it, and empty if the file cannot be opened. A string of the same bytes has the same digest
exactly if all bytes of the hash are below 128. -/
theorem fileDigest_agrees_iff (md5 : StreamHash md5BufLen) (sha256 : StreamHash sha256BufLen)
    (s : List Byte) :
    (Returns (md5File md5 none) [] ∧ Returns (sha256File sha256 none) []) ∧
    (Returns (md5File md5 (some s)) (hexText (md5.hash s)) ∧
      Returns (sha256File sha256 (some s)) (hexText (sha256.hash s))) ∧
    ((∃ text, Returns (md5File md5 (some s)) text ∧ md5Str (digestOf md5) s = .ok text) ↔
      ∀ c ∈ md5.hash s, c.toNat < 128) ∧
    ((∃ text, Returns (sha256File sha256 (some s)) text ∧
        sha256Str (digestOf sha256) s = .ok text) ↔
      ∀ c ∈ sha256.hash s, c.toNat < 128) :=
  ⟨⟨.pure _, .pure _⟩,
    ⟨fileDigest_returns md5 (by decide) s, fileDigest_returns sha256 (by decide) s⟩,
    strDigest_agrees_iff md5 (by decide) s, strDigest_agrees_iff sha256 (by decide) s⟩

/-- All bytes of the MD5 of `ddsi` are below 128, and not all of its SHA-256 are. -/
theorem fileDigest_agrees_iff_ddsi :
    Returns (md5File Md5.hash.stream (some ("ddsi".toList.map charByte)))
      ("0d083448783a04710576647e7c665561".toList.map charByte) ∧
    (∃ text, Returns (md5File Md5.hash.stream (some ("ddsi".toList.map charByte))) text ∧
      md5Str (digestOf Md5.hash.stream) ("ddsi".toList.map charByte) = .ok text) ∧
    Returns (sha256File Sha256.hash.stream (some ("ddsi".toList.map charByte)))
      ("e34614683c4f964f12f56efb120ef55601e15c985aa6c200242f10eedffb1b22".toList.map charByte) ∧
    ¬∃ text, Returns (sha256File Sha256.hash.stream (some ("ddsi".toList.map charByte))) text ∧
      sha256Str (digestOf Sha256.hash.stream) ("ddsi".toList.map charByte) = .ok text := by
  obtain ⟨_, ⟨hmd5, hsha256⟩, hmd5Str, hsha256Str⟩ :=
    fileDigest_agrees_iff Md5.hash.stream Sha256.hash.stream ("ddsi".toList.map charByte)
  have hmd5Text : hexText (Md5.hash.stream.hash ("ddsi".toList.map charByte)) =
      "0d083448783a04710576647e7c665561".toList.map charByte := by decide +kernel
  have hsha256Text : hexText (Sha256.hash.stream.hash ("ddsi".toList.map charByte)) =
      "e34614683c4f964f12f56efb120ef55601e15c985aa6c200242f10eedffb1b22".toList.map charByte := by
    decide +kernel
  refine ⟨hmd5Text ▸ hmd5, hmd5Str.mpr (by decide +kernel), hsha256Text ▸ hsha256, fun h => ?_⟩
  exact absurd (hsha256Str.mp h) (by decide +kernel)

end Crypto
end Huicpp
