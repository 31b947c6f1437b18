import Mathlib
import Huicpp.Cxx.Heap
import Huicpp.Crypto.B64Read
import Huicpp.Crypto.Cryptor

/-!
# Crypto.DecodeBuffer

`Base64::Decode` with the buffer that the text is decoded into. What `BIO_read` returns is kept in a
`size_t`, where a failure is a huge length.

* `decode_copies`: a result that is not negative is copied, and the buffer is freed.
* `decode_negative`: after a failure the copy throws, and the buffer is not freed.
* `copiesExactly_iff`: the two together.

The `BIO_read` of `B64Read` never fails: a text that is not base64 gives no bytes, and OK.
-/

namespace Huicpp
namespace Crypto

open Cxx Cxx.HeapM

/-- A `BIO_read`: what it returns for a text and a length, and what it stores. It returns the number
of bytes, or one of the failures -1 and -2. -/
structure Bio where
  read : List Byte → Nat → Int × List Byte
  lower : ∀ text len, -2 ≤ (read text len).1
  upper : ∀ text len, (read text len).1 ≤ len
  stored_le : ∀ text len, (read text len).2.length ≤ len
  filled : ∀ text len, (read text len).1 ≤ (read text len).2.length

/-- The two overloads of `Decode`. -/
inductive DecodeOverload where
  | str
  | mem
  deriving DecidableEq, Repr

namespace Bio

variable (bio : Bio)

/-- `base64_decode`: the return code, `outdata` and `outlen`. -/
def base64Decode (indata : List Byte) : HeapM Byte (HRet × HeapPtr × Nat) := do
  if ¬ 0 < indata.length then return (.invlPara, none, 0)
  let outlen := indata.length
  let outdata ← malloc outlen
  store outdata 0 (List.replicate outlen 0)
  let (r, bytes) := bio.read (memBuf indata) (toHN outlen).toNat
  store outdata 0 bytes
  return (.ok, outdata, asSizeT r)

/-- What both overloads do. -/
def copyDecoded (indata : List Byte) : HeapM Byte (HRet × List Byte) := do
  if indata.isEmpty then return (.ok, [])
  let (ret, outData, outlen) ← bio.base64Decode indata
  if ret ≠ .ok then return (ret, [])
  let outdata ← assign outData outlen
  free outData
  return (.ok, outdata)

/-- `Base64::Decode(HCSTRR, ..)` -/
def decodeStr (indata : List Byte) : HeapM Byte (HRet × List Byte) := bio.copyDecoded indata

/-- `Base64::Decode(HCMEMR, ..)` -/
def decodeMem (indata : List Byte) : HeapM Byte (HRet × List Byte) := bio.copyDecoded indata

def decode : DecodeOverload → List Byte → HeapM Byte (HRet × List Byte)
  | .str => bio.decodeStr
  | .mem => bio.decodeMem

/-- What `BIO_read` returns for this input. -/
def result (indata : List Byte) : Int :=
  (bio.read (memBuf indata) (toHN indata.length).toNat).1

/-- What it stores. -/
def stored (indata : List Byte) : List Byte :=
  (bio.read (memBuf indata) (toHN indata.length).toNat).2

/-- The result is what was decoded, and the buffer is freed once. A read outside the buffer would be
undefined. -/
structure CopiesExactly (f : DecodeOverload) (indata : List Byte) (h : Heap Byte) : Prop where
  failed : bio.result indata ≤ 0 →
    ∃ ret out, (bio.decode f indata h).1 = .ok (ret, out) ∧ (ret ≠ .ok ∨ out = [])
  decoded : 0 < bio.result indata →
    (bio.decode f indata h).1 = .ok (.ok, (bio.stored indata).take (bio.result indata).toNat)
  released : Released h (bio.decode f indata h).2

variable {bio : Bio} {indata : List Byte}

theorem decode_eq (f : DecodeOverload) : bio.decode f indata = bio.copyDecoded indata := by
  cases f with
  | str => rfl
  | mem => rfl

theorem result_le (hlen : indata.length < 2 ^ 31) : bio.result indata ≤ indata.length := by
  have hupper := bio.upper (memBuf indata) (toHN indata.length).toNat
  rw [toHN_of_lt hlen, Int.toNat_natCast] at hupper
  rw [result, toHN_of_lt hlen, Int.toNat_natCast]
  exact hupper

theorem stored_length_le (hlen : indata.length < 2 ^ 31) :
    (bio.stored indata).length ≤ indata.length := by
  have hstored := bio.stored_le (memBuf indata) (toHN indata.length).toNat
  rw [toHN_of_lt hlen, Int.toNat_natCast] at hstored
  rw [stored, toHN_of_lt hlen, Int.toNat_natCast]
  exact hstored

theorem base64Decode_eq (hne : indata ≠ []) (hlen : indata.length < 2 ^ 31) (h : Heap Byte) :
    ∃ h' rest, bio.base64Decode indata h =
        (.ok (.ok, some h.fresh, asSizeT (bio.result indata)), h') ∧
      h'.blocks h.fresh = some ((bio.stored indata).map some ++ rest) ∧
      h'.fresh = h.fresh + 1 ∧ h'.freed = h.freed := by
  have hpos : 0 < indata.length := List.length_pos_iff.mpr hne
  have hmalloc := @malloc_ok Byte _ (by omega : indata.length < 2 ^ 63) h
  have hzeros : (List.replicate indata.length (0 : Byte)).length ≤
      (List.replicate indata.length (none : Option Byte)).length := by
    rw [List.length_replicate, List.length_replicate]
  obtain ⟨zeroed, hzero, hzlen⟩ : ∃ zeroed,
      store (some h.fresh) 0 (List.replicate indata.length (0 : Byte)) (h.allocate indata.length) =
        (.ok (), (h.allocate indata.length).setBlock h.fresh zeroed) ∧
      indata.length ≤ zeroed.length := by
    refine ⟨_, store_start (Heap.allocate_block indata.length h) hzeros, ?_⟩
    rw [List.length_append, List.length_map, List.length_replicate]
    exact Nat.le_add_right _ _
  have hstored := store_start (Heap.setBlock_block h.fresh zeroed (h.allocate indata.length))
    ((@stored_length_le bio _ hlen).trans hzlen)
  have hrun : bio.base64Decode indata h = (.ok (.ok, some h.fresh, asSizeT (bio.result indata)),
      ((h.allocate indata.length).setBlock h.fresh zeroed).setBlock h.fresh
        ((bio.stored indata).map some ++ zeroed.drop (bio.stored indata).length)) := by
    rw [base64Decode, if_neg (not_not.mpr hpos)]
    exact (bind_ok hmalloc).trans ((bind_ok hzero).trans (bind_ok hstored))
  exact ⟨_, _, hrun, Heap.setBlock_block .., rfl, rfl⟩

theorem decode_copies (hne : indata ≠ []) (hlen : indata.length < 2 ^ 31)
    (hr : 0 ≤ bio.result indata) (h : Heap Byte) :
    ∃ h', bio.copyDecoded indata h =
        (.ok (.ok, (bio.stored indata).take (bio.result indata).toNat), h') ∧ Released h h' := by
  obtain ⟨h₁, rest, hdecode, hb, hfresh, hfreed⟩ := @base64Decode_eq bio _ hne hlen h
  have hle := @result_le bio _ hlen
  have hfilled := bio.filled (memBuf indata) (toHN indata.length).toNat
  have hempty : ¬ indata.isEmpty = true := by
    rw [List.isEmpty_iff]
    exact hne
  have hsize : asSizeT (bio.result indata) =
      ((bio.stored indata).take (bio.result indata).toNat).length := by
    have hstored : (bio.result indata).toNat ≤ (bio.stored indata).length := by
      rw [Int.toNat_le]
      exact hfilled
    rw [List.length_take_of_le hstored, asSizeT]
    omega
  have hblock : h₁.blocks h.fresh =
      some (((bio.stored indata).take (bio.result indata).toNat).map some ++
        (((bio.stored indata).drop (bio.result indata).toNat).map some ++ rest)) := by
    rw [← List.append_assoc, ← List.map_append, List.take_append_drop]
    exact hb
  have hassign : assign (some h.fresh) (asSizeT (bio.result indata)) h₁ =
      (.ok ((bio.stored indata).take (bio.result indata).toNat), h₁) := by
    rw [hsize]
    refine assign_ok ?_ hblock
    rw [← hsize, asSizeT]
    omega
  refine ⟨h₁.release h.fresh, ?_, released_of_one hfresh ?_⟩
  · rw [copyDecoded, if_neg hempty]
    exact (bind_ok hdecode).trans ((bind_ok hassign).trans (bind_ok (free_ok hblock)))
  · rw [Heap.release_freed, hfreed]

/-- A failure: the length is larger than a vector can be, and nobody frees the buffer. -/
theorem decode_negative (hne : indata ≠ []) (hlen : indata.length < 2 ^ 31)
    (hr : bio.result indata < 0) (h : Heap Byte) :
    ∃ h', bio.copyDecoded indata h = (.throws .lengthError, h') ∧ ¬ Released h h' := by
  obtain ⟨h₁, rest, hdecode, -, hfresh, hfreed⟩ := @base64Decode_eq bio _ hne hlen h
  have hlower := bio.lower (memBuf indata) (toHN indata.length).toNat
  have hempty : ¬ indata.isEmpty = true := by
    rw [List.isEmpty_iff]
    exact hne
  have hhuge : 2 ^ 63 ≤ asSizeT (bio.result indata) :=
    asSizeT_neg hr (le_trans (by decide) hlower)
  refine ⟨h₁, ?_, not_released_of_leak hfresh hfreed⟩
  rw [copyDecoded, if_neg hempty]
  exact (bind_ok hdecode).trans (bind_throws (assign_huge hhuge _ _))

end Bio

/-- Both overloads give what was decoded, and free the buffer once, exactly if there is no input or
`BIO_read` does not fail. -/
theorem copiesExactly_iff (bio : Bio) (f : DecodeOverload) (indata : List Byte) (h : Heap Byte)
    (hlen : indata.length < 2 ^ 31) :
    bio.CopiesExactly f indata h ↔ indata = [] ∨ 0 ≤ bio.result indata := by
  by_cases hne : indata = []
  · subst hne
    have hzero : bio.result [] ≤ 0 := Bio.result_le hlen
    refine iff_of_true ⟨fun _ => ?_, fun hpos => absurd hpos (not_lt.mpr hzero), ?_⟩ (.inl rfl)
    · rw [Bio.decode_eq]
      exact ⟨.ok, [], rfl, .inr rfl⟩
    · rw [Bio.decode_eq]
      exact Released.refl h
  · rcases lt_or_ge (bio.result indata) 0 with hneg | hpos
    · obtain ⟨h', hthrow, hleak⟩ := Bio.decode_negative hne hlen hneg h
      refine iff_of_false (fun hcopies => hleak ?_) fun hor => ?_
      · have hreleased := hcopies.released
        rw [Bio.decode_eq, hthrow] at hreleased
        exact hreleased
      · rcases hor with hnil | hpos
        · exact hne hnil
        · exact not_lt.mpr hpos hneg
    · obtain ⟨h', hcopied, hreleased⟩ := Bio.decode_copies hne hlen hpos h
      refine iff_of_true ⟨fun hle => ?_, fun _ => ?_, ?_⟩ (.inr hpos)
      · refine ⟨.ok, _, by rw [Bio.decode_eq, hcopied], .inr ?_⟩
        rw [Int.toNat_of_nonpos hle, List.take_zero]
      · rw [Bio.decode_eq, hcopied]
      · rw [Bio.decode_eq, hcopied]
        exact hreleased

/-- The base64 filter over a memory buffer. -/
def Bio.b64 : Bio where
  read text len := ((b64Read text len).length, b64Read text len)
  lower _ _ := le_trans (by decide) (Int.natCast_nonneg _)
  upper text len := Int.ofNat_le.mpr (b64Read_length text len)
  stored_le := b64Read_length
  filled _ _ := le_refl _

/-- **Copying what was decoded.** For inputs below 2^31 bytes and every answer of `BIO_read` that is
not negative, both overloads give what was decoded, and free the buffer once. -/
theorem decode_copiesExactly (bio : Bio) (f : DecodeOverload) (indata : List Byte) (h : Heap Byte)
    (hlen : indata.length < 2 ^ 31) (hr : 0 ≤ bio.result indata) : bio.CopiesExactly f indata h :=
  (copiesExactly_iff bio f indata h hlen).mpr (.inr hr)

/-- `Bw==` -/
theorem decode_copiesExactly_group : Bio.b64.result [66, 119, 61, 61] = 1 ∧
    Bio.b64.CopiesExactly .str [66, 119, 61, 61] .empty := by
  have hread : b64Read [66, 119, 61, 61] 4 = [7] := by
    have hgroup : decodeTmp [66, 119, 61, 61] = some [7] := by decide
    rw [b64Read, b64Loop_round (by decide) hgroup (List.cons_ne_nil _ _)]
    exact congrArg (7 :: ·) (b64Loop_nil _)
  have hresult : Bio.b64.result [66, 119, 61, 61] = 1 := by
    show ((b64Read [66, 119, 61, 61] 4).length : Int) = 1
    rw [hread]
    rfl
  exact ⟨hresult, decode_copiesExactly .b64 .str [66, 119, 61, 61] .empty (by decide)
    (by rw [hresult]; decide)⟩

theorem b64_copiesExactly (f : DecodeOverload) (indata : List Byte) (h : Heap Byte)
    (hlen : indata.length < 2 ^ 31) : Bio.b64.CopiesExactly f indata h :=
  (copiesExactly_iff .b64 f indata h hlen).mpr (.inr (Int.natCast_nonneg _))

/-- A `BIO_read` that fails for every text. -/
def Bio.failing : Bio where
  read _ _ := (-1, [])
  lower _ _ := by decide
  upper _ _ := le_trans (by decide) (Int.natCast_nonneg _)
  stored_le _ _ := Nat.zero_le _
  filled _ _ := by decide

/-- The -1 becomes the length of the copy. -/
theorem decode_failing : ¬ Bio.failing.CopiesExactly .str [33] .empty := by
  intro hcopies
  obtain ⟨h', hthrow, hleak⟩ := @Bio.decode_negative .failing [33] (List.cons_ne_nil _ _)
    (Nat.lt_of_sub_eq_succ rfl) (Int.negSucc_lt_zero 0) .empty
  have hreleased := hcopies.released
  rw [Bio.decode_eq, hthrow] at hreleased
  exact hleak hreleased

/-! ## The same function without a heap -/

/-- `Base64::Decode` gives what the transport is proved about. -/
theorem decode_ssl (ssl : OpenSsl) {bio : Bio} (hread : ssl.base64Read = bio.read)
    (f : DecodeOverload) {indata : List Byte} (hlen : indata.length < 2 ^ 31) (h : Heap Byte) :
    (bio.decode f indata h).1 = base64Decode ssl indata := by
  rw [Bio.decode_eq, base64Decode, hread]
  by_cases hne : indata = []
  · subst hne
    rfl
  have hempty : ¬ indata.isEmpty = true := by
    rw [List.isEmpty_iff]
    exact hne
  rw [if_neg hempty]
  rcases lt_or_ge (bio.result indata) 0 with hneg | hpos
  · obtain ⟨h', hthrow, -⟩ := Bio.decode_negative hne hlen hneg h
    rw [hthrow]
    exact (if_pos hneg).symm
  · obtain ⟨h', hcopied, -⟩ := Bio.decode_copies hne hlen hpos h
    rw [hcopied]
    exact (if_neg (not_lt.mpr hpos)).symm

end Crypto
end Huicpp
