import Mathlib
import Huicpp.Cxx.Block
import Huicpp.Cxx.Bytes

/-!
# Buffers.HIOBuffer

A buffer of a fixed size to which data are appended, by the buffer or by its user. It counts the bytes
that it has and those that it still has room for.

* `Represents`: what the two counters and the block say about the data.
* `append_right_iff`: `Append` adds the number of bytes that there are to the length of the string
  before it looks at the room that is left, so that it refuses strings that fit.
* `accepts_exactly`: all runs.
-/

namespace Huicpp
namespace Buffers

open Cxx

/-- The sizes that the constructor may get: the positive numbers of `int`. -/
def Capacity : Type := { n : Nat // 0 < n ∧ n < 2 ^ 31 }

structure HIOBuffer where
  avalableLength : Int
  buffer : Ptr
  size : Int
  pos : Int

namespace HIOBuffer

/-- The constructor -/
def new (available : Nat → Bool) (size : Capacity) : HIOBuffer where
  avalableLength := size.val
  buffer := (malloc available size.val).map freshBlock
  size := size.val
  pos := 0

def setPos (newPos : Int) (s : HIOBuffer) : Outcome HIOBuffer := do
  let avalableLength ← checkedHN (s.avalableLength - newPos)
  let pos ← checkedHN (s.pos + newPos)
  return { s with avalableLength := avalableLength, pos := pos }

def reset (s : HIOBuffer) : Outcome HIOBuffer := do
  let p ← storeBytes s.buffer 0 (List.replicate s.size.toNat 0)
  return { s with pos := 0, avalableLength := s.size, buffer := p }

/-- The counters are changed by a `size_t`, and what comes out is converted to `int`. -/
def append (str : List Byte) (s : HIOBuffer) : Outcome HIOBuffer := do
  let sum ← checkedHN (toHN str.length + s.pos)
  if sum > s.avalableLength then return s
  let p ← storeBytes s.buffer s.pos str
  return { s with
    buffer := p
    avalableLength := (s.avalableLength - str.length).bmod (2 ^ 32)
    pos := (s.pos + str.length).bmod (2 ^ 32) }

/-- A call. Before `SetPos` the caller has written the bytes at `PosWrite()`. -/
inductive Call where
  | append (str : List Byte)
  | setPos (bytes : List Byte)
  | reset
  deriving DecidableEq, Repr

def exec : Call → HIOBuffer → Outcome HIOBuffer
  | .append str, s => s.append str
  | .setPos bytes, s => do
    let p ← storeBytes s.buffer s.pos bytes
    setPos bytes.length { s with buffer := p }
  | .reset, s => s.reset

def run : List Call → HIOBuffer → Outcome HIOBuffer
  | [], s => .ok s
  | c :: cs, s => do
    let s ← exec c s
    run cs s

end HIOBuffer

/-! ## The abstract buffer -/

namespace HIOBuffer.Call

/-- A buffer for `size` bytes takes what fits. -/
def effect (size : Nat) : Call → List Byte → List Byte
  | .append str, data => if data.length + str.length ≤ size then data ++ str else data
  | .setPos bytes, data => data ++ bytes
  | .reset, _ => []

def effects (size : Nat) : List Call → List Byte → List Byte
  | [], data => data
  | c :: cs, data => effects size cs (effect size c data)

/-- The caller writes no more than there is room for. -/
def Allowed (size : Nat) (data : List Byte) : Call → Prop
  | .setPos bytes => data.length + bytes.length ≤ size
  | _ => True

/-- There is nothing to store, or the string fits with the present data counted twice, or it does not
fit and the sum that says so is an `int`. -/
def TestedWell (size : Nat) (data : List Byte) : Call → Prop
  | .append str =>
    str = [] ∨ str.length + 2 * data.length ≤ size ∨
      size < data.length + str.length ∧ size < toHN str.length + 2 * data.length ∧
        toHN str.length + data.length < 2 ^ 31
  | _ => True

/-- All calls of a run. -/
def AllWell (size : Nat) : List Call → List Byte → Prop
  | [], _ => True
  | c :: cs, data => c.Allowed size data ∧ c.TestedWell size data ∧ AllWell size cs (c.effect size data)

instance (size : Nat) (data : List Byte) : (c : Call) → Decidable (c.Allowed size data)
  | .append _ => isTrue trivial
  | .setPos bytes => inferInstanceAs (Decidable (data.length + bytes.length ≤ size))
  | .reset => isTrue trivial

instance (size : Nat) (data : List Byte) : (c : Call) → Decidable (c.TestedWell size data)
  | .append _ => inferInstanceAs (Decidable (_ ∨ _))
  | .setPos _ => isTrue trivial
  | .reset => isTrue trivial

end HIOBuffer.Call

open HIOBuffer HIOBuffer.Call

/-- The buffer of `size` bytes has these data. -/
structure Represents (size : Capacity) (s : HIOBuffer) (data : List Byte) : Prop where
  capacity : s.size = size.val
  pos : s.pos = data.length
  avalable : s.avalableLength = size.val - data.length
  room : data.length ≤ size.val
  block : ∃ rest, s.buffer = some (data.map some ++ rest) ∧ data.length + rest.length = size.val

/-- A call does to the buffer what it does to the data. A string that does not fit changes nothing. -/
def ActsOnData (size : Capacity) (s : HIOBuffer) (data : List Byte) (c : Call) : Prop :=
  ∃ s', exec c s = .ok s' ∧ Represents size s' (c.effect size.val data) ∧
    ∀ str, c = .append str → size.val < data.length + str.length → s' = s

/-! ## The calls -/

section Calls

variable {size : Capacity} {s : HIOBuffer} {data : List Byte}

theorem bmod_self {n : Int} (hlo : 0 ≤ n) (hhi : n < 2 ^ 31) : n.bmod (2 ^ 32) = n :=
  Int.bmod_eq_of_le (by omega) (by omega)

theorem new_represents {available : Nat → Bool} (hmem : available size.val) :
    Represents size (.new available size) [] where
  capacity := rfl
  pos := rfl
  avalable := (sub_zero _).symm
  room := Nat.zero_le _
  block := by
    have hsize := size.property.2
    have hblock := malloc_ok (by omega) hmem
    refine ⟨freshBlock size.val, ?_, by rw [freshBlock_length, List.length_nil, Nat.zero_add]⟩
    rw [HIOBuffer.new, hblock]
    rfl

theorem Represents.storeBytes (h : Represents size s data) {bs : List Byte}
    (hfits : data.length + bs.length ≤ size.val) :
    ∃ rest, Cxx.storeBytes s.buffer s.pos bs = .ok (some ((data ++ bs).map some ++ rest)) ∧
      (data ++ bs).length + rest.length = size.val := by
  obtain ⟨rest, hblock, hlen⟩ := h.block
  refine ⟨rest.drop bs.length, ?_, ?_⟩
  · have hput := @storeBytes_append (data.map some) rest bs (by omega)
    rw [List.length_map] at hput
    rw [hblock, h.pos, hput, List.map_append]
  · rw [List.length_append, List.length_drop]
    omega

theorem Represents.fits_of_storeBytes (h : Represents size s data) {bs : List Byte} {p : Ptr}
    (hstore : Cxx.storeBytes s.buffer data.length bs = .ok p) :
    data.length + bs.length ≤ size.val := by
  obtain ⟨rest, hblock, hlen⟩ := h.block
  by_contra hlong
  rw [hblock, storeBytes_outside] at hstore
  · cases hstore
  · rw [List.length_append, List.length_map]
    omega

theorem Represents.grow (h : Represents size s data) {bs : List Byte} {rest : ByteBlock}
    (hlen : (data ++ bs).length + rest.length = size.val) :
    Represents size { s with
      buffer := some ((data ++ bs).map some ++ rest)
      avalableLength := s.avalableLength - bs.length
      pos := s.pos + bs.length } (data ++ bs) where
  capacity := h.capacity
  pos := by
    dsimp only
    rw [h.pos, List.length_append]
    omega
  avalable := by
    dsimp only
    rw [h.avalable, List.length_append]
    omega
  room := by omega
  block := ⟨rest, rfl, hlen⟩

theorem setPos_right (h : Represents size s data) {bytes : List Byte}
    (hfits : data.length + bytes.length ≤ size.val) : ActsOnData size s data (.setPos bytes) := by
  obtain ⟨rest, hstore, hlen⟩ := h.storeBytes hfits
  have hsize := size.property.2
  have havail : checkedHN (s.avalableLength - bytes.length) = .ok (s.avalableLength - bytes.length) :=
    checkedHN_ok (by rw [h.avalable]; omega) (by rw [h.avalable]; omega)
  have hpos : checkedHN (s.pos + bytes.length) = .ok (s.pos + bytes.length) :=
    checkedHN_ok (by rw [h.pos]; omega) (by rw [h.pos]; omega)
  refine ⟨_, ?_, h.grow hlen, nofun⟩
  rw [exec, hstore, Outcome.ok_bind, HIOBuffer.setPos]
  dsimp only
  rw [havail, Outcome.ok_bind, hpos, Outcome.ok_bind]
  rfl

theorem Represents.clear (h : Represents size s data) :
    Cxx.storeBytes s.buffer 0 (List.replicate s.size.toNat 0) =
      .ok (some ((List.replicate size.val 0).map some)) := by
  obtain ⟨rest, hblock, hlen⟩ := h.block
  have hall : (data.map some ++ rest).length = (List.replicate size.val (0 : Byte)).length := by
    rw [List.length_append, List.length_map, hlen, List.length_replicate]
  have hput := @storeBytes_append [] _ _ hall.ge
  rw [List.drop_of_length_le hall.le, List.append_nil, List.nil_append, List.nil_append] at hput
  rw [hblock, h.capacity, Int.toNat_natCast]
  exact hput

theorem reset_right (h : Represents size s data) : ActsOnData size s data .reset := by
  have hexec : exec .reset s = .ok { s with
      pos := 0
      avalableLength := s.size
      buffer := some ((List.replicate size.val 0).map some) } := by
    rw [exec, HIOBuffer.reset, h.clear, Outcome.ok_bind]
    rfl
  refine ⟨_, hexec, ⟨h.capacity, rfl, ?_, Nat.zero_le _, ?_⟩, nofun⟩
  · exact h.capacity.trans (sub_zero _).symm
  · refine ⟨(List.replicate size.val 0).map some, rfl, ?_⟩
    rw [List.length_map, List.length_replicate]
    exact Nat.zero_add _

theorem append_refused {str : List Byte} (hpos : s.pos = data.length)
    (hint : toHN str.length + data.length < 2 ^ 31)
    (htest : s.avalableLength < toHN str.length + data.length) : s.append str = .ok s := by
  have hlo : -2 ^ 31 ≤ toHN str.length := by
    rw [toHN]
    omega
  rw [HIOBuffer.append, hpos, checkedHN_ok (by omega) hint, Outcome.ok_bind, if_pos htest]
  rfl

theorem append_accepted (h : Represents size s data) {str : List Byte}
    (htest : str.length + 2 * data.length ≤ size.val) : ActsOnData size s data (.append str) := by
  have hsize := size.property.2
  have hfits : data.length + str.length ≤ size.val := by omega
  obtain ⟨rest, hstore, hlen⟩ := h.storeBytes hfits
  have hsum : toHN str.length = str.length := toHN_of_lt (by omega)
  have hpass : ¬ ((str.length : Int) + data.length > s.avalableLength) := by
    rw [h.avalable]
    omega
  have heffect : effect size.val (.append str) data = data ++ str := if_pos hfits
  have havail : (s.avalableLength - str.length).bmod (2 ^ 32) = s.avalableLength - str.length :=
    bmod_self (by rw [h.avalable]; omega) (by rw [h.avalable]; omega)
  have hpos : (s.pos + str.length).bmod (2 ^ 32) = s.pos + str.length :=
    bmod_self (by rw [h.pos]; omega) (by rw [h.pos]; omega)
  refine ⟨_, ?_, by rw [heffect]; exact h.grow hlen, fun str' heq hlong => ?_⟩
  · rw [exec, HIOBuffer.append, hsum, h.pos, checkedHN_ok (by omega) (by omega), Outcome.ok_bind,
      if_neg hpass, ← h.pos, hstore, Outcome.ok_bind, havail, hpos]
    rfl
  · cases heq
    omega

theorem append_nil_right (h : Represents size s data) : ActsOnData size s data (.append []) := by
  have hsize := size.property.2
  have hroom := h.room
  have heffect : effect size.val (.append []) data = data := by
    rw [effect, if_pos (by simpa using hroom), List.append_nil]
  by_cases htest : 2 * data.length ≤ size.val
  · exact append_accepted h (by simpa using htest)
  · refine ⟨s, append_refused h.pos ?_ ?_, by rw [heffect]; exact h, fun _ _ _ => rfl⟩
    · rw [List.length_nil, toHN_of_lt (by decide)]
      omega
    · rw [h.avalable, List.length_nil, toHN_of_lt (by decide)]
      omega

/-- The test of `Append` is right for these strings only. -/
theorem append_right_iff (h : Represents size s data) (str : List Byte) :
    ActsOnData size s data (.append str) ↔ TestedWell size.val data (.append str) := by
  have hsize := size.property.2
  have hroom := h.room
  constructor
  · rintro ⟨s', hexec, hs', _⟩
    rw [exec, HIOBuffer.append, h.pos] at hexec
    obtain ⟨sum, hsum, hrest⟩ := Outcome.bind_eq_ok.mp hexec
    rw [checkedHN] at hsum
    split at hsum
    · rename_i hint
      obtain rfl := Outcome.ok.inj hsum
      by_cases htest : toHN str.length + data.length > s.avalableLength
      · -- refused: a string that fits can only be the empty one
        rw [if_pos htest] at hrest
        cases hrest
        rw [h.avalable] at htest
        by_cases hfits : data.length + str.length ≤ size.val
        · rw [effect, if_pos hfits] at hs'
          have hpos := h.pos.symm.trans hs'.pos
          rw [List.length_append] at hpos
          exact .inl (List.eq_nil_of_length_eq_zero (by omega))
        · exact .inr (.inr ⟨by omega, by omega, hint.2⟩)
      · -- accepted: what was stored fits
        rw [if_neg htest] at hrest
        obtain ⟨p, hstore, _⟩ := Outcome.bind_eq_ok.mp hrest
        have hfits := h.fits_of_storeBytes hstore
        rw [h.avalable, toHN_of_lt (by omega)] at htest
        exact .inr (.inl (by omega))
    · cases hsum
  · rintro (rfl | htest | ⟨hlong, htest, hint⟩)
    · exact append_nil_right h
    · exact append_accepted h htest
    · have heffect : effect size.val (.append str) data = data := if_neg (by omega)
      refine ⟨s, append_refused h.pos hint (by rw [h.avalable]; omega), ?_, fun _ _ _ => rfl⟩
      rw [heffect]
      exact h

theorem right_iff (h : Represents size s data) {c : Call} (hc : c.Allowed size.val data) :
    ActsOnData size s data c ↔ c.TestedWell size.val data := by
  cases c with
  | append str => exact append_right_iff h str
  | setPos bytes => exact iff_of_true (setPos_right h hc) trivial
  | reset => exact iff_of_true (reset_right h) trivial

end Calls

/-! ## Runs -/

theorem run_represents {size : Capacity} {s : HIOBuffer} {data : List Byte} {cs : List Call}
    (h : Represents size s data) (hwell : AllWell size.val cs data) :
    ∃ s', run cs s = .ok s' ∧ Represents size s' (effects size.val cs data) := by
  induction cs generalizing s data with
  | nil => exact ⟨s, rfl, h⟩
  | cons c cs ih =>
    obtain ⟨hallowed, htested, hlater⟩ := hwell
    obtain ⟨s₁, hexec, hs₁, _⟩ := (right_iff h hallowed).mpr htested
    obtain ⟨s', hrun, hs'⟩ := ih hs₁ hlater
    exact ⟨s', by rw [run, hexec, Outcome.ok_bind, hrun], hs'⟩

/-- **What fits.** In a run whose calls are all tested well, the counters and the block are those of a
buffer that takes exactly what fits; and the next call is right if and only if it is tested well. -/
theorem accepts_exactly (available : Nat → Bool) (size : Capacity) (hmem : available size.val)
    (cs : List Call) (hwell : AllWell size.val cs []) :
    ∃ s, run cs (.new available size) = .ok s ∧ Represents size s (effects size.val cs []) ∧
      ∀ c : Call, c.Allowed size.val (effects size.val cs []) →
        (ActsOnData size s (effects size.val cs []) c ↔
          c.TestedWell size.val (effects size.val cs [])) := by
  obtain ⟨s, hrun, hs⟩ := run_represents (new_represents hmem) hwell
  exact ⟨s, hrun, hs, fun c hc => right_iff hs hc⟩

/-- Ten bytes, of which six are written -/
def ten : Capacity := ⟨10, by decide⟩

theorem accepts_exactly_ten : ∃ s, run [.setPos [1, 2, 3, 4, 5, 6]] (.new (fun _ => true) ten) = .ok s ∧
    Represents ten s [1, 2, 3, 4, 5, 6] := by
  obtain ⟨s, hrun, hs, _⟩ := accepts_exactly (fun _ => true) ten rfl [.setPos [1, 2, 3, 4, 5, 6]]
    ⟨by decide, trivial, trivial⟩
  exact ⟨s, hrun, hs⟩

/-- There is room for four more, and one is refused. -/
theorem fitting_refused : ∃ s, run [.setPos [1, 2, 3, 4, 5, 6]] (.new (fun _ => true) ten) = .ok s ∧
    ¬ ActsOnData ten s [1, 2, 3, 4, 5, 6] (.append [7]) := by
  have hnew : Represents ten (.new (fun _ => true) ten) [] := new_represents rfl
  have hwell : AllWell ten.val [.setPos [1, 2, 3, 4, 5, 6]] [] := ⟨by decide, trivial, trivial⟩
  obtain ⟨s, hrun, hs⟩ := run_represents hnew hwell
  refine ⟨s, hrun, fun hright => ?_⟩
  have htested := (append_right_iff hs [7]).mp hright
  revert htested
  decide

end Buffers
end Huicpp
