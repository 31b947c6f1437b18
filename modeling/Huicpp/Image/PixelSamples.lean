import Mathlib
import Huicpp.Image.ChannelOrder

/-!
# Image.PixelSamples

From which samples the routines make a pixel. A `Conversion` says where the two chroma bytes of a
group of four pixels are and what the channels are made of; `Converts` says that a routine stores for
every pixel the channels of its own samples, cut off to 0, ..., 255.

`FromYuv420` and `FromYuv420sp` do so. `FromNV21` starts each row at the first luma byte and stores it
to the first row of the image.
-/

namespace Huicpp
namespace Image

open Cxx

/-- Cut off to 0, ..., 255. -/
def limited (x : Int) : Byte := BitVec.ofInt 8 (max 0 (min x 255))

theorem clamp_eq_limited (x : Int) : clamp x = limited x := by
  rw [clamp, limited]
  split
  · rename_i hhi
    rw [min_eq_right (by omega)]
    rfl
  · split
    · rename_i hlo
      rw [min_eq_left (by omega), max_eq_left (by omega)]
      rfl
    · rw [min_eq_left (by omega), max_eq_right (by omega)]

theorem inRange_eq_limited (x : Int) : inRange x = limited x := by
  rw [← clamp_eq_limited, inRange, clamp]
  split
  · rw [if_neg (by omega), if_neg (by omega)]
  · split
    · rw [if_neg (by omega)]
    · rw [if_pos (by omega)]

/-- The chroma bytes of group `k` of an image of `n` pixels, and the channels of a pixel in the order of
their addresses, from its luma and chroma bytes. -/
structure Conversion where
  chroma : List Byte → Nat → Nat → Byte × Byte
  channels : Byte → Byte × Byte → Int × Int × Int

namespace Conversion

/-- The two bytes of a group stand one behind the other. -/
def paired (data : List Byte) (n k : Nat) : Byte × Byte :=
  (data.getD (n + 2 * k) 0, data.getD (n + 2 * k + 1) 0)

/-- Each of the two bytes has a plane of its own. -/
def planes (data : List Byte) (n k : Nat) : Byte × Byte :=
  (data.getD (n + k) 0, data.getD (n + n / 4 + k) 0)

def nv21 : Conversion where
  chroma := paired
  channels y c :=
    let u : Int := c.1.toNat - 128
    let v : Int := c.2.toNat - 128
    (y.toNat + (443 * u) >>> 8, y.toNat - (179 * v + 86 * u) >>> 8, y.toNat + (351 * v) >>> 8)

def yuv420 : Conversion where
  chroma := planes
  channels y c :=
    let v := c.1.toNat
    let u := c.2.toNat
    (y.toNat + tableFu2.getD u 0, y.toNat - (tableFu1.getD u 0 + tableFv2.getD v 0),
      y.toNat + tableFv1.getD v 0)

def yuv420sp : Conversion where
  chroma := paired
  channels y c :=
    let u : Int := c.1.toNat - 128
    let v : Int := c.2.toNat - 128
    (y.toNat + (360 * v) >>> 8, y.toNat - (88 * u + 184 * v) >>> 8, y.toNat + (455 * u) >>> 8)

/-- The bytes of pixel `j` of row `i`, of its own samples. -/
def pixel (c : Conversion) (data : List Byte) (w h i j : Nat) : Triple :=
  let x := c.channels (data.getD (i * w + j) 0) (c.chroma data (w * h) (i / 2 * (w / 2) + j / 2))
  (limited x.1, limited x.2.1, limited x.2.2)

end Conversion

/-- A routine makes an image of this size with each pixel from its own samples. -/
def Converts (c : Conversion) (data : List Byte) (nWidth nHeight : UInt32) (o : Outcome HRgb) : Prop :=
  ∃ img, o = .ok img ∧ img.nWidth = nWidth ∧ img.nHeight = nHeight ∧
    BlockOf (3 * (nWidth.toNat * nHeight.toNat)) img.data ∧
    ∀ i < nHeight.toNat, ∀ j < nWidth.toNat,
      TripleAt img.data (3 * (i * nWidth.toNat + j)) (c.pixel data nWidth.toNat nHeight.toNat i j)

section Converts

variable {c : Conversion} {available : Nat → Bool} {data : List Byte} {nWidth nHeight : UInt32}
  {a b : Nat}

theorem new_throws (hmem : ¬ available (nWidth * nHeight * 3).toNat) :
    HRgb.new available nWidth nHeight = .throws .badAlloc := by
  rw [HRgb.new, malloc_none hmem]

theorem not_converts_throws (e : Exn) : ¬ Converts c data nWidth nHeight (.throws e) := by
  rintro ⟨img, himg, _⟩
  cases himg

theorem converts_of_written {px : Nat → Nat → Triple} {p : Ptr} (h : EvenSize nWidth nHeight data a b)
    (hp : Written (4 * (b * a)) (rowMajor nWidth.toNat px) (4 * (b * a)) p)
    (hpx : ∀ i j, px i j = c.pixel data nWidth.toNat nHeight.toNat i j) :
    Converts c data nWidth nHeight (.ok ⟨nWidth, nHeight, p⟩) := by
  refine ⟨_, rfl, rfl, rfl, ?_, fun i hi j hj => ?_⟩
  · rw [Nat.mul_comm nWidth.toNat, h.pixels]
    exact hp.block
  · have hat := hp.pixel _ (h.place hi hj).1
    rwa [rowMajor_at hj, hpx] at hat

theorem converts_of_noPixels (hnone : nHeight.toNat * nWidth.toNat = 0)
    (hsize : (nWidth * nHeight * 3).toNat = 0) :
    Converts c data nWidth nHeight
      (.ok ⟨nWidth, nHeight, some (freshBlock (nWidth * nHeight * 3).toNat)⟩) := by
  refine ⟨_, rfl, rfl, rfl, ?_, fun i hi j hj => ?_⟩
  · rw [Nat.mul_comm nWidth.toNat, hnone, hsize]
    exact ⟨_, rfl, freshBlock_length _⟩
  · have hpos := Nat.mul_pos (Nat.zero_lt_of_lt hi) (Nat.zero_lt_of_lt hj)
    exact absurd hnone hpos.ne'

/-! ## The routines -/

theorem yuv420At_bgr (i j : Nat) :
    (yuv420At data nWidth.toNat nHeight.toNat i j).bgr =
      Conversion.yuv420.pixel data nWidth.toNat nHeight.toNat i j := by
  simp only [Colors.bgr, yuv420At, yuv420Colors, inRange_eq_limited]
  rfl

theorem fromYuv420_converts_iff (h : EvenSize nWidth nHeight data a b)
    (hfit : 12 * (b * a) < 2 ^ 31) :
    Converts .yuv420 data nWidth nHeight (fromYuv420 available data nWidth nHeight) ↔
      available (nWidth * nHeight * 3).toNat := by
  by_cases hmem : available (nWidth * nHeight * 3).toNat
  · refine iff_of_true ?_ hmem
    rcases Nat.eq_zero_or_pos (b * a) with hzero | hpos
    · have hnone : nHeight.toNat * nWidth.toNat = 0 := by rw [h.pixels, hzero]
      rw [fromYuv420, new_ok hmem, Outcome.ok_bind]
      dsimp only
      rw [rows_noPixels hnone, Outcome.ok_bind]
      exact converts_of_noPixels hnone (by rw [h.size_toNat (by omega), hzero])
    · obtain ⟨p, hp, hwritten⟩ := fromYuv420_written h hfit hpos hmem
      rw [hp]
      exact converts_of_written h hwritten yuv420At_bgr
  · rw [fromYuv420, new_throws hmem, Outcome.throws_bind]
    exact iff_of_false (not_converts_throws _) hmem

theorem yuv420spAt_rgb (i j : Nat) :
    (yuv420spAt data nWidth.toNat nHeight.toNat i j).rgb =
      Conversion.yuv420sp.pixel data nWidth.toNat nHeight.toNat i j := by
  have hgroup : (j / 2 + i / 2 * (nWidth.toNat / 2)) * 2 =
      2 * (i / 2 * (nWidth.toNat / 2) + j / 2) := by
    rw [Nat.mul_comm, Nat.add_comm]
  simp only [Colors.rgb, yuv420spAt, yuv420spColors, clamp_eq_limited, hgroup]
  rfl

theorem fromYuv420sp_converts_iff (h : EvenSize nWidth nHeight data a b)
    (hfit : 12 * (b * a) < 2 ^ 31) :
    Converts .yuv420sp data nWidth nHeight (fromYuv420sp available data nWidth nHeight) ↔
      available (nWidth * nHeight * 3).toNat := by
  by_cases hmem : available (nWidth * nHeight * 3).toNat
  · refine iff_of_true ?_ hmem
    rcases Nat.eq_zero_or_pos (b * a) with hzero | hpos
    · have hnone : nHeight.toNat * nWidth.toNat = 0 := by rw [h.pixels, hzero]
      rw [fromYuv420sp, new_ok hmem, Outcome.ok_bind]
      dsimp only
      rw [rows_noPixels hnone, Outcome.ok_bind]
      exact converts_of_noPixels hnone (by rw [h.size_toNat (by omega), hzero])
    · obtain ⟨p, hp, hwritten⟩ := fromYuv420sp_written h (by omega) hpos hmem
      rw [hp]
      exact converts_of_written h hwritten yuv420spAt_rgb
  · rw [fromYuv420sp, new_throws hmem, Outcome.throws_bind]
    exact iff_of_false (not_converts_throws _) hmem

/-- The second row is never stored. -/
theorem fromNV21_converts_iff (h : EvenSize nWidth nHeight data a b) :
    Converts .nv21 data nWidth nHeight (fromNV21 available data nWidth nHeight) ↔
      available (nWidth * nHeight * 3).toNat ∧ nHeight.toNat * nWidth.toNat = 0 := by
  by_cases hmem : available (nWidth * nHeight * 3).toNat
  · constructor
    · rintro ⟨img, himg, hw, hh, -, hpixel⟩
      refine ⟨hmem, ?_⟩
      by_contra hpos
      have hheight := h.height
      have hrow : 1 < nHeight.toNat := by
        have hne : nHeight.toNat ≠ 0 := left_ne_zero_of_mul hpos
        omega
      have hcol : 0 < nWidth.toNat := Nat.pos_of_ne_zero (right_ne_zero_of_mul hpos)
      obtain ⟨hstored, -, -⟩ := hpixel 1 hrow 0 hcol
      rw [Nat.one_mul, Nat.add_zero, fromNV21_firstRowOnly hmem himg _ (Nat.le_refl _)] at hstored
      cases hstored
    · rintro ⟨-, hnone⟩
      have hzero : b * a = 0 := by
        have hpixels := h.pixels
        omega
      rw [fromNV21, new_ok hmem, Outcome.ok_bind]
      dsimp only
      rw [rows_noPixels hnone, Outcome.ok_bind]
      exact converts_of_noPixels hnone (by rw [h.size_toNat (by omega), hzero])
  · rw [fromNV21, new_throws hmem, Outcome.throws_bind]
    exact iff_of_false (not_converts_throws _) fun hav => hmem hav.1

end Converts

theorem EvenSize.of_even {nWidth nHeight : UInt32} {data : List Byte} (hw : Even nWidth.toNat)
    (hh : Even nHeight.toNat) (hlen : data.length = nWidth.toNat * nHeight.toNat * 3 / 2) :
    EvenSize nWidth nHeight data (nWidth.toNat / 2) (nHeight.toNat / 2) := by
  obtain ⟨a, ha⟩ := hw
  obtain ⟨b, hb⟩ := hh
  have ha' : nWidth.toNat / 2 = a := by omega
  have hb' : nHeight.toNat / 2 = b := by omega
  refine ⟨by omega, by omega, ?_⟩
  have hpixels : nWidth.toNat * nHeight.toNat * 3 = 2 * (6 * (b * a)) := by
    rw [ha, hb]
    ring
  rw [hlen, ha', hb', hpixels, Nat.mul_div_cancel_left _ (by decide)]

/-- **Every pixel from its own samples.** Where there is memory for the image, `FromYuv420` and
`FromYuv420sp` make each pixel from its own samples, and `FromNV21` does so only for an image without
pixels. -/
theorem converts_iff {available : Nat → Bool} {data : List Byte} {nWidth nHeight : UInt32}
    (hw : Even nWidth.toNat) (hh : Even nHeight.toNat)
    (hsize : 3 * nWidth.toNat * nHeight.toNat < 2 ^ 31)
    (hlen : data.length = nWidth.toNat * nHeight.toNat * 3 / 2) :
    (Converts .nv21 data nWidth nHeight (fromNV21 available data nWidth nHeight) ↔
        available (nWidth * nHeight * 3).toNat ∧ nHeight.toNat * nWidth.toNat = 0) ∧
      (Converts .yuv420 data nWidth nHeight (fromYuv420 available data nWidth nHeight) ↔
        available (nWidth * nHeight * 3).toNat) ∧
      (Converts .yuv420sp data nWidth nHeight (fromYuv420sp available data nWidth nHeight) ↔
        available (nWidth * nHeight * 3).toNat) := by
  have h := EvenSize.of_even hw hh hlen
  have hfit : 12 * (nHeight.toNat / 2 * (nWidth.toNat / 2)) < 2 ^ 31 := by
    have hpixels := h.pixels
    rw [Nat.mul_assoc, Nat.mul_comm nWidth.toNat] at hsize
    omega
  exact ⟨fromNV21_converts_iff h, fromYuv420_converts_iff h hfit,
    fromYuv420sp_converts_iff h hfit⟩

/-- Two rows of two black pixels. -/
theorem converts_iff_fourPixels :
    (Converts .nv21 [0, 0, 0, 0, 0, 0] 2 2 (fromNV21 (fun _ => true) [0, 0, 0, 0, 0, 0] 2 2) ↔
        (fun _ => true : Nat → Bool) ((2 : UInt32) * 2 * 3).toNat ∧
          (2 : UInt32).toNat * (2 : UInt32).toNat = 0) ∧
      (Converts .yuv420 [0, 0, 0, 0, 0, 0] 2 2 (fromYuv420 (fun _ => true) [0, 0, 0, 0, 0, 0] 2 2) ↔
        (fun _ => true : Nat → Bool) ((2 : UInt32) * 2 * 3).toNat) ∧
      (Converts .yuv420sp [0, 0, 0, 0, 0, 0] 2 2
          (fromYuv420sp (fun _ => true) [0, 0, 0, 0, 0, 0] 2 2) ↔
        (fun _ => true : Nat → Bool) ((2 : UInt32) * 2 * 3).toNat) :=
  converts_iff (by decide) (by decide) (by decide) (by decide)

/-- `FromNV21` leaves the second row of this image unwritten. -/
theorem nv21_not_converted :
    ¬ ∀ (data : List Byte) (nWidth nHeight : UInt32), Even nWidth.toNat → Even nHeight.toNat →
      3 * nWidth.toNat * nHeight.toNat < 2 ^ 31 →
      data.length = nWidth.toNat * nHeight.toNat * 3 / 2 →
      Converts .nv21 data nWidth nHeight (fromNV21 (fun _ => true) data nWidth nHeight) := by
  intro hall
  have hconv := hall [0, 0, 0, 0, 0, 0] 2 2 (by decide) (by decide) (by decide) (by decide)
  have hsize : EvenSize 2 2 [0, 0, 0, 0, 0, 0] 1 1 := ⟨rfl, rfl, rfl⟩
  exact absurd ((fromNV21_converts_iff hsize).mp hconv).2 (by decide)

end Image
end Huicpp
