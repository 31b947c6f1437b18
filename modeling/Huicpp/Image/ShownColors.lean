import Mathlib
import Huicpp.Image.ChannelOrder

/-!
# Image.ShownColors

The bitmap that `FromRgb` makes shows the colours of an image that has its pixels in order, as long
as the sizes of the bitmap fit into 32 bits. With what `Image.ChannelOrder` says about the routines,
this is what the bitmap of YUV data shows.
-/

namespace Huicpp
namespace Image

open Cxx

/-- The bytes of a row of `w` pixels and its padding. -/
def lineBytes (w : Nat) : Nat := (w * 24 + 31) / 32 * 4

/-- Pixel `j` of row `i` has the colours `colors i j`, blue first. -/
def HBmp.Shows (bmp : HBmp) (w h : Nat) (colors : Nat → Nat → Colors) : Prop :=
  ∀ i < h, ∀ j < w, TripleAt bmp.data (i * lineBytes w + 3 * j) (colors i j).bgr

theorem lineBytes_bounds (w : Nat) : 3 * w ≤ lineBytes w ∧ lineBytes w < 3 * w + 4 := by
  rw [lineBytes]
  omega

theorem bytesPerLine_toNat (nWidth : UInt32) :
    (HBmp.bytesPerLine nWidth HBmp.colorBitCount).toNat =
      (nWidth.toNat * 24 + 31) % 2 ^ 32 / 32 * 4 := by
  rw [HBmp.bytesPerLine, HBmp.colorBitCount, UInt32.toNat_mul, UInt32.toNat_div, UInt32.toNat_add,
    UInt32.toNat_mul]
  simp only [UInt32.reduceToNat, Nat.mod_add_mod]
  exact Nat.mod_eq_of_lt (by omega)

theorem bytesPerLine_of_lt {nWidth : UInt32} (h : nWidth.toNat * 24 + 31 < 2 ^ 32) :
    (HBmp.bytesPerLine nWidth HBmp.colorBitCount).toNat = lineBytes nWidth.toNat := by
  rw [bytesPerLine_toNat, Nat.mod_eq_of_lt h, lineBytes]

/-! ## Copying -/

theorem copyByte_ok {buf : ByteBlock} {src : Ptr} {z k : Nat} {b : Byte} (hz : z < buf.length)
    (hk : byteAt src k = some b) :
    HBmp.copyByte (some buf) z src k = .ok (some (buf.set z (some b))) := by
  cases src with
  | none => cases hk
  | some rga =>
    have hlt := lt_of_byteAt hk
    rw [byteAt] at hk
    rw [HBmp.copyByte, if_pos ⟨hz, hlt⟩, hk]

theorem copyPixel_ok {buf : ByteBlock} {src : Ptr} {z k : Nat} {c : Colors}
    (hz : z + 2 < buf.length) (hk : TripleAt src k c.rgb) :
    HBmp.copyPixel src ⟨some buf, z, k⟩ = .ok ⟨some (setTriple buf z c.bgr), z + 3, k + 3⟩ := by
  obtain ⟨hr, hg, hb⟩ := hk
  rw [HBmp.copyPixel]
  dsimp only
  rw [Nat.add_zero z, Nat.add_zero k, copyByte_ok (by omega) hb, Outcome.ok_bind,
    copyByte_ok (by rw [List.length_set]; omega) hg, Outcome.ok_bind,
    copyByte_ok (by rw [List.length_set, List.length_set]; omega) hr]
  rfl

/-- The rows before `i` and the pixels before `j` in row `i` have been copied. -/
structure Copied (w size : Nat) (colors : Nat → Nat → Colors) (i j : Nat)
    (s : HBmp.CopyState) : Prop where
  block : BlockOf size s.p
  bmp : s.pBmpData = i * lineBytes w + 3 * j
  rga : s.pRgaData = 3 * (i * w + j)
  rows : ∀ i' < i, ∀ j' < w, TripleAt s.p (i' * lineBytes w + 3 * j') (colors i' j').bgr
  row : ∀ j' < j, TripleAt s.p (i * lineBytes w + 3 * j') (colors i j').bgr

namespace Copied

variable {w h size i j : Nat} {colors : Nat → Nat → Colors} {src : Ptr} {s : HBmp.CopyState}

theorem start (w size : Nat) (colors : Nat → Nat → Colors) :
    Copied w size colors 0 0 ⟨some (freshBlock size), 0, 0⟩ where
  block := ⟨_, rfl, freshBlock_length _⟩
  bmp := by rw [Nat.zero_mul]
  rga := by rw [Nat.zero_mul]
  rows i hi := absurd hi (Nat.not_lt_zero i)
  row j hj := absurd hj (Nat.not_lt_zero j)

theorem row_le {i' j' : Nat} (hi : i' < i) (hj : j' < w) :
    i' * lineBytes w + 3 * j' + 2 < i * lineBytes w := by
  have hrow : (i' + 1) * lineBytes w ≤ i * lineBytes w := Nat.mul_le_mul_right _ hi
  have hbounds := lineBytes_bounds w
  rw [Nat.add_mul, Nat.one_mul] at hrow
  omega

theorem pixel (hs : Copied w (h * lineBytes w) colors i j s) (hi : i < h) (hj : j < w)
    (hsrc : TripleAt src (3 * (i * w + j)) (colors i j).rgb) :
    ∃ s', HBmp.copyPixel src s = .ok s' ∧ Copied w (h * lineBytes w) colors i (j + 1) s' := by
  obtain ⟨⟨buf, hp, hlen⟩, hbmp, hrga, hrows, hrow⟩ := hs
  obtain ⟨p, pBmpData, pRgaData⟩ := s
  dsimp only at hp hbmp hrga hrows hrow
  subst hp hbmp hrga
  have hroom := row_le hi hj
  refine ⟨_, copyPixel_ok (by omega) hsrc, ⟨⟨_, rfl, by rw [setTriple_length, hlen]⟩, ?_, ?_, ?_, ?_⟩⟩
  · rw [Nat.mul_succ, Nat.add_assoc]
  · rw [← Nat.add_assoc, Nat.mul_succ]
  · intro i' hi' j' hj'
    have hbefore := row_le hi' hj'
    exact (hrows i' hi' j' hj').setTriple (by omega) _
  · intro j' hj'
    rcases Nat.lt_succ_iff_lt_or_eq.mp hj' with hlt | rfl
    · exact (hrow j' hlt).setTriple (by omega) _
    · exact TripleAt.setTriple_self (by omega) _

theorem copyRow (hs : Copied w (h * lineBytes w) colors i 0 s) (hi : i < h)
    (hsrc : ∀ j < w, TripleAt src (3 * (i * w + j)) (colors i j).rgb) :
    ∃ s', HBmp.copyRow src w (lineBytes w - 3 * w) s = .ok s' ∧
      Copied w (h * lineBytes w) colors (i + 1) 0 s' := by
  obtain ⟨t, ht, hcopied⟩ := forRange_ok (fun j => Copied w (h * lineBytes w) colors i j) hs
    fun j t hj ht => ht.pixel hi hj (hsrc j hj)
  have hbounds := lineBytes_bounds w
  refine ⟨{ t with pBmpData := t.pBmpData + (lineBytes w - 3 * w) },
    by rw [HBmp.copyRow, ht]; rfl, ⟨hcopied.block, ?_, ?_, ?_, ?_⟩⟩
  · dsimp only
    rw [hcopied.bmp, Nat.add_mul i 1, Nat.one_mul]
    omega
  · rw [hcopied.rga, Nat.add_mul i 1, Nat.one_mul, Nat.add_zero]
  · intro i' hi' j' hj'
    rcases Nat.lt_succ_iff_lt_or_eq.mp hi' with hlt | rfl
    · exact hcopied.rows i' hlt j' hj'
    · exact hcopied.row j' hj'
  · intro j' hj'
    exact absurd hj' (Nat.not_lt_zero j')

end Copied

/-! ## The bitmap of an image -/

/-- A bitmap with the colours of the image has been made. -/
def Shown (w h : Nat) (colors : Nat → Nat → Colors) (o : Outcome (BmpRet × HBmp)) : Prop :=
  ∃ bmp, o = .ok (.ok, bmp) ∧ bmp.Shows w h colors

/-- The sizes of a bitmap of `h` rows fit into 32 bits. -/
def BitmapFits (w h : Nat) : Prop := h = 0 ∨ w * 24 + 31 < 2 ^ 32 ∧ h * lineBytes w < 2 ^ 32

section FromRgb

variable {available : Nat → Bool} {rga : HRgb} {colors : Nat → Nat → Colors}

/-- The bytes that are allocated for the bitmap of an image. -/
def pixcelBytes (rga : HRgb) : Nat :=
  (HBmp.bytesPerLine rga.nWidth HBmp.colorBitCount * rga.nHeight).toNat

theorem fromRgb_eq (hmem : available (pixcelBytes rga)) (old : HBmp) :
    HBmp.fromRgb available rga old =
      (do
        let line := HBmp.bytesPerLine rga.nWidth HBmp.colorBitCount
        let headers := HBmp.rgbHeaders rga.nWidth rga.nHeight (line * rga.nHeight)
        let s ← forRange
          (fun _ => HBmp.copyRow rga.data rga.nWidth.toNat (line - rga.nWidth * 3).toNat)
          rga.nHeight.toNat ⟨some (freshBlock (pixcelBytes rga)), 0, 0⟩
        return (.ok, ⟨headers.1, headers.2, s.p⟩)) := by
  have hlt := (HBmp.bytesPerLine rga.nWidth HBmp.colorBitCount * rga.nHeight).toNat_lt
  rw [HBmp.fromRgb, malloc, if_pos ⟨by omega, hmem⟩]
  rfl

theorem padding_toNat {nWidth : UInt32} (h : nWidth.toNat * 24 + 31 < 2 ^ 32) :
    (HBmp.bytesPerLine nWidth HBmp.colorBitCount - nWidth * 3).toNat =
      lineBytes nWidth.toNat - 3 * nWidth.toNat := by
  have hbounds := lineBytes_bounds nWidth.toNat
  have hthree : (nWidth * 3).toNat = 3 * nWidth.toNat := by
    rw [UInt32.toNat_mul, Nat.mul_comm]
    exact Nat.mod_eq_of_lt (by rw [show (3 : UInt32).toNat = 3 from rfl]; omega)
  rw [UInt32.toNat_sub_of_le, bytesPerLine_of_lt h, hthree]
  rw [UInt32.le_iff_toNat_le, bytesPerLine_of_lt h, hthree]
  exact hbounds.1

theorem pixcelBytes_toNat {nWidth nHeight : UInt32} (h : nWidth.toNat * 24 + 31 < 2 ^ 32)
    (hsize : nHeight.toNat * lineBytes nWidth.toNat < 2 ^ 32) :
    (HBmp.bytesPerLine nWidth HBmp.colorBitCount * nHeight).toNat =
      nHeight.toNat * lineBytes nWidth.toNat := by
  rw [UInt32.toNat_mul, bytesPerLine_of_lt h, Nat.mul_comm, Nat.mod_eq_of_lt hsize]

theorem fromRgb_shown_of_fits (horder : rga.InOrder colors) (hmem : available (pixcelBytes rga))
    (old : HBmp)
    (hfits : BitmapFits rga.nWidth.toNat rga.nHeight.toNat) :
    Shown rga.nWidth.toNat rga.nHeight.toNat colors (HBmp.fromRgb available rga old) := by
  rw [fromRgb_eq hmem]
  rcases hfits with hnone | ⟨hline, hsize⟩
  · rw [hnone]
    exact ⟨_, rfl, fun i hi => absurd hi (Nat.not_lt_zero i)⟩
  · have hstart := Copied.start rga.nWidth.toNat
      (rga.nHeight.toNat * lineBytes rga.nWidth.toNat) colors
    obtain ⟨s, hs, hcopied⟩ := forRange_ok (fun i => Copied rga.nWidth.toNat _ colors i 0) hstart
      fun i s hi hs => hs.copyRow hi (horder i hi)
    dsimp only
    rw [padding_toNat hline, pixcelBytes, pixcelBytes_toNat hline hsize, hs]
    exact ⟨_, rfl, fun i hi j hj => hcopied.rows i hi j hj⟩

/-! ### The other direction -/

theorem copyByte_block {size z k : Nat} {p p' src : Ptr} (h : BlockOf size p)
    (hc : HBmp.copyByte p z src k = .ok p') : BlockOf size p' := by
  obtain ⟨buf, rfl, hlen⟩ := h
  cases src with
  | none => cases hc
  | some rga =>
    rw [HBmp.copyByte] at hc
    split at hc
    · cases hc
      exact ⟨_, rfl, by rw [List.length_set, hlen]⟩
    · cases hc

theorem copyRow_block {size w padding : Nat} {src : Ptr} {s s' : HBmp.CopyState}
    (h : BlockOf size s.p) (hs : HBmp.copyRow src w padding s = .ok s') : BlockOf size s'.p := by
  obtain ⟨t, ht, hs⟩ := Outcome.bind_eq_ok.mp hs
  cases hs
  have hcopied := forRange_inv (fun _ (s : HBmp.CopyState) => BlockOf size s.p) ht h
  refine hcopied fun _ u u' _ hu hpixel => ?_
  obtain ⟨p₁, h1, hpixel⟩ := Outcome.bind_eq_ok.mp hpixel
  obtain ⟨p₂, h2, hpixel⟩ := Outcome.bind_eq_ok.mp hpixel
  obtain ⟨p₃, h3, hpixel⟩ := Outcome.bind_eq_ok.mp hpixel
  cases hpixel
  exact copyByte_block (copyByte_block (copyByte_block hu h1) h2) h3

theorem fromRgb_block {old bmp : HBmp} {r : BmpRet} (hmem : available (pixcelBytes rga))
    (h : HBmp.fromRgb available rga old = .ok (r, bmp)) :
    BlockOf (pixcelBytes rga) bmp.data := by
  rw [fromRgb_eq hmem] at h
  obtain ⟨s, hs, h⟩ := Outcome.bind_eq_ok.mp h
  cases h
  exact forRange_inv (fun _ (s : HBmp.CopyState) => BlockOf _ s.p) hs
    ⟨_, rfl, freshBlock_length _⟩ fun _ _ _ _ ht => copyRow_block ht

/-- A block whose size was computed in 32 bits has no room for more. -/
theorem bitmapFits_of_room {nWidth nHeight : UInt32} (hw : 0 < nWidth.toNat)
    (hroom : (nHeight.toNat - 1) * lineBytes nWidth.toNat + 3 * (nWidth.toNat - 1) + 2 <
      (HBmp.bytesPerLine nWidth HBmp.colorBitCount * nHeight).toNat) :
    BitmapFits nWidth.toNat nHeight.toNat := by
  rcases Nat.eq_zero_or_pos nHeight.toNat with hzero | hh
  · exact .inl hzero
  refine .inr ?_
  have hbounds := lineBytes_bounds nWidth.toNat
  have hrows : (nHeight.toNat - 1 + 1) * lineBytes nWidth.toNat =
      nHeight.toNat * lineBytes nWidth.toNat := by rw [Nat.sub_add_cancel hh]
  rw [Nat.add_mul, Nat.one_mul] at hrows
  by_cases hline : nWidth.toNat * 24 + 31 < 2 ^ 32
  · rw [UInt32.toNat_mul, bytesPerLine_of_lt hline, Nat.mul_comm (lineBytes nWidth.toNat)] at hroom
    exact ⟨hline, by omega⟩
  · -- the line alone wraps around
    have hle : (HBmp.bytesPerLine nWidth HBmp.colorBitCount * nHeight).toNat ≤
        nHeight.toNat * (2 ^ 29 - 4) := by
      rw [UInt32.toNat_mul, bytesPerLine_toNat, Nat.mul_comm]
      exact (Nat.mod_le _ _).trans (Nat.mul_le_mul_left _ (by omega))
    have hge : nHeight.toNat * 2 ^ 29 ≤ nHeight.toNat * lineBytes nWidth.toNat :=
      Nat.mul_le_mul_left _ (by rw [lineBytes]; omega)
    omega

theorem fromRgb_shown (horder : rga.InOrder colors) (hmem : available (pixcelBytes rga))
    (old : HBmp) :
    Shown rga.nWidth.toNat rga.nHeight.toNat colors (HBmp.fromRgb available rga old) ↔
      BitmapFits rga.nWidth.toNat rga.nHeight.toNat := by
  refine ⟨?_, fromRgb_shown_of_fits horder hmem old⟩
  rintro ⟨bmp, hbmp, hshows⟩
  have hblock := fromRgb_block hmem hbmp
  rcases Nat.eq_zero_or_pos rga.nHeight.toNat with hzero | hh
  · exact .inl hzero
  rcases Nat.eq_zero_or_pos rga.nWidth.toNat with hzero | hw
  · rw [hzero]
    exact .inr ⟨by decide, by rw [show lineBytes 0 = 0 from rfl, Nat.mul_zero]; decide⟩
  have hlast := hshows _ (Nat.sub_one_lt_of_lt hh) _ (Nat.sub_one_lt_of_lt hw)
  exact bitmapFits_of_room hw (hlast.lt_size hblock)

end FromRgb

/-! ## High V and high U -/

/-- Red grows with V, and blue with U. -/
def GrowsWith (colors : Byte → Byte → Byte → Colors) : Prop :=
  (∀ y u v v', v ≤ v' → (colors y u v).r ≤ (colors y u v').r) ∧
    ∀ y u u' v, u ≤ u' → (colors y u v).b ≤ (colors y u' v).b

theorem clamp_toNat (x : Int) : (clamp x).toNat = (max 0 (min x 255)).toNat := by
  rw [clamp]
  split
  · rw [min_eq_right (by omega)]
    rfl
  · split
    · rw [min_eq_left (by omega), max_eq_left (by omega)]
      rfl
    · rw [BitVec.toNat_ofInt, min_eq_left (by omega), max_eq_right (by omega),
        Int.emod_eq_of_lt (by omega) (by omega)]

theorem inRange_eq_clamp (x : Int) : inRange x = clamp x := by
  rw [inRange, clamp]
  split
  · rename_i hx
    rw [if_neg (by omega), if_neg (by omega)]
  · rename_i hx
    split
    · rw [if_neg (by omega)]
    · rw [if_pos (by omega)]

theorem clamp_mono {x x' : Int} (h : x ≤ x') : clamp x ≤ clamp x' := by
  rw [BitVec.le_def, clamp_toNat, clamp_toNat]
  omega

theorem shiftRight_eight (x : Int) : x >>> (8 : Int) = x / 256 :=
  (Int.shiftRight_natCast_right x 8).trans (Int.shiftRight_eq_div_pow x 8)

theorem clamp_scaled_mono {k x x' : Int} (y : Int) (hk : 0 ≤ k) (h : x ≤ x') :
    clamp (y + (k * (x - 128)) >>> 8) ≤ clamp (y + (k * (x' - 128)) >>> 8) := by
  have hscaled : k * (x - 128) ≤ k * (x' - 128) := Int.mul_le_mul_of_nonneg_left (by omega) hk
  refine clamp_mono ?_
  rw [shiftRight_eight, shiftRight_eight]
  omega

theorem nv21_growsWith : GrowsWith fun y u v => nv21Colors y.toNat u.toNat v.toNat :=
  ⟨fun y _ _ _ hv => clamp_scaled_mono y.toNat (by decide) (Int.ofNat_le.mpr hv),
    fun y _ _ _ hu => clamp_scaled_mono y.toNat (by decide) (Int.ofNat_le.mpr hu)⟩

theorem yuv420sp_growsWith : GrowsWith fun y u v => yuv420spColors y.toNat u.toNat v.toNat :=
  ⟨fun y _ _ _ hv => clamp_scaled_mono y.toNat (by decide) (Int.ofNat_le.mpr hv),
    fun y _ _ _ hu => clamp_scaled_mono y.toNat (by decide) (Int.ofNat_le.mpr hu)⟩

theorem getD_le_getD {l : List Int} (hl : l.IsChain (· ≤ ·)) {i j : Nat} (hij : i ≤ j)
    (hj : j < l.length) : l.getD i 0 ≤ l.getD j 0 := by
  rcases hij.eq_or_lt with rfl | hlt
  · exact le_refl _
  · rw [List.getD_eq_getElem _ _ (hlt.trans hj), List.getD_eq_getElem _ _ hj]
    exact List.pairwise_iff_getElem.mp (List.isChain_iff_pairwise.mp hl) i j _ _ hlt

theorem tableFv1_isChain : tableFv1.IsChain (· ≤ ·) := by decide +kernel
theorem tableFu2_isChain : tableFu2.IsChain (· ≤ ·) := by decide +kernel
theorem tableFv1_length : tableFv1.length = 256 := by decide +kernel
theorem tableFu2_length : tableFu2.length = 256 := by decide +kernel

theorem yuv420_growsWith :
    GrowsWith fun y u v => yuv420Colors y.toNat u.toNat v.toNat := by
  refine ⟨fun y u v v' hv => ?_, fun y u u' v hu => ?_⟩
  · dsimp only [yuv420Colors]
    rw [inRange_eq_clamp, inRange_eq_clamp]
    have hlt : v'.toNat < tableFv1.length := by
      rw [tableFv1_length]
      exact v'.isLt
    exact clamp_mono (Int.add_le_add_left (getD_le_getD tableFv1_isChain hv hlt) _)
  · dsimp only [yuv420Colors]
    rw [inRange_eq_clamp, inRange_eq_clamp]
    have hlt : u'.toNat < tableFu2.length := by
      rw [tableFu2_length]
      exact u'.isLt
    exact clamp_mono (Int.add_le_add_left (getD_le_getD tableFu2_isChain hu hlt) _)

/-! ## The order of the channels -/

/-- The red and the blue value of a pixel in YUV420 data are the same. -/
def SameRedBlue (data : List Byte) (w h i j : Nat) : Prop :=
  let idx := i / 2 * (w / 2) + j / 2
  let y : Int := (data.getD (i * w + j) 0).toNat
  let v := (data.getD (w * h + idx) 0).toNat
  let u := (data.getD (w * h + w * h / 4 + idx) 0).toNat
  inRange (y + tableFv1.getD v 0) = inRange (y + tableFu2.getD u 0)

/-- Which of the routines store red, green and blue in this order, and what a bitmap shows of it. -/
theorem channel_order (available : Nat → Bool) (data : List Byte) (nWidth nHeight : UInt32)
    (hw : 2 ∣ nWidth.toNat) (hh : 2 ∣ nHeight.toNat)
    (hdata : 2 * data.length = 3 * (nHeight.toNat * nWidth.toNat))
    (hmem : available (nWidth * nHeight * 3).toNat) :
    (Stores nWidth nHeight (nv21At data nWidth.toNat nHeight.toNat)
        (fromNV21 available data nWidth nHeight) ↔
      nHeight.toNat * nWidth.toNat = 0) ∧
    (Stores nWidth nHeight (yuv420At data nWidth.toNat nHeight.toNat)
        (fromYuv420 available data nWidth nHeight) ↔
      3 * (nHeight.toNat * nWidth.toNat) < 2 ^ 31 ∧
        ∀ i < nHeight.toNat, ∀ j < nWidth.toNat,
          SameRedBlue data nWidth.toNat nHeight.toNat i j) ∧
    (Stores nWidth nHeight (yuv420spAt data nWidth.toNat nHeight.toNat)
        (fromYuv420sp available data nWidth nHeight) ↔
      3 * (nHeight.toNat * nWidth.toNat) < 2 ^ 32) ∧
    (∀ rga colors old, HRgb.InOrder rga colors → available (pixcelBytes rga) →
      (Shown rga.nWidth.toNat rga.nHeight.toNat colors (HBmp.fromRgb available rga old) ↔
        BitmapFits rga.nWidth.toNat rga.nHeight.toNat)) ∧
    (GrowsWith fun y u v => nv21Colors y.toNat u.toNat v.toNat) ∧
    (GrowsWith fun y u v => yuv420Colors y.toNat u.toNat v.toNat) ∧
    GrowsWith fun y u v => yuv420spColors y.toNat u.toNat v.toNat := by
  obtain ⟨a, ha⟩ := hw
  obtain ⟨b, hb⟩ := hh
  have hsize : EvenSize nWidth nHeight data a b := by
    refine ⟨ha, hb, ?_⟩
    rw [ha, hb, show 3 * (2 * b * (2 * a)) = 2 * (6 * (b * a)) by ring] at hdata
    exact Nat.eq_of_mul_eq_mul_left (by decide) hdata
  exact ⟨fromNV21_stores hsize hmem, fromYuv420_stores hsize hmem, fromYuv420sp_stores hsize hmem,
    fun _ _ old horder hpixcel => fromRgb_shown horder hpixcel old, nv21_growsWith,
    yuv420_growsWith, yuv420sp_growsWith⟩

/-- Four grey pixels made red. -/
def redSquare : List Byte := [128, 128, 128, 128, 255, 128]

theorem channel_order_redSquare :
    2 ∣ (2 : UInt32).toNat ∧ 2 * redSquare.length = 3 * ((2 : UInt32).toNat * (2 : UInt32).toNat) ∧
    (Stores 2 2 (nv21At redSquare 2 2) (fromNV21 (fun _ => true) redSquare 2 2) ↔ 2 * 2 = 0) ∧
    (Stores 2 2 (yuv420At redSquare 2 2) (fromYuv420 (fun _ => true) redSquare 2 2) ↔
      3 * (2 * 2) < 2 ^ 31 ∧ ∀ i < 2, ∀ j < 2, SameRedBlue redSquare 2 2 i j) ∧
    (Stores 2 2 (yuv420spAt redSquare 2 2) (fromYuv420sp (fun _ => true) redSquare 2 2) ↔
      3 * (2 * 2) < 2 ^ 32) := by
  have hrun := channel_order (fun _ => true) redSquare 2 2 (by decide) (by decide) (by decide) rfl
  exact ⟨by decide, by decide, hrun.1, hrun.2.1, hrun.2.2.1⟩

/-- Its red is stored where blue belongs by one routine, and not at all by another. -/
theorem redSquare_not_in_order :
    ¬ Stores 2 2 (nv21At redSquare 2 2) (fromNV21 (fun _ => true) redSquare 2 2) ∧
    ¬ Stores 2 2 (yuv420At redSquare 2 2) (fromYuv420 (fun _ => true) redSquare 2 2) := by
  have hsize : EvenSize 2 2 redSquare 1 1 := ⟨rfl, rfl, rfl⟩
  constructor
  · intro h
    exact absurd ((fromNV21_stores hsize rfl).mp h) (by decide)
  · intro h
    have hsame := ((fromYuv420_stores hsize rfl).mp h).2 0 (by decide) 0 (by decide)
    revert hsame
    decide +kernel

end Image
end Huicpp
