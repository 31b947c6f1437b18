import Mathlib
import Huicpp.Image.UsableBitmap

/-!
# Image.MovedPicture

What `Move` does to the picture. The lines of a bitmap of positive height begin with the last row, those
of one of negative height with the first, and `Move` only knows the former.

* `Reached`: the bitmaps that calls with any arguments and any files make. If there are pixels, their
  block has the size in the header (`Reached.loaded`).
* `movePixel_ok`: what is stored for a pixel.
* `move_moves_iff`: when the picture is moved.
-/

namespace Huicpp
namespace Image

open Cxx

namespace HBmp

/-- The bitmaps that come about by calls of the class. -/
inductive Reached : HBmp → Prop where
  | zeroed : Reached zeroed
  | readFromFile {s : HBmp} (available : Nat → Bool) (a : FileAnswers) (bHeadOnly : Bool) :
      Reached s → Reached (readFromFile available a bHeadOnly s).2
  | fromRgb {s s' : HBmp} {r : BmpRet} (available : Nat → Bool) (rga : HRgb) :
      Reached s → fromRgb available rga s = .ok (r, s') → Reached s'
  | move {s s' : HBmp} {r : BmpRet} (available : Nat → Bool) (xoffset yoffset : Int32) :
      Reached s → s.move available xoffset yoffset = .ok (r, s') → Reached s'

/-- If there is a block, it has the size in the header. -/
def Loaded (s : HBmp) : Prop := s.data = none ∨ BlockOf s.imageSize.toNat s.data

/-! ## The block -/

section Loaded

variable {available : Nat → Bool} {s s' : HBmp} {r : BmpRet}

theorem readPixels_loaded (available : Nat → Bool) (a : FileAnswers) (s : HBmp) :
    (readPixels available a s).2.Loaded := by
  rw [readPixels]
  cases hmem : malloc available s.infoHeader.biSizeImage.toNat with
  | none => exact .inl rfl
  | some size =>
    obtain ⟨rfl, _⟩ := malloc_eq_some hmem
    dsimp only
    split
    · exact .inr ⟨_, rfl, readInto_length (content_length _)⟩
    · exact .inr ⟨_, rfl, readInto_length (content_length _)⟩

theorem loaded_of_none (h : s.data = none) : s.Loaded := .inl h

/-- Every exit but the last leaves no block, or the one that there was. -/
theorem Loaded.readFromFile (hs : s.Loaded) (a : FileAnswers) (bHeadOnly : Bool) :
    (HBmp.readFromFile available a bHeadOnly s).2.Loaded := by
  rw [HBmp.readFromFile]
  split
  · exact hs
  split
  · exact hs
  split
  · exact loaded_of_none rfl
  dsimp only
  split
  · exact loaded_of_none rfl
  split
  · exact loaded_of_none rfl
  split
  · exact loaded_of_none rfl
  split
  · exact loaded_of_none rfl
  split
  · exact loaded_of_none (withImageSize_data _)
  · exact readPixels_loaded _ _ _

theorem fromRgb_loaded {rga : HRgb} (h : fromRgb available rga s = .ok (r, s')) : s'.Loaded := by
  obtain ⟨heq, hblock, hnone⟩ := fromRgb_eq_ofRgb h
  by_cases hmem : available (pixcelBytes rga)
  · refine .inr ?_
    have hsize : s'.imageSize.toNat = pixcelBytes rga := by
      rw [heq]
      rfl
    rw [hsize]
    exact hblock hmem
  · exact .inl (hnone hmem)

theorem Loaded.move {x y : Int32} (hs : s.Loaded) (h : s.move available x y = .ok (r, s')) :
    s'.Loaded := by
  obtain ⟨heq, hblock⟩ := move_keeps h
  rcases hs with hnone | hs
  · rw [HBmp.move] at h
    split at h
    · cases h
      exact .inl hnone
    · obtain ⟨temp, -, h⟩ := Outcome.bind_eq_ok.mp h
      obtain ⟨p, hp, -⟩ := Outcome.bind_eq_ok.mp h
      rw [hnone] at hp
      cases hp
  · rw [heq]
    exact .inr (hblock _ hs)

theorem Reached.loaded (h : Reached s) : s.Loaded := by
  induction h with
  | zeroed => exact .inl rfl
  | readFromFile _ a bHeadOnly _ ih => exact ih.readFromFile a bHeadOnly
  | fromRgb _ _ _ h _ => exact fromRgb_loaded h
  | move _ _ _ _ h ih => exact ih.move h

end Loaded

/-! ## The picture -/

def lines (s : HBmp) : Nat := s.infoHeader.biHeight.toInt.natAbs

/-- In which line row `y` is. -/
def lineOf (s : HBmp) (y : Nat) : Nat :=
  if 0 ≤ s.infoHeader.biHeight.toInt then s.lines - 1 - y else y

/-- The pixel at column `x` of row `y` is `px x y`. -/
def Depicts (s : HBmp) (px : Nat → Nat → Triple) : Prop :=
  ∀ y < s.lines, ∀ x < s.width.toNat,
    TripleAt s.data (s.lineOf y * lineBytes s.width.toNat + 3 * x) (px x y)

/-- A bitmap that passes for usable and has this picture, with all its lines. -/
structure Owns (s : HBmp) (px : Nat → Nat → Triple) : Prop where
  usable : s.isInvalid
  block : ∃ buf, s.data = some buf ∧ s.lines * lineBytes s.width.toNat ≤ buf.length
  depicts : s.Depicts px

/-- The picture moved by `xo` columns and `yo` rows. -/
def moved (w h : Nat) (xo yo : Int) (px : Nat → Nat → Triple) (x y : Nat) : Triple :=
  if (x - xo ≥ 0 ∧ x - xo < w) ∧ y - yo ≥ 0 ∧ y - yo < h then px (x - xo).toNat (y - yo).toNat
  else (255, 255, 255)

/-- `Move` gives the moved picture in a block of the same size, with the same headers. -/
def Moves (available : Nat → Bool) (xoffset yoffset : Int32) (s : HBmp)
    (px : Nat → Nat → Triple) : Prop :=
  ∃ s', s.move available xoffset yoffset = .ok (.ok, s') ∧
    s'.Depicts (moved s.width.toNat s.lines xoffset.toInt yoffset.toInt px) ∧
    s' = { s with data := s'.data } ∧ ∀ size, BlockOf size s.data → BlockOf size s'.data

/-- No difference that is calculated for a pixel is larger than an `int`. -/
def OffsetsFit (w h : Nat) (xo yo : Int) : Prop :=
  w = 0 ∨ h = 0 ∨ w - 1 - xo < 2 ^ 31 ∧ (xo.natAbs < w → h - 1 - yo < 2 ^ 31)

/-- What `Move` takes for granted. -/
structure Movable (available : Nat → Bool) (xoffset yoffset : Int32) (s : HBmp) : Prop where
  memory : available (s.lines * lineBytes s.width.toNat)
  size : s.imageSize.toNat = s.lines * lineBytes s.width.toNat
  bottomUp : 0 ≤ s.infoHeader.biHeight.toInt ∨ s.width.toNat = 0
  narrow : s.width.toNat * 24 + 31 < 2 ^ 32 ∨ s.lines = 0
  offsets : OffsetsFit s.width.toNat s.lines xoffset.toInt yoffset.toInt

/-! ## A pixel -/

theorem forRange_stores {f : Nat → Ptr → Outcome Ptr} {buf : ByteBlock} {k : Nat} {t : Triple}
    (hk : k + 2 < buf.length) (h0 : ∀ p, f 0 p = store p k t.1)
    (h1 : ∀ p, f 1 p = store p (k + 1 : Nat) t.2.1) (h2 : ∀ p, f 2 p = store p (k + 2 : Nat) t.2.2) :
    forRange f 3 (some buf) = .ok (some (setTriple buf k t)) := by
  rw [forRange_three]
  simp only [h0, h1, h2]
  exact storeTriple_ok hk t

section Pixel

variable {w h : Nat} {xo yo : Int} {bpl : UInt32} {i j : Nat}

theorem toNat_ofInt_of_lt {k : Nat} (hk : k < 2 ^ 32) : (UInt32.ofInt k).toNat = k := by
  rw [UInt32.ofInt, Int.emod_eq_of_lt (by omega) (by omega), Int.toNat_natCast,
    UInt32.toNat_ofNat_of_lt' hk]

theorem position_ok (hbpl : bpl.toNat = lineBytes w) (hnarrow : w * 24 + 31 < 2 ^ 32)
    (hfit : h * lineBytes w < 2 ^ 32) (hi : i < h) (hj : j < w) :
    position bpl 3 h i j = .ok ((h - 1 - i) * lineBytes w + 3 * j : Nat) := by
  have hbounds := lineBytes_bounds w
  have hpos : 0 < lineBytes w := by omega
  have hrow : h * 4 ≤ h * lineBytes w := by
    refine Nat.mul_le_mul_left _ ?_
    rw [lineBytes] at hpos ⊢
    omega
  have hline : 1 * lineBytes w ≤ h * lineBytes w := Nat.mul_le_mul_right _ (by omega)
  have hle : (h - 1 - i) * lineBytes w ≤ h * lineBytes w := Nat.mul_le_mul_right _ (by omega)
  have hcast : (h : Int) - 1 - i = (h - 1 - i : Nat) := by omega
  rw [position, checkedHN_ok (by omega) (by omega), Outcome.ok_bind,
    checkedHN_ok (by omega) (by omega), Outcome.ok_bind, hcast]
  have hprod : (bpl * UInt32.ofInt (h - 1 - i : Nat)).toNat = (h - 1 - i) * lineBytes w := by
    rw [UInt32.toNat_mul, hbpl, toNat_ofInt_of_lt (by omega), Nat.mul_comm]
    exact Nat.mod_eq_of_lt (by omega)
  rw [hprod]
  show Outcome.ok _ = _
  congr 1
  omega

theorem sourceOf_ok (hxo : -2 ^ 31 ≤ xo ∧ xo < 2 ^ 31) (hyo : -2 ^ 31 ≤ yo ∧ yo < 2 ^ 31)
    (hoff : OffsetsFit w h xo yo) (hi : i < h) (hj : j < w) :
    sourceOf w h xo yo i j = .ok (if (j - xo ≥ 0 ∧ j - xo < w) ∧ i - yo ≥ 0 ∧ i - yo < h then
      some ((i : Int) - yo, (j : Int) - xo) else none) := by
  obtain hw | hh | ⟨hcol, hrow⟩ := hoff
  · omega
  · omega
  rw [sourceOf, checkedHN_ok (by omega) (by omega), Outcome.ok_bind]
  by_cases hx : (j : Int) - xo ≥ 0 ∧ (j : Int) - xo < w
  · have hrow := hrow (by omega)
    rw [if_pos hx, checkedHN_ok (by omega) (by omega), Outcome.ok_bind]
    by_cases hy : (i : Int) - yo ≥ 0 ∧ (i : Int) - yo < h
    · rw [if_pos hy, if_pos ⟨hx, hy⟩]
      rfl
    · rw [if_neg hy, if_neg fun hxy => hy hxy.2]
      rfl
  · rw [if_neg hx, if_neg fun hxy => hx hxy.1]
    rfl

/-- The pixel of the moved picture is put to its place. -/
theorem movePixel_ok {src : Ptr} {px : Nat → Nat → Triple} {buf : ByteBlock}
    (hbpl : bpl.toNat = lineBytes w) (hnarrow : w * 24 + 31 < 2 ^ 32)
    (hfit : h * lineBytes w < 2 ^ 32)
    (hxo : -2 ^ 31 ≤ xo ∧ xo < 2 ^ 31) (hyo : -2 ^ 31 ≤ yo ∧ yo < 2 ^ 31)
    (hoff : OffsetsFit w h xo yo) (hi : i < h) (hj : j < w)
    (hsrc : ∀ y < h, ∀ x < w, TripleAt src ((h - 1 - y) * lineBytes w + 3 * x) (px x y))
    (hlen : buf.length = h * lineBytes w) :
    movePixel src bpl 3 w h xo yo i j (some buf) =
      .ok (some (setTriple buf ((h - 1 - i) * lineBytes w + 3 * j) (moved w h xo yo px j i))) := by
  have hroom : (h - 1 - i) * lineBytes w + 3 * j + 2 < buf.length := by
    rw [hlen]
    exact Copied.row_le (by omega) hj
  rw [movePixel, position_ok hbpl hnarrow hfit hi hj, Outcome.ok_bind,
    sourceOf_ok hxo hyo hoff hi hj, Outcome.ok_bind, moved]
  by_cases hin : (j - xo ≥ 0 ∧ j - xo < w) ∧ i - yo ≥ 0 ∧ i - yo < h
  · obtain ⟨y, hy⟩ := Int.eq_ofNat_of_zero_le hin.2.1
    obtain ⟨x, hx⟩ := Int.eq_ofNat_of_zero_le hin.1.1
    rw [if_pos hin, if_pos hin, hy, hx, Int.toNat_natCast, Int.toNat_natCast]
    have hyh : y < h := by omega
    have hxw : x < w := by omega
    obtain ⟨h0, h1, h2⟩ := hsrc y hyh x hxw
    simp only [position_ok hbpl hnarrow hfit hyh hxw, Outcome.ok_bind]
    refine forRange_stores hroom (fun p => ?_) (fun p => ?_) (fun p => ?_)
    · rw [Nat.cast_zero, Int.add_zero, fetch_ok h0, Outcome.ok_bind, Int.add_zero, put_some]
    · rw [← Nat.cast_add, fetch_ok h1, Outcome.ok_bind, ← Nat.cast_add, put_some]
    · rw [← Nat.cast_add, fetch_ok h2, Outcome.ok_bind, ← Nat.cast_add, put_some]
  · rw [if_neg hin, if_neg hin]
    refine forRange_stores hroom (fun p => ?_) (fun p => ?_) (fun p => ?_)
    · rw [Nat.cast_zero, Int.add_zero, put_some]
    · rw [← Nat.cast_add, put_some]
    · rw [← Nat.cast_add, put_some]

end Pixel

/-! ## The rows -/

/-- The first `n` pixels are at their places, the last row in the first line. -/
structure MovedTo (w h : Nat) (px : Nat → Nat → Triple) (n : Nat) (p : Ptr) : Prop where
  block : BlockOf (h * lineBytes w) p
  pixel : ∀ i < h, ∀ j < w, i * w + j < n → TripleAt p ((h - 1 - i) * lineBytes w + 3 * j) (px j i)

namespace MovedTo

variable {w h : Nat} {px : Nat → Nat → Triple} {i j : Nat} {p : Ptr}

theorem fresh (w h : Nat) (px : Nat → Nat → Triple) :
    MovedTo w h px 0 (some (freshBlock (h * lineBytes w))) where
  block := ⟨_, rfl, freshBlock_length _⟩
  pixel _ _ _ _ hn := absurd hn (Nat.not_lt_zero _)

/-- The next pixel does not touch the ones before: their lines are behind. -/
theorem set {buf : ByteBlock} (hs : MovedTo w h px (i * w + j) (some buf)) (hi : i < h) (hj : j < w) :
    MovedTo w h px (i * w + j + 1)
      (some (setTriple buf ((h - 1 - i) * lineBytes w + 3 * j) (px j i))) := by
  obtain ⟨⟨_, hbuf, hlen⟩, hpixel⟩ := hs
  cases hbuf
  refine ⟨⟨_, rfl, by rw [setTriple_length, hlen]⟩, fun i' hi' j' hj' hn => ?_⟩
  rcases lt_trichotomy i' i with hlt | rfl | hgt
  · have hrow : (i' + 1) * w ≤ i * w := Nat.mul_le_mul_right _ hlt
    rw [Nat.add_mul, Nat.one_mul] at hrow
    have hbehind := @Copied.row_le w (h - 1 - i') (h - 1 - i) j (by omega) hj
    exact (hpixel i' hi' j' hj' (by omega)).setTriple (.inr (by omega)) _
  · rcases Nat.lt_succ_iff_lt_or_eq.mp hn with hbefore | hsame
    · exact (hpixel i' hi' j' hj' hbefore).setTriple (.inl (by omega)) _
    · obtain rfl : j' = j := by omega
      refine TripleAt.setTriple_self ?_ _
      rw [hlen]
      exact Copied.row_le (by omega) hj
  · have hrow : (i + 1) * w ≤ i' * w := Nat.mul_le_mul_right _ hgt
    rw [Nat.add_mul, Nat.one_mul] at hrow
    omega

end MovedTo

/-- The size of `temp_buf`. -/
def tempSize (s : HBmp) : Nat := (HBmp.bytesPerLine s.width colorBitCount * s.height).toNat

/-- The loops of `Move` on a usable bitmap. -/
def moveRows (s : HBmp) (xo yo : Int) (temp : Ptr) : Outcome Ptr :=
  forRange
    (fun i => forRange
      (fun j => movePixel s.data (HBmp.bytesPerLine s.width colorBitCount) 3 s.width.toInt32.toInt
        s.infoHeader.biHeight.toInt xo yo i j)
      s.width.toInt32.toInt.toNat)
    s.infoHeader.biHeight.toInt.toNat temp

section Rows

variable {available : Nat → Bool} {xoffset yoffset : Int32} {s s' : HBmp} {px : Nat → Nat → Triple}

theorem bitCount_of_usable (h : s.isInvalid) : s.bitCount = colorBitCount := by
  have hcount := (isInvalid_iff.mp h).2.1
  rw [bitCount, hcount]
  rfl

theorem move_eq (h : s.isInvalid) : s.move available xoffset yoffset = (do
    let temp ← moveRows s xoffset.toInt yoffset.toInt
      ((malloc available s.tempSize).map freshBlock)
    let p ← copyBlock s.data temp s.imageSize.toNat
    return (.ok, { s with data := p })) := by
  have hbc : (colorBitCount / 8).toInt32.toInt = 3 := by decide
  rw [move, if_neg (by rw [h]; decide), bitCount_of_usable h]
  simp only [hbc, height, Int32.toInt32_toUInt32]
  rfl

theorem lines_of_nonneg (h : 0 ≤ s.infoHeader.biHeight.toInt) :
    s.infoHeader.biHeight.toInt = s.lines ∧ s.height.toNat = s.lines := by
  have hlines : s.infoHeader.biHeight.toInt = s.lines := (Int.natAbs_of_nonneg h).symm
  refine ⟨hlines, ?_⟩
  rw [height, Int32.toNat_toUInt32_of_le (Int32.le_iff_toInt_le.mpr h), Int32.toNatClampNeg, hlines,
    Int.toNat_natCast]

theorem width_toInt (h : s.width.toNat < 2 ^ 31) : s.width.toInt32.toInt = s.width.toNat := by
  rw [toInt32_eq, Int32.toInt_ofNat_of_lt h]

/-- The loops put every pixel of the moved picture to its place. -/
theorem moveRows_ok (hs : s.Depicts px) (hheight : 0 ≤ s.infoHeader.biHeight.toInt)
    (hnarrow : s.width.toNat * 24 + 31 < 2 ^ 32)
    (hfit : s.lines * lineBytes s.width.toNat < 2 ^ 32)
    (hoff : OffsetsFit s.width.toNat s.lines xoffset.toInt yoffset.toInt) :
    ∃ temp, moveRows s xoffset.toInt yoffset.toInt
        (some (freshBlock (s.lines * lineBytes s.width.toNat))) = .ok temp ∧
      MovedTo s.width.toNat s.lines
        (moved s.width.toNat s.lines xoffset.toInt yoffset.toInt px) (s.lines * s.width.toNat) temp := by
  have hsrc : ∀ y < s.lines, ∀ x < s.width.toNat,
      TripleAt s.data ((s.lines - 1 - y) * lineBytes s.width.toNat + 3 * x) (px x y) := by
    intro y hy x hx
    have hpixel := hs y hy x hx
    rwa [lineOf, if_pos hheight] at hpixel
  rw [moveRows, (lines_of_nonneg hheight).1, width_toInt (by omega), Int.toNat_natCast,
    Int.toNat_natCast]
  refine forRange_rows _ (MovedTo.fresh _ _ _) fun i j temp hi hj htemp => ?_
  obtain ⟨buf, rfl, hlen⟩ := htemp.block
  exact ⟨_, movePixel_ok (bytesPerLine_of_lt hnarrow) hnarrow hfit
    ⟨xoffset.le_toInt, xoffset.toInt_lt⟩ ⟨yoffset.le_toInt, yoffset.toInt_lt⟩ hoff hi hj hsrc hlen,
    htemp.set hi hj⟩

theorem moveRows_noPixels (h : s.lines * s.width.toNat = 0) (xo yo : Int) (temp : Ptr) :
    moveRows s xo yo temp = .ok temp := by
  refine forRange_id fun i hi t => ?_
  rcases Nat.mul_eq_zero.mp h with hlines | hwidth
  · rw [lines] at hlines
    omega
  · have hle : s.width.toInt32.toInt.toNat ≤ s.width.toNat := toNatClampNeg_le s.width
    rw [show s.width.toInt32.toInt.toNat = 0 by omega]
    rfl

theorem tempSize_toNat (s : HBmp) : s.tempSize =
    (HBmp.bytesPerLine s.width colorBitCount).toNat * s.height.toNat % 2 ^ 32 :=
  UInt32.toNat_mul _ _

theorem tempSize_eq (hup : 0 ≤ s.infoHeader.biHeight.toInt ∨ s.width.toNat = 0)
    (hnarrow : s.width.toNat * 24 + 31 < 2 ^ 32 ∨ s.lines = 0)
    (hfit : s.lines * lineBytes s.width.toNat < 2 ^ 32) :
    s.tempSize = s.lines * lineBytes s.width.toNat := by
  rw [tempSize_toNat]
  rcases hup with hheight | hwidth
  · rw [(lines_of_nonneg hheight).2]
    rcases hnarrow with hnarrow | hlines
    · rw [bytesPerLine_of_lt hnarrow, Nat.mul_comm, Nat.mod_eq_of_lt hfit]
    · rw [hlines, Nat.mul_zero, Nat.zero_mul, Nat.zero_mod]
  · rw [bytesPerLine_of_lt (by omega), hwidth, show lineBytes 0 = 0 from rfl, Nat.zero_mul,
      Nat.mul_zero, Nat.zero_mod]

theorem Owns.block_eq (hs : s.Owns px) (hloaded : s.Loaded) :
    ∃ buf, s.data = some buf ∧ buf.length = s.imageSize.toNat ∧
      s.lines * lineBytes s.width.toNat ≤ s.imageSize.toNat := by
  obtain ⟨buf, hbuf, hroom⟩ := hs.block
  rcases hloaded with hnone | ⟨buf', hbuf', hlen⟩
  · rw [hnone] at hbuf
    cases hbuf
  · rw [hbuf'] at hbuf
    cases hbuf
    exact ⟨buf, hbuf', hlen, by omega⟩

theorem moves_of_movable (hs : s.Owns px) (hloaded : s.Loaded)
    (hm : Movable available xoffset yoffset s) : Moves available xoffset yoffset s px := by
  obtain ⟨buf, hbuf, hlen, hroom⟩ := hs.block_eq hloaded
  have hfit : s.lines * lineBytes s.width.toNat < 2 ^ 32 :=
    hm.size ▸ s.imageSize.toNat_lt
  have hmem : (malloc available s.tempSize).map freshBlock =
      some (freshBlock (s.lines * lineBytes s.width.toNat)) := by
    rw [tempSize_eq hm.bottomUp hm.narrow hfit, malloc_ok (by omega) hm.memory]
    rfl
  -- without pixels neither the height nor the width need be what they seem
  obtain ⟨temp, hrows, hmoved⟩ : ∃ temp, moveRows s xoffset.toInt yoffset.toInt
      (some (freshBlock (s.lines * lineBytes s.width.toNat))) = .ok temp ∧
        MovedTo s.width.toNat s.lines (moved s.width.toNat s.lines xoffset.toInt yoffset.toInt px)
          (s.lines * s.width.toNat) temp := by
    rcases Nat.eq_zero_or_pos (s.lines * s.width.toNat) with hnone | hpos
    · exact ⟨_, moveRows_noPixels hnone _ _ _, hnone ▸ MovedTo.fresh _ _ _⟩
    · have hheight := hm.bottomUp.resolve_right (Nat.pos_of_mul_pos_left hpos).ne'
      have hnarrow := hm.narrow.resolve_right (Nat.pos_of_mul_pos_right hpos).ne'
      exact moveRows_ok hs.depicts hheight hnarrow hfit hm.offsets
  obtain ⟨tbuf, rfl, htbuf⟩ := hmoved.block
  refine ⟨{ s with data := some tbuf }, ?_, fun y hy x hx => ?_, rfl, ?_⟩
  · rw [move_eq hs.usable, hmem, hrows, Outcome.ok_bind, hbuf,
      copyBlock_all hlen (htbuf.trans hm.size.symm)]
    rfl
  · have hxw : x < s.width.toNat := hx
    have hheight := hm.bottomUp.resolve_right (Nat.zero_lt_of_lt hxw).ne'
    have hrow : (y + 1) * s.width.toNat ≤ s.lines * s.width.toNat := Nat.mul_le_mul_right _ hy
    rw [Nat.add_mul, Nat.one_mul] at hrow
    have hpixel := hmoved.pixel y hy x hxw (by omega)
    show TripleAt (some tbuf) (s.lineOf y * lineBytes s.width.toNat + 3 * x) _
    rwa [lineOf, if_pos hheight]
  · rintro size ⟨buf', hbuf', hsize⟩
    rw [hbuf] at hbuf'
    cases hbuf'
    exact ⟨tbuf, rfl, (htbuf.trans hm.size.symm).trans (hlen.symm.trans hsize)⟩

end Rows

/-! ## What has to be so -/

section Needed

variable {available : Nat → Bool} {xoffset yoffset : Int32} {s s' : HBmp} {px : Nat → Nat → Triple}
  {temp temp' : Ptr}

theorem movePixel_keeps {src : Ptr} {bpl : UInt32} {w h xo yo i j : Int} (P : Ptr → Prop)
    (hput : ∀ z b p p', put p z b = .ok p' → P p → P p')
    (hmove : movePixel src bpl 3 w h xo yo i j temp = .ok temp') (htemp : P temp) : P temp' := by
  obtain ⟨dstpos, -, hmove⟩ := Outcome.bind_eq_ok.mp hmove
  obtain ⟨source, -, hmove⟩ := Outcome.bind_eq_ok.mp hmove
  cases source with
  | none => exact forRange_inv (fun _ => P) hmove htemp fun k t t' _ ht hk => hput _ _ _ _ hk ht
  | some yx =>
    obtain ⟨srcpos, -, hmove⟩ := Outcome.bind_eq_ok.mp hmove
    refine forRange_inv (fun _ => P) hmove htemp fun k t t' _ ht hk => ?_
    obtain ⟨b, -, hk⟩ := Outcome.bind_eq_ok.mp hk
    exact hput _ _ _ _ hk ht

theorem moveRows_keeps {xo yo : Int} (P : Ptr → Prop)
    (hput : ∀ z b p p', put p z b = .ok p' → P p → P p')
    (hrows : moveRows s xo yo temp = .ok temp') (htemp : P temp) : P temp' :=
  forRange_rows_inv P hrows htemp fun _ _ _ _ _ ht hstep => movePixel_keeps P hput hstep ht

theorem sourceOf_fits {w h xo yo i j : Int} {o : Option (Int × Int)}
    (hsource : sourceOf w h xo yo i j = .ok o) :
    j - xo < 2 ^ 31 ∧ (j - xo ≥ 0 ∧ j - xo < w → i - yo < 2 ^ 31) := by
  obtain ⟨x, hx, hsource⟩ := Outcome.bind_eq_ok.mp hsource
  obtain ⟨rfl, _, hhi⟩ := checkedHN_eq_ok hx
  refine ⟨hhi, fun hin => ?_⟩
  rw [if_pos hin] at hsource
  obtain ⟨y, hy, _⟩ := Outcome.bind_eq_ok.mp hsource
  exact (checkedHN_eq_ok hy).2.2

/-- Loops that end well have calculated every difference. -/
theorem offsetsFit_of_moveRows (hheight : 0 ≤ s.infoHeader.biHeight.toInt)
    (hwidth : s.width.toNat < 2 ^ 31)
    (hrows : moveRows s xoffset.toInt yoffset.toInt temp = .ok temp') :
    OffsetsFit s.width.toNat s.lines xoffset.toInt yoffset.toInt := by
  rcases Nat.eq_zero_or_pos s.width.toNat with hw | hw
  · exact .inl hw
  rcases Nat.eq_zero_or_pos s.lines with hh | hh
  · exact .inr (.inl hh)
  rw [moveRows, (lines_of_nonneg hheight).1, width_toInt hwidth, Int.toNat_natCast,
    Int.toNat_natCast] at hrows
  have hpixel : ∀ i < s.lines, ∀ j < s.width.toNat, (j : Int) - xoffset.toInt < 2 ^ 31 ∧
      ((j : Int) - xoffset.toInt ≥ 0 ∧ (j : Int) - xoffset.toInt < s.width.toNat →
        (i : Int) - yoffset.toInt < 2 ^ 31) := by
    intro i hi j hj
    obtain ⟨t, t', hmove⟩ := forRange_rows_iteration hrows hi hj
    obtain ⟨_, _, hmove⟩ := Outcome.bind_eq_ok.mp hmove
    obtain ⟨_, hsource, _⟩ := Outcome.bind_eq_ok.mp hmove
    exact sourceOf_fits hsource
  refine .inr (.inr ⟨?_, fun hnear => ?_⟩)
  · have hlast := (hpixel 0 hh (s.width.toNat - 1) (by omega)).1
    omega
  · -- the column of the first pixel that comes from inside
    have hcol : xoffset.toInt.toNat < s.width.toNat := by omega
    have hlast := (hpixel (s.lines - 1) (by omega) xoffset.toInt.toNat hcol).2 (by omega)
    omega

theorem narrow_of_bytesPerLine {nWidth : UInt32}
    (h : (HBmp.bytesPerLine nWidth colorBitCount).toNat = lineBytes nWidth.toNat) :
    nWidth.toNat * 24 + 31 < 2 ^ 32 := by
  rw [bytesPerLine_toNat, lineBytes] at h
  omega

theorem bytesPerLine_le (nWidth : UInt32) :
    (HBmp.bytesPerLine nWidth colorBitCount).toNat ≤ lineBytes nWidth.toNat := by
  rw [bytesPerLine_toNat, lineBytes]
  exact Nat.mul_le_mul_right _ (Nat.div_le_div_right (Nat.mod_le _ _))

theorem move_parts {r : BmpRet} (husable : s.isInvalid)
    (h : s.move available xoffset yoffset = .ok (r, s')) :
    available s.tempSize ∧ ∃ tbuf buf, tbuf.length = s.tempSize ∧
      moveRows s xoffset.toInt yoffset.toInt (some (freshBlock s.tempSize)) = .ok (some tbuf) ∧
      s.data = some buf ∧ s.imageSize.toNat ≤ s.tempSize ∧
      s' = { s with
        data := some (tbuf.take s.imageSize.toNat ++ buf.drop s.imageSize.toNat) } := by
  rw [move_eq husable] at h
  obtain ⟨temp, hrows, h⟩ := Outcome.bind_eq_ok.mp h
  obtain ⟨p, hcopy, h⟩ := Outcome.bind_eq_ok.mp h
  obtain ⟨buf, tbuf, hbuf, htemp, _, hlen, hp⟩ := copyBlock_eq_ok hcopy
  cases hmem : malloc available s.tempSize with
  | none =>
    rw [hmem] at hrows
    have hnone := moveRows_keeps (· = none) put_none hrows rfl
    rw [hnone] at htemp
    cases htemp
  | some size =>
    obtain ⟨rfl, _, havailable⟩ := malloc_eq_some hmem
    rw [hmem] at hrows
    obtain ⟨tbuf', htbuf', hsize⟩ := moveRows_keeps (BlockOf s.tempSize) (fun _ _ _ _ h hp => hp.put h) hrows
      ⟨_, rfl, freshBlock_length _⟩
    rw [htemp] at htbuf' hrows
    cases htbuf'
    refine ⟨havailable, tbuf, buf, hsize, hrows, hbuf, by omega, ?_⟩
    cases h
    rw [hp]

/-- The picture of a bitmap whose height is negative is lost. -/
theorem not_depicts_of_topDown {r : BmpRet} (hs : s.Owns px) (hloaded : s.Loaded)
    (hneg : s.infoHeader.biHeight.toInt < 0) (hwidth : 0 < s.width.toNat)
    (h : s.move available xoffset yoffset = .ok (r, s')) (px' : Nat → Nat → Triple) :
    ¬ s'.Depicts px' := by
  intro hdepicts
  obtain ⟨_, tbuf, buf, _, hrows, hbuf, hsize, rfl⟩ := move_parts hs.usable h
  obtain ⟨_, _, _, hroom⟩ := hs.block_eq hloaded
  have hlines : 0 < s.lines := by
    rw [lines]
    omega
  have hbounds := lineBytes_bounds s.width.toNat
  have hline : 1 * lineBytes s.width.toNat ≤ s.lines * lineBytes s.width.toNat :=
    Nat.mul_le_mul_right _ hlines
  have hfresh : tbuf = freshBlock s.tempSize := by
    rw [moveRows, Int.toNat_of_nonpos hneg.le] at hrows
    exact (Option.some.inj (Outcome.ok.inj hrows)).symm
  obtain ⟨hfirst, _⟩ := hdepicts 0 hlines 0 hwidth
  have hzero : s.lineOf 0 = 0 := by rw [lineOf, if_neg hneg.not_ge]
  have hbyte : byteAt (some (tbuf.take s.imageSize.toNat ++ buf.drop s.imageSize.toNat)) 0 = none := by
    rw [byteAt, hfresh, freshBlock, List.take_replicate, List.getD_eq_getElem?_getD,
      List.getElem?_append_left (by rw [List.length_replicate]; omega), List.getElem?_replicate]
    split
    · rfl
    · rfl
  have hsome : byteAt (some (tbuf.take s.imageSize.toNat ++ buf.drop s.imageSize.toNat))
      (s.lineOf 0 * lineBytes s.width.toNat + 3 * 0) = some (px' 0 0).1 := hfirst
  rw [hzero, Nat.zero_mul, Nat.mul_zero, Nat.zero_add, hbyte] at hsome
  cases hsome

theorem movable_of_moves (hs : s.Owns px) (hloaded : s.Loaded)
    (h : Moves available xoffset yoffset s px) : Movable available xoffset yoffset s := by
  obtain ⟨s', hmove, hdepicts, _⟩ := h
  obtain ⟨hmem, tbuf, buf, _, hrows, _, hsize, _⟩ := move_parts hs.usable hmove
  obtain ⟨_, _, _, hroom⟩ := hs.block_eq hloaded
  by_cases hheight : 0 ≤ s.infoHeader.biHeight.toInt
  · -- the copy needs as many bytes as the lines have, and the products in 32 bits give no more
    have hlt := s.imageSize.toNat_lt
    have hle : s.tempSize ≤ s.lines * (HBmp.bytesPerLine s.width colorBitCount).toNat := by
      rw [tempSize_toNat, (lines_of_nonneg hheight).2, Nat.mul_comm]
      exact Nat.mod_le _ _
    have hle' : s.lines * (HBmp.bytesPerLine s.width colorBitCount).toNat ≤
        s.lines * lineBytes s.width.toNat := Nat.mul_le_mul_left _ (bytesPerLine_le _)
    have hsame : s.lines * (HBmp.bytesPerLine s.width colorBitCount).toNat =
        s.lines * lineBytes s.width.toNat := by omega
    have hnarrow : s.width.toNat * 24 + 31 < 2 ^ 32 ∨ s.lines = 0 := by
      rcases Nat.eq_zero_or_pos s.lines with hlines | hlines
      · exact .inr hlines
      · exact .inl (narrow_of_bytesPerLine (Nat.eq_of_mul_eq_mul_left hlines hsame))
    refine ⟨?_, by omega, .inl hheight, hnarrow, ?_⟩
    · rwa [show s.lines * lineBytes s.width.toNat = s.tempSize by omega]
    · rcases hnarrow with hnarrow | hlines
      · exact offsetsFit_of_moveRows hheight (by omega) hrows
      · exact .inr (.inl hlines)
  · rcases Nat.eq_zero_or_pos s.width.toNat with hwidth | hwidth
    · have hline : lineBytes s.width.toNat = 0 := by rw [hwidth]; rfl
      have htemp : s.tempSize = 0 := by
        rw [tempSize_toNat, bytesPerLine_of_lt (by omega), hline, Nat.zero_mul, Nat.zero_mod]
      refine ⟨?_, ?_, .inr hwidth, .inl (by omega), .inl hwidth⟩
      · rwa [hline, Nat.mul_zero, ← htemp]
      · rw [hline, Nat.mul_zero]
        omega
    · exact absurd hdepicts
        (not_depicts_of_topDown hs hloaded (not_le.mp hheight) hwidth hmove _)

end Needed

/-- **Moving the picture.** `Move` moves the picture of a bitmap that has all its lines exactly if
the bitmap is as `Move` takes it to be. -/
theorem move_moves_iff (available : Nat → Bool) (xoffset yoffset : Int32) (s : HBmp)
    (px : Nat → Nat → Triple) (hreached : Reached s) (hs : s.Owns px) :
    Moves available xoffset yoffset s px ↔ Movable available xoffset yoffset s :=
  ⟨movable_of_moves hs hreached.loaded, moves_of_movable hs hreached.loaded⟩

/-- A file with two rows of two pixels, the last row first -/
def fourPixels : FileAnswers where
  nameEmpty := false
  «exists» := true
  opened := true
  fileHeader := ReadAnswer.of [0x42, 0x4d, 70, 0, 0, 0, 0, 0, 0, 0, 54, 0, 0, 0] _
  infoHeader := ReadAnswer.of
    ([40, 0, 0, 0, 2, 0, 0, 0, 2, 0, 0, 0, 1, 0, 24, 0] ++ List.replicate 24 0) _
  pixels := ReadAnswer.of [7, 8, 9, 10, 11, 12, 0, 0, 1, 2, 3, 4, 5, 6, 0, 0]

/-- The picture of `fourPixels`. -/
def fourPicture (x y : Nat) : Triple :=
  (BitVec.ofNat 8 (6 * y + 3 * x + 1), BitVec.ofNat 8 (6 * y + 3 * x + 2),
    BitVec.ofNat 8 (6 * y + 3 * x + 3))

/-- One column to the right and one row down -/
theorem move_moves_iff_fourPixels :
    Moves (fun _ => true) 1 1 (readFromFile (fun _ => true) fourPixels false zeroed).2 fourPicture := by
  refine (move_moves_iff (fun _ => true) 1 1 _ _ (.readFromFile _ _ _ .zeroed) ⟨?_, ?_, ?_⟩).mpr
    ⟨rfl, ?_, ?_, ?_, ?_⟩
  · decide
  · exact ⟨_, rfl, by decide⟩
  · intro y hy x hx
    have hy : y < 2 := hy
    have hx : x < 2 := hx
    interval_cases y
    · interval_cases x
      · exact ⟨rfl, rfl, rfl⟩
      · exact ⟨rfl, rfl, rfl⟩
    · interval_cases x
      · exact ⟨rfl, rfl, rfl⟩
      · exact ⟨rfl, rfl, rfl⟩
  · decide
  · exact .inl (by decide)
  · exact .inl (by decide)
  · exact .inr (.inr (by decide))

/-- An image of one pixel, and its bitmap -/
def oneRgb : HRgb := ⟨1, 1, some [some 10, some 20, some 30]⟩

def oneRgbBmp : HBmp := ofRgb oneRgb (some [some 30, some 20, some 10, none])

theorem move_loses_picture : ¬ ∀ (available : Nat → Bool) (xoffset yoffset : Int32) (s : HBmp)
    (px : Nat → Nat → Triple), Reached s → s.Owns px → Moves available xoffset yoffset s px := by
  intro hall
  have hreached : Reached oneRgbBmp := .fromRgb (fun _ => true) oneRgb .zeroed rfl
  have howns : oneRgbBmp.Owns fun _ _ => (30, 20, 10) := by
    refine ⟨by decide, ⟨_, rfl, by decide⟩, fun y hy x hx => ?_⟩
    obtain rfl : y = 0 := Nat.lt_one_iff.mp hy
    obtain rfl : x = 0 := Nat.lt_one_iff.mp hx
    exact ⟨rfl, rfl, rfl⟩
  have hmovable := movable_of_moves howns hreached.loaded (hall (fun _ => true) 0 0 _ _ hreached howns)
  exact absurd hmovable.bottomUp (by decide)

end HBmp

end Image
end Huicpp
