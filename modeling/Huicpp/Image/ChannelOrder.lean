import Mathlib
import Huicpp.Image.HBmp

/-!
# Image.ChannelOrder

In which order the routines store the colours of a pixel. `FromYuv420sp` stores red first, which is
what a bitmap is made of; `FromYuv420` stores blue first, and `FromNV21` does so in the first row
and leaves the other ones unwritten.

A loop over rows of pixels is followed by `Written`: how many pixels have been stored, in the order
of their numbers.
-/

namespace Huicpp
namespace Image

open Cxx

/-- The bytes of a pixel, in the order of their addresses. -/
abbrev Triple := Byte × Byte × Byte

namespace Colors

def rgb (c : Colors) : Triple := (c.r, c.g, c.b)
def bgr (c : Colors) : Triple := (c.b, c.g, c.r)

end Colors

/-- The bytes from `k` on are those of `t`. -/
def TripleAt (p : Ptr) (k : Nat) (t : Triple) : Prop :=
  byteAt p k = some t.1 ∧ byteAt p (k + 1) = some t.2.1 ∧ byteAt p (k + 2) = some t.2.2

theorem TripleAt.unique {p : Ptr} {k : Nat} {t t' : Triple} (h : TripleAt p k t)
    (h' : TripleAt p k t') : t = t' := by
  obtain ⟨h1, h2, h3⟩ := h
  obtain ⟨h1', h2', h3'⟩ := h'
  rw [h1] at h1'
  rw [h2] at h2'
  rw [h3] at h3'
  exact Prod.ext (Option.some.inj h1') (Prod.ext (Option.some.inj h2') (Option.some.inj h3'))

/-- The bytes of `t` are put at `k`. -/
def setTriple (buf : ByteBlock) (k : Nat) (t : Triple) : ByteBlock :=
  ((buf.set k (some t.1)).set (k + 1) (some t.2.1)).set (k + 2) (some t.2.2)

@[simp] theorem setTriple_length (buf : ByteBlock) (k : Nat) (t : Triple) :
    (setTriple buf k t).length = buf.length := by
  rw [setTriple, List.length_set, List.length_set, List.length_set]

theorem TripleAt.setTriple_self {buf : ByteBlock} {k : Nat} (hk : k + 2 < buf.length) (t : Triple) :
    TripleAt (some (setTriple buf k t)) k t := by
  refine ⟨?_, ?_, ?_⟩
  · rw [setTriple, byteAt_set_of_ne (by omega), byteAt_set_of_ne (by omega),
      byteAt_set_self (by omega)]
  · rw [setTriple, byteAt_set_of_ne (by omega), byteAt_set_self (by rw [List.length_set]; omega)]
  · rw [setTriple, byteAt_set_self (by rw [List.length_set, List.length_set]; omega)]

theorem TripleAt.setTriple {buf : ByteBlock} {m k : Nat} {t' : Triple}
    (h : TripleAt (some buf) m t') (hm : m + 2 < k ∨ k + 2 < m) (t : Triple) :
    TripleAt (some (Image.setTriple buf k t)) m t' := by
  obtain ⟨h1, h2, h3⟩ := h
  refine ⟨?_, ?_, ?_⟩
  · rwa [Image.setTriple, byteAt_set_of_ne (by omega), byteAt_set_of_ne (by omega),
      byteAt_set_of_ne (by omega)]
  · rwa [Image.setTriple, byteAt_set_of_ne (by omega), byteAt_set_of_ne (by omega),
      byteAt_set_of_ne (by omega)]
  · rwa [Image.setTriple, byteAt_set_of_ne (by omega), byteAt_set_of_ne (by omega),
      byteAt_set_of_ne (by omega)]

/-- The stores of a pixel. -/
def storeTriple (p : Ptr) (k : Nat) (t : Triple) : Outcome Ptr := do
  let p ← store p k t.1
  let p ← store p (k + 1 : Nat) t.2.1
  store p (k + 2 : Nat) t.2.2

theorem storeTriple_ok {buf : ByteBlock} {k : Nat} (hk : k + 2 < buf.length) (t : Triple) :
    storeTriple (some buf) k t = .ok (some (setTriple buf k t)) := by
  rw [storeTriple, store_ok (by omega), Outcome.ok_bind, store_ok (by rw [List.length_set]; omega),
    Outcome.ok_bind, store_ok (by rw [List.length_set, List.length_set]; omega), setTriple]

/-- Of an image of `n` pixels the first `k` have been stored. -/
structure Written (n : Nat) (px : Nat → Triple) (k : Nat) (p : Ptr) : Prop where
  block : ∃ buf, p = some buf ∧ buf.length = 3 * n
  pixel : ∀ m < k, TripleAt p (3 * m) (px m)

namespace Written

variable {n k : Nat} {px : Nat → Triple} {p : Ptr}

theorem fresh (n : Nat) (px : Nat → Triple) : Written n px 0 (some (freshBlock (3 * n))) where
  block := ⟨_, rfl, freshBlock_length _⟩
  pixel m hm := absurd hm (Nat.not_lt_zero m)

theorem store (h : Written n px k p) (hk : k < n) :
    ∃ p', storeTriple p (3 * k) (px k) = .ok p' ∧ Written n px (k + 1) p' := by
  obtain ⟨⟨buf, rfl, hlen⟩, hpixel⟩ := h
  refine ⟨_, storeTriple_ok (by omega) _, ⟨_, rfl, by rw [setTriple_length, hlen]⟩, ?_⟩
  intro m hm
  rcases Nat.lt_succ_iff_lt_or_eq.mp hm with hlt | rfl
  · exact (hpixel m hlt).setTriple (by omega) _
  · exact TripleAt.setTriple_self (by omega) _

end Written

/-- The pixels in the order of their numbers, row by row. -/
def rowMajor (w : Nat) (px : Nat → Nat → Triple) (m : Nat) : Triple := px (m / w) (m % w)

theorem rowMajor_at {w i j : Nat} (hj : j < w) (px : Nat → Nat → Triple) :
    rowMajor w px (i * w + j) = px i j := by
  rw [rowMajor, Nat.mul_comm, Nat.mul_add_div (Nat.zero_lt_of_lt hj), Nat.div_eq_of_lt hj,
    Nat.mul_add_mod, Nat.mod_eq_of_lt hj, Nat.add_zero]

/-! ## Sizes -/

theorem toInt32_eq (n : UInt32) : n.toInt32 = Int32.ofNat n.toNat := by
  rw [← UInt32.toInt32_ofNat', UInt32.ofNat_toNat]

/-- An image of `4 * a * b` pixels, in `2 * b` rows, and YUV data of the right size. -/
structure EvenSize (nWidth nHeight : UInt32) (data : List Byte) (a b : Nat) : Prop where
  width : nWidth.toNat = 2 * a
  height : nHeight.toNat = 2 * b
  length : data.length = 6 * (b * a)

namespace EvenSize

variable {nWidth nHeight : UInt32} {data : List Byte} {a b : Nat}

theorem pixels (h : EvenSize nWidth nHeight data a b) :
    nHeight.toNat * nWidth.toNat = 4 * (b * a) := by
  rw [h.width, h.height]
  ring

theorem place (h : EvenSize nWidth nHeight data a b) {i j : Nat} (hi : i < nHeight.toNat)
    (hj : j < nWidth.toNat) :
    i * nWidth.toNat + j < 4 * (b * a) ∧ i / 2 * a + j / 2 < b * a := by
  rw [← h.pixels]
  have hrow : (i + 1) * nWidth.toNat ≤ nHeight.toNat * nWidth.toNat := Nat.mul_le_mul_right _ hi
  have hgroup : (i / 2 + 1) * a ≤ b * a := by
    refine Nat.mul_le_mul_right a ?_
    have hheight := h.height
    omega
  have hwidth := h.width
  rw [Nat.add_mul, Nat.one_mul] at hrow hgroup
  omega

theorem last (h : EvenSize nWidth nHeight data a b) (hpos : 0 < b * a) :
    nHeight.toNat - 1 < nHeight.toNat ∧ nWidth.toNat - 1 < nWidth.toNat ∧
      (nHeight.toNat - 1) * nWidth.toNat + (nWidth.toNat - 1) = 4 * (b * a) - 1 := by
  have ha : 0 < a := Nat.pos_of_mul_pos_left hpos
  have hb : 0 < b := Nat.pos_of_mul_pos_right hpos
  have hwidth := h.width
  have hheight := h.height
  have hrows : (nHeight.toNat - 1 + 1) * nWidth.toNat = 4 * (b * a) := by
    rw [Nat.sub_add_cancel (by omega), h.pixels]
  rw [Nat.add_mul, Nat.one_mul] at hrows
  omega

theorem width_lt (h : EvenSize nWidth nHeight data a b) (hfit : 12 * (b * a) < 2 ^ 32)
    (hpos : 0 < b * a) : 3 * nWidth.toNat < 2 ^ 31 ∧ nHeight.toNat < 2 ^ 31 := by
  have ha : a ≤ b * a := Nat.le_mul_of_pos_left a (Nat.pos_of_mul_pos_right hpos)
  have hb : b ≤ b * a := Nat.le_mul_of_pos_right b (Nat.pos_of_mul_pos_left hpos)
  have hwidth := h.width
  have hheight := h.height
  omega

theorem mul_toNat (h : EvenSize nWidth nHeight data a b) (hfit : 12 * (b * a) < 2 ^ 32) :
    (nWidth * nHeight).toNat = 4 * (b * a) := by
  rw [UInt32.toNat_mul, Nat.mul_comm, h.pixels, Nat.mod_eq_of_lt (by omega)]

theorem size_toNat (h : EvenSize nWidth nHeight data a b) (hfit : 12 * (b * a) < 2 ^ 32) :
    (nWidth * nHeight * 3).toNat = 3 * (4 * (b * a)) := by
  rw [UInt32.toNat_mul, h.mul_toNat hfit, show (3 : UInt32).toNat = 3 from rfl,
    Nat.mod_eq_of_lt (by omega), Nat.mul_comm]

theorem mul_toInt (h : EvenSize nWidth nHeight data a b) (hfit : 12 * (b * a) < 2 ^ 32) :
    (nWidth * nHeight).toInt32.toInt = (4 * (b * a) : Nat) := by
  rw [toInt32_eq, h.mul_toNat hfit, Int32.toInt_ofNat_of_lt (by omega)]

end EvenSize

theorem toNatClampNeg_toInt32 {n : UInt32} (h : n.toNat < 2 ^ 31) :
    n.toInt32.toNatClampNeg = n.toNat := by
  rw [toInt32_eq, Int32.toNatClampNeg, Int32.toInt_ofNat_of_lt h, Int.toNat_natCast]

theorem ofNat_half {k : Nat} (hk : k < 2 ^ 31) : Int32.ofNat k / 2 = Int32.ofNat (k / 2) :=
  (Int32.ofNat_div hk (by decide)).symm

theorem new_ok {available : Nat → Bool} {nWidth nHeight : UInt32}
    (hmem : available (nWidth * nHeight * 3).toNat) :
    HRgb.new available nWidth nHeight =
      .ok ⟨nWidth, nHeight, some (freshBlock (nWidth * nHeight * 3).toNat)⟩ := by
  have hlt := (nWidth * nHeight * 3).toNat_lt
  rw [HRgb.new, malloc_ok (by omega) hmem]

theorem toInt_ofNat_le (k : Nat) : (Int32.ofNat k).toInt ≤ k := by
  have hsize : Int32.size = 2 ^ 32 := rfl
  rw [Int32.toInt_ofNat', hsize, Int.bmod_eq_emod]
  split
  · omega
  · omega

theorem toInt_ofNat_neg {k : Nat} (h : 2 ^ 31 ≤ k) (hk : k < 2 ^ 32) :
    (Int32.ofNat k).toInt < 0 := by
  have hsize : Int32.size = 2 ^ 32 := rfl
  rw [Int32.toInt_ofNat', hsize, Int.bmod_eq_emod, if_pos (by omega)]
  omega

theorem toNatClampNeg_le (n : UInt32) : n.toInt32.toNatClampNeg ≤ n.toNat := by
  rw [toInt32_eq, Int32.toNatClampNeg]
  have hle := toInt_ofNat_le n.toNat
  omega

theorem rows_noPixels {σ : Type} {body : Nat → Nat → σ → Outcome σ} {s : σ}
    {nWidth nHeight : UInt32} (h : nHeight.toNat * nWidth.toNat = 0) :
    forRange (fun i => forRange (body i) nWidth.toInt32.toNatClampNeg)
      nHeight.toInt32.toNatClampNeg s = .ok s := by
  refine forRange_id fun i hi t => ?_
  rcases Nat.mul_eq_zero.mp h with hh | hw
  · have hle := toNatClampNeg_le nHeight
    omega
  · have hle := toNatClampNeg_le nWidth
    rw [show nWidth.toInt32.toNatClampNeg = 0 by omega]
    rfl

theorem TripleAt.lt_size {size k : Nat} {p : Ptr} {t : Triple} (h : TripleAt p k t)
    (hp : BlockOf size p) : k + 2 < size := by
  obtain ⟨buf, rfl, rfl⟩ := hp
  exact lt_of_byteAt h.2.2

/-! ## The order of an image -/

/-- Pixel `j` of row `i` has the colours `colors i j`, red first. -/
def HRgb.InOrder (img : HRgb) (colors : Nat → Nat → Colors) : Prop :=
  ∀ i < img.nHeight.toNat, ∀ j < img.nWidth.toNat,
    TripleAt img.data (3 * (i * img.nWidth.toNat + j)) (colors i j).rgb

/-- A routine makes an image of this size with every pixel in order. -/
def Stores (nWidth nHeight : UInt32) (colors : Nat → Nat → Colors) (o : Outcome HRgb) : Prop :=
  ∃ img, o = .ok img ∧ img.nWidth = nWidth ∧ img.nHeight = nHeight ∧ img.InOrder colors

theorem Stores.of_noPixels {nWidth nHeight : UInt32} {colors : Nat → Nat → Colors}
    (h : nHeight.toNat * nWidth.toNat = 0) (p : Ptr) :
    Stores nWidth nHeight colors (.ok ⟨nWidth, nHeight, p⟩) := by
  refine ⟨_, rfl, rfl, rfl, fun i hi j hj => ?_⟩
  have hpos := Nat.mul_pos (Nat.zero_lt_of_lt hi) (Nat.zero_lt_of_lt hj)
  exact absurd h hpos.ne'

theorem HRgb.InOrder.le_size {img : HRgb} {colors : Nat → Nat → Colors} {size : Nat}
    (h : img.InOrder colors) (hp : BlockOf size img.data) :
    3 * (img.nHeight.toNat * img.nWidth.toNat) ≤ size := by
  rcases Nat.eq_zero_or_pos (img.nHeight.toNat * img.nWidth.toNat) with hzero | hpos
  · rw [hzero]
    exact Nat.zero_le size
  · have hh := Nat.pos_of_mul_pos_right hpos
    have hw := Nat.pos_of_mul_pos_left hpos
    have hlast := h (img.nHeight.toNat - 1) (by omega) (img.nWidth.toNat - 1) (by omega)
    have hroom := hlast.lt_size hp
    have hrows : (img.nHeight.toNat - 1 + 1) * img.nWidth.toNat =
        img.nHeight.toNat * img.nWidth.toNat := by rw [Nat.sub_add_cancel hh]
    rw [Nat.add_mul, Nat.one_mul] at hrows
    omega

theorem Stores.le_size {nWidth nHeight : UInt32} {colors : Nat → Nat → Colors}
    {o : Outcome HRgb} {size : Nat} (h : Stores nWidth nHeight colors o)
    (hblock : ∀ img, o = .ok img → BlockOf size img.data) :
    3 * (nHeight.toNat * nWidth.toNat) ≤ size := by
  obtain ⟨img, himg, rfl, rfl, horder⟩ := h
  exact horder.le_size (hblock img himg)

/-! ## NV21 -/

/-- What `FromNV21` computes for a pixel: the row of `y` is always the first one. -/
def nv21At (data : List Byte) (w h i j : Nat) : Colors :=
  let nvIndex := w * h + (i / 2 * w + j - j % 2)
  nv21Colors (data.getD j 0).toNat (data.getD nvIndex 0).toNat (data.getD (nvIndex + 1) 0).toNat

theorem index_eq (j k : Nat) :
    Int32.ofNat j * 3 + Int32.ofNat k = Int32.ofNat (3 * j + k) := by
  rw [Int32.ofNat_add, Int32.ofNat_mul, Int32.mul_comm]
  rfl

/-- Nothing has been stored behind the first row. -/
def FirstRowOnly (w : Nat) (p : Ptr) : Prop := ∀ k, 3 * w ≤ k → byteAt p k = none

theorem FirstRowOnly.store {w j c : Nat} {p p' : Ptr} {b : Byte} (h : FirstRowOnly w p)
    (hj : j < w) (hc : c < 3)
    (hs : Cxx.store p (Int32.ofNat j * 3 + Int32.ofNat c).toInt b = .ok p') :
    FirstRowOnly w p' := by
  intro k hk
  obtain ⟨buf, rfl, hz, -, rfl⟩ := store_eq_ok hs
  rw [index_eq] at hz ⊢
  have hle := toInt_ofNat_le (3 * j + c)
  rw [byteAt_set_of_ne (by omega)]
  exact h k hk

theorem FirstRowOnly.pixel {data : List Byte} {nvOff iWidth i : Int32} {w j : Nat} {p p' : Ptr}
    (h : FirstRowOnly w p) (hj : j < w)
    (hp : nv21Pixel data nvOff iWidth i (Int32.ofNat j) p = .ok p') : FirstRowOnly w p' := by
  obtain ⟨y, -, hp⟩ := Outcome.bind_eq_ok.mp hp
  obtain ⟨u, -, hp⟩ := Outcome.bind_eq_ok.mp hp
  obtain ⟨v, -, hp⟩ := Outcome.bind_eq_ok.mp hp
  obtain ⟨p₁, h1, hp⟩ := Outcome.bind_eq_ok.mp hp
  obtain ⟨p₂, h2, h3⟩ := Outcome.bind_eq_ok.mp hp
  exact ((h.store hj (by decide) h1).store hj (by decide) h2).store hj (by decide) h3

theorem fromNV21_firstRowOnly {available : Nat → Bool} {data : List Byte}
    {nWidth nHeight : UInt32} {img : HRgb} (hmem : available (nWidth * nHeight * 3).toNat)
    (h : fromNV21 available data nWidth nHeight = .ok img) :
    FirstRowOnly nWidth.toNat img.data := by
  rw [fromNV21, new_ok hmem, Outcome.ok_bind] at h
  obtain ⟨p, hp, h⟩ := Outcome.bind_eq_ok.mp h
  cases h
  exact forRange_rows_inv (FirstRowOnly nWidth.toNat) hp (fun k _ => byteAt_freshBlock _ k)
    fun _ j t t' hj ht ht' => ht.pixel (hj.trans_le (toNatClampNeg_le nWidth)) ht'

theorem fromNV21_stores {available : Nat → Bool} {data : List Byte} {nWidth nHeight : UInt32}
    {a b : Nat} (h : EvenSize nWidth nHeight data a b)
    (hmem : available (nWidth * nHeight * 3).toNat) :
    Stores nWidth nHeight (nv21At data nWidth.toNat nHeight.toNat)
        (fromNV21 available data nWidth nHeight) ↔
      nHeight.toNat * nWidth.toNat = 0 := by
  constructor
  · rintro ⟨img, himg, hw, hh, horder⟩
    by_contra hpos
    -- the second row begins right behind the first one
    have hheight := h.height
    have hrow : 1 < nHeight.toNat := by
      have hne : nHeight.toNat ≠ 0 := left_ne_zero_of_mul hpos
      omega
    have hcol : 0 < nWidth.toNat := Nat.pos_of_ne_zero (right_ne_zero_of_mul hpos)
    obtain ⟨hstored, -, -⟩ := horder 1 (hh ▸ hrow) 0 (hw ▸ hcol)
    rw [hw, Nat.one_mul, Nat.add_zero, fromNV21_firstRowOnly hmem himg _ (Nat.le_refl _)] at hstored
    cases hstored
  · intro hzero
    rw [fromNV21, new_ok hmem, Outcome.ok_bind]
    dsimp only
    rw [rows_noPixels hzero, Outcome.ok_bind]
    exact Stores.of_noPixels hzero _

/-! ## YUV420 -/

/-- `bgr[2]`, `bgr[1]` and `bgr[0]`, cut off to a byte. -/
def yuv420Colors (y : Int) (u v : Nat) : Colors where
  r := inRange ((yuv420Bgr y u v).getD 2 0)
  g := inRange ((yuv420Bgr y u v).getD 1 0)
  b := inRange ((yuv420Bgr y u v).getD 0 0)

/-- What `FromYuv420` computes for a pixel. -/
def yuv420At (data : List Byte) (w h i j : Nat) : Colors :=
  let idx := i / 2 * (w / 2) + j / 2
  yuv420Colors (data.getD (i * w + j) 0).toNat (data.getD (w * h + w * h / 4 + idx) 0).toNat
    (data.getD (w * h + idx) 0).toNat

section Yuv420

variable {available : Nat → Bool} {data : List Byte} {nWidth nHeight : UInt32} {a b i j : Nat}

theorem ofNat_group (hi : i < nHeight.toNat) (hj : j < nWidth.toNat)
    (hw : nWidth.toNat < 2 ^ 31) (hh : nHeight.toNat < 2 ^ 31) :
    Int32.ofNat i / 2 * (nWidth.toInt32 / 2) + Int32.ofNat j / 2 =
      Int32.ofNat (i / 2 * (nWidth.toNat / 2) + j / 2) := by
  rw [toInt32_eq, ofNat_half (hi.trans hh), ofNat_half (hj.trans hw), ofNat_half hw,
    Int32.ofNat_add, Int32.ofNat_mul]

theorem ofNat_pixel (i j : Nat) :
    Int32.ofNat i * nWidth.toInt32 + Int32.ofNat j = Int32.ofNat (i * nWidth.toNat + j) := by
  rw [toInt32_eq, Int32.ofNat_add, Int32.ofNat_mul]

theorem yuv420Pixel_eq (h : EvenSize nWidth nHeight data a b) (hfit : 12 * (b * a) < 2 ^ 31)
    (hi : i < nHeight.toNat) (hj : j < nWidth.toNat) (p : Ptr) :
    yuv420Pixel data (nWidth * nHeight).toInt32 nWidth.toInt32 (Int32.ofNat i) (Int32.ofNat j) p =
      storeTriple p (3 * (i * nWidth.toNat + j))
        (yuv420At data nWidth.toNat nHeight.toNat i j).bgr := by
  obtain ⟨hpix, hgroup⟩ := h.place hi hj
  obtain ⟨hw, hh⟩ := h.width_lt (by omega) (Nat.zero_lt_of_lt hgroup)
  have hlen := h.length
  have hhalf : nWidth.toNat / 2 = a := by
    have hwidth := h.width
    omega
  have hplane : nWidth.toNat * nHeight.toNat = 4 * (b * a) := by rw [Nat.mul_comm, h.pixels]
  have hquarter : ((4 * (b * a) : Nat) : Int) >>> 2 = (b * a : Nat) := by
    refine (Int.shiftRight_natCast _ 2).trans ?_
    rw [Nat.shiftRight_eq_div_pow, Nat.mul_div_cancel_left _ (by decide)]
  rw [yuv420Pixel]
  dsimp only
  rw [ofNat_group hi hj (by omega) hh, ofNat_pixel, h.mul_toInt (by omega), hquarter, hhalf,
    Int32.toInt_ofNat_of_lt (by omega), Int32.toInt_ofNat_of_lt (by omega)]
  rw [← Int.natCast_add, ← Int.natCast_add, ← Int.natCast_add, load_ok (by omega),
    Outcome.ok_bind, load_ok (by omega), Outcome.ok_bind, load_ok (by omega), Outcome.ok_bind]
  rw [forRange_three, index_eq, index_eq, index_eq, Int32.toInt_ofNat_of_lt (by omega),
    Int32.toInt_ofNat_of_lt (by omega), Int32.toInt_ofNat_of_lt (by omega), yuv420At, hplane, hhalf,
    Nat.mul_div_cancel_left (b * a) (show 0 < 4 by decide)]
  rfl

/-- What `FromYuv420` stores. -/
def yuv420Bytes (data : List Byte) (w h : Nat) : Nat → Triple :=
  rowMajor w fun i j => (yuv420At data w h i j).bgr

theorem Written.yuv420Pixel (h : EvenSize nWidth nHeight data a b) (hfit : 12 * (b * a) < 2 ^ 31)
    (hi : i < nHeight.toNat) (hj : j < nWidth.toNat) {p : Ptr}
    (hp : Written (4 * (b * a)) (yuv420Bytes data nWidth.toNat nHeight.toNat)
      (i * nWidth.toNat + j) p) :
    ∃ p', Image.yuv420Pixel data (nWidth * nHeight).toInt32 nWidth.toInt32 (Int32.ofNat i)
        (Int32.ofNat j) p = .ok p' ∧
      Written (4 * (b * a)) (yuv420Bytes data nWidth.toNat nHeight.toNat)
        (i * nWidth.toNat + j + 1) p' := by
  obtain ⟨p', hstore, hp'⟩ := hp.store (h.place hi hj).1
  rw [yuv420Bytes, rowMajor_at hj] at hstore
  exact ⟨p', by rw [yuv420Pixel_eq h hfit hi hj, hstore], hp'⟩

theorem fromYuv420_written (h : EvenSize nWidth nHeight data a b) (hfit : 12 * (b * a) < 2 ^ 31)
    (hpos : 0 < b * a) (hmem : available (nWidth * nHeight * 3).toNat) :
    ∃ p, fromYuv420 available data nWidth nHeight = .ok ⟨nWidth, nHeight, p⟩ ∧
      Written (4 * (b * a)) (yuv420Bytes data nWidth.toNat nHeight.toNat) (4 * (b * a)) p := by
  obtain ⟨hw, hh⟩ := h.width_lt (by omega) hpos
  have hfresh := Written.fresh (4 * (b * a)) (yuv420Bytes data nWidth.toNat nHeight.toNat)
  rw [← h.size_toNat (by omega)] at hfresh
  obtain ⟨p, hp, hwritten⟩ := forRange_rows _ hfresh fun i j p hi hj hp =>
    hp.yuv420Pixel h hfit hi hj
  rw [h.pixels] at hwritten
  refine ⟨p, ?_, hwritten⟩
  rw [fromYuv420, new_ok hmem, Outcome.ok_bind]
  dsimp only
  rw [toNatClampNeg_toInt32 (by omega), toNatClampNeg_toInt32 hh, hp]
  rfl

theorem yuv420Pixel_block {size : Nat} {len iWidth i j : Int32} {p p' : Ptr}
    (h : BlockOf size p) (hp : yuv420Pixel data len iWidth i j p = .ok p') :
    BlockOf size p' := by
  obtain ⟨v, -, hp⟩ := Outcome.bind_eq_ok.mp hp
  obtain ⟨u, -, hp⟩ := Outcome.bind_eq_ok.mp hp
  obtain ⟨y, -, hp⟩ := Outcome.bind_eq_ok.mp hp
  exact forRange_inv (fun _ => BlockOf size) hp h fun k t t' _ ht => ht.store

theorem fromYuv420_block {img : HRgb} (hmem : available (nWidth * nHeight * 3).toNat)
    (h : fromYuv420 available data nWidth nHeight = .ok img) :
    BlockOf (nWidth * nHeight * 3).toNat img.data := by
  rw [fromYuv420, new_ok hmem, Outcome.ok_bind] at h
  obtain ⟨p, hp, h⟩ := Outcome.bind_eq_ok.mp h
  cases h
  exact forRange_rows_inv (BlockOf _) hp ⟨_, rfl, freshBlock_length _⟩
    fun i j t t' _ ht => yuv420Pixel_block ht

/-- From `2 ^ 31` bytes on the index of the last one is negative. -/
theorem fromYuv420_overflow (h : EvenSize nWidth nHeight data a b) (hfit : 12 * (b * a) < 2 ^ 32)
    (hover : 2 ^ 31 ≤ 12 * (b * a)) (hmem : available (nWidth * nHeight * 3).toNat)
    (img : HRgb) :
    fromYuv420 available data nWidth nHeight ≠ .ok img := by
  intro himg
  obtain ⟨hw, hh⟩ := h.width_lt hfit (by omega)
  obtain ⟨hi, hj, hlast⟩ := h.last (by omega)
  rw [fromYuv420, new_ok hmem, Outcome.ok_bind] at himg
  obtain ⟨p, hp, -⟩ := Outcome.bind_eq_ok.mp himg
  rw [toNatClampNeg_toInt32 (by omega), toNatClampNeg_toInt32 hh] at hp
  obtain ⟨t, t', hpixel⟩ := forRange_rows_iteration hp hi hj
  obtain ⟨v, -, hpixel⟩ := Outcome.bind_eq_ok.mp hpixel
  obtain ⟨u, -, hpixel⟩ := Outcome.bind_eq_ok.mp hpixel
  obtain ⟨y, -, hpixel⟩ := Outcome.bind_eq_ok.mp hpixel
  obtain ⟨q, q', hstore⟩ := forRange_iteration hpixel (show 2 < 3 by decide)
  obtain ⟨buf, -, hz, -⟩ := store_eq_ok hstore
  rw [ofNat_pixel, index_eq, hlast] at hz
  exact absurd hz (Int.not_le.mpr (toInt_ofNat_neg (by omega) (by omega)))

/-- Red is at its place only where it is the same as blue. -/
theorem fromYuv420_stores (h : EvenSize nWidth nHeight data a b)
    (hmem : available (nWidth * nHeight * 3).toNat) :
    Stores nWidth nHeight (yuv420At data nWidth.toNat nHeight.toNat)
        (fromYuv420 available data nWidth nHeight) ↔
      3 * (nHeight.toNat * nWidth.toNat) < 2 ^ 31 ∧
        ∀ i < nHeight.toNat, ∀ j < nWidth.toNat,
          (yuv420At data nWidth.toNat nHeight.toNat i j).r =
            (yuv420At data nWidth.toNat nHeight.toNat i j).b := by
  have hpixels := h.pixels
  rcases Nat.eq_zero_or_pos (b * a) with hzero | hpos
  · have hnone : nHeight.toNat * nWidth.toNat = 0 := by omega
    refine iff_of_true ?_ ⟨by omega, fun i hi j hj => ?_⟩
    · rw [fromYuv420, new_ok hmem, Outcome.ok_bind]
      dsimp only
      rw [rows_noPixels hnone, Outcome.ok_bind]
      exact Stores.of_noPixels hnone _
    · have hpos := Nat.mul_pos (Nat.zero_lt_of_lt hi) (Nat.zero_lt_of_lt hj)
      omega
  constructor
  · intro hstores
    have hroom := hstores.le_size fun _ => fromYuv420_block hmem
    have hblock := (nWidth * nHeight * 3).toNat_lt
    obtain ⟨img, himg, rfl, rfl, horder⟩ := hstores
    have hfit : 12 * (b * a) < 2 ^ 31 := by
      by_contra hover
      exact fromYuv420_overflow h (by omega) (by omega) hmem img himg
    obtain ⟨p, hp, hwritten⟩ := fromYuv420_written h hfit hpos hmem
    have hdata : img.data = p := congrArg HRgb.data (Outcome.ok.inj (himg.symm.trans hp))
    refine ⟨by omega, fun i hi j hj => ?_⟩
    have hat := hwritten.pixel _ (h.place hi hj).1
    rw [yuv420Bytes, rowMajor_at hj, ← hdata] at hat
    exact congrArg Prod.fst ((horder i hi j hj).unique hat)
  · rintro ⟨hsize, hsame⟩
    obtain ⟨p, hp, hwritten⟩ := fromYuv420_written h (by omega) hpos hmem
    refine ⟨_, hp, rfl, rfl, fun i hi j hj => ?_⟩
    have hat := hwritten.pixel _ (h.place hi hj).1
    rw [yuv420Bytes, rowMajor_at hj, Colors.bgr, hsame i hi j hj] at hat
    rwa [Colors.rgb, hsame i hi j hj]

end Yuv420

/-! ## YUV420SP -/

/-- What `FromYuv420sp` computes for a pixel. -/
def yuv420spAt (data : List Byte) (w h i j : Nat) : Colors :=
  let uIndex := w * h + (j / 2 + i / 2 * (w / 2)) * 2
  yuv420spColors (data.getD (i * w + j) 0).toNat (data.getD uIndex 0).toNat
    (data.getD (uIndex + 1) 0).toNat

section Yuv420sp

variable {available : Nat → Bool} {data : List Byte} {nWidth nHeight : UInt32} {a b i j : Nat}

theorem yuv420spPixel_eq (h : EvenSize nWidth nHeight data a b) (hfit : 12 * (b * a) < 2 ^ 32)
    (hi : i < nHeight.toNat) (hj : j < nWidth.toNat) (p : Ptr) :
    yuv420spPixel data (nWidth * nHeight).toNat (nWidth.toInt32 / 2) (Int32.ofNat i)
        (Int32.ofNat j)
        ⟨p, 3 * (i * nWidth.toNat + j), i * nWidth.toNat + j⟩ =
      (do
        let p ← storeTriple p (3 * (i * nWidth.toNat + j))
          (yuv420spAt data nWidth.toNat nHeight.toNat i j).rgb
        return ⟨p, 3 * (i * nWidth.toNat + j + 1), i * nWidth.toNat + j + 1⟩) := by
  obtain ⟨hpix, hgroup⟩ := h.place hi hj
  obtain ⟨hw, hh⟩ := h.width_lt hfit (Nat.zero_lt_of_lt hgroup)
  have hlen := h.length
  have hhalf : nWidth.toNat / 2 = a := by
    have hwidth := h.width
    omega
  have hplane : nWidth.toNat * nHeight.toNat = 4 * (b * a) := by rw [Nat.mul_comm, h.pixels]
  have hu : (Int32.ofNat j / 2 + Int32.ofNat i / 2 * (nWidth.toInt32 / 2)) * 2 =
      Int32.ofNat ((j / 2 + i / 2 * a) * 2) := by
    rw [toInt32_eq, ofNat_half (by omega), ofNat_half (by omega), ofNat_half (by omega), hhalf,
      Int32.ofNat_mul, Int32.ofNat_add, Int32.ofNat_mul]
    rfl
  have hv : Int32.ofNat ((j / 2 + i / 2 * a) * 2) + 1 = Int32.ofNat ((j / 2 + i / 2 * a) * 2 + 1) :=
    (Int32.ofNat_add _ 1).symm
  rw [yuv420spPixel, hu, hv, h.mul_toNat hfit, yuv420spAt, hplane, hhalf]
  dsimp only
  rw [Int32.toInt_ofNat_of_lt (by omega), Int32.toInt_ofNat_of_lt (by omega), ← Int.natCast_add,
    ← Int.natCast_add, load_ok (by omega), Outcome.ok_bind, load_ok (by omega), Outcome.ok_bind,
    load_ok (by omega), Outcome.ok_bind, storeTriple]
  simp only [Outcome.bind_assoc]
  rfl

/-- What `FromYuv420sp` stores. -/
def yuv420spBytes (data : List Byte) (w h : Nat) : Nat → Triple :=
  rowMajor w fun i j => (yuv420spAt data w h i j).rgb

/-- The running pointers after `k` pixels. -/
structure SpWritten (n : Nat) (px : Nat → Triple) (k : Nat) (s : SpState) : Prop where
  written : Written n px k s.p
  rgbPixel : s.rgbPixel = 3 * k
  yuvPixel : s.yuvPixel = k

theorem SpWritten.pixel (h : EvenSize nWidth nHeight data a b) (hfit : 12 * (b * a) < 2 ^ 32)
    (hi : i < nHeight.toNat) (hj : j < nWidth.toNat) {s : SpState}
    (hs : SpWritten (4 * (b * a)) (yuv420spBytes data nWidth.toNat nHeight.toNat)
      (i * nWidth.toNat + j) s) :
    ∃ s', yuv420spPixel data (nWidth * nHeight).toNat (nWidth.toInt32 / 2) (Int32.ofNat i)
        (Int32.ofNat j) s = .ok s' ∧
      SpWritten (4 * (b * a)) (yuv420spBytes data nWidth.toNat nHeight.toNat)
        (i * nWidth.toNat + j + 1) s' := by
  obtain ⟨hwritten, hrgb, hyuv⟩ := hs
  obtain ⟨p', hstore, hp'⟩ := hwritten.store (h.place hi hj).1
  rw [yuv420spBytes, rowMajor_at hj] at hstore
  obtain ⟨p, rgbPixel, yuvPixel⟩ := s
  dsimp only at hrgb hyuv
  subst hrgb hyuv
  refine ⟨⟨p', 3 * (i * nWidth.toNat + j + 1), i * nWidth.toNat + j + 1⟩, ?_, ⟨hp', rfl, rfl⟩⟩
  rw [yuv420spPixel_eq h hfit hi hj, hstore]
  rfl

theorem fromYuv420sp_written (h : EvenSize nWidth nHeight data a b) (hfit : 12 * (b * a) < 2 ^ 32)
    (hpos : 0 < b * a) (hmem : available (nWidth * nHeight * 3).toNat) :
    ∃ p, fromYuv420sp available data nWidth nHeight = .ok ⟨nWidth, nHeight, p⟩ ∧
      Written (4 * (b * a)) (yuv420spBytes data nWidth.toNat nHeight.toNat) (4 * (b * a)) p := by
  obtain ⟨hw, hh⟩ := h.width_lt hfit hpos
  have hfresh := Written.fresh (4 * (b * a)) (yuv420spBytes data nWidth.toNat nHeight.toNat)
  rw [← h.size_toNat hfit] at hfresh
  have hstart : SpWritten (4 * (b * a)) (yuv420spBytes data nWidth.toNat nHeight.toNat) 0
      ⟨some (freshBlock (nWidth * nHeight * 3).toNat), 0, 0⟩ := ⟨hfresh, rfl, rfl⟩
  obtain ⟨s, hs, hwritten, -, -⟩ := forRange_rows _ hstart fun i j s hi hj hs =>
    hs.pixel h hfit hi hj
  rw [h.pixels] at hwritten
  refine ⟨s.p, ?_, hwritten⟩
  rw [fromYuv420sp, new_ok hmem, Outcome.ok_bind]
  dsimp only
  rw [toNatClampNeg_toInt32 (by omega), toNatClampNeg_toInt32 hh, hs]
  rfl

theorem yuv420spPixel_block {size uHeader : Nat} {halfWidth j i : Int32} {s s' : SpState}
    (h : BlockOf size s.p) (hs : yuv420spPixel data uHeader halfWidth j i s = .ok s') :
    BlockOf size s'.p := by
  obtain ⟨y, -, hs⟩ := Outcome.bind_eq_ok.mp hs
  obtain ⟨u, -, hs⟩ := Outcome.bind_eq_ok.mp hs
  obtain ⟨v, -, hs⟩ := Outcome.bind_eq_ok.mp hs
  obtain ⟨p₁, h1, hs⟩ := Outcome.bind_eq_ok.mp hs
  obtain ⟨p₂, h2, hs⟩ := Outcome.bind_eq_ok.mp hs
  obtain ⟨p₃, h3, hs⟩ := Outcome.bind_eq_ok.mp hs
  cases hs
  exact ((h.store h1).store h2).store h3

theorem fromYuv420sp_block {img : HRgb} (hmem : available (nWidth * nHeight * 3).toNat)
    (h : fromYuv420sp available data nWidth nHeight = .ok img) :
    BlockOf (nWidth * nHeight * 3).toNat img.data := by
  rw [fromYuv420sp, new_ok hmem, Outcome.ok_bind] at h
  obtain ⟨s, hs, h⟩ := Outcome.bind_eq_ok.mp h
  cases h
  exact forRange_rows_inv (fun s : SpState => BlockOf _ s.p) hs ⟨_, rfl, freshBlock_length _⟩
    fun i j t t' _ ht => yuv420spPixel_block ht

theorem fromYuv420sp_stores (h : EvenSize nWidth nHeight data a b)
    (hmem : available (nWidth * nHeight * 3).toNat) :
    Stores nWidth nHeight (yuv420spAt data nWidth.toNat nHeight.toNat)
        (fromYuv420sp available data nWidth nHeight) ↔
      3 * (nHeight.toNat * nWidth.toNat) < 2 ^ 32 := by
  have hpixels := h.pixels
  constructor
  · intro hstores
    have hroom := hstores.le_size fun _ => fromYuv420sp_block hmem
    have hblock := (nWidth * nHeight * 3).toNat_lt
    omega
  · intro hsize
    rcases Nat.eq_zero_or_pos (b * a) with hzero | hpos
    · have hnone : nHeight.toNat * nWidth.toNat = 0 := by omega
      rw [fromYuv420sp, new_ok hmem, Outcome.ok_bind]
      dsimp only
      rw [rows_noPixels hnone, Outcome.ok_bind]
      exact Stores.of_noPixels hnone _
    · obtain ⟨p, hp, hwritten⟩ := fromYuv420sp_written h (by omega) hpos hmem
      refine ⟨_, hp, rfl, rfl, fun i hi j hj => ?_⟩
      have hat := hwritten.pixel _ (h.place hi hj).1
      rwa [yuv420spBytes, rowMajor_at hj] at hat

end Yuv420sp

end Image
end Huicpp
