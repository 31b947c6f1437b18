import Mathlib
import Huicpp.Cxx.Block
import Huicpp.Cxx.Bytes
import Huicpp.Cxx.ForLoop

/-!
# Image.HRgb

An image of three bytes a pixel, and the three routines that make one from YUV data. Sizes and
indices are computed in 32 bits, colours as integers that are cut off to a byte at the end.

The colours of a pixel are those that the routine computes for it; where it stores them is what the
routines differ in.
-/

namespace Huicpp
namespace Image

open Cxx

/-- The red, green and blue value of a pixel. -/
structure Colors where
  r : Byte
  g : Byte
  b : Byte
  deriving DecidableEq, Repr

structure HRgb where
  nWidth : UInt32
  nHeight : UInt32
  data : Ptr

namespace HRgb

def size (s : HRgb) : UInt32 := s.nWidth * s.nHeight * 3

/-- The constructor without a buffer of the caller's. -/
def new (available : Nat → Bool) (nWidth nHeight : UInt32) : Outcome HRgb :=
  match malloc available (nWidth * nHeight * 3).toNat with
  | none => .throws .badAlloc
  | some size => .ok ⟨nWidth, nHeight, some (freshBlock size)⟩

end HRgb

def clamp (x : Int) : Byte :=
  if x > 255 then 255 else if x < 0 then 0 else BitVec.ofInt 8 x

/-! ## NV21 -/

def nv21Colors (y u v : Int) : Colors where
  r := clamp (y + (351 * (v - 128)) >>> 8)
  g := clamp (y - (179 * (v - 128) + 86 * (u - 128)) >>> 8)
  b := clamp (y + (443 * (u - 128)) >>> 8)

section NV21

variable (data : List Byte) (nvOff iWidth : Int32)

/-- `y_index` starts at 0 in every row, as `j` does. -/
def nv21Pixel (i j : Int32) (p : Ptr) : Outcome Ptr := do
  let yIndex := j
  let nvIndex := i / 2 * iWidth + j - j % 2
  let y ← load data yIndex.toInt
  let u ← load data (nvOff + nvIndex).toInt
  let v ← load data (nvOff + nvIndex + 1).toInt
  let c := nv21Colors y.toNat u.toNat v.toNat
  let p ← store p (yIndex * 3 + 0).toInt c.b
  let p ← store p (yIndex * 3 + 1).toInt c.g
  store p (yIndex * 3 + 2).toInt c.r

end NV21

def fromNV21 (available : Nat → Bool) (data : List Byte) (nWidth nHeight : UInt32) :
    Outcome HRgb := do
  let res ← HRgb.new available nWidth nHeight
  let nvOff := (res.nWidth * res.nHeight).toInt32
  let iWidth := nWidth.toInt32
  let iHeight := nHeight.toInt32
  let p ← forRange
    (fun i => forRange
      (fun j => nv21Pixel data nvOff iWidth (Int32.ofNat i) (Int32.ofNat j))
      iWidth.toNatClampNeg)
    iHeight.toNatClampNeg res.data
  return { res with data := p }

/-! ## YUV420 -/

def tableFv1 : List Int :=
  [-180, -179, -177, -176, -174, -173, -172, -170, -169, -167, -166, -165, -163, -162, -160, -159,
   -158, -156, -155, -153, -152, -151, -149, -148, -146, -145, -144, -142, -141, -139, -138, -137,
   -135, -134, -132, -131, -130, -128, -127, -125, -124, -123, -121, -120, -118, -117, -115, -114,
   -113, -111, -110, -108, -107, -106, -104, -103, -101, -100, -99, -97, -96, -94, -93, -92, -90,
   -89, -87, -86, -85, -83, -82, -80, -79, -78, -76, -75, -73, -72, -71, -69, -68, -66, -65, -64,
   -62, -61, -59, -58, -57, -55, -54, -52, -51, -50, -48, -47, -45, -44, -43, -41, -40, -38, -37,
   -36, -34, -33, -31, -30, -29, -27, -26, -24, -23, -22, -20, -19, -17, -16, -15, -13, -12, -10,
   -9, -8, -6, -5, -3, -2, 0, 1, 2, 4, 5, 7, 8, 9, 11, 12, 14, 15, 16, 18, 19, 21, 22, 23, 25, 26,
   28, 29, 30, 32, 33, 35, 36, 37, 39, 40, 42, 43, 44, 46, 47, 49, 50, 51, 53, 54, 56, 57, 58, 60,
   61, 63, 64, 65, 67, 68, 70, 71, 72, 74, 75, 77, 78, 79, 81, 82, 84, 85, 86, 88, 89, 91, 92, 93,
   95, 96, 98, 99, 100, 102, 103, 105, 106, 107, 109, 110, 112, 113, 114, 116, 117, 119, 120, 122,
   123, 124, 126, 127, 129, 130, 131, 133, 134, 136, 137, 138, 140, 141, 143, 144, 145, 147, 148,
   150, 151, 152, 154, 155, 157, 158, 159, 161, 162, 164, 165, 166, 168, 169, 171, 172, 173, 175,
   176, 178]

def tableFv2 : List Int :=
  [-92, -91, -91, -90, -89, -88, -88, -87, -86, -86, -85, -84, -83, -83, -82, -81, -81, -80, -79,
   -78, -78, -77, -76, -76, -75, -74, -73, -73, -72, -71, -71, -70, -69, -68, -68, -67, -66, -66,
   -65, -64, -63, -63, -62, -61, -61, -60, -59, -58, -58, -57, -56, -56, -55, -54, -53, -53, -52,
   -51, -51, -50, -49, -48, -48, -47, -46, -46, -45, -44, -43, -43, -42, -41, -41, -40, -39, -38,
   -38, -37, -36, -36, -35, -34, -33, -33, -32, -31, -31, -30, -29, -28, -28, -27, -26, -26, -25,
   -24, -23, -23, -22, -21, -21, -20, -19, -18, -18, -17, -16, -16, -15, -14, -13, -13, -12, -11,
   -11, -10, -9, -8, -8, -7, -6, -6, -5, -4, -3, -3, -2, -1, 0, 0, 1, 2, 2, 3, 4, 5, 5, 6, 7, 7, 8,
   9, 10, 10, 11, 12, 12, 13, 14, 15, 15, 16, 17, 17, 18, 19, 20, 20, 21, 22, 22, 23, 24, 25, 25,
   26, 27, 27, 28, 29, 30, 30, 31, 32, 32, 33, 34, 35, 35, 36, 37, 37, 38, 39, 40, 40, 41, 42, 42,
   43, 44, 45, 45, 46, 47, 47, 48, 49, 50, 50, 51, 52, 52, 53, 54, 55, 55, 56, 57, 57, 58, 59, 60,
   60, 61, 62, 62, 63, 64, 65, 65, 66, 67, 67, 68, 69, 70, 70, 71, 72, 72, 73, 74, 75, 75, 76, 77,
   77, 78, 79, 80, 80, 81, 82, 82, 83, 84, 85, 85, 86, 87, 87, 88, 89, 90, 90]

def tableFu1 : List Int :=
  [-44, -44, -44, -43, -43, -43, -42, -42, -42, -41, -41, -41, -40, -40, -40, -39, -39, -39, -38,
   -38, -38, -37, -37, -37, -36, -36, -36, -35, -35, -35, -34, -34, -33, -33, -33, -32, -32, -32,
   -31, -31, -31, -30, -30, -30, -29, -29, -29, -28, -28, -28, -27, -27, -27, -26, -26, -26, -25,
   -25, -25, -24, -24, -24, -23, -23, -22, -22, -22, -21, -21, -21, -20, -20, -20, -19, -19, -19,
   -18, -18, -18, -17, -17, -17, -16, -16, -16, -15, -15, -15, -14, -14, -14, -13, -13, -13, -12,
   -12, -11, -11, -11, -10, -10, -10, -9, -9, -9, -8, -8, -8, -7, -7, -7, -6, -6, -6, -5, -5, -5,
   -4, -4, -4, -3, -3, -3, -2, -2, -2, -1, -1, 0, 0, 0, 1, 1, 1, 2, 2, 2, 3, 3, 3, 4, 4, 4, 5, 5, 5,
   6, 6, 6, 7, 7, 7, 8, 8, 8, 9, 9, 9, 10, 10, 11, 11, 11, 12, 12, 12, 13, 13, 13, 14, 14, 14, 15,
   15, 15, 16, 16, 16, 17, 17, 17, 18, 18, 18, 19, 19, 19, 20, 20, 20, 21, 21, 22, 22, 22, 23, 23,
   23, 24, 24, 24, 25, 25, 25, 26, 26, 26, 27, 27, 27, 28, 28, 28, 29, 29, 29, 30, 30, 30, 31, 31,
   31, 32, 32, 33, 33, 33, 34, 34, 34, 35, 35, 35, 36, 36, 36, 37, 37, 37, 38, 38, 38, 39, 39, 39,
   40, 40, 40, 41, 41, 41, 42, 42, 42, 43, 43]

def tableFu2 : List Int :=
  [-227, -226, -224, -222, -220, -219, -217, -215, -213, -212, -210, -208, -206, -204, -203, -201,
   -199, -197, -196, -194, -192, -190, -188, -187, -185, -183, -181, -180, -178, -176, -174, -173,
   -171, -169, -167, -165, -164, -162, -160, -158, -157, -155, -153, -151, -149, -148, -146, -144,
   -142, -141, -139, -137, -135, -134, -132, -130, -128, -126, -125, -123, -121, -119, -118, -116,
   -114, -112, -110, -109, -107, -105, -103, -102, -100, -98, -96, -94, -93, -91, -89, -87, -86,
   -84, -82, -80, -79, -77, -75, -73, -71, -70, -68, -66, -64, -63, -61, -59, -57, -55, -54, -52,
   -50, -48, -47, -45, -43, -41, -40, -38, -36, -34, -32, -31, -29, -27, -25, -24, -22, -20, -18,
   -16, -15, -13, -11, -9, -8, -6, -4, -2, 0, 1, 3, 5, 7, 8, 10, 12, 14, 15, 17, 19, 21, 23, 24, 26,
   28, 30, 31, 33, 35, 37, 39, 40, 42, 44, 46, 47, 49, 51, 53, 54, 56, 58, 60, 62, 63, 65, 67, 69,
   70, 72, 74, 76, 78, 79, 81, 83, 85, 86, 88, 90, 92, 93, 95, 97, 99, 101, 102, 104, 106, 108, 109,
   111, 113, 115, 117, 118, 120, 122, 124, 125, 127, 129, 131, 133, 134, 136, 138, 140, 141, 143,
   145, 147, 148, 150, 152, 154, 156, 157, 159, 161, 163, 164, 166, 168, 170, 172, 173, 175, 177,
   179, 180, 182, 184, 186, 187, 189, 191, 193, 195, 196, 198, 200, 202, 203, 205, 207, 209, 211,
   212, 214, 216, 218, 219, 221, 223, 225]

/-- `bgr[0]`, `bgr[1]` and `bgr[2]`. -/
def yuv420Bgr (y : Int) (u v : Nat) : List Int :=
  let rdif := tableFv1.getD v 0
  let invgdif := tableFu1.getD u 0 + tableFv2.getD v 0
  let bdif := tableFu2.getD u 0
  [y + bdif, y - invgdif, y + rdif]

/-- What is stored for a component. -/
def inRange (x : Int) : Byte :=
  if x ≥ 0 ∧ x ≤ 255 then BitVec.ofInt 8 x else if x < 0 then 0 else 255

section Yuv420

variable (data : List Byte) (len iWidth : Int32)

/-- `vData` begins behind the `len` bytes of `yData`, `uData` a quarter of it further. -/
def yuv420Pixel (i j : Int32) (p : Ptr) : Outcome Ptr := do
  let yIdx := i * iWidth + j
  let vIdx := i / 2 * (iWidth / 2) + j / 2
  let uIdx := vIdx
  let v ← load data (len.toInt + vIdx.toInt)
  let u ← load data (len.toInt + len.toInt >>> 2 + uIdx.toInt)
  let y ← load data yIdx.toInt
  let bgr := yuv420Bgr y.toNat u.toNat v.toNat
  forRange
    (fun k p => store p ((i * iWidth + j) * 3 + Int32.ofNat k).toInt (inRange (bgr.getD k 0)))
    3 p

end Yuv420

def fromYuv420 (available : Nat → Bool) (data : List Byte) (nWidth nHeight : UInt32) :
    Outcome HRgb := do
  let res ← HRgb.new available nWidth nHeight
  let len := (res.nWidth * res.nHeight).toInt32
  let iWidth := nWidth.toInt32
  let iHeight := nHeight.toInt32
  let p ← forRange
    (fun i => forRange
      (fun j => yuv420Pixel data len iWidth (Int32.ofNat i) (Int32.ofNat j))
      iWidth.toNatClampNeg)
    iHeight.toNatClampNeg res.data
  return { res with data := p }

/-! ## YUV420SP -/

def yuv420spColors (y u v : Int) : Colors where
  r := clamp (y + (360 * (v - 128)) >>> 8)
  g := clamp (y - (88 * (u - 128) + 184 * (v - 128)) >>> 8)
  b := clamp (y + (455 * (u - 128)) >>> 8)

/-- The running pointers, counted from the starts of their blocks. -/
structure SpState where
  p : Ptr
  rgbPixel : Nat
  yuvPixel : Nat

section Yuv420sp

variable (data : List Byte) (uHeader : Nat) (halfWidth : Int32)

def yuv420spPixel (j i : Int32) (s : SpState) : Outcome SpState := do
  let y ← load data s.yuvPixel
  let u ← load data (uHeader + ((i / 2 + j / 2 * halfWidth) * 2).toInt)
  let v ← load data (uHeader + ((i / 2 + j / 2 * halfWidth) * 2 + 1).toInt)
  let c := yuv420spColors y.toNat u.toNat v.toNat
  let p ← store s.p s.rgbPixel c.r
  let p ← store p (s.rgbPixel + 1 : Nat) c.g
  let p ← store p (s.rgbPixel + 2 : Nat) c.b
  return ⟨p, s.rgbPixel + 3, s.yuvPixel + 1⟩

end Yuv420sp

def fromYuv420sp (available : Nat → Bool) (data : List Byte) (nWidth nHeight : UInt32) :
    Outcome HRgb := do
  let res ← HRgb.new available nWidth nHeight
  let uHeader := (nWidth * nHeight).toNat
  let iWidth := nWidth.toInt32
  let iHeight := nHeight.toInt32
  let halfWidth := iWidth / 2
  let s ← forRange
    (fun j => forRange
      (fun i => yuv420spPixel data uHeader halfWidth (Int32.ofNat j) (Int32.ofNat i))
      iWidth.toNatClampNeg)
    iHeight.toNatClampNeg ⟨res.data, 0, 0⟩
  return { res with data := s.p }

end Image
end Huicpp
