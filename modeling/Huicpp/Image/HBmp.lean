import Mathlib
import Huicpp.Image.HRgb

/-!
# Image.HBmp

A bitmap: the two headers and a pointer to the pixels. The headers are read from a file as they are,
so that the sizes in them need not agree with each other or with the memory behind the pointer.
-/

namespace Huicpp
namespace Image

open Cxx

inductive BmpRet where
  | ok
  | invlPara
  | sysFailed
  | srcErr
  | errStatus
  | memoryOut
  deriving DecidableEq, Repr

structure BmpFileHeader where
  bfType : UInt16
  bfSize : UInt32
  bfReserved1 : UInt16
  bfReserved2 : UInt16
  bfOffBits : UInt32
  deriving DecidableEq

structure BmpInfoHeader where
  biSize : UInt32
  biWidth : Int32
  biHeight : Int32
  biPlanes : UInt16
  biBitCount : UInt16
  biCompression : UInt32
  biSizeImage : UInt32
  biXPelsPerMeter : Int32
  biYPelsPerMeter : Int32
  biClrUsed : UInt32
  biClrImportant : UInt32
  deriving DecidableEq

structure HBmp where
  fileHeader : BmpFileHeader
  infoHeader : BmpInfoHeader
  data : Ptr

def sizeofFileHeader : Nat := 14
def sizeofInfoHeader : Nat := 40

/-- The number in `k` bytes from `o` on of a header that was zero before `bytes` were read into
it. -/
def fieldAt (bytes : List Byte) (o k : Nat) : Nat :=
  leNat ((List.range k).map fun i => bytes.getD (o + i) 0)

def BmpFileHeader.read (bytes : List Byte) : BmpFileHeader where
  bfType := UInt16.ofNat (fieldAt bytes 0 2)
  bfSize := UInt32.ofNat (fieldAt bytes 2 4)
  bfReserved1 := UInt16.ofNat (fieldAt bytes 6 2)
  bfReserved2 := UInt16.ofNat (fieldAt bytes 8 2)
  bfOffBits := UInt32.ofNat (fieldAt bytes 10 4)

def BmpInfoHeader.read (bytes : List Byte) : BmpInfoHeader where
  biSize := UInt32.ofNat (fieldAt bytes 0 4)
  biWidth := Int32.ofNat (fieldAt bytes 4 4)
  biHeight := Int32.ofNat (fieldAt bytes 8 4)
  biPlanes := UInt16.ofNat (fieldAt bytes 12 2)
  biBitCount := UInt16.ofNat (fieldAt bytes 14 2)
  biCompression := UInt32.ofNat (fieldAt bytes 16 4)
  biSizeImage := UInt32.ofNat (fieldAt bytes 20 4)
  biXPelsPerMeter := Int32.ofNat (fieldAt bytes 24 4)
  biYPelsPerMeter := Int32.ofNat (fieldAt bytes 28 4)
  biClrUsed := UInt32.ofNat (fieldAt bytes 32 4)
  biClrImportant := UInt32.ofNat (fieldAt bytes 36 4)

/-- The bytes of the packed header. -/
def BmpFileHeader.write (h : BmpFileHeader) : List Byte :=
  leBytes 2 h.bfType.toNat ++ leBytes 4 h.bfSize.toNat ++ leBytes 2 h.bfReserved1.toNat ++
    leBytes 2 h.bfReserved2.toNat ++ leBytes 4 h.bfOffBits.toNat

def BmpInfoHeader.write (h : BmpInfoHeader) : List Byte :=
  leBytes 4 h.biSize.toNat ++ leBytes 4 h.biWidth.toUInt32.toNat ++
    leBytes 4 h.biHeight.toUInt32.toNat ++ leBytes 2 h.biPlanes.toNat ++
    leBytes 2 h.biBitCount.toNat ++ leBytes 4 h.biCompression.toNat ++
    leBytes 4 h.biSizeImage.toNat ++ leBytes 4 h.biXPelsPerMeter.toUInt32.toNat ++
    leBytes 4 h.biYPelsPerMeter.toUInt32.toNat ++ leBytes 4 h.biClrUsed.toNat ++
    leBytes 4 h.biClrImportant.toNat

/-- What `read` gives for a request of `size` bytes: a number of bytes, or a failure. -/
structure ReadAnswer (size : Nat) where
  bytes : Option (List Byte)
  le : ∀ bs ∈ bytes, bs.length ≤ size

namespace ReadAnswer

variable {size : Nat}

def content (a : ReadAnswer size) : List Byte := a.bytes.getD []

/-- The result, as an `int`. -/
def ret (a : ReadAnswer size) : Int32 :=
  match a.bytes with
  | none => -1
  | some bs => Int32.ofNat bs.length

end ReadAnswer

/-- What the system answers to `ReadFromFile`. `pixels` is what it answers to a request of so many
bytes. -/
structure FileAnswers where
  nameEmpty : Bool
  «exists» : Bool
  opened : Bool
  fileHeader : ReadAnswer sizeofFileHeader
  infoHeader : ReadAnswer sizeofInfoHeader
  pixels : (size : Nat) → ReadAnswer size

namespace HBmp

def colorBitCount : UInt32 := 24

def zeroed : HBmp where
  fileHeader := BmpFileHeader.read []
  infoHeader := BmpInfoHeader.read []
  data := none

def bytesPerLine (nWidth nBitCount : UInt32) : UInt32 := (nWidth * nBitCount + 31) / 32 * 4

def width (s : HBmp) : UInt32 := s.infoHeader.biWidth.toUInt32
def height (s : HBmp) : UInt32 := s.infoHeader.biHeight.toUInt32
def bitCount (s : HBmp) : UInt32 := s.infoHeader.biBitCount.toUInt32
def imageSize (s : HBmp) : UInt32 := s.infoHeader.biSizeImage
def totalSize (s : HBmp) : UInt32 := s.fileHeader.bfSize
def headerSize : UInt32 := 54
def getLineBytes (s : HBmp) : UInt32 := bytesPerLine s.width s.bitCount

def isBM (bfType : UInt16) : Bool := bfType >>> 8 &&& 0xff = 0x4d ∧ bfType &&& 0xff = 0x42

/-- In spite of its name the test for a bitmap that can be used. -/
def isInvalid (s : HBmp) : Bool :=
  isBM s.fileHeader.bfType ∧ s.infoHeader.biBitCount = 24 ∧ s.totalSize > headerSize

/-- The content of an allocated block into which `bytes` were read. -/
def readInto (size : Nat) (bytes : List Byte) : ByteBlock :=
  bytes.map some ++ freshBlock (size - bytes.length)

/-- An image size of 0 is computed from the other fields. -/
def withImageSize (s : HBmp) : HBmp :=
  if s.infoHeader.biSizeImage = 0 then
    { s with infoHeader :=
      { s.infoHeader with biSizeImage := s.getLineBytes * s.infoHeader.biHeight.toUInt32 } }
  else s

/-- From `malloc` on. -/
def readPixels (available : Nat → Bool) (a : FileAnswers) (s : HBmp) : BmpRet × HBmp :=
  match malloc available s.infoHeader.biSizeImage.toNat with
  | none => (.memoryOut, { s with data := none })
  | some size =>
    let s' := { s with data := some (readInto size (a.pixels size).content) }
    if (a.pixels size).ret = s'.infoHeader.biSizeImage.toInt32 then (.ok, s') else (.srcErr, s')

def readFromFile (available : Nat → Bool) (a : FileAnswers) (bHeadOnly : Bool) (s : HBmp) :
    BmpRet × HBmp :=
  if a.nameEmpty then (.invlPara, s)
  else if !a.exists then (.invlPara, s)
  else if !a.opened then (.sysFailed, zeroed)
  else
    let s := { zeroed with fileHeader := BmpFileHeader.read a.fileHeader.content }
    if a.fileHeader.ret ≠ Int32.ofNat sizeofFileHeader then (.srcErr, s)
    else if !isBM s.fileHeader.bfType then (.errStatus, s)
    else
      let s := { s with infoHeader := BmpInfoHeader.read a.infoHeader.content }
      if a.infoHeader.ret ≠ Int32.ofNat sizeofInfoHeader then (.srcErr, s)
      else if s.infoHeader.biBitCount ≠ 24 then (.errStatus, s)
      else
        let s := s.withImageSize
        if bHeadOnly then (.ok, s) else readPixels available a s

/-! ## Moving the picture -/

section Move

variable (src : Ptr) (bytesPerLine : UInt32) (bc nWidth nHeight xoffset yoffset : Int)

/-- Where the pixel of row `i` and column `j` begins. The number of the line becomes unsigned. -/
def position (i j : Int) : Outcome Int := do
  let line ← checkedHN (nHeight - 1 - i)
  let column ← checkedHN (j * bc)
  return (bytesPerLine * UInt32.ofInt line).toNat + column

/-- The row and the column from which the pixel at row `i` and column `j` comes, if they are inside of
the picture. The row is not looked at if the column is outside. -/
def sourceOf (i j : Int) : Outcome (Option (Int × Int)) := do
  let x ← checkedHN (j - xoffset)
  if x ≥ 0 ∧ x < nWidth then
    let y ← checkedHN (i - yoffset)
    if y ≥ 0 ∧ y < nHeight then return some (y, x) else return none
  else return none

/-- What was outside of the picture becomes white. -/
def movePixel (i j : Int) (temp : Ptr) : Outcome Ptr := do
  let dstpos ← position bytesPerLine bc nHeight i j
  match ← sourceOf nWidth nHeight xoffset yoffset i j with
  | some (y, x) =>
    let srcpos ← position bytesPerLine bc nHeight y x
    forRange
      (fun k temp => do
        let b ← fetch src (srcpos + k)
        put temp (dstpos + k) b)
      bc.toNat temp
  | none => forRange (fun k temp => put temp (dstpos + k) (some 255)) bc.toNat temp

end Move

def move (available : Nat → Bool) (xoffset yoffset : Int32) (s : HBmp) :
    Outcome (BmpRet × HBmp) :=
  if !s.isInvalid then .ok (.errStatus, s)
  else do
    let bytesPerLine := bytesPerLine s.width s.bitCount
    let bc := (s.bitCount / 8).toInt32.toInt
    let tempBuf := (malloc available (bytesPerLine * s.height).toNat).map freshBlock
    let nWidth := s.width.toInt32.toInt
    let nHeight := s.height.toInt32.toInt
    let tempBuf ← forRange
      (fun i => forRange
        (fun j => movePixel s.data bytesPerLine bc nWidth nHeight xoffset.toInt yoffset.toInt i j)
        nWidth.toNat)
      nHeight.toNat tempBuf
    let p ← copyBlock s.data tempBuf s.imageSize.toNat
    return (.ok, { s with data := p })

/-! ## Making a bitmap of an image -/

/-- The headers of an image of this size. -/
def rgbHeaders (nWidth nHeight pixcelBytes : UInt32) : BmpFileHeader × BmpInfoHeader :=
  (⟨0x4D42, 54 + pixcelBytes, 0, 0, 54⟩,
    ⟨40, nWidth.toInt32, -nHeight.toInt32, 1, 24, 0, pixcelBytes, 100, 100, 0, 0⟩)

/-- The running pointers, counted from the starts of their blocks. -/
structure CopyState where
  p : Ptr
  pBmpData : Nat
  pRgaData : Nat

/-- A byte of the image is copied, whether it has been stored or not. -/
def copyByte (p : Ptr) (z : Nat) (src : Ptr) (k : Nat) : Outcome Ptr :=
  match p, src with
  | some buf, some rga =>
    if z < buf.length ∧ k < rga.length then .ok (some (buf.set z (rga.getD k none)))
    else .undef .outOfBounds
  | _, _ => .undef .nullAccess

def copyPixel (src : Ptr) (s : CopyState) : Outcome CopyState := do
  let p ← copyByte s.p (s.pBmpData + 0) src (s.pRgaData + 2)
  let p ← copyByte p (s.pBmpData + 1) src (s.pRgaData + 1)
  let p ← copyByte p (s.pBmpData + 2) src (s.pRgaData + 0)
  return ⟨p, s.pBmpData + 3, s.pRgaData + 3⟩

/-- A row, and the padding behind it. -/
def copyRow (src : Ptr) (nWidth : Nat) (padding : Nat) (s : CopyState) : Outcome CopyState := do
  let s ← forRange (fun _ => copyPixel src) nWidth s
  return { s with pBmpData := s.pBmpData + padding }

/-- An exception leaves the object as it is then: it comes with the object. -/
def fromRgb (available : Nat → Bool) (rga : HRgb) (_ : HBmp) : Outcome (BmpRet × HBmp) := do
  let line := bytesPerLine rga.nWidth colorBitCount
  let pixcelBytes := line * rga.nHeight
  let (fileHeader, infoHeader) := rgbHeaders rga.nWidth rga.nHeight pixcelBytes
  match malloc available pixcelBytes.toNat with
  | none => return (.memoryOut, ⟨fileHeader, infoHeader, none⟩)
  | some size =>
    let s ← forRange
      (fun _ => copyRow rga.data rga.nWidth.toNat (line - rga.nWidth * 3).toNat)
      rga.nHeight.toNat ⟨some (freshBlock size), 0, 0⟩
    return (.ok, ⟨fileHeader, infoHeader, s.p⟩)

/-! ## Exporting -/

/-- The buffer and `len` are those after the call. -/
def exportBmpBuffer (buffer : Ptr) (len : UInt32) (s : HBmp) : Outcome (BmpRet × Ptr × UInt32) :=
  if !s.isInvalid then .ok (.errStatus, buffer, len)
  else if buffer.isNone then .ok (.invlPara, buffer, len)
  else if len < s.totalSize then .ok (.invlPara, buffer, len)
  else do
    let p ← storeBytes buffer 0 s.fileHeader.write
    let p ← storeBytes p sizeofFileHeader s.infoHeader.write
    let p ← copyInto p (sizeofFileHeader + sizeofInfoHeader) s.data s.imageSize.toNat
    return (.ok, p, s.totalSize)

end HBmp

end Image
end Huicpp
