import Mathlib
import Huicpp.Image.ShownColors
import Huicpp.Cxx.TransitionSystem

/-!
# Image.UsableBitmap

`IsInvalid` looks at the headers only, and `SaveAs`, `Move` and `ExportBmpBuffer` go on when it is
true. A bitmap is `Backed` if the pixels are then there. This is so after every sequence of calls in
which `ReadFromFile` gets what the headers promise and `FromRgb` gets its memory, and only then.
-/

namespace Huicpp
namespace Image

open Cxx

namespace HBmp

/-- The bytes of all lines. -/
def lineSum (s : HBmp) : Nat := s.getLineBytes.toNat * s.infoHeader.biHeight.toInt.natAbs

/-- A usable bitmap has its pixels. -/
def Backed (s : HBmp) : Prop :=
  s.isInvalid → ∃ buf, s.data = some buf ∧ s.imageSize.toNat ≤ buf.length ∧ s.lineSum ≤ buf.length

theorem backed_of_unusable {s : HBmp} (h : s.isInvalid = false) : s.Backed := by
  intro husable
  rw [h] at husable
  cases husable

theorem backed_iff_of_none {s : HBmp} (h : s.data = none) : s.Backed ↔ ¬ s.isInvalid := by
  constructor
  · intro hs husable
    obtain ⟨buf, hbuf, -⟩ := hs husable
    rw [h] at hbuf
    cases hbuf
  · intro hs husable
    exact absurd husable hs

theorem backed_iff_of_block {s : HBmp} {size : Nat} (h : BlockOf size s.data) :
    s.Backed ↔ (s.isInvalid → s.imageSize.toNat ≤ size ∧ s.lineSum ≤ size) := by
  obtain ⟨buf, hbuf, rfl⟩ := h
  constructor
  · intro hs husable
    obtain ⟨buf', hbuf', hsize⟩ := hs husable
    cases hbuf.symm.trans hbuf'
    exact hsize
  · intro hs husable
    exact ⟨buf, hbuf, hs husable⟩

theorem isInvalid_iff {s : HBmp} : s.isInvalid ↔
    isBM s.fileHeader.bfType ∧ s.infoHeader.biBitCount = 24 ∧ s.totalSize > headerSize := by
  rw [isInvalid, decide_eq_true_iff]

theorem unusable_of_bitCount {s : HBmp} (h : s.infoHeader.biBitCount ≠ 24) :
    s.isInvalid = false :=
  Bool.eq_false_iff.mpr fun husable => h (isInvalid_iff.mp husable).2.1

theorem isBM_of_usable {s : HBmp} (h : s.isInvalid) : isBM s.fileHeader.bfType :=
  (isInvalid_iff.mp h).1

theorem zeroed_bitCount : zeroed.infoHeader.biBitCount ≠ 24 := by decide

theorem zeroed_backed : zeroed.Backed := backed_of_unusable rfl

/-! ## Reading a file -/

/-- The headers as the file gives them. -/
def headers (a : FileAnswers) : HBmp where
  fileHeader := BmpFileHeader.read a.fileHeader.content
  infoHeader := BmpInfoHeader.read a.infoHeader.content
  data := none

/-- The file gives what usable headers promise, and it is read. -/
structure PixelsRead (available : Nat → Bool) (a : FileAnswers) (bHeadOnly : Bool) : Prop where
  infoHeader : a.infoHeader.ret = Int32.ofNat sizeofInfoHeader
  pixels : bHeadOnly = false
  memory : available (headers a).withImageSize.imageSize.toNat
  size : (headers a).withImageSize.lineSum ≤ (headers a).withImageSize.imageSize.toNat

section ReadFromFile

variable {available : Nat → Bool} {a : FileAnswers} {bHeadOnly : Bool} {s : HBmp}

@[simp] theorem withImageSize_isInvalid (s : HBmp) : s.withImageSize.isInvalid = s.isInvalid := by
  rw [withImageSize]
  split
  · rfl
  · rfl

@[simp] theorem withImageSize_data (s : HBmp) : s.withImageSize.data = s.data := by
  rw [withImageSize]
  split
  · rfl
  · rfl

theorem readInto_length {size : Nat} {bytes : List Byte} (h : bytes.length ≤ size) :
    (readInto size bytes).length = size := by
  rw [readInto, List.length_append, List.length_map, freshBlock_length]
  omega

theorem content_length {size : Nat} (r : ReadAnswer size) : r.content.length ≤ size := by
  obtain ⟨bytes, hle⟩ := r
  cases bytes with
  | none => exact Nat.zero_le size
  | some bs => exact hle bs rfl

theorem readPixels_backed_iff (available : Nat → Bool) (a : FileAnswers) (s : HBmp) :
    (readPixels available a s).2.Backed ↔
      (s.isInvalid → available s.imageSize.toNat ∧ s.lineSum ≤ s.imageSize.toNat) := by
  rw [readPixels]
  by_cases hmem : available s.infoHeader.biSizeImage.toNat
  · have hlt := s.infoHeader.biSizeImage.toNat_lt
    rw [malloc_ok (by omega) hmem]
    have hblock : BlockOf s.imageSize.toNat (some (readInto s.infoHeader.biSizeImage.toNat
        (a.pixels s.infoHeader.biSizeImage.toNat).content)) :=
      ⟨_, rfl, readInto_length (content_length _)⟩
    have hiff := backed_iff_of_block (s := { s with data := some (readInto _ _) }) hblock
    have hsize : (s.isInvalid → s.imageSize.toNat ≤ s.imageSize.toNat ∧
        s.lineSum ≤ s.imageSize.toNat) ↔
        (s.isInvalid → available s.imageSize.toNat ∧ s.lineSum ≤ s.imageSize.toNat) :=
      ⟨fun h husable => ⟨hmem, (h husable).2⟩, fun h husable => ⟨le_refl _, (h husable).2⟩⟩
    dsimp only
    split
    · exact hiff.trans hsize
    · exact hiff.trans hsize
  · rw [malloc_none hmem]
    refine (backed_iff_of_none rfl).trans ⟨fun h husable => absurd husable h, ?_⟩
    intro h husable
    exact hmem (h husable).1

/-- The exits of `ReadFromFile` once the file is open. -/
theorem readFromFile_backed_iff (hname : a.nameEmpty = false) (hexists : a.exists = true)
    (hopened : a.opened = true) :
    (readFromFile available a bHeadOnly s).2.Backed ↔
      (a.fileHeader.ret = Int32.ofNat sizeofFileHeader → (headers a).isInvalid →
        PixelsRead available a bHeadOnly) := by
  simp only [readFromFile, hname, hexists, hopened, Bool.not_true, Bool.false_eq_true, if_false]
  by_cases hfile : a.fileHeader.ret = Int32.ofNat sizeofFileHeader
  · rw [if_neg (not_not.mpr hfile)]
    by_cases hbm : isBM (BmpFileHeader.read a.fileHeader.content).bfType
    · rw [if_neg (by rw [hbm]; decide)]
      by_cases hinfo : a.infoHeader.ret = Int32.ofNat sizeofInfoHeader
      · rw [if_neg (not_not.mpr hinfo)]
        by_cases hcount : (BmpInfoHeader.read a.infoHeader.content).biBitCount = 24
        · rw [if_neg (not_not.mpr hcount)]
          cases bHeadOnly with
          | true =>
            rw [if_pos rfl]
            refine (backed_iff_of_none (s := (headers a).withImageSize) ?_).trans ?_
            · rw [withImageSize_data, headers]
            · rw [withImageSize_isInvalid]
              exact ⟨fun h _ husable => absurd husable h, fun h husable =>
                Bool.noConfusion (h hfile husable).pixels⟩
          | false =>
            rw [if_neg Bool.false_ne_true]
            refine (readPixels_backed_iff available a (headers a).withImageSize).trans ?_
            rw [withImageSize_isInvalid]
            constructor
            · intro h _ husable
              exact ⟨hinfo, rfl, (h husable).1, (h husable).2⟩
            · intro h husable
              exact ⟨(h hfile husable).memory, (h hfile husable).size⟩
        · -- the colours are not 24 bits deep
          rw [if_pos hcount]
          refine iff_of_true (backed_of_unusable (unusable_of_bitCount hcount)) fun _ husable => ?_
          exact absurd husable (by rw [unusable_of_bitCount (s := headers a) hcount]; decide)
      · -- a header that was not read to its end may still be usable
        rw [if_pos hinfo]
        refine (backed_iff_of_none rfl).trans ?_
        exact ⟨fun h _ husable => absurd husable h, fun h husable =>
          hinfo (h hfile husable).infoHeader⟩
    · rw [if_pos (by rw [Bool.not_eq_true _ |>.mp hbm]; rfl)]
      refine iff_of_true (backed_of_unusable (unusable_of_bitCount zeroed_bitCount)) fun _ husable => ?_
      exact absurd (isBM_of_usable (s := headers a) husable) hbm
  · rw [if_pos hfile]
    exact iff_of_true (backed_of_unusable (unusable_of_bitCount zeroed_bitCount)) fun h => absurd h hfile

end ReadFromFile

/-! ## Making a bitmap of an image -/

/-- The sizes of the bitmap of an image, its headers included, fit into 32 bits. -/
def InRange (rga : HRgb) : Prop :=
  rga.nWidth.toNat * 24 + 31 < 2 ^ 32 ∧
    rga.nHeight.toNat * lineBytes rga.nWidth.toNat + 54 < 2 ^ 32

section FromRgb

variable {available : Nat → Bool} {rga : HRgb} {old s' : HBmp} {r : BmpRet}

/-- The bitmap with the headers of an image. -/
def ofRgb (rga : HRgb) (p : Ptr) : HBmp :=
  let headers := rgbHeaders rga.nWidth rga.nHeight
    (bytesPerLine rga.nWidth colorBitCount * rga.nHeight)
  ⟨headers.1, headers.2, p⟩

theorem fromRgb_eq_ofRgb (h : fromRgb available rga old = .ok (r, s')) :
    s' = ofRgb rga s'.data ∧
      (available (pixcelBytes rga) → BlockOf (pixcelBytes rga) s'.data) ∧
      (¬ available (pixcelBytes rga) → s'.data = none) := by
  by_cases hmem : available (pixcelBytes rga)
  · refine ⟨?_, fun _ => fromRgb_block hmem h, fun hno => absurd hmem hno⟩
    rw [fromRgb_eq hmem] at h
    obtain ⟨s, -, h⟩ := Outcome.bind_eq_ok.mp h
    cases h
    rfl
  · rw [fromRgb, malloc, if_neg fun h => hmem h.2] at h
    cases h
    exact ⟨rfl, fun hyes => absurd hyes hmem, fun _ => rfl⟩

theorem natAbs_toInt_neg {n : UInt32} (h : n.toNat < 2 ^ 31) :
    (-n.toInt32).toInt.natAbs = n.toNat := by
  have hsize : Int32.size = 2 ^ 32 := rfl
  rw [Int32.toInt_neg, toInt32_eq, Int32.toInt_ofNat_of_lt h,
    Int.bmod_eq_of_le (by omega) (by omega), Int.natAbs_neg, Int.natAbs_natCast]

theorem pixcelBytes_eq (h : InRange rga) :
    pixcelBytes rga = rga.nHeight.toNat * lineBytes rga.nWidth.toNat := by
  have hsize := h.2
  exact pixcelBytes_toNat h.1 (by omega)

theorem isBM_ofRgb : isBM 0x4D42 := by decide

theorem ofRgb_lineSum (h : InRange rga) (p : Ptr) : (ofRgb rga p).lineSum = pixcelBytes rga := by
  have hline : (ofRgb rga p).getLineBytes.toNat = lineBytes rga.nWidth.toNat := by
    rw [← bytesPerLine_of_lt h.1]
    rfl
  rw [lineSum, hline, pixcelBytes_eq h]
  rcases Nat.eq_zero_or_pos (lineBytes rga.nWidth.toNat) with hzero | hpos
  · rw [hzero, Nat.zero_mul, Nat.mul_zero]
  · have hfour : 4 ≤ lineBytes rga.nWidth.toNat := by
      rw [lineBytes] at hpos ⊢
      omega
    have hheight : rga.nHeight.toNat * 4 ≤ rga.nHeight.toNat * lineBytes rga.nWidth.toNat :=
      Nat.mul_le_mul_left _ hfour
    have hsize := h.2
    rw [Nat.mul_comm]
    congr 1
    exact natAbs_toInt_neg (by omega)

theorem ofRgb_isInvalid_iff (h : InRange rga) (p : Ptr) :
    (ofRgb rga p).isInvalid ↔ pixcelBytes rga ≠ 0 := by
  have hsize := h.2
  have hbytes := pixcelBytes_eq h
  have htotal : (ofRgb rga p).totalSize.toNat = 54 + pixcelBytes rga := by
    refine (UInt32.toNat_add 54 _).trans (Nat.mod_eq_of_lt ?_)
    have hlt : 54 + pixcelBytes rga < 2 ^ 32 := by omega
    exact hlt
  rw [isInvalid_iff]
  constructor
  · rintro ⟨-, -, htot⟩
    have hlt := UInt32.lt_iff_toNat_lt.mp htot
    rw [htotal] at hlt
    intro hzero
    rw [hzero] at hlt
    exact absurd hlt (by decide)
  · intro hpos
    refine ⟨isBM_ofRgb, rfl, UInt32.lt_iff_toNat_lt.mpr ?_⟩
    rw [htotal]
    have hlt : 54 < 54 + pixcelBytes rga := by omega
    exact hlt

theorem fromRgb_backed_iff (hrange : InRange rga) (h : fromRgb available rga old = .ok (r, s')) :
    s'.Backed ↔ pixcelBytes rga = 0 ∨ available (pixcelBytes rga) := by
  obtain ⟨hs, hblock, hnone⟩ := fromRgb_eq_ofRgb h
  by_cases hmem : available (pixcelBytes rga)
  · refine iff_of_true ((backed_iff_of_block (hblock hmem)).mpr fun _ => ⟨?_, ?_⟩) (.inr hmem)
    · rw [hs]
      exact le_refl (pixcelBytes rga)
    · rw [hs]
      exact (ofRgb_lineSum hrange _).le
  · rw [backed_iff_of_none (hnone hmem), hs, ofRgb_isInvalid_iff hrange, not_not, or_iff_left hmem]

end FromRgb

/-! ## Moving the picture -/

theorem move_keeps {available : Nat → Bool} {x y : Int32} {s s' : HBmp} {r : BmpRet}
    (h : move available x y s = .ok (r, s')) :
    s' = { s with data := s'.data } ∧ ∀ size, BlockOf size s.data → BlockOf size s'.data := by
  rw [move] at h
  split at h
  · cases h
    exact ⟨rfl, fun _ h => h⟩
  · obtain ⟨temp, -, h⟩ := Outcome.bind_eq_ok.mp h
    obtain ⟨p, hp, h⟩ := Outcome.bind_eq_ok.mp h
    cases h
    exact ⟨rfl, fun size hsize => hsize.copyBlock hp⟩

theorem Backed.move {available : Nat → Bool} {x y : Int32} {s s' : HBmp} {r : BmpRet}
    (hs : s.Backed) (h : s.move available x y = .ok (r, s')) : s'.Backed := by
  obtain ⟨heq, hblock⟩ := move_keeps h
  rw [heq]
  intro husable
  obtain ⟨buf, hbuf, hsize⟩ := hs husable
  obtain ⟨buf', hbuf', hlen⟩ := hblock buf.length ⟨buf, hbuf, rfl⟩
  exact ⟨buf', hbuf', hlen ▸ hsize⟩

/-! ## Runs -/

/-- A call, with what the system answers to it. -/
inductive Action where
  | readFromFile (available : Nat → Bool) (a : FileAnswers) (bHeadOnly : Bool)
  | fromRgb (available : Nat → Bool) (rga : HRgb)
  | move (available : Nat → Bool) (xoffset yoffset : Int32)

inductive Step : HBmp → Action → HBmp → Prop where
  | readFromFile {available : Nat → Bool} {a : FileAnswers} {bHeadOnly : Bool} {s : HBmp} :
      Step s (.readFromFile available a bHeadOnly) (HBmp.readFromFile available a bHeadOnly s).2
  | fromRgb {available : Nat → Bool} {rga : HRgb} {s s' : HBmp} {r : BmpRet} :
      InRange rga → HBmp.fromRgb available rga s = .ok (r, s') → Step s (.fromRgb available rga) s'
  | move {available : Nat → Bool} {x y : Int32} {s s' : HBmp} {r : BmpRet} :
      s.move available x y = .ok (r, s') → Step s (.move available x y) s'

/-- The constructor with a file name is the default one with a call of `ReadFromFile` behind it. -/
def system : TransitionSystem HBmp Action where
  init s := s = zeroed
  step := Step

/-- The call gets the memory and the bytes that usable headers stand for. -/
def Action.Delivered : Action → Prop
  | .readFromFile available a bHeadOnly =>
    a.nameEmpty = false → a.exists → a.opened →
      a.fileHeader.ret = Int32.ofNat sizeofFileHeader → (headers a).isInvalid →
        PixelsRead available a bHeadOnly
  | .fromRgb available rga => pixcelBytes rga = 0 ∨ available (pixcelBytes rga)
  | .move .. => True

theorem Step.backed_iff {s s' : HBmp} {a : Action} (h : Step s a s') (hs : s.Backed) :
    s'.Backed ↔ a.Delivered := by
  cases h with
  | @readFromFile available a bHeadOnly =>
    cases hname : a.nameEmpty with
    | true =>
      refine iff_of_true ?_ fun hno => ?_
      · rwa [HBmp.readFromFile, if_pos hname]
      · rw [hname] at hno
        cases hno
    | false =>
      cases hexists : a.exists with
      | false =>
        refine iff_of_true ?_ fun _ hno => ?_
        · rwa [HBmp.readFromFile, if_neg (by rw [hname]; decide), if_pos (by rw [hexists]; decide)]
        · rw [hexists] at hno
          cases hno
      | true =>
        cases hopened : a.opened with
        | false =>
          refine iff_of_true ?_ fun _ _ hno => ?_
          · rw [HBmp.readFromFile, if_neg (by rw [hname]; decide),
              if_neg (by rw [hexists]; decide), if_pos (by rw [hopened]; decide)]
            exact zeroed_backed
          · rw [hopened] at hno
            cases hno
        | true =>
          rw [readFromFile_backed_iff hname hexists hopened]
          exact ⟨fun h _ _ _ => h, fun h => h hname hexists hopened⟩
  | fromRgb hrange h => exact fromRgb_backed_iff hrange h
  | move h => exact iff_of_true (hs.move h) trivial

theorem delivered_run {tr : List Action} {s : HBmp}
    (h : (system.restrict fun _ a _ => a.Delivered).Run tr s) :
    (system.restrict fun _ _ s' => s'.Backed).Run tr s ∧ s.Backed := by
  induction h with
  | init h =>
    obtain rfl : _ = zeroed := h
    exact ⟨.init rfl, zeroed_backed⟩
  | step _ hs ih =>
    have hbacked := (hs.1.backed_iff ih.2).mpr hs.2
    exact ⟨ih.1.step ⟨hs.1, hbacked⟩, hbacked⟩

theorem backed_run {tr : List Action} {s : HBmp}
    (h : (system.restrict fun _ _ s' => s'.Backed).Run tr s) :
    (system.restrict fun _ a _ => a.Delivered).Run tr s ∧ s.Backed := by
  induction h with
  | init h =>
    obtain rfl : _ = zeroed := h
    exact ⟨.init rfl, zeroed_backed⟩
  | step _ hs ih => exact ⟨ih.1.step ⟨hs.1, (hs.1.backed_iff ih.2).mp hs.2⟩, hs.2⟩

/-- A bitmap that can be used has its pixels as long as every call gets what it asks for, and all
the bitmaps of a run have theirs only then. -/
theorem usable_has_pixels (tr : List Action) (s : HBmp) :
    ((system.restrict fun _ a _ => a.Delivered).Run tr s → s.Backed) ∧
      ((system.restrict fun _ _ s' => s'.Backed).Run tr s ↔
        (system.restrict fun _ a _ => a.Delivered).Run tr s) :=
  ⟨fun h => (delivered_run h).2, fun h => (backed_run h).1, fun h => (delivered_run h).1⟩

/-! ### A file with one pixel -/

/-- A read that gives all it can of `bs`. -/
def ReadAnswer.of (bs : List Byte) (size : Nat) : ReadAnswer size where
  bytes := some (bs.take size)
  le bs' h := by
    cases h
    exact List.length_take_le size bs

def onePixel : FileAnswers where
  nameEmpty := false
  «exists» := true
  opened := true
  fileHeader := ReadAnswer.of [0x42, 0x4d, 58, 0, 0, 0, 0, 0, 0, 0, 54, 0, 0, 0] _
  infoHeader := ReadAnswer.of
    ([40, 0, 0, 0, 1, 0, 0, 0, 1, 0, 0, 0, 1, 0, 24, 0] ++ List.replicate 24 0) _
  pixels := ReadAnswer.of [30, 20, 10, 0]

theorem usable_has_pixels_onePixel : ∃ s, s.isInvalid ∧ s.Backed ∧
    (system.restrict fun _ _ s' => s'.Backed).Run [.readFromFile (fun _ => true) onePixel false] s := by
  have hrun : (system.restrict fun _ a _ => a.Delivered).Run
      ([] ++ [.readFromFile (fun _ => true) onePixel false]) _ :=
    (TransitionSystem.Run.init rfl).step
      ⟨Step.readFromFile, fun _ _ _ _ _ => ⟨by decide, rfl, rfl, by decide⟩⟩
  exact ⟨_, by decide, (usable_has_pixels _ _).1 hrun, (usable_has_pixels _ _).2.mpr hrun⟩

/-- Reading the headers alone makes a bitmap that passes for usable. -/
theorem usable_without_pixels : ¬ ∀ tr s, system.Run tr s → s.Backed := by
  intro hall
  have hrun : system.Run ([] ++ [.readFromFile (fun _ => true) onePixel true]) _ :=
    (TransitionSystem.Run.init rfl).step Step.readFromFile
  have hbacked := hall _ _ hrun
  rw [backed_iff_of_none (by rfl)] at hbacked
  exact hbacked (by decide)

end HBmp

end Image
end Huicpp
