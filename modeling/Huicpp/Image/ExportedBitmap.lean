import Mathlib
import Huicpp.Image.MovedPicture

/-!
# Image.ExportedBitmap

`ExportBmpBuffer` compares the length of the buffer with the size in the file header, and copies as many
pixel bytes as the info header says. Both numbers come from the file.

* `BmpFileHeader.read_write`, `BmpInfoHeader.read_write`: the headers of the exported bytes.
* `export_eq`: what a call writes that passes the checks.
* `readsBack_fileBytes`: the bytes as a file.
* `export_exact_iff`: when the caller's buffer is respected.
-/

namespace Huicpp
namespace Image

open Cxx

/-! ## Headers -/

@[simp] theorem u16_field (x : UInt16) : UInt16.ofNat (leNat (leBytes 2 x.toNat)) = x := by
  have hlt : x.toNat < 256 ^ 2 := x.toNat_lt
  rw [leNat_leBytes, Nat.mod_eq_of_lt hlt, UInt16.ofNat_toNat]

@[simp] theorem u32_field (x : UInt32) : UInt32.ofNat (leNat (leBytes 4 x.toNat)) = x := by
  have hlt : x.toNat < 256 ^ 4 := x.toNat_lt
  rw [leNat_leBytes, Nat.mod_eq_of_lt hlt, UInt32.ofNat_toNat]

@[simp] theorem i32_field (x : Int32) : Int32.ofNat (leNat (leBytes 4 x.toUInt32.toNat)) = x := by
  have hlt : x.toUInt32.toNat < 256 ^ 4 := x.toUInt32.toNat_lt
  rw [leNat_leBytes, Nat.mod_eq_of_lt hlt, ← toInt32_eq, Int32.toInt32_toUInt32]

@[simp] theorem BmpFileHeader.write_length (h : BmpFileHeader) : h.write.length = sizeofFileHeader := by
  simp [BmpFileHeader.write, sizeofFileHeader]

@[simp] theorem BmpInfoHeader.write_length (h : BmpInfoHeader) : h.write.length = sizeofInfoHeader := by
  simp [BmpInfoHeader.write, sizeofInfoHeader]

theorem fieldAt_skip {k n o j : Nat} {bytes : List Byte} (h : k ≤ o) :
    fieldAt (leBytes k n ++ bytes) o j = fieldAt bytes (o - k) j := by
  rw [fieldAt, fieldAt]
  congr 1
  refine List.map_congr_left fun i _ => ?_
  rw [List.getD_append_right _ _ _ _ (by rw [leBytes_length]; omega), leBytes_length]
  congr 1
  omega

theorem fieldAt_first (k n : Nat) (bytes : List Byte) :
    fieldAt (leBytes k n ++ bytes) 0 k = leNat (leBytes k n) := by
  rw [fieldAt]
  congr 1
  refine List.ext_getElem (by simp) fun i _ hi => ?_
  rw [List.getElem_map, List.getElem_range, Nat.zero_add, List.getD_append _ _ _ _ hi,
    List.getD_eq_getElem _ _ hi]

theorem fieldAt_last (k n : Nat) : fieldAt (leBytes k n) 0 k = leNat (leBytes k n) := by
  have h := fieldAt_first k n []
  rwa [List.append_nil] at h

/-- Every field is read from where it was written. -/
theorem BmpFileHeader.read_write (h : BmpFileHeader) : BmpFileHeader.read h.write = h := by
  simp (disch := decide) only [BmpFileHeader.read, BmpFileHeader.write, List.append_assoc,
    fieldAt_skip, Nat.reduceSub, fieldAt_first, fieldAt_last, u16_field, u32_field]

theorem BmpInfoHeader.read_write (h : BmpInfoHeader) : BmpInfoHeader.read h.write = h := by
  simp (disch := decide) only [BmpInfoHeader.read, BmpInfoHeader.write, List.append_assoc,
    fieldAt_skip, Nat.reduceSub, fieldAt_first, fieldAt_last, u16_field, u32_field, i32_field]

/-! ## The exported bytes -/

/-- A buffer of `len` bytes, or a null pointer. -/
structure CallerBuffer where
  ptr : Ptr
  len : UInt32
  size : ∀ buf ∈ ptr, buf.length = len.toNat

/-- A byte in place of one that was stored, or of one that was not. -/
def Agrees (b : Byte) (o : Option Byte) : Prop := ∀ c ∈ o, b = c

/-- A file with these bytes, of which every read gives all that it asks for. -/
def fileOf (bs : List Byte) : FileAnswers where
  nameEmpty := false
  «exists» := true
  opened := true
  fileHeader := HBmp.ReadAnswer.of bs _
  infoHeader := HBmp.ReadAnswer.of (bs.drop sizeofFileHeader) _
  pixels := HBmp.ReadAnswer.of (bs.drop (sizeofFileHeader + sizeofInfoHeader))

namespace HBmp

/-- The two headers and `ImageSize()` bytes of the data. -/
def fileBytes (s : HBmp) (data : ByteBlock) : ByteBlock :=
  (s.fileHeader.write ++ s.infoHeader.write).map some ++ data.take s.imageSize.toNat

/-- A file with these bytes is read as a bitmap with the same headers and pixels. -/
def ReadsBack (s : HBmp) (file : ByteBlock) : Prop :=
  ∀ bs, List.Forall₂ Agrees bs file → ∀ available, available s.imageSize.toNat → ∀ old,
    ∃ s', readFromFile available (fileOf bs) false old = (.ok, s') ∧
      s'.fileHeader = s.fileHeader ∧ s'.infoHeader = s.infoHeader ∧
      BlockOf s.imageSize.toNat s'.data ∧
      ∀ k < s.imageSize.toNat, ∀ b, byteAt s.data k = some b → byteAt s'.data k = some b

/-- The buffer begins with the bytes of the bitmap as a file and is otherwise as it was, and the new
length is their number. -/
structure Exported (s : HBmp) (b : CallerBuffer) (ptr : Ptr) (len : UInt32) : Prop where
  written : ∃ buf data, b.ptr = some buf ∧ s.data = some data ∧ s.imageSize.toNat ≤ data.length ∧
    ptr = some (s.fileBytes data ++ buf.drop (s.fileBytes data).length) ∧
    (s.fileBytes data).length ≤ b.len.toNat ∧ len.toNat = (s.fileBytes data).length ∧
    s.ReadsBack (s.fileBytes data)

/-- The call either exports the bitmap or changes nothing. -/
def Exports (s : HBmp) (b : CallerBuffer) : Prop :=
  ∃ r ptr len, s.exportBmpBuffer b.ptr b.len = .ok (r, ptr, len) ∧
    (r = .ok → Exported s b ptr len) ∧ (r ≠ .ok → ptr = b.ptr ∧ len = b.len)

/-- The checks at the beginning. -/
structure Checked (s : HBmp) (b : CallerBuffer) : Prop where
  usable : s.isInvalid
  buffer : b.ptr ≠ none
  length : s.totalSize ≤ b.len

end HBmp

/-! ## Reading them back -/

theorem agrees_append {xs : List Byte} {file : ByteBlock} {bs : List Byte}
    (h : List.Forall₂ Agrees bs (xs.map some ++ file)) :
    ∃ rest, bs = xs ++ rest ∧ List.Forall₂ Agrees rest file := by
  induction xs generalizing bs with
  | nil => exact ⟨bs, rfl, h⟩
  | cons x xs ih =>
    cases h with
    | cons hx hxs =>
      obtain ⟨rest, rfl, hrest⟩ := ih hxs
      obtain rfl := hx x rfl
      exact ⟨rest, rfl, hrest⟩

theorem agrees_getD {bs : List Byte} {file : ByteBlock} (h : List.Forall₂ Agrees bs file) {k : Nat}
    {b : Byte} (hb : file.getD k none = some b) : (bs.map some).getD k none = some b := by
  induction h generalizing k with
  | nil => cases hb
  | cons hx _ ih =>
    cases k with
    | zero => exact congrArg some (hx b hb)
    | succ k => exact ih hb

section FileOf

variable {fh ih pix : List Byte}

theorem fileOf_fileHeader (hfh : fh.length = sizeofFileHeader) :
    (fileOf (fh ++ ih ++ pix)).fileHeader.content = fh := by
  show (fh ++ ih ++ pix).take sizeofFileHeader = fh
  rw [List.append_assoc, ← hfh, List.take_left]

theorem fileOf_infoHeader (hfh : fh.length = sizeofFileHeader) (hih : ih.length = sizeofInfoHeader) :
    (fileOf (fh ++ ih ++ pix)).infoHeader.content = ih := by
  show ((fh ++ ih ++ pix).drop sizeofFileHeader).take sizeofInfoHeader = ih
  rw [List.append_assoc, ← hfh, List.drop_left, ← hih, List.take_left]

theorem fileOf_pixels (hfh : fh.length = sizeofFileHeader) (hih : ih.length = sizeofInfoHeader) :
    ((fileOf (fh ++ ih ++ pix)).pixels pix.length).content = pix := by
  have hlen : (fh ++ ih).length = sizeofFileHeader + sizeofInfoHeader := by
    rw [List.length_append, hfh, hih]
  show ((fh ++ ih ++ pix).drop (sizeofFileHeader + sizeofInfoHeader)).take pix.length = pix
  rw [← hlen, List.drop_left, List.take_length]

theorem ReadAnswer.of_ret {bs : List Byte} {size : Nat} (h : (HBmp.ReadAnswer.of bs size).content.length = size) :
    (HBmp.ReadAnswer.of bs size).ret = Int32.ofNat size := by
  show Int32.ofNat (bs.take size).length = _
  exact congrArg Int32.ofNat h

end FileOf

namespace HBmp

/-- A file that is what its headers say is read to its pixels. -/
theorem readFromFile_eq {available : Nat → Bool} {a : FileAnswers} (hname : a.nameEmpty = false)
    (hexists : a.exists = true) (hopened : a.opened = true)
    (hfile : a.fileHeader.ret = Int32.ofNat sizeofFileHeader)
    (hinfo : a.infoHeader.ret = Int32.ofNat sizeofInfoHeader) (husable : (headers a).isInvalid)
    (hsize : (headers a).infoHeader.biSizeImage ≠ 0) (old : HBmp) :
    readFromFile available a false old = readPixels available a (headers a) := by
  obtain ⟨hbm, hcount, _⟩ := isInvalid_iff.mp husable
  have hbm : isBM (BmpFileHeader.read a.fileHeader.content).bfType = true := hbm
  have hcount : (BmpInfoHeader.read a.infoHeader.content).biBitCount = 24 := hcount
  have hsame : (headers a).withImageSize = headers a := if_neg hsize
  simp only [readFromFile, hname, hexists, hopened, Bool.not_true, Bool.false_eq_true, if_false]
  rw [if_neg (not_not.mpr hfile), if_neg (by rw [hbm]; decide), if_neg (not_not.mpr hinfo),
    if_neg (not_not.mpr hcount)]
  exact congrArg (readPixels available a) hsame

theorem fileBytes_agrees {s : HBmp} {data : ByteBlock} {bs : List Byte}
    (h : List.Forall₂ Agrees bs (s.fileBytes data)) :
    ∃ pix, bs = s.fileHeader.write ++ s.infoHeader.write ++ pix ∧
      List.Forall₂ Agrees pix (data.take s.imageSize.toNat) :=
  agrees_append h

theorem headers_of_contents {a : FileAnswers} {s : HBmp}
    (hfile : a.fileHeader.content = s.fileHeader.write)
    (hinfo : a.infoHeader.content = s.infoHeader.write) : headers a = { s with data := none } := by
  rw [headers, hfile, hinfo, BmpFileHeader.read_write, BmpInfoHeader.read_write]

theorem readPixels_ok {available : Nat → Bool} {a : FileAnswers} {s : HBmp}
    (hmem : available s.imageSize.toNat)
    (hret : (a.pixels s.imageSize.toNat).ret = Int32.ofNat s.imageSize.toNat) :
    readPixels available a s = (.ok, { s with
      data := some (readInto s.imageSize.toNat (a.pixels s.imageSize.toNat).content) }) := by
  have hlt := s.imageSize.toNat_lt
  have hmalloc := malloc_ok (Nat.lt_trans hlt (by decide)) hmem
  have hret' : (a.pixels s.imageSize.toNat).ret = s.infoHeader.biSizeImage.toInt32 := by
    rw [hret, toInt32_eq, imageSize]
  rw [readPixels, show malloc available s.infoHeader.biSizeImage.toNat = _ from hmalloc]
  exact if_pos hret'

theorem readsBack_fileBytes {s : HBmp} {data : ByteBlock} (husable : s.isInvalid)
    (hsize : s.imageSize ≠ 0) (hdata : s.data = some data)
    (hlen : data.length = s.imageSize.toNat) : s.ReadsBack (s.fileBytes data) := by
  intro bs hbs available hmem old
  obtain ⟨pix, rfl, hpix⟩ := fileBytes_agrees hbs
  rw [List.take_of_length_le hlen.le] at hpix
  have hcount : pix.length = s.imageSize.toNat := hpix.length_eq.trans hlen
  have hfh := BmpFileHeader.write_length s.fileHeader
  have hih := BmpInfoHeader.write_length s.infoHeader
  have hfile := @fileOf_fileHeader _ s.infoHeader.write pix hfh
  have hinfo := @fileOf_infoHeader _ _ pix hfh hih
  have hpixels := @fileOf_pixels _ _ pix hfh hih
  rw [hcount] at hpixels
  have hheaders := headers_of_contents hfile hinfo
  refine ⟨{ s with data := some (readInto s.imageSize.toNat pix) }, ?_, rfl, rfl,
    ⟨_, rfl, readInto_length hcount.le⟩, fun k hk b hb => ?_⟩
  · have hfret : (fileOf (s.fileHeader.write ++ s.infoHeader.write ++ pix)).fileHeader.ret =
        Int32.ofNat sizeofFileHeader := ReadAnswer.of_ret ((congrArg List.length hfile).trans hfh)
    have hiret : (fileOf (s.fileHeader.write ++ s.infoHeader.write ++ pix)).infoHeader.ret =
        Int32.ofNat sizeofInfoHeader := ReadAnswer.of_ret ((congrArg List.length hinfo).trans hih)
    have hpret := ReadAnswer.of_ret ((congrArg List.length hpixels).trans hcount)
    have hread := @readFromFile_eq available _ rfl rfl rfl hfret hiret
      (by rw [hheaders]; exact husable) (by rw [hheaders]; exact hsize) old
    rw [hheaders, @readPixels_ok available _ { s with data := none } hmem hpret] at hread
    exact hread.trans (congrArg
      (fun p => (BmpRet.ok, { s with data := some (readInto s.imageSize.toNat p) })) hpixels)
  · have hblock : readInto s.imageSize.toNat pix = pix.map some := by
      rw [readInto, hcount, Nat.sub_self]
      exact List.append_nil _
    rw [hdata] at hb
    show byteAt (some (readInto s.imageSize.toNat pix)) k = some b
    rw [hblock]
    exact agrees_getD hpix hb

/-! ## The call -/

section Export

variable {s : HBmp} {b : CallerBuffer}

theorem export_refused (h : ¬ Checked s b) :
    ∃ r ≠ .ok, s.exportBmpBuffer b.ptr b.len = .ok (r, b.ptr, b.len) := by
  rw [exportBmpBuffer]
  cases husable : s.isInvalid with
  | false => exact ⟨.errStatus, by decide, rfl⟩
  | true =>
    cases hptr : b.ptr with
    | none => exact ⟨.invlPara, by decide, rfl⟩
    | some buf =>
      have hshort : b.len < s.totalSize := by
        by_contra hlong
        exact h ⟨husable, by rw [hptr]; exact nofun, UInt32.not_lt.mp hlong⟩
      exact ⟨.invlPara, by decide, if_pos hshort⟩

/-- After the checks the headers are written, and then the pixels. -/
theorem export_eq (h : Checked s b) {buf : ByteBlock} (hbuf : b.ptr = some buf) :
    s.exportBmpBuffer b.ptr b.len = (do
      let p ← copyInto (some ((s.fileHeader.write ++ s.infoHeader.write).map some ++
        buf.drop (sizeofFileHeader + sizeofInfoHeader))) (sizeofFileHeader + sizeofInfoHeader) s.data
        s.imageSize.toNat
      return (.ok, p, s.totalSize)) := by
  have hlen := b.size buf hbuf
  have htotal : 54 < s.totalSize.toNat := UInt32.lt_iff_toNat_lt.mp (isInvalid_iff.mp h.usable).2.2
  have hle : s.totalSize.toNat ≤ b.len.toNat := UInt32.le_iff_toNat_le.mp h.length
  have hfh := BmpFileHeader.write_length s.fileHeader
  have hih := BmpInfoHeader.write_length s.infoHeader
  have hsizes : sizeofFileHeader = 14 ∧ sizeofInfoHeader = 40 := ⟨rfl, rfl⟩
  have hfirst : storeBytes (some buf) 0 s.fileHeader.write =
      .ok (some (s.fileHeader.write.map some ++ buf.drop sizeofFileHeader)) := by
    have hput := @storeBytes_append [] buf s.fileHeader.write (by omega)
    rwa [hfh] at hput
  have hsecond : storeBytes (some (s.fileHeader.write.map some ++ buf.drop sizeofFileHeader))
      sizeofFileHeader s.infoHeader.write =
      .ok (some ((s.fileHeader.write ++ s.infoHeader.write).map some ++
        buf.drop (sizeofFileHeader + sizeofInfoHeader))) := by
    have hput := @storeBytes_append (s.fileHeader.write.map some) (buf.drop sizeofFileHeader)
      s.infoHeader.write (by rw [List.length_drop]; omega)
    rwa [List.length_map, hfh, hih, List.drop_drop, ← List.map_append] at hput
  have hshort : ¬ b.len < s.totalSize := UInt32.not_lt.mpr h.length
  rw [exportBmpBuffer, if_neg (by rw [h.usable]; decide), hbuf, if_neg (by simp), if_neg hshort, hfirst,
    Outcome.ok_bind, hsecond, Outcome.ok_bind]

theorem fileBytes_length {data : ByteBlock} (h : s.imageSize.toNat ≤ data.length) :
    (s.fileBytes data).length = 54 + s.imageSize.toNat := by
  rw [fileBytes, List.length_append, List.length_map, List.length_append,
    BmpFileHeader.write_length, BmpInfoHeader.write_length, List.length_take, Nat.min_eq_left h]
  rfl

theorem exports_of_sizes (hloaded : s.Loaded) (h : Checked s b)
    (hsize : s.totalSize.toNat = 54 + s.imageSize.toNat) (hdata : s.data ≠ none) : Exports s b := by
  obtain ⟨buf, hbuf⟩ := Option.ne_none_iff_exists'.mp h.buffer
  obtain ⟨data, hblock, hlen⟩ := hloaded.resolve_left hdata
  have htotal : 54 < s.totalSize.toNat := UInt32.lt_iff_toNat_lt.mp (isInvalid_iff.mp h.usable).2.2
  have hle : s.totalSize.toNat ≤ b.len.toNat := UInt32.le_iff_toNat_le.mp h.length
  have hfile := @fileBytes_length s data hlen.ge
  have hcopy := @copyInto_append ((s.fileHeader.write ++ s.infoHeader.write).map some)
    (buf.drop 54) data 54 s.imageSize.toNat (by simp [sizeofFileHeader, sizeofInfoHeader])
    (by rw [List.length_drop, b.size buf hbuf]; omega) hlen.ge
  rw [List.drop_drop, ← hfile] at hcopy
  have hcall : s.exportBmpBuffer b.ptr b.len =
      .ok (.ok, some (s.fileBytes data ++ buf.drop (s.fileBytes data).length), s.totalSize) := by
    rw [export_eq h hbuf, hblock, show sizeofFileHeader + sizeofInfoHeader = 54 from rfl, hcopy,
      Outcome.ok_bind]
    rfl
  have hpixels : s.imageSize ≠ 0 := by
    intro hzero
    rw [hzero] at hsize
    exact absurd htotal (by rw [hsize]; decide)
  have hwritten : Exported s b (some (s.fileBytes data ++ buf.drop (s.fileBytes data).length))
      s.totalSize :=
    ⟨buf, data, hbuf, hblock, hlen.ge, rfl, by omega, by omega,
      readsBack_fileBytes h.usable hpixels hblock hlen⟩
  exact ⟨.ok, _, s.totalSize, hcall, fun _ => hwritten, fun hno => absurd rfl hno⟩

theorem sizes_of_exports (h : Checked s b) (hexports : Exports s b) :
    s.totalSize.toNat = 54 + s.imageSize.toNat ∧ s.data ≠ none := by
  obtain ⟨buf, hbuf⟩ := Option.ne_none_iff_exists'.mp h.buffer
  obtain ⟨r, ptr, len, hcall, hok, _⟩ := hexports
  rw [export_eq h hbuf] at hcall
  obtain ⟨p, _, hcall⟩ := Outcome.bind_eq_ok.mp hcall
  cases hcall
  obtain ⟨_, data, _, hdata, hlen, _, _, hnew, _⟩ := (hok rfl).written
  refine ⟨hnew.trans (fileBytes_length hlen), ?_⟩
  rw [hdata]
  exact nofun

end Export

/-- **Exporting a bitmap.** The buffer is respected exactly if a check fails, or the two sizes in the
headers belong together and the pixels have been read. -/
theorem export_exact_iff (s : HBmp) (b : CallerBuffer) (hreached : Reached s) :
    Exports s b ↔
      (Checked s b → s.totalSize.toNat = 54 + s.imageSize.toNat ∧ s.data ≠ none) := by
  constructor
  · intro hexports h
    exact sizes_of_exports h hexports
  · intro hsizes
    by_cases h : Checked s b
    · exact exports_of_sizes hreached.loaded h (hsizes h).1 (hsizes h).2
    · obtain ⟨r, hr, hcall⟩ := export_refused h
      exact ⟨r, b.ptr, b.len, hcall, fun hok => absurd hok hr, fun _ => ⟨rfl, rfl⟩⟩

/-- A buffer of 58 bytes, as many as the file with one pixel has -/
def smallBuffer : CallerBuffer where
  ptr := some (freshBlock 58)
  len := 58
  size buf h := by
    cases h
    exact freshBlock_length 58

theorem export_exact_iff_onePixel :
    Exports (readFromFile (fun _ => true) onePixel false zeroed).2 smallBuffer :=
  (export_exact_iff _ smallBuffer (.readFromFile _ _ _ .zeroed)).mpr fun _ => ⟨by decide, by decide⟩

/-- The same file with eight pixel bytes, four more than its first header counts -/
def eightBytes : FileAnswers where
  nameEmpty := false
  «exists» := true
  opened := true
  fileHeader := onePixel.fileHeader
  infoHeader := ReadAnswer.of
    ([40, 0, 0, 0, 1, 0, 0, 0, 1, 0, 0, 0, 1, 0, 24, 0, 0, 0, 0, 0, 8, 0, 0, 0] ++
      List.replicate 16 0) _
  pixels := ReadAnswer.of [30, 20, 10, 0, 0, 0, 0, 0]

theorem export_overruns : ¬ ∀ (s : HBmp) (b : CallerBuffer), Reached s → Exports s b := by
  intro hall
  have hreached := Reached.readFromFile (fun _ => true) eightBytes false .zeroed
  have hchecked : Checked (readFromFile (fun _ => true) eightBytes false zeroed).2 smallBuffer :=
    ⟨by decide, by decide, by decide⟩
  have hsizes := (sizes_of_exports hchecked (hall _ smallBuffer hreached)).1
  exact absurd hsizes (by decide)

end HBmp

end Image
end Huicpp
