import Mathlib
import Huicpp.Image.ExportedBitmap

/-!
# Image.SavedBitmap

`SaveAs`. The file is opened without being emptied, and what the three writes return is dropped.

* `saved_readsBack`: `SaveAs` reports a success whatever was written. Where everything was, the file is the
  bitmap and what the old file had behind it, and reading it gives the picture back.
-/

namespace Huicpp
namespace Image

open Cxx

/-- What the system answers to `SaveAs`: how many bytes each write takes. -/
structure SaveAnswers where
  nameEmpty : Bool
  opened : Bool
  fileHeader : Nat
  infoHeader : Nat
  pixels : Nat

/-- An open file and its position. -/
structure OutFile where
  content : ByteBlock
  pos : Nat

/-- `write`, of which `taken` bytes are written at most. -/
def OutFile.write (f : OutFile) (bytes : ByteBlock) (taken : Nat) : OutFile where
  content := f.content.take f.pos ++ bytes.take taken ++ f.content.drop (f.pos + (bytes.take taken).length)
  pos := f.pos + (bytes.take taken).length

theorem OutFile.write_all {front old bytes : ByteBlock} {taken : Nat} (h : bytes.length ≤ taken) :
    (⟨front ++ old.drop front.length, front.length⟩ : OutFile).write bytes taken
      = ⟨front ++ bytes ++ old.drop (front ++ bytes).length, (front ++ bytes).length⟩ := by
  have hbytes : bytes.take taken = bytes := List.take_of_length_le h
  simp only [OutFile.write, hbytes, List.take_left, List.length_append]
  rw [List.drop_length_add_append, List.drop_drop]

namespace HBmp

/-- The file after the two headers. -/
def writeHeaders (a : SaveAnswers) (old : ByteBlock) (s : HBmp) : OutFile :=
  ((⟨old, 0⟩ : OutFile).write (s.fileHeader.write.map some) a.fileHeader).write
    (s.infoHeader.write.map some) a.infoHeader

/-- The file with the content `old` becomes another one. A write from a null pointer fails. -/
def saveAs (a : SaveAnswers) (old : ByteBlock) (s : HBmp) : Outcome (BmpRet × ByteBlock) :=
  if !s.isInvalid then .ok (.errStatus, old)
  else if a.nameEmpty then .ok (.invlPara, old)
  else if !a.opened then .ok (.sysFailed, old)
  else
    let fh := s.writeHeaders a old
    match s.data with
    | none => .ok (.ok, fh.content)
    | some data =>
      if s.imageSize.toNat ≤ data.length then
        .ok (.ok, (fh.write (data.take s.imageSize.toNat) a.pixels).content)
      else .undef .outOfBounds

/-- Every write takes everything. -/
structure SavedWhole (a : SaveAnswers) (s : HBmp) : Prop where
  fileHeader : sizeofFileHeader ≤ a.fileHeader
  infoHeader : sizeofInfoHeader ≤ a.infoHeader
  pixels : s.imageSize.toNat ≤ a.pixels

/-- A file with these bytes and others behind them is read as the bitmap: with its headers, and with
whatever picture it has. -/
def ReadsPicture (s : HBmp) (file : ByteBlock) : Prop :=
  ∀ bs, List.Forall₂ Agrees bs file → ∀ available, available s.imageSize.toNat → ∀ old,
    ∃ s', readFromFile available (fileOf bs) false old = (.ok, s') ∧
      s'.fileHeader = s.fileHeader ∧ s'.infoHeader = s.infoHeader ∧
      ∀ px, s.Depicts px → s'.Depicts px

/-! ## Reading -/

theorem ReadAnswer.of_append {bs : List Byte} {size : Nat} (h : size ≤ bs.length) (rest : List Byte) :
    HBmp.ReadAnswer.of (bs ++ rest) size = HBmp.ReadAnswer.of bs size := by
  have htake : (bs ++ rest).take size = bs.take size := List.take_append_of_le_length h
  simp only [HBmp.ReadAnswer.of, htake]

theorem readFromFile_congr {available : Nat → Bool} {a a' : FileAnswers} {old : HBmp}
    (hsame : a' = { a with pixels := a'.pixels }) (hsize : (headers a).imageSize ≠ 0)
    (hpixels : a'.pixels (headers a).imageSize.toNat = a.pixels (headers a).imageSize.toNat) :
    readFromFile available a' false old = readFromFile available a false old := by
  have hread : readPixels available a' (headers a) = readPixels available a (headers a) := by
    simp only [readPixels]
    cases hmem : malloc available (headers a).infoHeader.biSizeImage.toNat with
    | none => rfl
    | some size =>
      obtain ⟨rfl, -⟩ := malloc_eq_some hmem
      have hpixels : a'.pixels (headers a).infoHeader.biSizeImage.toNat
          = a.pixels (headers a).infoHeader.biSizeImage.toNat := hpixels
      dsimp only
      rw [hpixels]
  have hheaders : (headers a).withImageSize = headers a := if_neg hsize
  rw [hsame] at hread ⊢
  simp only [readFromFile]
  split
  · rfl
  split
  · rfl
  split
  · rfl
  split
  · rfl
  split
  · rfl
  split
  · rfl
  split
  · rfl
  rw [if_neg Bool.false_ne_true, if_neg Bool.false_ne_true]
  show readPixels available _ (headers a).withImageSize
    = readPixels available _ (headers a).withImageSize
  rw [hheaders]
  exact hread

/-- What stands behind the bitmap in the file does not matter. -/
theorem fileOf_append {s : HBmp} {data : ByteBlock} {bs : List Byte}
    (hlen : s.imageSize.toNat ≤ data.length) (hsize : s.imageSize ≠ 0)
    (hbs : List.Forall₂ Agrees bs (s.fileBytes data)) (rest : List Byte) (available : Nat → Bool)
    (old : HBmp) :
    readFromFile available (fileOf (bs ++ rest)) false old
      = readFromFile available (fileOf bs) false old := by
  have hcount : bs.length = 54 + s.imageSize.toNat :=
    hbs.length_eq.trans (fileBytes_length hlen)
  have hsizes : sizeofFileHeader = 14 ∧ sizeofInfoHeader = 40 := ⟨rfl, rfl⟩
  obtain ⟨pix, hpix, -⟩ := fileBytes_agrees hbs
  have hfh := BmpFileHeader.write_length s.fileHeader
  have hih := BmpInfoHeader.write_length s.infoHeader
  have hheaders : headers (fileOf bs) = { s with data := none } := by
    rw [hpix]
    exact headers_of_contents (fileOf_fileHeader hfh) (fileOf_infoHeader hfh hih)
  have himage : (headers (fileOf bs)).imageSize = s.imageSize := by rw [hheaders]; rfl
  refine readFromFile_congr ?_ (by rw [himage]; exact hsize) ?_
  · have hfile := @ReadAnswer.of_append bs sizeofFileHeader (by omega) rest
    have hinfo := @ReadAnswer.of_append (bs.drop sizeofFileHeader) sizeofInfoHeader
      (by rw [List.length_drop]; omega) rest
    rw [← List.drop_append_of_le_length (by omega)] at hinfo
    simp only [fileOf, hfile, hinfo]
  · rw [himage]
    have hpixels := @ReadAnswer.of_append (bs.drop (sizeofFileHeader + sizeofInfoHeader))
      s.imageSize.toNat (by rw [List.length_drop]; omega) rest
    rwa [← List.drop_append_of_le_length (by omega)] at hpixels

theorem agrees_split {bs : List Byte} {file rest : ByteBlock}
    (h : List.Forall₂ Agrees bs (file ++ rest)) :
    ∃ front back, bs = front ++ back ∧ List.Forall₂ Agrees front file := by
  refine ⟨bs.take file.length, bs.drop file.length, (List.take_append_drop _ _).symm, ?_⟩
  have htake := List.forall₂_take file.length h
  rwa [List.take_left] at htake

theorem Depicts.of_bytes {s s' : HBmp} {px : Nat → Nat → Triple} (h : s.Depicts px)
    (hloaded : BlockOf s.imageSize.toNat s.data) (hinfo : s'.infoHeader = s.infoHeader)
    (hbytes : ∀ k < s.imageSize.toNat, ∀ b, byteAt s.data k = some b → byteAt s'.data k = some b) :
    s'.Depicts px := by
  obtain ⟨buf, hdata, hlen⟩ := hloaded
  have hbyte : ∀ k b, byteAt s.data k = some b → byteAt s'.data k = some b := by
    intro k b hb
    refine hbytes k ?_ b hb
    rw [hdata] at hb
    exact hlen ▸ lt_of_byteAt hb
  intro y hy x hx
  have hlines : s'.lines = s.lines := by rw [lines, lines, hinfo]
  have hwidth : s'.width = s.width := by rw [width, width, hinfo]
  have hline : s'.lineOf y = s.lineOf y := by rw [lineOf, lineOf, hlines, hinfo]
  rw [hlines] at hy
  rw [hwidth] at hx
  obtain ⟨h1, h2, h3⟩ := h y hy x hx
  rw [hwidth, hline]
  exact ⟨hbyte _ _ h1, hbyte _ _ h2, hbyte _ _ h3⟩

theorem readsPicture_append {s : HBmp} {data : ByteBlock} (husable : s.isInvalid)
    (hsize : s.imageSize ≠ 0) (hdata : s.data = some data) (hlen : data.length = s.imageSize.toNat)
    (rest : ByteBlock) : s.ReadsPicture (s.fileBytes data ++ rest) := by
  intro bs hbs available hmem old
  obtain ⟨front, back, rfl, hfront⟩ := agrees_split hbs
  obtain ⟨s', hread, hfile, hinfo, -, hbytes⟩ :=
    readsBack_fileBytes husable hsize hdata hlen front hfront available hmem old
  rw [fileOf_append hlen.ge hsize hfront]
  exact ⟨s', hread, hfile, hinfo, fun px hpx => hpx.of_bytes ⟨data, hdata, hlen⟩ hinfo hbytes⟩

/-! ## The call -/

theorem writeHeaders_whole {s : HBmp} {a : SaveAnswers} (h : SavedWhole a s) (old : ByteBlock) :
    s.writeHeaders a old =
      ⟨(s.fileHeader.write ++ s.infoHeader.write).map some
          ++ old.drop ((s.fileHeader.write ++ s.infoHeader.write).map some).length,
        ((s.fileHeader.write ++ s.infoHeader.write).map some).length⟩ := by
  have hfirst := @OutFile.write_all [] old (s.fileHeader.write.map some) a.fileHeader
    (by rw [List.length_map, BmpFileHeader.write_length]; exact h.fileHeader)
  have hsecond := @OutFile.write_all (s.fileHeader.write.map some) old (s.infoHeader.write.map some)
    a.infoHeader (by rw [List.length_map, BmpInfoHeader.write_length]; exact h.infoHeader)
  rw [List.map_append, ← hsecond]
  exact congrArg (fun f : OutFile => f.write (s.infoHeader.write.map some) a.infoHeader) hfirst

/-- **Saving a bitmap.** `SaveAs` of a usable bitmap returns OK, however little is written. If everything is
and the bitmap has its pixels, the file is the bitmap, and behind it what the old file had there; with an
image that has bytes, it is read as a bitmap with the same headers and any picture that was saved. -/
theorem saved_readsBack {s : HBmp} (hreached : Reached s) (husable : s.isInvalid) {a : SaveAnswers}
    (hname : a.nameEmpty = false) (hopened : a.opened = true) (old : ByteBlock) :
    ∃ file, s.saveAs a old = .ok (.ok, file) ∧
      ∀ data, s.data = some data → SavedWhole a s →
        file = s.fileBytes data ++ old.drop (s.fileBytes data).length ∧
        (s.imageSize ≠ 0 → s.ReadsPicture file) := by
  rw [saveAs, if_neg (by rw [husable]; decide), if_neg (by rw [hname]; decide),
    if_neg (by rw [hopened]; decide)]
  rcases hreached.loaded with hnone | ⟨data, hdata, hlen⟩
  · rw [hnone]
    exact ⟨_, rfl, fun data hdata => nomatch hdata⟩
  · rw [hdata]
    dsimp only
    rw [if_pos hlen.ge]
    refine ⟨_, rfl, fun data' hdata' hwhole => ?_⟩
    cases hdata'
    have hfile : ((s.writeHeaders a old).write (data.take s.imageSize.toNat) a.pixels).content
        = s.fileBytes data ++ old.drop (s.fileBytes data).length := by
      rw [writeHeaders_whole hwhole, OutFile.write_all (by
        rw [List.length_take]
        exact (Nat.min_le_left _ _).trans hwhole.pixels)]
      rfl
    rw [hfile]
    exact ⟨rfl, fun hsize => readsPicture_append husable hsize hdata hlen _⟩

/-- The file with one pixel, saved over a file of 60 bytes. -/
theorem saved_readsBack_onePixel :
    ∃ file, (readFromFile (fun _ => true) onePixel false zeroed).2.saveAs ⟨false, true, 14, 40, 4⟩
        (List.replicate 60 (some 7)) = .ok (.ok, file) ∧
      (readFromFile (fun _ => true) onePixel false zeroed).2.ReadsPicture file := by
  obtain ⟨file, hsave, hwhole⟩ := saved_readsBack
    (.readFromFile (fun _ => true) onePixel false .zeroed) (by decide)
    (a := ⟨false, true, 14, 40, 4⟩) rfl rfl (List.replicate 60 (some 7))
  exact ⟨file, hsave, (hwhole _ rfl ⟨by decide, by decide, by decide⟩).2 (by decide)⟩

end HBmp

end Image
end Huicpp
