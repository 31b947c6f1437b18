import Mathlib
import Huicpp.Cxx.Text

/-!
# Utils.Fsname

The parts of a path. `FileNameOnly` looks for a dot in `FileName`, `GetFileExternName` in the whole
path, where it compares the last dot with the first slash.

* `fileName_cut`, `fileNameOnly_dotted`, `externName_cut`: what the functions give for a path that is cut
  at its slashes and dots.
* `decomposes_iff`: the parts fit together unless the last dot has slashes on both sides.
-/

namespace Huicpp
namespace Utils

open Cxx Cxx.Text

def preferredSeparator : Byte := charByte '/'

def dosElem : Byte := charByte '.'

/-- `fsname::FileName` -/
def fileName (mName : List Byte) : List Byte :=
  match strrchr mName preferredSeparator with
  | none => mName
  | some pos => (cStr mName).drop (pos + 1)

/-- `fsname::FileNameOnly` -/
def fileNameOnly (mName : List Byte) : List Byte :=
  let strFileName := fileName mName
  match strrchr strFileName dosElem with
  | none => strFileName
  | some pos => (cStr strFileName).take pos

/-- `fsname::GetFileExternName`. No pointer is less than the null pointer. -/
def getFileExternName (mName : List Byte) : List Byte :=
  match strrchr mName dosElem with
  | none => []
  | some poPos =>
    match strchr mName preferredSeparator with
    | none => (cStr mName).drop (poPos + 1)
    | some rootPos => if poPos < rootPos then [] else (cStr mName).drop (poPos + 1)

/-- The parts of the last component of a path. -/
structure Decomposes (path : List Byte) : Prop where
  component : preferredSeparator ∉ fileName path
  whole : ∃ pre, path = pre ++ fileName path ∧ (pre = [] ∨ ∃ p, pre = p ++ [preferredSeparator])
  dotted : dosElem ∈ fileName path →
    fileName path = fileNameOnly path ++ [dosElem] ++ getFileExternName path
  plain : dosElem ∉ fileName path →
    fileNameOnly path = fileName path ∧ getFileExternName path = []
  extension : preferredSeparator ∉ getFileExternName path ∧ dosElem ∉ getFileExternName path

/-- The last dot has a slash in front of it and one behind it. -/
def Misled (path : List Byte) : Prop :=
  ∃ a c, path = a ++ dosElem :: c ∧ dosElem ∉ c ∧ preferredSeparator ∈ a ∧ preferredSeparator ∈ c

variable {path a b c : List Byte}

/-! ## File name and stem -/

theorem fileName_of_none (hzero : 0 ∉ path) (h : preferredSeparator ∉ path) :
    fileName path = path := by
  rw [fileName, strrchr_none hzero h]

theorem fileName_cut (hzero : 0 ∉ a ++ preferredSeparator :: b) (hb : preferredSeparator ∉ b) :
    fileName (a ++ preferredSeparator :: b) = b := by
  rw [fileName, strrchr_cut hzero hb, cStr_eq_self hzero]
  simp

theorem fileName_spec (hzero : 0 ∉ path) :
    preferredSeparator ∉ fileName path ∧
      ∃ pre, path = pre ++ fileName path ∧ (pre = [] ∨ ∃ p, pre = p ++ [preferredSeparator]) := by
  by_cases h : preferredSeparator ∈ path
  · obtain ⟨a, b, rfl, hb⟩ := exists_last_cut h
    rw [fileName_cut hzero hb]
    exact ⟨hb, a ++ [preferredSeparator], by simp, .inr ⟨a, rfl⟩⟩
  · rw [fileName_of_none hzero h]
    exact ⟨h, [], rfl, .inl rfl⟩

theorem fileName_noZero (hzero : 0 ∉ path) : 0 ∉ fileName path := by
  obtain ⟨_, pre, hpath, _⟩ := fileName_spec hzero
  rw [hpath] at hzero
  exact fun h => hzero (List.mem_append_right pre h)

theorem fileNameOnly_plain (hzero : 0 ∉ path) (h : dosElem ∉ fileName path) :
    fileNameOnly path = fileName path := by
  rw [fileNameOnly, strrchr_none (fileName_noZero hzero) h]

theorem fileNameOnly_dotted (hzero : 0 ∉ path) (hname : fileName path = a ++ dosElem :: c)
    (hc : dosElem ∉ c) : fileNameOnly path = a := by
  have hname' : 0 ∉ a ++ dosElem :: c := hname ▸ fileName_noZero hzero
  rw [fileNameOnly, hname, strrchr_cut hname' hc, cStr_eq_self hname']
  exact List.take_left

/-! ## Extension -/

theorem externName_of_none (hzero : 0 ∉ path) (h : dosElem ∉ path) : getFileExternName path = [] := by
  rw [getFileExternName, strrchr_none hzero h]

/-- What is behind the last dot, unless the first slash is behind it too. -/
theorem externName_cut (hzero : 0 ∉ a ++ dosElem :: c) (hc : dosElem ∉ c) :
    getFileExternName (a ++ dosElem :: c) =
      if preferredSeparator ∉ a ∧ preferredSeparator ∈ c then [] else c := by
  have hdrop : (cStr (a ++ dosElem :: c)).drop (a.length + 1) = c := by
    rw [cStr_eq_self hzero]
    simp
  have hne : preferredSeparator ≠ dosElem := by decide
  rw [getFileExternName, strrchr_cut hzero hc]
  by_cases ha : preferredSeparator ∈ a
  · obtain ⟨a₁, a₂, rfl, ha₁⟩ := List.eq_append_cons_of_mem ha
    have hroot : strchr (a₁ ++ preferredSeparator :: a₂ ++ dosElem :: c) preferredSeparator =
        some a₁.length := by
      rw [List.append_assoc] at hzero ⊢
      exact strchr_cut hzero ha₁
    have hlt : ¬ (a₁ ++ preferredSeparator :: a₂).length < a₁.length := by
      rw [List.length_append]
      omega
    simp only [hroot, if_neg hlt, hdrop]
    rw [if_neg fun h => h.1 ha]
  · by_cases hin : preferredSeparator ∈ c
    · obtain ⟨c₁, c₂, rfl, hc₁⟩ := List.eq_append_cons_of_mem hin
      have hfront : preferredSeparator ∉ a ++ dosElem :: c₁ := by
        rw [List.mem_append, List.mem_cons]
        rintro (h | h | h)
        · exact ha h
        · exact hne h
        · exact hc₁ h
      have hroot : strchr (a ++ dosElem :: (c₁ ++ preferredSeparator :: c₂)) preferredSeparator =
          some (a ++ dosElem :: c₁).length := by
        have hwhole : a ++ dosElem :: (c₁ ++ preferredSeparator :: c₂) =
            (a ++ dosElem :: c₁) ++ preferredSeparator :: c₂ := by simp
        rw [hwhole] at hzero ⊢
        exact strchr_cut hzero hfront
      have hlt : a.length < (a ++ dosElem :: c₁).length := by
        rw [List.length_append, List.length_cons]
        omega
      simp only [hroot, if_pos hlt]
      rw [if_pos ⟨ha, hin⟩]
    · have hnone : preferredSeparator ∉ a ++ dosElem :: c := by
        rw [List.mem_append, List.mem_cons]
        rintro (h | h | h)
        · exact ha h
        · exact hne h
        · exact hin h
      simp only [strchr_none hzero hnone, hdrop]
      rw [if_neg fun h => hin h.2]

/-! ## The parts together -/

theorem fileName_dotted (hzero : 0 ∉ a ++ dosElem :: c) (hin : preferredSeparator ∉ c) :
    ∃ a', fileName (a ++ dosElem :: c) = a' ++ dosElem :: c := by
  have hne : preferredSeparator ≠ dosElem := by decide
  have hbehind : ∀ d, preferredSeparator ∉ d → preferredSeparator ∉ d ++ dosElem :: c := by
    intro d hd h
    rcases List.mem_append.mp h with h | h
    · exact hd h
    · rcases List.mem_cons.mp h with h | h
      · exact hne h
      · exact hin h
  by_cases ha : preferredSeparator ∈ a
  · obtain ⟨a₁, a₂, rfl, ha₂⟩ := exists_last_cut ha
    have hwhole : a₁ ++ preferredSeparator :: a₂ ++ dosElem :: c =
        a₁ ++ preferredSeparator :: (a₂ ++ dosElem :: c) := by simp
    rw [hwhole] at hzero ⊢
    exact ⟨a₂, fileName_cut hzero (hbehind a₂ ha₂)⟩
  · exact ⟨a, fileName_of_none hzero (hbehind a ha)⟩

theorem fileName_plain (hzero : 0 ∉ a ++ dosElem :: c) (hc : dosElem ∉ c)
    (hin : preferredSeparator ∈ c) : dosElem ∉ fileName (a ++ dosElem :: c) := by
  obtain ⟨c₁, c₂, rfl, hc₂⟩ := exists_last_cut hin
  have hwhole : a ++ dosElem :: (c₁ ++ preferredSeparator :: c₂) =
      (a ++ dosElem :: c₁) ++ preferredSeparator :: c₂ := by simp
  rw [hwhole] at hzero ⊢
  rw [fileName_cut hzero hc₂]
  exact fun h => hc (List.mem_append_right _ (List.mem_cons_of_mem _ h))

theorem decomposes_of_plain (hzero : 0 ∉ path) (hname : dosElem ∉ fileName path)
    (hext : getFileExternName path = []) : Decomposes path where
  component := (fileName_spec hzero).1
  whole := (fileName_spec hzero).2
  dotted := fun h => absurd h hname
  plain := fun _ => ⟨fileNameOnly_plain hzero hname, hext⟩
  extension := by
    rw [hext]
    exact ⟨List.not_mem_nil, List.not_mem_nil⟩

theorem decomposes_of_dotted (hzero : 0 ∉ path) (hname : fileName path = a ++ dosElem :: c)
    (hext : getFileExternName path = c) (hc : dosElem ∉ c) (hin : preferredSeparator ∉ c) :
    Decomposes path where
  component := (fileName_spec hzero).1
  whole := (fileName_spec hzero).2
  dotted := by
    intro _
    rw [fileNameOnly_dotted hzero hname hc, hext, hname]
    simp
  plain := by
    intro h
    rw [hname] at h
    exact absurd (List.mem_append_right a (List.mem_cons_self ..)) h
  extension := by
    rw [hext]
    exact ⟨hin, hc⟩

/-- **The parts of a path.** They are those of its last component exactly if the last dot of the path
has not a slash on both sides. -/
theorem decomposes_iff (hzero : 0 ∉ path) : Decomposes path ↔ ¬ Misled path := by
  constructor
  · rintro hparts ⟨a, c, rfl, hc, ha, hin⟩
    have hext := externName_cut hzero hc
    rw [if_neg fun h => h.1 ha] at hext
    exact hparts.extension.1 (hext.symm ▸ hin)
  · intro hmisled
    by_cases hdot : dosElem ∈ path
    · obtain ⟨a, c, rfl, hc⟩ := exists_last_cut hdot
      have hext := externName_cut hzero hc
      by_cases hin : preferredSeparator ∈ c
      · have ha : preferredSeparator ∉ a := fun ha => hmisled ⟨a, c, rfl, hc, ha, hin⟩
        rw [if_pos ⟨ha, hin⟩] at hext
        exact decomposes_of_plain hzero (fileName_plain hzero hc hin) hext
      · obtain ⟨a', hname⟩ := fileName_dotted hzero hin
        rw [if_neg fun h => hin h.2] at hext
        exact decomposes_of_dotted hzero hname hext hc hin
    · have hname : dosElem ∉ fileName path := by
        obtain ⟨_, pre, hpath, _⟩ := fileName_spec hzero
        intro h
        rw [hpath] at hdot
        exact hdot (List.mem_append_right pre h)
      exact decomposes_of_plain hzero hname (externName_of_none hzero hdot)

/-- The parts of `/d/f.gz`. -/
theorem decomposes_iff_archive :
    Decomposes [47, 100, 47, 102, 46, 103, 122] ∧
      fileName [47, 100, 47, 102, 46, 103, 122] = [102, 46, 103, 122] := by
  have hzero : (0 : Byte) ∉ ([47, 100, 47, 102, 46, 103, 122] : List Byte) := by decide
  refine ⟨(decomposes_iff hzero).mpr ?_, by decide⟩
  rintro ⟨a, c, hpath, hc, _, hin⟩
  have hcut := strrchr_cut (hpath ▸ hzero) hc
  have hat : strrchr [47, 100, 47, 102, 46, 103, 122] dosElem = some 4 := by decide
  rw [← hpath, hat] at hcut
  have hlen : a.length = 4 := (Option.some.inj hcut).symm
  obtain ⟨_, hbehind⟩ := @List.append_inj _ a [47, 100, 47, 102] _ _ hpath.symm hlen
  rw [(List.cons_eq_cons.mp hbehind).2] at hin
  exact absurd hin (by decide)

/-- `/.b/c` has the extension `b/c`. -/
theorem externName_of_directory : ¬ ∀ path : List Byte, 0 ∉ path → Decomposes path := by
  intro hall
  have hparts := hall [preferredSeparator, dosElem, 98, preferredSeparator, 99] (by decide)
  exact absurd hparts.extension.1 (by decide)

end Utils
end Huicpp
