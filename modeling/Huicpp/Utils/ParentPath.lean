import Mathlib
import Huicpp.Cxx.Dirname
import Huicpp.Str.HMstr
import Huicpp.Utils.Fsname

/-!
# Utils.ParentPath

`fsname::GetParentPath` and `fsname::Append`.

`GetParentPath` takes one slash from the end before it calls `dirname`. This leaves nothing of the
root, so the root's parent is `.`; every other absolute path has the parent that it should have.
-/

namespace Huicpp
namespace Utils

open Cxx Cxx.Text

/-- What the C library answers: the working directory, `realpath`, and whether `dirname` keeps two
slashes that stand alone. -/
structure Libc where
  getcwd : List Byte
  realpath : List Byte → List Byte
  two : Bool

/-- `HStr::RemoveLeft` -/
def removeLeft (str : List Byte) (len : Nat) : Outcome (List Byte) :=
  if len > str.length then return [] else substr str len npos

def isRootBegin (strPath : List Byte) : Bool := strPath.head? == some preferredSeparator

def isRootEnd (strPath : List Byte) : Bool := strPath.getLast? == some preferredSeparator

def isJustOnlyFileName (mName : List Byte) : Bool := preferredSeparator ∉ mName

/-- `fsname::Append` -/
def append (libc : Libc) (mName newPath : List Byte) : Outcome (List Byte) :=
  if newPath = [] then return mName
  else do
    let mName := if mName = [] then cStr libc.getcwd else mName
    let newpath ← (if isRootBegin newPath then removeLeft newPath 1 else pure newPath)
    let mName ← (if isRootEnd mName then Str.removeRight mName 1 else pure mName)
    return mName ++ [preferredSeparator] ++ newpath

/-- `fsname::SetAsAbsolute` -/
def setAsAbsolute (libc : Libc) (mName : List Byte) : Outcome (List Byte) :=
  if isRootBegin mName then return mName
  else if isJustOnlyFileName mName then append libc (cStr libc.getcwd) mName
  else return cStr (libc.realpath (cStr mName))

/-- `fsname::GetParentPath` -/
def getParentPath (libc : Libc) (mName : List Byte) : Outcome (List Byte) := do
  let res ← (if ¬ isRootBegin mName then setAsAbsolute libc mName else pure mName)
  let res ← (if isRootEnd res then Str.removeRight res 1 else pure res)
  return Dirname.dirname libc.two (cStr res)

/-- `GetParentPath`, so often. -/
def parents (libc : Libc) : Nat → List Byte → Outcome (List Byte)
  | 0, p => return p
  | k + 1, p => do
    let q ← parents libc k p
    getParentPath libc q

/-! ## Paths and their ends -/

variable {libc : Libc} {p q d n s : List Byte}

theorem isRootBegin_iff : isRootBegin p = true ↔ p.head? = some Dirname.slash := beq_iff_eq

theorem isRootEnd_concat (s : List Byte) : isRootEnd (s ++ [preferredSeparator]) = true := by
  rw [isRootEnd, List.getLast?_concat]
  rfl

theorem exists_of_isRootEnd (h : isRootEnd p = true) : ∃ s, p = s ++ [preferredSeparator] := by
  have hlast : preferredSeparator ∈ p.getLast? := beq_iff_eq.mp h
  exact ⟨p.dropLast, (List.dropLast_append_getLast? _ hlast).symm⟩

theorem trim_ne_nil (hne : p ≠ []) (hend : isRootEnd p = false) : Dirname.trim p ≠ [] := by
  intro hnil
  have hall := Dirname.trim_eq_nil_iff.mp hnil
  have hlast : p.getLast? = some Dirname.slash := by
    rw [List.getLast?_eq_some_getLast hne, hall _ (List.getLast_mem hne)]
  have hend' : isRootEnd p = true := beq_iff_eq.mpr hlast
  rw [hend] at hend'
  cases hend'

theorem ne_nil_of_isRootBegin (h : isRootBegin p = true) : p ≠ [] := by
  rintro rfl
  cases h

/-! ## The parent of an absolute path -/

theorem getParentPath_of_not_end (habs : isRootBegin p = true) (hzero : 0 ∉ p)
    (hend : isRootEnd p = false) : getParentPath libc p = .ok (Dirname.dirname libc.two p) := by
  rw [getParentPath, if_neg (not_not.mpr habs), Outcome.pure_eq, Outcome.ok_bind, hend,
    if_neg Bool.false_ne_true, Outcome.pure_eq, Outcome.ok_bind, cStr_eq_self hzero]
  rfl

theorem getParentPath_concat (habs : isRootBegin (s ++ [preferredSeparator]) = true) (hzero : 0 ∉ s) :
    getParentPath libc (s ++ [preferredSeparator]) = .ok (Dirname.dirname libc.two s) := by
  rw [getParentPath, if_neg (not_not.mpr habs), Outcome.pure_eq, Outcome.ok_bind,
    if_pos (isRootEnd_concat s), Str.removeRight_one, List.dropLast_concat, Outcome.ok_bind,
    cStr_eq_self hzero]
  rfl

theorem getParentPath_root (libc : Libc) :
    getParentPath libc [preferredSeparator] = .ok [Dirname.dot] :=
  getParentPath_concat (s := []) rfl List.not_mem_nil

/-- The same path, but for one slash at the end. -/
def UpToSlash (p q : List Byte) : Prop :=
  p = q ∨ p = q ++ [preferredSeparator] ∨ q = p ++ [preferredSeparator]

/-- The parent of every other absolute path. -/
theorem getParentPath_spec (libc : Libc) (habs : isRootBegin p = true) (hzero : 0 ∉ p)
    (hroot : p ≠ [preferredSeparator]) :
    ∃ q, getParentPath libc p = .ok q ∧ isRootBegin q = true ∧
      UpToSlash q (Dirname.dirname libc.two p) ∧ q.length < p.length := by
  cases hend : isRootEnd p with
  | false =>
    have htrim := trim_ne_nil (ne_nil_of_isRootBegin habs) hend
    obtain ⟨hhead, hlen⟩ := Dirname.dirname_absolute libc.two (isRootBegin_iff.mp habs) htrim
    exact ⟨_, getParentPath_of_not_end habs hzero hend, isRootBegin_iff.mpr hhead, .inl rfl, hlen⟩
  | true =>
    obtain ⟨s, rfl⟩ := exists_of_isRootEnd hend
    have hs : s ≠ [] := by
      rintro rfl
      exact hroot rfl
    have hzero' : 0 ∉ s := fun h => hzero (List.mem_append_left _ h)
    have hget : getParentPath libc (s ++ [preferredSeparator]) = _ := getParentPath_concat habs hzero'
    by_cases htrim : Dirname.trim s = []
    · -- slashes only
      have hall := Dirname.trim_eq_nil_iff.mp htrim
      have hall' : ∀ c ∈ s ++ [Dirname.slash], c = Dirname.slash := by
        intro c hc
        rcases List.mem_append.mp hc with h | h
        · exact hall c h
        · exact List.mem_singleton.mp h
      have hdir := Dirname.dirname_slashes libc.two hall hs
      have hdir' := Dirname.dirname_slashes libc.two hall' (by simp)
      have hlen : 1 < (s ++ [preferredSeparator]).length := by
        rw [List.length_append, List.length_singleton]
        exact Nat.lt_add_of_pos_left (List.length_pos_iff.mpr hs)
      refine ⟨_, hget, ?_⟩
      show _ ∧ UpToSlash _ (Dirname.dirname libc.two (s ++ [Dirname.slash])) ∧ _
      rw [hdir, hdir']
      by_cases htwo : libc.two = true ∧ s = [Dirname.slash, Dirname.slash]
      · obtain ⟨h2, rfl⟩ := htwo
        rw [if_pos ⟨h2, rfl⟩, if_neg fun h => by cases h.2]
        exact ⟨rfl, .inr (.inl rfl), by decide⟩
      · rw [if_neg htwo]
        by_cases htwo' : libc.two = true ∧ s ++ [Dirname.slash] = [Dirname.slash, Dirname.slash]
        · rw [if_pos htwo']
          exact ⟨rfl, .inr (.inr rfl), hlen⟩
        · rw [if_neg htwo']
          exact ⟨rfl, .inl rfl, hlen⟩
    · obtain ⟨c, t, rfl⟩ := List.exists_cons_of_ne_nil hs
      have hhead : (c :: t).head? = some Dirname.slash := isRootBegin_iff.mp habs
      obtain ⟨hhead', hlen⟩ := Dirname.dirname_absolute libc.two hhead htrim
      refine ⟨_, hget, isRootBegin_iff.mpr hhead', .inl (Dirname.dirname_concat htrim).symm, ?_⟩
      rw [List.length_append, List.length_singleton]
      omega

theorem zero_not_mem_dirname (hzero : 0 ∉ p) (two : Bool) : 0 ∉ Dirname.dirname two p := by
  intro h
  rcases Dirname.mem_dirname h with h | h | h
  · exact hzero h
  · cases h
  · cases h

theorem zero_not_mem_parent (hget : getParentPath libc p = .ok q) : 0 ∉ q := by
  rw [getParentPath] at hget
  obtain ⟨res, -, hget⟩ := Outcome.bind_eq_ok.mp hget
  obtain ⟨res', -, hget⟩ := Outcome.bind_eq_ok.mp hget
  obtain rfl : Dirname.dirname libc.two (cStr res') = q := Outcome.ok.inj hget
  exact zero_not_mem_dirname (not_mem_cStr res') libc.two

theorem parents_of_parent (hget : getParentPath libc p = .ok q) (k : Nat) :
    parents libc (k + 1) p = parents libc k q := by
  induction k with
  | zero => exact hget
  | succ k ih => rw [parents, ih, parents]

theorem parents_reach_root (libc : Libc) (habs : isRootBegin p = true) (hzero : 0 ∉ p) :
    ∃ k, parents libc k p = .ok [preferredSeparator] := by
  induction hlen : p.length using Nat.strongRecOn generalizing p with
  | ind len ih =>
    by_cases hroot : p = [preferredSeparator]
    · exact ⟨0, congrArg Outcome.ok hroot⟩
    · obtain ⟨q, hget, habs', -, hshort⟩ := getParentPath_spec libc habs hzero hroot
      obtain ⟨k, hk⟩ := ih q.length (by omega) habs' (zero_not_mem_parent hget) rfl
      exact ⟨k + 1, (parents_of_parent hget k).trans hk⟩

/-- It does not stay: what follows it is `.`. -/
theorem parents_leave_root (libc : Libc) (p : List Byte) :
    ¬ ∃ k, ∀ m, k ≤ m → parents libc m p = .ok [preferredSeparator] := by
  rintro ⟨k, hk⟩
  have hnext := hk (k + 1) (Nat.le_succ k)
  rw [parents, hk k le_rfl, Outcome.ok_bind, getParentPath_root] at hnext
  cases hnext

/-! ## A name that is appended -/

/-- The path without one slash at the end. -/
def withoutSlash (d : List Byte) : List Byte := if isRootEnd d then d.dropLast else d

/-- The same path, but for slashes at the end. -/
def UpToSlashes (p q : List Byte) : Prop := Dirname.trim p = Dirname.trim q

/-- Appending a name and taking the parent. -/
def Inverse (libc : Libc) (d n : List Byte) : Prop :=
  ∃ p, append libc d n = .ok p ∧ p = withoutSlash d ++ [preferredSeparator] ++ n ∧ fileName p = n ∧
    ∃ q, getParentPath libc p = .ok q ∧ UpToSlashes q d

theorem trim_withoutSlash (d : List Byte) : Dirname.trim (withoutSlash d) = Dirname.trim d := by
  rw [withoutSlash]
  split
  · rename_i hend
    obtain ⟨s, rfl⟩ := exists_of_isRootEnd hend
    rw [List.dropLast_concat]
    exact (Dirname.trim_slash s).symm
  · rfl

theorem append_name (hd : isRootBegin d = true) (hn : n ≠ []) (hslash : preferredSeparator ∉ n) :
    append libc d n = .ok (withoutSlash d ++ [preferredSeparator] ++ n) := by
  have hbegin : ¬ isRootBegin n = true := fun h => hslash (Dirname.mem_of_head (isRootBegin_iff.mp h))
  rw [append, if_neg hn]
  dsimp only
  rw [if_neg (ne_nil_of_isRootBegin hd), if_neg hbegin, Outcome.pure_eq, Outcome.ok_bind,
    withoutSlash]
  split
  · rw [Str.removeRight_one, Outcome.ok_bind]
    rfl
  · rfl

theorem appended_absolute (hd : isRootBegin d = true) (n : List Byte) :
    isRootBegin (withoutSlash d ++ [preferredSeparator] ++ n) = true := by
  have hpre : withoutSlash d <+: d := by
    rw [withoutSlash]
    split
    · exact List.dropLast_prefix d
    · exact List.prefix_rfl
  cases hw : withoutSlash d with
  | nil => rfl
  | cons c w =>
    rw [hw] at hpre
    have hhead : (c :: w).head? = some Dirname.slash :=
      Dirname.head_of_begins (isRootBegin_iff.mp hd) hpre (List.cons_ne_nil c w)
    exact isRootBegin_iff.mpr hhead

theorem isRootEnd_name (w : List Byte) (hn : n ≠ []) (hslash : preferredSeparator ∉ n) :
    isRootEnd (w ++ n) = false := by
  refine Bool.eq_false_of_not_eq_true fun hend => hslash ?_
  have hlast : (w ++ n).getLast? = some preferredSeparator := beq_iff_eq.mp hend
  rw [List.getLast?_append_of_ne_nil w hn] at hlast
  exact List.mem_of_getLast? hlast

theorem zero_not_mem_fileName (hp : isRootBegin p = true) : 0 ∉ fileName p := by
  rw [fileName]
  cases hpos : strrchr p preferredSeparator with
  | some pos => exact fun h => not_mem_cStr p (List.mem_of_mem_drop h)
  | none =>
    -- the slash at the beginning is found
    obtain ⟨c, t, rfl⟩ := List.exists_cons_of_ne_nil (ne_nil_of_isRootBegin hp)
    obtain rfl : c = preferredSeparator := Option.some.inj (isRootBegin_iff.mp hp)
    have hnone := List.findIdx?_eq_none_iff.mp (Option.map_eq_none_iff.mp hpos)
    have hmem : preferredSeparator ∈ (cStr (preferredSeparator :: t)).reverse := by
      rw [List.mem_reverse, cStr, List.takeWhile_cons_of_pos (by decide)]
      exact List.mem_cons_self
    exact absurd (hnone _ hmem) (by simp)

theorem inverse_iff (hd : isRootBegin d = true) (hn : n ≠ []) (hslash : preferredSeparator ∉ n) :
    Inverse libc d n ↔ 0 ∉ d ∧ 0 ∉ n := by
  have habs := appended_absolute hd n
  constructor
  · rintro ⟨p, -, rfl, hname, q, hget, hup⟩
    have hup : Dirname.trim q = Dirname.trim d := hup
    constructor
    · intro h
      have hmem : 0 ∈ Dirname.trim d := Dirname.mem_trim h (by decide)
      rw [← hup] at hmem
      exact zero_not_mem_parent hget ((Dirname.trim_begins q).subset hmem)
    · rw [← hname]
      exact zero_not_mem_fileName habs
  · rintro ⟨hd0, hn0⟩
    have hw0 : 0 ∉ withoutSlash d := by
      rw [withoutSlash]
      split
      · exact fun h => hd0 (List.mem_of_mem_dropLast h)
      · exact hd0
    have hcut : withoutSlash d ++ [preferredSeparator] ++ n =
        withoutSlash d ++ preferredSeparator :: n := by simp
    have hzero : 0 ∉ withoutSlash d ++ [preferredSeparator] ++ n := by
      rw [List.mem_append, List.mem_append, List.mem_singleton]
      rintro ((h | h) | h)
      · exact hw0 h
      · cases h
      · exact hn0 h
    refine ⟨_, append_name hd hn hslash, rfl, ?_, _,
      getParentPath_of_not_end habs hzero (isRootEnd_name _ hn hslash), ?_⟩
    · rw [hcut] at hzero ⊢
      exact fileName_cut hzero hslash
    · rw [hcut]
      have hdir : Dirname.dirname libc.two (withoutSlash d ++ preferredSeparator :: n) =
          Dirname.ofDirectory libc.two (withoutSlash d ++ [Dirname.slash]) :=
        Dirname.dirname_component hn hslash
      rw [UpToSlashes, hdir, Dirname.trim_ofDirectory, Dirname.trim_slash, trim_withoutSlash]

/-- **The parent of a path.** An absolute path has the parent that `dirname` gives exactly if it is not the
root. Taking the parent again and again reaches the root, and never stays there. A name is appended to a
path, and taken off again, exactly if neither has a zero. -/
theorem parent_iff (libc : Libc) (habs : isRootBegin p = true) (hzero : 0 ∉ p)
    (hd : isRootBegin d = true) (hn : n ≠ []) (hslash : preferredSeparator ∉ n) :
    ((∃ q, getParentPath libc p = .ok q ∧ isRootBegin q = true ∧
        UpToSlash q (Dirname.dirname libc.two p)) ↔ p ≠ [preferredSeparator]) ∧
    (∃ k, parents libc k p = .ok [preferredSeparator]) ∧
    (¬ ∃ k, ∀ m, k ≤ m → parents libc m p = .ok [preferredSeparator]) ∧
    (Inverse libc d n ↔ 0 ∉ d ∧ 0 ∉ n) := by
  refine ⟨⟨?_, fun hroot => ?_⟩, parents_reach_root libc habs hzero, parents_leave_root libc p,
    inverse_iff hd hn hslash⟩
  · rintro ⟨q, hget, habs', -⟩ rfl
    rw [getParentPath_root] at hget
    obtain rfl : [Dirname.dot] = q := Outcome.ok.inj hget
    cases habs'
  · obtain ⟨q, hget, habs', hup, -⟩ := getParentPath_spec libc habs hzero hroot
    exact ⟨q, hget, habs', hup⟩

/-- A C library whose working directory is the root. -/
def rootLibc : Libc := ⟨[preferredSeparator], id, false⟩

/-- The path `/a`, and the name `a` in the root. -/
theorem parent_iff_root :
    ((∃ q, getParentPath rootLibc [preferredSeparator, charByte 'a'] = .ok q ∧ isRootBegin q = true ∧
        UpToSlash q (Dirname.dirname rootLibc.two [preferredSeparator, charByte 'a'])) ↔
      [preferredSeparator, charByte 'a'] ≠ [preferredSeparator]) ∧
    (∃ k, parents rootLibc k [preferredSeparator, charByte 'a'] = .ok [preferredSeparator]) ∧
    (¬ ∃ k, ∀ m, k ≤ m →
      parents rootLibc m [preferredSeparator, charByte 'a'] = .ok [preferredSeparator]) ∧
    (Inverse rootLibc [preferredSeparator] [charByte 'a'] ↔
      0 ∉ [preferredSeparator] ∧ 0 ∉ [charByte 'a']) :=
  parent_iff rootLibc rfl (by decide) rfl (by decide) (by decide)

/-- The parent of the root is not absolute. -/
theorem parent_of_root_relative :
    ¬ ∀ (libc : Libc) (p : List Byte), isRootBegin p = true → 0 ∉ p →
      ∃ q, getParentPath libc p = .ok q ∧ isRootBegin q = true := by
  intro hall
  obtain ⟨q, hget, habs⟩ := hall rootLibc [preferredSeparator] rfl (by decide)
  rw [getParentPath_root] at hget
  obtain rfl : [Dirname.dot] = q := Outcome.ok.inj hget
  cases habs

end Utils
end Huicpp
