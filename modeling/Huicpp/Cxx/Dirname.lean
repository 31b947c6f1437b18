import Mathlib
import Huicpp.Cxx.Text

/-!
# Cxx.Dirname

POSIX `dirname`, on the text of its argument. Whether two slashes alone stay two is up to the
implementation: `two`.

`trim` takes the slashes from the end of a path.
-/

namespace Cxx
namespace Dirname

def slash : Byte := charByte '/'

def dot : Byte := charByte '.'

def isSlash (c : Byte) : Bool := c = slash

def trim (s : List Byte) : List Byte := s.rdropWhile isSlash

/-- What is left of a path without its last component. -/
def ofDirectory (two : Bool) (dir : List Byte) : List Byte :=
  if two = true ∧ dir = [slash, slash] then dir
  else if trim dir = [] then [slash]
  else trim dir

def dirname (two : Bool) (s : List Byte) : List Byte :=
  if s = [] then [dot]
  else if s = [slash, slash] then ofDirectory two s
  else if trim s = [] then [slash]
  else if slash ∉ trim s then [dot]
  else ofDirectory two ((trim s).rdropWhile fun c => !isSlash c)

variable {two : Bool} {a b dir s : List Byte} {c : Byte}

/-! ## Trimmed paths -/

theorem isSlash_slash : isSlash slash = true := rfl

theorem isSlash_iff : isSlash c = true ↔ c = slash := decide_eq_true_iff

theorem trim_begins (s : List Byte) : trim s <+: s := List.rdropWhile_prefix isSlash s

theorem trim_eq_nil_iff : trim s = [] ↔ ∀ c ∈ s, c = slash := by
  rw [trim, List.rdropWhile_eq_nil_iff]
  exact forall₂_congr fun c _ => isSlash_iff

theorem trim_slash (s : List Byte) : trim (s ++ [slash]) = trim s :=
  List.rdropWhile_concat_pos isSlash s slash isSlash_slash

theorem trim_trim (s : List Byte) : trim (trim s) = trim s := List.rdropWhile_idempotent _ _

theorem trim_component (hb : b ≠ []) (hslash : slash ∉ b) : trim (a ++ b) = a ++ b := by
  refine List.rdropWhile_eq_self_iff.mpr fun hne hlast => ?_
  rw [isSlash_iff, List.getLast_append_of_ne_nil hne hb] at hlast
  exact hslash (hlast ▸ List.getLast_mem hb)

theorem head_of_begins (hs : s.head? = some slash) (hp : a <+: s) (ha : a ≠ []) :
    a.head? = some slash := by
  obtain ⟨t, rfl⟩ := hp
  obtain ⟨c, a, rfl⟩ := List.exists_cons_of_ne_nil ha
  exact hs

theorem mem_of_head (hs : s.head? = some slash) : slash ∈ s := List.mem_of_mem_head? hs

theorem mem_trim (hc : c ∈ s) (hne : c ≠ slash) : c ∈ trim s := by
  rw [← List.rdropWhile_append_rtakeWhile (p := isSlash) (l := s)] at hc
  rcases List.mem_append.mp hc with h | h
  · exact h
  · exact absurd (isSlash_iff.mp (List.mem_rtakeWhile_imp h)) hne

theorem trim_ofDirectory (two : Bool) (dir : List Byte) : trim (ofDirectory two dir) = trim dir := by
  rw [ofDirectory]
  split_ifs with htwo hnil
  · rfl
  · rw [hnil]
    rfl
  · exact trim_trim dir

theorem head_ofDirectory (hdir : dir.head? = some slash) :
    (ofDirectory two dir).head? = some slash := by
  rw [ofDirectory]
  split_ifs with htwo hnil
  · exact hdir
  · rfl
  · exact head_of_begins hdir (trim_begins dir) hnil

theorem mem_ofDirectory (hc : c ∈ ofDirectory two dir) : c ∈ dir ∨ c = slash := by
  rw [ofDirectory] at hc
  split_ifs at hc with htwo hnil
  · exact .inl hc
  · exact .inr (List.mem_singleton.mp hc)
  · exact .inl ((trim_begins dir).subset hc)

theorem length_ofDirectory (hdir : dir ≠ []) : (ofDirectory two dir).length ≤ dir.length := by
  rw [ofDirectory]
  split_ifs with htwo hnil
  · exact le_rfl
  · exact List.length_pos_iff.mpr hdir
  · exact (trim_begins dir).length_le

/-! ## `dirname` -/

theorem dirname_of_name (h : trim s ≠ []) : dirname two s =
    if slash ∉ trim s then [dot] else ofDirectory two ((trim s).rdropWhile fun c => !isSlash c) := by
  have hnil : s ≠ [] := by
    rintro rfl
    exact h rfl
  have htwo : s ≠ [slash, slash] := by
    rintro rfl
    exact h rfl
  rw [dirname, if_neg hnil, if_neg htwo, if_neg h]

theorem mem_dirname (hc : c ∈ dirname two s) : c ∈ s ∨ c = slash ∨ c = dot := by
  have hpre := List.rdropWhile_prefix (fun c => !isSlash c) (trim s)
  rw [dirname] at hc
  split_ifs at hc with hnil htwo htrim hmem
  · exact .inr (.inr (List.mem_singleton.mp hc))
  · exact (mem_ofDirectory hc).imp_right .inl
  · exact .inr (.inl (List.mem_singleton.mp hc))
  · rcases mem_ofDirectory hc with h | h
    · exact .inl ((trim_begins s).subset (hpre.subset h))
    · exact .inr (.inl h)
  · exact .inr (.inr (List.mem_singleton.mp hc))

theorem dirname_concat (h : trim s ≠ []) : dirname two (s ++ [slash]) = dirname two s := by
  rw [dirname_of_name h, dirname_of_name (by rw [trim_slash]; exact h), trim_slash]

theorem dirname_slashes (two : Bool) (hs : ∀ c ∈ s, c = slash) (hne : s ≠ []) :
    dirname two s = if two = true ∧ s = [slash, slash] then [slash, slash] else [slash] := by
  have hnil : trim s = [] := trim_eq_nil_iff.mpr hs
  rw [dirname, if_neg hne, ofDirectory]
  split_ifs <;> simp_all

theorem dirname_component (hb : b ≠ []) (hslash : slash ∉ b) :
    dirname two (a ++ slash :: b) = ofDirectory two (a ++ [slash]) := by
  have htrim : trim (a ++ slash :: b) = a ++ slash :: b := by
    rw [List.append_cons]
    exact trim_component hb hslash
  have hdrop : (a ++ slash :: b).rdropWhile (fun c => !isSlash c) = a ++ [slash] := by
    have hall : ∀ c ∈ b.reverse, (!isSlash c) = true := by
      intro c hc
      rw [Bool.not_eq_true', Bool.eq_false_iff]
      exact fun h => hslash (isSlash_iff.mp h ▸ List.mem_reverse.mp hc)
    rw [List.append_cons, List.rdropWhile, List.reverse_append, List.dropWhile_append_of_pos hall,
      ← List.rdropWhile]
    exact List.rdropWhile_concat_neg _ a slash (by rw [isSlash_slash]; exact Bool.false_ne_true)
  have hmem : slash ∈ a ++ slash :: b := List.mem_append_right a List.mem_cons_self
  rw [dirname_of_name (by rw [htrim]; simp), htrim, if_neg (not_not.mpr hmem), hdrop]

theorem dirname_absolute (two : Bool) (hs : s.head? = some slash) (h : trim s ≠ []) :
    (dirname two s).head? = some slash ∧ (dirname two s).length < s.length := by
  have hhead : (trim s).head? = some slash := head_of_begins hs (trim_begins s) h
  have hmem : slash ∈ trim s := mem_of_head hhead
  have hdir : (trim s).rdropWhile (fun c => !isSlash c) ≠ [] := by
    intro hnil
    have hall := List.rdropWhile_eq_nil_iff.mp hnil slash hmem
    cases hall
  have hpre := List.rdropWhile_prefix (fun c => !isSlash c) (trim s)
  have hshort : ((trim s).rdropWhile fun c => !isSlash c).length < (trim s).length := by
    refine lt_of_le_of_ne hpre.length_le fun heq => ?_
    have hself := List.rdropWhile_eq_self_iff.mp (hpre.eq_of_length heq) h
    have hlast : ¬ isSlash ((trim s).getLast h) = true := List.rdropWhile_last_not isSlash s h
    exact hself (by rw [Bool.eq_false_of_not_eq_true hlast]; rfl)
  rw [dirname_of_name h, if_neg (not_not.mpr hmem)]
  refine ⟨head_ofDirectory (head_of_begins hhead hpre hdir), ?_⟩
  calc
    _ ≤ _ := length_ofDirectory hdir
    _ < (trim s).length := hshort
    _ ≤ s.length := (trim_begins s).length_le

end Dirname
end Cxx
