import Mathlib
import Huicpp.Cxx.CString
import Huicpp.Time.Timespan

/-!
# Time.SpanFormat

The text of a time span in a format.

* `replaced t f`: the format with its escapes replaced, and every other byte copied.
* `rendered t f`: what the scan of `tostr` makes of the format. It takes two bytes at every `%` and at
  every byte above 0x80, drops the escapes that it does not know, and copies the byte behind a byte
  above 0x80.
* `rendered_eq_replaced_iff`: the two agree exactly for the formats that are `Listed`.
-/

namespace Huicpp
namespace Time
namespace Timespan

open Cxx

def percent : Byte := charByte '%'

/-- What an escape is replaced by. -/
def component (t : Timespan) (c : Byte) : List Byte :=
  if c = percent then [percent]
  else if c = charByte 'D' then decimalInt t.getDays.toInt
  else if c = charByte 'H' then decimalInt02 t.getHours.toInt
  else if c = charByte 'M' then decimalInt02 t.getMinutes.toInt
  else if c = charByte 'S' then decimalInt02 t.getSeconds.toInt
  else []

/-- The escapes that there are. -/
def escapes : List Byte := [percent, charByte 'D', charByte 'H', charByte 'M', charByte 'S']

/-- The escapes are replaced, and every byte outside them is copied. -/
def replaced (t : Timespan) : List Byte → List Byte
  | [] => []
  | [c] => [c]
  | c :: d :: f =>
    if c = percent ∧ d ∈ escapes then component t d ++ replaced t f else c :: replaced t (d :: f)

/-- A byte that the scan takes together with the next one. -/
def Leads (c : Byte) : Prop := c = percent ∨ 0x80 < c.toNat

instance (c : Byte) : Decidable (Leads c) := inferInstanceAs (Decidable (_ ∨ _))

/-- The text that the scan makes. -/
def rendered (t : Timespan) : List Byte → List Byte
  | [] => []
  | [c] => [c]
  | c :: d :: f =>
    if c = percent then component t d ++ rendered t f
    else if 0x80 < c.toNat then c :: d :: rendered t f
    else c :: rendered t (d :: f)

/-- The format does not end behind a byte that the scan takes together with the next one. -/
def Complete : List Byte → Prop
  | [] => True
  | [c] => ¬ Leads c
  | c :: d :: f => if Leads c then Complete f else Complete (d :: f)

/-- Behind a `%` that is copied: an even number of them, and then no escape's letter. -/
def Copied : List Byte → Prop
  | [] => True
  | [c] => c ∉ escapes
  | c :: d :: f => if c = percent then d = percent ∧ Copied f else c ∉ escapes

/-- Every `%` begins one of the escapes, or is copied behind a byte above 0x80 and begins none. -/
def Listed : List Byte → Prop
  | [] => True
  | [_] => True
  | c :: d :: f =>
    if c = percent then d ∈ escapes ∧ Listed f
    else if 0x80 < c.toNat then (d = percent → Copied f) ∧ Listed f
    else Listed (d :: f)

variable {t : Timespan} {f : List Byte} {c d : Byte}

theorem complete_of_leads (hc : Leads c) : Complete (c :: d :: f) ↔ Complete f := by
  rw [Complete, if_pos hc]

theorem complete_of_not_leads (hc : ¬ Leads c) : Complete (c :: d :: f) ↔ Complete (d :: f) := by
  rw [Complete, if_neg hc]

theorem replaced_cons (t : Timespan) (hc : c ≠ percent) (f : List Byte) :
    replaced t (c :: f) = c :: replaced t f := by
  cases f with
  | nil => rfl
  | cons d f => rw [replaced, if_neg fun h => hc h.1]

theorem replaced_escape (t : Timespan) (hd : d ∈ escapes) (f : List Byte) :
    replaced t (percent :: d :: f) = component t d ++ replaced t f := by
  rw [replaced, if_pos ⟨rfl, hd⟩]

theorem replaced_unlisted (t : Timespan) (hd : d ∉ escapes) (f : List Byte) :
    replaced t (percent :: d :: f) = percent :: d :: replaced t f := by
  have hne : d ≠ percent := by
    rintro rfl
    exact hd (by decide)
  rw [replaced, if_neg fun h => hd h.2, replaced_cons t hne]

/-! ## Listed formats -/

theorem replaced_copied (t : Timespan) (h : Copied f) :
    replaced t (percent :: f) = percent :: replaced t f := by
  fun_induction Copied f with
  | case1 => rfl
  | case2 c => rw [replaced_unlisted t h, replaced, replaced]
  | case3 d f ih =>
    obtain ⟨rfl, hf⟩ := h
    rw [replaced_escape t (by decide), ih hf, replaced_escape t (by decide)]
    rfl
  | case4 c d f hne =>
    rw [replaced_unlisted t h, replaced_cons t hne]

theorem rendered_of_listed (t : Timespan) (h : Listed f) : rendered t f = replaced t f := by
  fun_induction rendered t f with
  | case1 => rfl
  | case2 c => rfl
  | case3 d f ih =>
    rw [Listed, if_pos rfl] at h
    rw [replaced_escape t h.1, ih h.2]
  | case4 c d f hne hhigh ih =>
    rw [Listed, if_neg hne, if_pos hhigh] at h
    rw [replaced_cons t hne, ih h.2]
    by_cases hd : d = percent
    · rw [hd, replaced_copied t (h.1 hd)]
    · rw [replaced_cons t hd]
  | case5 c d f hne hlow ih =>
    rw [Listed, if_neg hne, if_neg hlow] at h
    rw [replaced_cons t hne, ih h]

/-! ## Other formats -/

/-- What a byte of a format can contribute to the number of `b`s in the text. -/
def yield (t : Timespan) (b c : Byte) : Nat :=
  if c ∈ escapes then (component t c).count b else if c = b then 1 else 0

def yields (t : Timespan) (b : Byte) (f : List Byte) : Nat := (f.map (yield t b)).sum

theorem yields_cons (t : Timespan) (b c : Byte) (f : List Byte) :
    yields t b (c :: f) = yield t b c + yields t b f := by
  rw [yields, List.map_cons, List.sum_cons, yields]

theorem yields_append (t : Timespan) (b : Byte) (f g : List Byte) :
    yields t b (f ++ g) = yields t b f + yields t b g := by
  rw [yields, List.map_append, List.sum_append, yields, yields]

theorem not_mem_component (hd : d ≠ percent) : ∀ c ∈ component t d, c ∉ escapes := by
  have hnumeral : ∀ c, isDigit c = true ∨ c = charByte '-' → c ∉ escapes := by decide
  intro c hc
  rw [component, if_neg hd] at hc
  split_ifs at hc
  · exact hnumeral c (mem_decimalInt hc)
  · exact hnumeral c (mem_decimalInt02 hc)
  · exact hnumeral c (mem_decimalInt02 hc)
  · exact hnumeral c (mem_decimalInt02 hc)
  · exact absurd hc List.not_mem_nil

theorem component_ne_nil (hd : d ∈ escapes) : component t d ≠ [] := by
  rw [component]
  split_ifs with h1 h2 h3 h4 h5
  · exact List.cons_ne_nil _ _
  · exact decimalInt_ne_nil _
  · exact decimalInt02_ne_nil _
  · exact decimalInt02_ne_nil _
  · exact decimalInt02_ne_nil _
  · simp [escapes, h1, h2, h3, h4, h5] at hd

theorem component_unlisted (hd : d ∉ escapes) : component t d = [] := by
  simp only [escapes, List.mem_cons, List.not_mem_nil, or_false, not_or] at hd
  obtain ⟨h1, h2, h3, h4, h5⟩ := hd
  rw [component, if_neg h1, if_neg h2, if_neg h3, if_neg h4, if_neg h5]

theorem yields_of_plain {b : Byte} {s : List Byte} (h : ∀ c ∈ s, c ∉ escapes) :
    yields t b s = s.count b := by
  induction s with
  | nil => rfl
  | cons c s ih =>
    have hc : yield t b c = if c = b then 1 else 0 := if_neg (h c List.mem_cons_self)
    rw [yields_cons, hc, ih fun x hx => h x (List.mem_cons_of_mem c hx), List.count_cons, add_comm]
    simp only [beq_iff_eq]

theorem yields_component {b : Byte} (hd : d ∈ escapes) :
    yields t b (component t d) = yield t b d := by
  by_cases hne : d = percent
  · subst hne
    rfl
  · rw [yields_of_plain (not_mem_component hne), yield, if_pos hd]

theorem yield_percent {b : Byte} (hb : b ∉ escapes) : yield t b percent = 0 := by
  have hne : b ≠ percent := by
    rintro rfl
    exact hb (by decide)
  rw [yield, if_pos (by decide)]
  exact List.count_eq_zero_of_not_mem fun h => hne (List.mem_singleton.mp h)

/-- Replacing escapes keeps the count, -/
theorem yields_replaced {b : Byte} (hb : b ∉ escapes) (f : List Byte) :
    yields t b (replaced t f) = yields t b f := by
  fun_induction replaced t f with
  | case1 => rfl
  | case2 c => rfl
  | case3 c d f h ih =>
    obtain ⟨rfl, hd⟩ := h
    rw [yields_append, yields_component hd, ih, yields_cons, yields_cons, yield_percent hb, zero_add]
  | case4 c d f h ih => rw [yields_cons, ih, ← yields_cons]

/-- and the scan can only lose bytes. -/
theorem yields_rendered_le {b : Byte} (hb : b ∉ escapes) (f : List Byte) :
    yields t b (rendered t f) ≤ yields t b f := by
  fun_induction rendered t f with
  | case1 => exact le_rfl
  | case2 c => exact le_rfl
  | case3 d f ih =>
    rw [yields_append, yields_cons, yields_cons, yield_percent hb, zero_add]
    by_cases hd : d ∈ escapes
    · rw [yields_component hd]
      exact Nat.add_le_add_left ih _
    · have hnil : yields t b [] = 0 := rfl
      rw [component_unlisted hd, hnil, zero_add]
      exact ih.trans (Nat.le_add_left _ _)
  | case4 c d f hne hhigh ih =>
    rw [yields_cons, yields_cons, yields_cons, yields_cons]
    exact Nat.add_le_add_left (Nat.add_le_add_left ih _) _
  | case5 c d f hne hlow ih =>
    rw [yields_cons, yields_cons t b c]
    exact Nat.add_le_add_left ih _

theorem rendered_ne_of_lost {b : Byte} (hb : b ∉ escapes) (f : List Byte) {s : List Byte}
    (hs : b ∈ s) : rendered t f ≠ s ++ replaced t f := by
  intro h
  have hle := yields_rendered_le (t := t) hb f
  rw [h, yields_append, yields_replaced hb] at hle
  have hpos : 0 < yields t b s := by
    obtain ⟨s₁, s₂, rfl⟩ := List.append_of_mem hs
    have hone : yield t b b = 1 := by
      rw [yield, if_neg hb, if_pos rfl]
    rw [yields_append, yields_cons, hone]
    omega
  omega

theorem component_append_ne (hd : d ∈ escapes) (hne : d ≠ percent) (hc : c ∈ escapes)
    (f g : List Byte) : component t d ++ f ≠ c :: g := by
  intro h
  have hmem := not_mem_component (t := t) hne
  cases hcomp : component t d with
  | nil => exact component_ne_nil hd hcomp
  | cons x s =>
    rw [hcomp] at h hmem
    have hx : x = c := (List.cons.inj h).1
    exact hmem x List.mem_cons_self (hx ▸ hc)

theorem unlisted_of_eq {g : List Byte} (hne : c ≠ percent)
    (h : percent :: g = replaced t (percent :: c :: f)) : c ∉ escapes := by
  intro hc
  rw [replaced_escape t hc] at h
  exact component_append_ne hc hne (by decide) _ _ h.symm

theorem copied_of_eq (hcomplete : Complete f)
    (h : percent :: rendered t f = replaced t (percent :: f)) : Copied f := by
  fun_induction Copied f with
  | case1 => trivial
  | case2 c => exact unlisted_of_eq (fun hc => hcomplete (.inl hc)) h
  | case3 d f ih =>
    rw [complete_of_leads (.inl rfl)] at hcomplete
    rw [replaced_escape t (by decide), rendered, if_pos rfl] at h
    -- `%%` is replaced, and the scan is behind `d`
    have htail : component t d ++ rendered t f = replaced t (d :: f) := (List.cons.inj h).2
    by_cases hd : d = percent
    · subst hd
      exact ⟨rfl, ih hcomplete htail⟩
    · rw [replaced_cons t hd] at htail
      by_cases hlisted : d ∈ escapes
      · exact absurd htail (component_append_ne hlisted hd hlisted _ _)
      · rw [component_unlisted hlisted, List.nil_append] at htail
        exact absurd htail (rendered_ne_of_lost (s := [d]) hlisted f (List.mem_singleton_self d))
  | case4 c d f hne => exact unlisted_of_eq hne h

theorem listed_of_eq (hcomplete : Complete f) (h : rendered t f = replaced t f) : Listed f := by
  fun_induction Listed f with
  | case1 => trivial
  | case2 => trivial
  | case3 d f ih =>
    rw [complete_of_leads (.inl rfl)] at hcomplete
    rw [rendered, if_pos rfl] at h
    by_cases hd : d ∈ escapes
    · rw [replaced_escape t hd] at h
      exact ⟨hd, ih hcomplete (List.append_cancel_left h)⟩
    · rw [component_unlisted hd, List.nil_append, replaced_unlisted t hd] at h
      exact absurd h (rendered_ne_of_lost (s := [percent, d]) hd f
        (List.mem_cons_of_mem _ (List.mem_singleton_self d)))
  | case4 c d f hne hhigh ih =>
    rw [complete_of_leads (.inr hhigh)] at hcomplete
    rw [rendered, if_neg hne, if_pos hhigh, replaced_cons t hne] at h
    have htail : d :: rendered t f = replaced t (d :: f) := (List.cons.inj h).2
    by_cases hd : d = percent
    · subst hd
      have hcopied := copied_of_eq hcomplete htail
      rw [replaced_copied t hcopied] at htail
      exact ⟨fun _ => hcopied, ih hcomplete (List.cons.inj htail).2⟩
    · rw [replaced_cons t hd] at htail
      exact ⟨fun h => absurd h hd, ih hcomplete (List.cons.inj htail).2⟩
  | case5 c d f hne hlow ih =>
    rw [complete_of_not_leads (not_or.mpr ⟨hne, hlow⟩)] at hcomplete
    rw [rendered, if_neg hne, if_neg hlow, replaced_cons t hne] at h
    exact ih hcomplete (List.cons.inj h).2

/-- The scan replaces the escapes and copies the rest exactly for the listed formats. -/
theorem rendered_eq_replaced_iff (t : Timespan) (hcomplete : Complete f) :
    rendered t f = replaced t f ↔ Listed f :=
  ⟨listed_of_eq hcomplete, rendered_of_listed t⟩

end Timespan
end Time
end Huicpp
