import Mathlib
import Huicpp.Cxx.Json
import Huicpp.Str.HMstr

/-!
# Str.ToJson

`HMstr::ToJson` puts every entry into an object of its own, and these into braces.

* `toJson_eq`: the text.
* `not_object`: with an entry, it is not an object.
* `toJson_injective`: without quotes in keys and values, the text still tells the maps apart.
-/

namespace Huicpp
namespace Str

open Cxx Cxx.Text

namespace HMstr

/-- What the loop writes for an entry. -/
def entryText (e : List Byte × List Byte) : List Byte :=
  [123, 34] ++ e.1 ++ [34, 58, 34] ++ e.2 ++ [34, 125, 44]

variable {m m' : HMstr} {es : List (List Byte × List Byte)}

theorem members_eq (es : List (List Byte × List Byte)) (ss : List Byte) :
    members es ss = ss ++ es.flatMap entryText := by
  induction es generalizing ss with
  | nil => exact (List.append_nil ss).symm
  | cons e es ih =>
    calc members (e :: es) ss
        = members es (ss ++ entryText e) := rfl
      _ = ss ++ (e :: es).flatMap entryText := by rw [ih, List.flatMap_cons, List.append_assoc]

theorem toJson_eq (m : HMstr) :
    m.toJson = .ok (([123, 32] ++ m.elems.flatMap entryText).dropLast ++ [125]) := by
  rw [toJson, members_eq, removeRight_one]
  rfl

theorem toJson_empty (h : m.elems = []) : m.toJson = .ok [123, 125] := by
  rw [toJson_eq, h]
  rfl

theorem toJson_entries (h : m.elems ≠ []) :
    ∃ t, m.toJson = .ok ([123, 32] ++ t ++ [125]) ∧ m.elems.flatMap entryText = t ++ [44] := by
  have hlast := List.dropLast_append_getLast h
  refine ⟨(m.elems.flatMap entryText).dropLast, ?_, ?_⟩
  · rw [toJson_eq, List.dropLast_append_of_ne_nil]
    rw [← hlast]
    simp [entryText]
  · rw [← hlast, List.flatMap_append, List.flatMap_singleton, entryText, List.dropLast_append_of_ne_nil
      (List.append_ne_nil_of_right_ne_nil _ (List.cons_ne_nil _ _)), List.dropLast_append_of_ne_nil
      (List.cons_ne_nil _ _)]
    simp

theorem entryText_append (e : List Byte × List Byte) (x : List Byte) :
    entryText e ++ x =
      123 :: 34 :: (e.1 ++ 34 :: 58 :: 34 :: (e.2 ++ 34 :: 125 :: 44 :: x)) := by
  simp [entryText]

/-! ## The grammar -/

theorem toJson_braces (h : m.elems ≠ []) {t : List Byte} (ht : m.toJson = .ok t) :
    ∃ r, t = 123 :: 32 :: 123 :: r := by
  obtain ⟨u, hu, hentries⟩ := toJson_entries h
  obtain ⟨e, es, helems⟩ := List.exists_cons_of_ne_nil h
  rw [helems, List.flatMap_cons, entryText_append] at hentries
  cases Outcome.ok.inj (ht.symm.trans hu)
  cases u with
  | nil => exact absurd (List.cons_eq_cons.mp hentries).1 (by decide)
  | cons c u =>
    obtain ⟨rfl, _⟩ := List.cons_eq_cons.mp hentries
    exact ⟨u ++ [125], rfl⟩

theorem not_isBlank_brace : ¬ Json.IsBlank 123 := by
  unfold Json.IsBlank
  decide

theorem blanks_brace {r t : List Byte} (h : Json.Blanks (32 :: 123 :: r) t) :
    t = 32 :: 123 :: r ∨ t = 123 :: r := by
  cases h with
  | none => exact .inl rfl
  | more _ hrest => exact .inr (hrest.eq not_isBlank_brace)

/-- The second brace is where a member or the end of the object should be. -/
theorem not_object (h : m.elems ≠ []) {t : List Byte} (ht : m.toJson = .ok t) :
    ¬ Json.Object t es := by
  obtain ⟨r, rfl⟩ := toJson_braces h ht
  intro hobject
  cases hobject with
  | empty hopen hclose =>
    rcases blanks_brace (hopen.first not_isBlank_brace).2 with rfl | rfl
    · obtain ⟨hfront, _⟩ := hclose
      rcases blanks_brace hfront with heq | heq
      · exact absurd (List.cons_eq_cons.mp heq).1 (by decide)
      · exact absurd (List.cons_eq_cons.mp heq).1 (by decide)
    · exact absurd (hclose.first not_isBlank_brace).1 (by decide)
  | members hopen hmembers _ =>
    obtain ⟨t', ht'⟩ := hmembers.first
    rcases blanks_brace (hopen.first not_isBlank_brace).2 with rfl | rfl
    · exact absurd (List.cons_eq_cons.mp ht').1 (by decide)
    · exact absurd (List.cons_eq_cons.mp ht').1 (by decide)

/-- The text is an object with these entries, in some order. -/
def IsJsonOf (m : HMstr) : Prop :=
  ∃ t es, m.toJson = .ok t ∧ Json.Object t es ∧ es.Perm m.elems

theorem isJsonOf_iff (m : HMstr) : m.IsJsonOf ↔ m.elems = [] := by
  constructor
  · rintro ⟨t, es, ht, hobject, _⟩
    by_contra h
    exact not_object h ht hobject
  · intro h
    refine ⟨_, [], toJson_empty h, Json.object_empty, ?_⟩
    rw [h]

/-! ## Different maps -/

/-- No quote in keys and values. -/
def QuoteFree (m : HMstr) : Prop := ∀ e ∈ m.elems, 34 ∉ e.1 ∧ 34 ∉ e.2

theorem entries_injective {es es' : List (List Byte × List Byte)}
    (h : ∀ e ∈ es, 34 ∉ e.1 ∧ 34 ∉ e.2) (h' : ∀ e ∈ es', 34 ∉ e.1 ∧ 34 ∉ e.2)
    (heq : es.flatMap entryText = es'.flatMap entryText) : es = es' := by
  induction es generalizing es' with
  | nil =>
    cases es' with
    | nil => rfl
    | cons e' es' =>
      rw [List.flatMap_cons, entryText_append] at heq
      cases heq
  | cons e es ih =>
    cases es' with
    | nil =>
      rw [List.flatMap_cons, entryText_append] at heq
      cases heq
    | cons e' es' =>
      obtain ⟨⟨hkey, hval⟩, hes⟩ := List.forall_mem_cons.mp h
      obtain ⟨⟨hkey', hval'⟩, hes'⟩ := List.forall_mem_cons.mp h'
      rw [List.flatMap_cons, List.flatMap_cons, entryText_append, entryText_append] at heq
      obtain ⟨hk, htail⟩ := cut_inj hkey hkey' (List.cons_eq_cons.mp (List.cons_eq_cons.mp heq).2).2
      obtain ⟨hv, hrest⟩ := cut_inj hval hval' (List.cons_eq_cons.mp (List.cons_eq_cons.mp htail).2).2
      have hmore := (List.cons_eq_cons.mp (List.cons_eq_cons.mp hrest).2).2
      rw [ih hes hes' hmore, Prod.ext hk hv]

theorem elems_of_toJson_empty (h : m.toJson = .ok [123, 125]) : m.elems = [] := by
  by_contra hne
  obtain ⟨r, hr⟩ := toJson_braces hne h
  cases hr

theorem toJson_injective (h : m.QuoteFree) (h' : m'.QuoteFree) (heq : m.toJson = m'.toJson) :
    m = m' := by
  apply OrdTree.ext
  by_cases hne : m.elems = []
  · rw [hne, elems_of_toJson_empty (heq.symm.trans (toJson_empty hne))]
  · have hne' : m'.elems ≠ [] := fun hnil =>
      hne (elems_of_toJson_empty (heq.trans (toJson_empty hnil)))
    obtain ⟨t, ht, hentries⟩ := toJson_entries hne
    obtain ⟨t', ht', hentries'⟩ := toJson_entries hne'
    have hsame := Outcome.ok.inj (ht.symm.trans (heq.trans ht'))
    have htext : t = t' := List.append_cancel_left (List.append_cancel_right hsame)
    refine entries_injective h h' ?_
    rw [hentries, hentries', htext]

/-- A value with quotes in it looks like two entries. -/
example : (setValue (setValue .empty [97] [120]) [98] [121]).toJson =
    (setValue .empty [97] [120, 34, 125, 44, 123, 34, 98, 34, 58, 34, 121]).toJson := by decide

end HMstr

/-- **Writing JSON.** The text is the JSON object of the map exactly for the empty map. Maps without
quotes in their keys and values have different texts. -/
theorem toJson_right_iff (m : HMstr) :
    (m.IsJsonOf ↔ m.elems = []) ∧
    ∀ m' : HMstr, m.QuoteFree → m'.QuoteFree → m.toJson = m'.toJson → m = m' :=
  ⟨m.isJsonOf_iff, fun _ => HMstr.toJson_injective⟩

/-- Two entries, and one of them alone -/
theorem toJson_right_iff_two :
    ¬ HMstr.IsJsonOf (HMstr.setValue (HMstr.setValue .empty [97] [120]) [98] [121]) ∧
    (HMstr.setValue (HMstr.setValue .empty [97] [120]) [98] [121]).toJson ≠
      (HMstr.setValue .empty [97] [120]).toJson ∧
    HMstr.IsJsonOf .empty := by
  obtain ⟨hjson, hdifferent⟩ :=
    toJson_right_iff (HMstr.setValue (HMstr.setValue .empty [97] [120]) [98] [121])
  refine ⟨fun h => absurd (hjson.mp h) (by decide), fun heq => ?_, (toJson_right_iff .empty).1.mpr rfl⟩
  have hquotes : HMstr.QuoteFree (HMstr.setValue (HMstr.setValue .empty [97] [120]) [98] [121]) := by
    unfold HMstr.QuoteFree
    decide
  have hquotes' : HMstr.QuoteFree (HMstr.setValue .empty [97] [120]) := by
    unfold HMstr.QuoteFree
    decide
  exact absurd (congrArg OrdTree.elems (hdifferent _ hquotes hquotes' heq)) (by decide)

/-- One entry -/
theorem toJson_not_json : ¬ ∀ m : HMstr, m.IsJsonOf := by
  intro hall
  have hnil := (HMstr.isJsonOf_iff (HMstr.setValue .empty [97] [98])).mp (hall _)
  cases hnil

end Str
end Huicpp
