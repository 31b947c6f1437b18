import Mathlib
import Huicpp.Cxx.LoopRuns
import Huicpp.Time.SpanFormat

/-!
# Time.SpanText

`timespan::tostr`. The scan takes a second byte behind every `%` and behind every byte above 0x80, the
first one of a character of two bytes, without looking whether the format ends there; a component is
printed into eight bytes.

* `tostr_returns_iff`: when the scan gets to the end of the format, and stays inside its buffer.
* `tostr_replaces_iff`: when it returns the format with its escapes replaced.
-/

namespace Huicpp
namespace Time
namespace Timespan

open Cxx Prog

/-- `HCH tempBuff[8]` -/
def tempBuffLen : Nat := 8

/-- What the `switch` appends to the text. -/
def appended (t : Timespan) (c : Byte) : Outcome (List Byte) :=
  if c = percent then .ok [c]
  else if c = charByte 'D' then sprintf tempBuffLen (decimalInt t.getDays.toInt)
  else if c = charByte 'H' then sprintf tempBuffLen (decimalInt02 t.getHours.toInt)
  else if c = charByte 'M' then sprintf tempBuffLen (decimalInt02 t.getMinutes.toInt)
  else if c = charByte 'S' then sprintf tempBuffLen (decimalInt02 t.getSeconds.toInt)
  else .ok []

structure Scan where
  pFormat : CPtr
  str : List Byte

/-- An iteration of the loop. -/
def scanStep (t : Timespan) (s : Scan) : Outcome (Ctl Scan (List Byte)) := do
  let ch ← deref s.pFormat
  let p := s.pFormat.tail
  if ch = 0 then return .exit s.str
  else if ch = percent then do
    let ch ← deref p
    let text ← appended t ch
    return .again ⟨p.tail, s.str ++ text⟩
  else if 0x80 < ch.toNat then do
    let next ← deref p
    return .again ⟨p.tail, s.str ++ [ch] ++ [next]⟩
  else return .again ⟨p, s.str ++ [ch]⟩

/-- `timespan::tostr`, for a format that is not the null pointer -/
def tostr (t : Timespan) (pFormat : CPtr) : Prog (List Byte) := loopOf (scanStep t) ⟨pFormat, []⟩

/-! ## The days -/

/-- There is a `%D` in the format. -/
def ShowsDays : List Byte → Prop
  | [] => False
  | [_] => False
  | c :: d :: f =>
    if c = percent then d = charByte 'D' ∨ ShowsDays f
    else if 0x80 < c.toNat then ShowsDays f
    else ShowsDays (d :: f)

/-- Days of at most seven characters. -/
def DaysFit (t : Timespan) : Prop := -1000000 < t.getDays.toInt ∧ t.getDays.toInt < 10000000

instance (t : Timespan) : Decidable t.DaysFit := inferInstanceAs (Decidable (_ ∧ _))

variable {t : Timespan} {f str : List Byte} {c d : Byte}

/-! ## Components -/

theorem tmod_range (x : Int) {n : Int} (hn : 0 < n) : -n < x.tmod n ∧ x.tmod n < n := by
  have hhi := Int.tmod_lt_of_pos x hn
  have hlo := Int.lt_tmod_of_pos x hn
  exact ⟨hlo, hhi⟩

theorem hours_length (t : Timespan) : (decimalInt02 t.getHours.toInt).length < tempBuffLen := by
  have hrange := tmod_range t.getTotalHours.toInt (n := 24) (by decide)
  have hval : t.getHours.toInt = t.getTotalHours.toInt.tmod 24 := Int32.toInt_mod ..
  have hlen := decimalInt02_length_le (n := t.getHours.toInt) (by omega) (by omega)
  exact Nat.lt_of_le_of_lt hlen (by decide)

theorem minutes_length (t : Timespan) : (decimalInt02 t.getMinutes.toInt).length < tempBuffLen := by
  have hrange := tmod_range t.getTotalMinutes.toInt (n := 60) (by decide)
  have hval : t.getMinutes.toInt = t.getTotalMinutes.toInt.tmod 60 := Int32.toInt_mod ..
  have hlen := decimalInt02_length_le (n := t.getMinutes.toInt) (by omega) (by omega)
  exact Nat.lt_of_le_of_lt hlen (by decide)

theorem seconds_length (t : Timespan) : (decimalInt02 t.getSeconds.toInt).length < tempBuffLen := by
  have hrange := tmod_range t.m_span.toInt (n := 60) (by decide)
  have hval : t.getSeconds.toInt = t.m_span.toInt.tmod 60 := by
    rw [getSeconds, Int64.toInt_toInt32, Int64.toInt_mod, show (60 : Int64).toInt = 60 from rfl]
    exact Int.bmod_eq_of_le (by omega) (by omega)
  have hlen := decimalInt02_length_le (n := t.getSeconds.toInt) (by omega) (by omega)
  exact Nat.lt_of_le_of_lt hlen (by decide)

theorem days_length_iff (t : Timespan) :
    (decimalInt t.getDays.toInt).length < tempBuffLen ↔ t.DaysFit := by
  rw [show tempBuffLen = 5 + 2 + 1 from rfl, Nat.lt_succ_iff, decimalInt_length_le_iff, DaysFit]
  norm_num

theorem sprintf_ok {size : Nat} {text : List Byte} (hzero : 0 ∉ text) (hlen : text.length < size) :
    sprintf size text = .ok text := by
  rw [sprintf_eq hzero, if_pos hlen]

theorem appended_ok (hfit : c = charByte 'D' → t.DaysFit) : appended t c = .ok (component t c) := by
  rw [appended, component]
  split
  · rename_i hc
    rw [hc]
  · split
    · rename_i hc
      exact sprintf_ok (zero_not_mem_decimalInt _) ((days_length_iff t).mpr (hfit hc))
    · rw [sprintf_ok (zero_not_mem_decimalInt02 _) (hours_length t),
        sprintf_ok (zero_not_mem_decimalInt02 _) (minutes_length t),
        sprintf_ok (zero_not_mem_decimalInt02 _) (seconds_length t)]
      split_ifs <;> rfl

theorem appended_days (hfit : ¬ t.DaysFit) : appended t (charByte 'D') = .undef .outOfBounds := by
  rw [appended, if_neg (by decide), if_pos rfl, sprintf_eq (zero_not_mem_decimalInt _),
    if_neg fun hlen => hfit ((days_length_iff t).mp hlen)]

/-! ## The scan -/

theorem scanStep_end (t : Timespan) (str : List Byte) :
    scanStep t ⟨terminated [], str⟩ = .ok (.exit str) := rfl

theorem scanStep_behind (t : Timespan) (str : List Byte) :
    scanStep t ⟨[], str⟩ = .undef .outOfBounds := rfl

theorem scanStep_escape (p : CPtr) {text : List Byte} (htext : appended t d = .ok text) :
    scanStep t ⟨percent :: d :: p, str⟩ = .ok (.again ⟨p, str ++ text⟩) := by
  rw [scanStep]
  dsimp only
  rw [deref_cons, Outcome.ok_bind, if_neg (by decide), if_pos rfl, List.tail_cons, deref_cons,
    Outcome.ok_bind, htext]
  rfl

theorem scanStep_days (p : CPtr) (hfit : ¬ t.DaysFit) :
    scanStep t ⟨percent :: charByte 'D' :: p, str⟩ = .undef .outOfBounds := by
  rw [scanStep]
  dsimp only
  rw [deref_cons, Outcome.ok_bind, if_neg (by decide), if_pos rfl, List.tail_cons, deref_cons,
    Outcome.ok_bind, appended_days hfit]
  rfl

theorem scanStep_pair (p : CPtr) (hne : c ≠ percent) (hhigh : 0x80 < c.toNat) :
    scanStep t ⟨c :: d :: p, str⟩ = .ok (.again ⟨p, str ++ [c] ++ [d]⟩) := by
  have hzero : c ≠ 0 := by
    rintro rfl
    exact absurd hhigh (by decide)
  rw [scanStep]
  dsimp only
  rw [deref_cons, Outcome.ok_bind, if_neg hzero, if_neg hne, if_pos hhigh]
  rfl

theorem scanStep_char (p : CPtr) (hzero : c ≠ 0) (hc : ¬ Leads c) :
    scanStep t ⟨c :: p, str⟩ = .ok (.again ⟨p, str ++ [c]⟩) := by
  obtain ⟨hne, hlow⟩ := not_or.mp hc
  rw [scanStep]
  dsimp only
  rw [deref_cons, Outcome.ok_bind, if_neg hzero, if_neg hne, if_neg hlow]
  rfl

/-- Behind the last byte of the format, its zero has been taken for the next one. -/
theorem scan_behind (t : Timespan) (hc : Leads c) (str : List Byte) :
    Faults (loopOf (scanStep t) ⟨terminated [c], str⟩) .outOfBounds := by
  have hend : ∀ str, Faults (loopOf (scanStep t) ⟨[], str⟩) .outOfBounds := fun str =>
    .loop_step (scanStep_behind t str)
  by_cases hne : c = percent
  · subst hne
    have hnone : appended t 0 = .ok [] := rfl
    exact .loop_again (.lift (scanStep_escape [] hnone)) (hend _)
  · exact .loop_again (.lift (scanStep_pair [] hne (hc.resolve_left hne))) (hend _)

theorem scan_returns (hzero : 0 ∉ f) (hcomplete : Complete f) (hfit : ShowsDays f → t.DaysFit) :
    Returns (loopOf (scanStep t) ⟨terminated f, str⟩) (str ++ rendered t f) := by
  fun_induction rendered t f generalizing str with
  | case1 =>
    rw [List.append_nil]
    exact .loop_exit (.lift (scanStep_end t str))
  | case2 c =>
    have hc := (List.ne_of_not_mem_cons hzero).symm
    exact .loop_again (.lift (scanStep_char _ hc hcomplete)) (.loop_exit (.lift (scanStep_end t _)))
  | case3 d f ih =>
    rw [complete_of_leads (.inl rfl)] at hcomplete
    rw [ShowsDays, if_pos rfl] at hfit
    have hrest := List.not_mem_of_not_mem_cons (List.not_mem_of_not_mem_cons hzero)
    have htext := appended_ok fun hd => hfit (.inl hd)
    rw [← List.append_assoc]
    exact .loop_again (.lift (scanStep_escape _ htext)) (ih hrest hcomplete fun h => hfit (.inr h))
  | case4 c d f hne hhigh ih =>
    rw [complete_of_leads (.inr hhigh)] at hcomplete
    rw [ShowsDays, if_neg hne, if_pos hhigh] at hfit
    have hrest := List.not_mem_of_not_mem_cons (List.not_mem_of_not_mem_cons hzero)
    rw [List.append_cons, List.append_cons]
    exact .loop_again (.lift (scanStep_pair _ hne hhigh)) (ih hrest hcomplete hfit)
  | case5 c d f hne hlow ih =>
    have hc : ¬ Leads c := not_or.mpr ⟨hne, hlow⟩
    rw [complete_of_not_leads hc] at hcomplete
    rw [ShowsDays, if_neg hne, if_neg hlow] at hfit
    have hc0 := (List.ne_of_not_mem_cons hzero).symm
    have hrest := List.not_mem_of_not_mem_cons hzero
    rw [List.append_cons]
    exact .loop_again (.lift (scanStep_char _ hc0 hc)) (ih hrest hcomplete hfit)

theorem scan_faults (hzero : 0 ∉ f) (hbad : ¬ (Complete f ∧ (ShowsDays f → t.DaysFit))) :
    Faults (loopOf (scanStep t) ⟨terminated f, str⟩) .outOfBounds := by
  fun_induction rendered t f generalizing str with
  | case1 => exact absurd ⟨trivial, False.elim⟩ hbad
  | case2 c =>
    have hc : Leads c := by
      by_contra hc
      exact hbad ⟨hc, False.elim⟩
    exact scan_behind t hc str
  | case3 d f ih =>
    rw [complete_of_leads (.inl rfl), ShowsDays, if_pos rfl] at hbad
    have hrest := List.not_mem_of_not_mem_cons (List.not_mem_of_not_mem_cons hzero)
    by_cases hd : d = charByte 'D' ∧ ¬ t.DaysFit
    · obtain ⟨rfl, hfit⟩ := hd
      exact .loop_step (scanStep_days _ hfit)
    · have htext := appended_ok fun hdD => not_not.mp fun hfit => hd ⟨hdD, hfit⟩
      refine .loop_again (.lift (scanStep_escape _ htext)) (ih hrest fun h => hbad ⟨h.1, ?_⟩)
      rintro (hdD | hshows)
      · exact not_not.mp fun hfit => hd ⟨hdD, hfit⟩
      · exact h.2 hshows
  | case4 c d f hne hhigh ih =>
    rw [complete_of_leads (.inr hhigh), ShowsDays, if_neg hne, if_pos hhigh] at hbad
    have hrest := List.not_mem_of_not_mem_cons (List.not_mem_of_not_mem_cons hzero)
    exact .loop_again (.lift (scanStep_pair _ hne hhigh)) (ih hrest hbad)
  | case5 c d f hne hlow ih =>
    have hc : ¬ Leads c := not_or.mpr ⟨hne, hlow⟩
    rw [complete_of_not_leads hc, ShowsDays, if_neg hne, if_neg hlow] at hbad
    have hc0 := (List.ne_of_not_mem_cons hzero).symm
    have hrest := List.not_mem_of_not_mem_cons hzero
    exact .loop_again (.lift (scanStep_char _ hc0 hc)) (ih hrest hbad)

theorem tostr_returns_iff (t : Timespan) (hzero : 0 ∉ f) :
    Returns (tostr t (terminated f)) (rendered t f) ↔
      Complete f ∧ (ShowsDays f → t.DaysFit) := by
  constructor
  · intro hret
    by_contra hbad
    exact (scan_faults hzero hbad).not_returns _ hret
  · rintro ⟨hcomplete, hfit⟩
    have hscan : Returns (loopOf (scanStep t) ⟨terminated f, []⟩) ([] ++ rendered t f) :=
      scan_returns hzero hcomplete hfit
    exact hscan

theorem returns_replaced (hzero : 0 ∉ f) (hret : Returns (tostr t (terminated f)) (replaced t f)) :
    Complete f ∧ Listed f ∧ (ShowsDays f → t.DaysFit) := by
  have hgood : Complete f ∧ (ShowsDays f → t.DaysFit) := by
    by_contra hbad
    exact (scan_faults hzero hbad).not_returns _ hret
  obtain ⟨hcomplete, hfit⟩ := hgood
  have hrendered := (tostr_returns_iff t hzero).mpr ⟨hcomplete, hfit⟩
  exact ⟨hcomplete, (rendered_eq_replaced_iff t hcomplete).mp (hrendered.unique hret), hfit⟩

/-- **The text of a time span.** The format with its escapes replaced is returned exactly if the format
is complete and listed, and the days that it shows have at most seven characters. -/
theorem tostr_replaces_iff (t : Timespan) (hzero : 0 ∉ f) :
    Returns (tostr t (terminated f)) (replaced t f) ↔
      Complete f ∧ Listed f ∧ (ShowsDays f → t.DaysFit) := by
  constructor
  · exact returns_replaced hzero
  · rintro ⟨hcomplete, hlisted, hfit⟩
    rw [← (rendered_eq_replaced_iff t hcomplete).mpr hlisted]
    exact (tostr_returns_iff t hzero).mpr ⟨hcomplete, hfit⟩

/-- `%D/%M%%` for a day and a minute. -/
theorem tostr_replaces_iff_dayMinute :
    Returns (tostr ⟨86460⟩ (terminated ("%D/%M%%".toList.map charByte)))
      ("1/01%".toList.map charByte) := by
  have htext : replaced ⟨86460⟩ ("%D/%M%%".toList.map charByte) = "1/01%".toList.map charByte := by
    decide
  rw [← htext]
  refine (tostr_replaces_iff ⟨86460⟩ (by decide)).mpr ⟨?_, ?_, fun _ => by decide⟩
  · simp [Complete, Leads, charByte, percent]
  · simp [Listed, escapes, charByte, percent]

/-- A format that is one `%`, an escape that does not exist, `%D` behind a byte above 0x80, and ten
million days. -/
theorem tostr_diverges :
    ¬ Returns (tostr ⟨0⟩ (terminated [percent])) (replaced ⟨0⟩ [percent]) ∧
      ¬ Returns (tostr ⟨0⟩ (terminated [percent, charByte 'x'])) (replaced ⟨0⟩ [percent, charByte 'x']) ∧
      ¬ Returns (tostr ⟨0⟩ (terminated [0xA5, percent, charByte 'D']))
        (replaced ⟨0⟩ [0xA5, percent, charByte 'D']) ∧
      ¬ Returns (tostr ⟨864000000000⟩ (terminated [percent, charByte 'D']))
        (replaced ⟨864000000000⟩ [percent, charByte 'D']) := by
  refine ⟨fun hret => ?_, fun hret => ?_, fun hret => ?_, fun hret => ?_⟩
  · exact (returns_replaced (by decide) hret).1 (.inl rfl)
  · exact absurd (returns_replaced (by decide) hret).2.1.1 (by decide)
  · exact absurd ((returns_replaced (by decide) hret).2.1.1 rfl) (not_not.mpr (by decide))
  · exact absurd ((returns_replaced (by decide) hret).2.2 (.inl rfl)) (by decide)

end Timespan
end Time
end Huicpp
