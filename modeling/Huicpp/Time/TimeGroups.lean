import Mathlib
import Huicpp.Cxx.DigitOrder
import Huicpp.Time.LocalTime
import Huicpp.Time.Timespan

/-!
# Time.TimeGroups

`GetTimeGroup`, which names the half hour of a time, and `GetPrevTimeGroup`.

* `keyNumber_lt`: the fields that a name is made of, as one number, grow with the half hours.
* `timeGroups_ordered`: names are in the order of the half hours, and each half hour has one name.
-/

namespace Huicpp
namespace Time

open Cxx Calendar

/-- `"%Y%m%d%H"` -/
def groupFormat : List Byte := "%Y%m%d%H".toList.map charByte

def minutesText (minute : Int) : List Byte :=
  if 29 < minute then ['3', '0'].map charByte else ['0', '0'].map charByte

/-- `GetTimeGroup(nt)` -/
def getTimeGroup (z : Zone) (nt : Int) : Outcome (List Byte) := do
  let strNg ← toString z nt groupFormat
  return strNg ++ minutesText (z.localtime nt).tm_min

/-- `GetPrevTimeGroup()`, at the time `now`. -/
def getPrevTimeGroup (z : Zone) (now : Int) : Outcome (List Byte) := do
  let ts ← Timespan.ofParts 0 0 30 0
  getTimeGroup z (now - ts.m_span.toInt)

/-- The half hours of local time, counted through. -/
def Zone.halfHour (z : Zone) (t : Int) : Int := (t + z.offset t) / 1800

/-- Times that have a name of twelve digits. -/
structure Zone.Named (z : Zone) (t : Int) : Prop where
  ne_zero : t ≠ 0
  year_ge : 1000 ≤ z.year t
  year_lt : z.year t < 10000

/-! ## The fields as a number -/

/-- Year, month, day, hour and the minutes of the name, two digits for each but the year. -/
def keyNumber (tm : Tm) : Int :=
  ((((tm.tm_year + 1900) * 100 + (tm.tm_mon + 1)) * 100 + tm.tm_mday) * 100 + tm.tm_hour) * 100
    + if 29 < tm.tm_min then 30 else 0

theorem keyNumber_brokenDown (l : Int) :
    let day := l / 1800 / 48 + epochDay
    keyNumber (brokenDown l)
      = ((((monthOf day + 2) / 12 * 100 + ((monthOf day + 2) % 12 + 1)) * 100 + dayOf day) * 100
          + l / 1800 / 2 % 24) * 100 + l / 1800 % 2 * 30 := by
  have hday : l / 86400 = l / 1800 / 48 := by omega
  have hhour : l / 3600 % 24 = l / 1800 / 2 % 24 := by omega
  have hhalf : (if 29 < l / 60 % 60 then 30 else 0) = l / 1800 % 2 * 30 := by
    split <;> omega
  simp only [keyNumber, brokenDown, hday, hhour, hhalf, Int.sub_add_cancel]

theorem keyNumber_lt {l l' : Int} (h : l / 1800 < l' / 1800) :
    keyNumber (brokenDown l) < keyNumber (brokenDown l') := by
  have hday := dayOf_bounds (l / 1800 / 48 + epochDay)
  have hday' := dayOf_bounds (l' / 1800 / 48 + epochDay)
  simp only [keyNumber_brokenDown]
  by_cases hlater : l / 1800 / 48 < l' / 1800 / 48
  · have hdate := date_lt (Int.add_lt_add_right hlater epochDay)
    omega
  · -- the same day: the number of the half hour in it decides
    have hsame : l / 1800 / 48 = l' / 1800 / 48 := by omega
    rw [hsame]
    omega

theorem keyNumber_congr {l l' : Int} (h : l / 1800 = l' / 1800) :
    keyNumber (brokenDown l) = keyNumber (brokenDown l') := by
  rw [keyNumber_brokenDown, keyNumber_brokenDown, h]

/-! ## The name -/

/-- The name of the half hour of second `l`, of local time. -/
def nameOf (l : Int) : List Byte :=
  let tm := brokenDown l
  decimalInt (tm.tm_year + 1900) ++ (decimalInt02 (tm.tm_mon + 1) ++ (decimalInt02 tm.tm_mday
    ++ (decimalInt02 tm.tm_hour ++ minutesText tm.tm_min)))

/-- A text of digits, how many they are and what they stand for. -/
structure Numeral (ds : List Byte) (len : Nat) (n : Int) : Prop where
  digits : IsNumeral ds
  length : ds.length = len
  value : (number ds : Int) = n

theorem Numeral.append {ds es : List Byte} {k len : Nat} {m n : Int} (hd : Numeral ds k m)
    (he : Numeral es len n) : Numeral (ds ++ es) (k + len) (m * 10 ^ len + n) := by
  refine ⟨hd.digits.append he.digits, ?_, ?_⟩
  · rw [List.length_append, hd.length, he.length]
  · rw [number_append, he.length, ← hd.value, ← he.value]
    push_cast
    rfl

variable {n : Int}

theorem numeral_two (hlo : 0 ≤ n) (hhi : n < 100) : Numeral (decimalInt02 n) 2 n := by
  refine ⟨(twoDigits n hlo hhi).isDigits, ?_, number_twoDigits hlo hhi⟩
  rw [decimalInt02_eq hlo hhi]
  rfl

theorem numeral_year (hlo : 1000 ≤ n) (hhi : n < 10000) : Numeral (decimalInt n) 4 n := by
  have hpos : 0 ≤ n := by omega
  refine ⟨(allDigits n hpos).isDigits, ?_, number_allDigits hpos⟩
  have hle : (decimal n.natAbs).length ≤ 4 := (decimal_length_le_iff (by decide)).mpr (by omega)
  have hgt : ¬ (decimal n.natAbs).length ≤ 3 := mt (decimal_length_le_iff (by decide)).mp (by omega)
  rw [decimalInt, if_neg (by omega)]
  omega

theorem numeral_minutes (n : Int) : Numeral (minutesText n) 2 (if 29 < n then 30 else 0) := by
  rw [minutesText]
  split
  · exact ⟨by unfold IsNumeral; decide, rfl, by decide⟩
  · exact ⟨by unfold IsNumeral; decide, rfl, by decide⟩

theorem nameOf_numeral {l : Int} (hlo : 1000 ≤ (brokenDown l).tm_year + 1900)
    (hhi : (brokenDown l).tm_year + 1900 < 10000) : Numeral (nameOf l) 12 (keyNumber (brokenDown l)) := by
  have hranges := brokenDown_ranges l
  have hname := (numeral_year hlo hhi).append
    ((numeral_two (n := (brokenDown l).tm_mon + 1) (by omega) (by omega)).append
      ((numeral_two (n := (brokenDown l).tm_mday) (by omega) (by omega)).append
        ((numeral_two (n := (brokenDown l).tm_hour) (by omega) (by omega)).append
          (numeral_minutes (brokenDown l).tm_min))))
  refine ⟨hname.digits, hname.length, hname.value.trans ?_⟩
  rw [keyNumber]
  ring

variable {z : Zone} {t t' : Int}

theorem getTimeGroup_named (h : z.Named t) : getTimeGroup z t = .ok (nameOf (t + z.offset t)) := by
  have hname := nameOf_numeral h.year_ge h.year_lt
  have hformat : strftime (z.localtime t) groupFormat ++ minutesText (z.localtime t).tm_min
      = nameOf (t + z.offset t) := by
    show decimalInt _ ++ (decimalInt02 _ ++ (decimalInt02 _ ++ (decimalInt02 _ ++ []))) ++ _ = _
    simp only [List.append_nil, List.append_assoc]
    rfl
  have hlen : (strftime (z.localtime t) groupFormat).length < timeBufLen := by
    have htotal := congrArg List.length hformat
    rw [List.length_append, hname.length] at htotal
    unfold timeBufLen
    omega
  rw [getTimeGroup, toString, if_neg h.ne_zero, if_neg (by decide)]
  dsimp only
  rw [if_pos hlen, Outcome.ok_bind]
  exact congrArg Outcome.ok hformat

section Order

variable (h : z.Named t) (h' : z.Named t')

include h h'

/-- Names are in the order of the half hours. -/
theorem nameOf_lt_iff :
    nameOf (t + z.offset t) < nameOf (t' + z.offset t') ↔ z.halfHour t < z.halfHour t' := by
  have hname := nameOf_numeral h.year_ge h.year_lt
  have hname' := nameOf_numeral h'.year_ge h'.year_lt
  rw [numeral_lt_iff hname.digits hname'.digits (hname.length.trans hname'.length.symm), ← Nat.cast_lt (α := Int),
    hname.value, hname'.value]
  constructor
  · intro hlt
    by_contra hle
    rcases Int.lt_or_eq_of_le (Int.not_lt.mp hle) with hgt | heq
    · exact absurd (keyNumber_lt hgt) (by omega)
    · rw [keyNumber_congr heq] at hlt
      exact absurd hlt (Int.lt_irrefl _)
  · exact keyNumber_lt

theorem nameOf_inj_iff :
    nameOf (t + z.offset t) = nameOf (t' + z.offset t') ↔ z.halfHour t = z.halfHour t' := by
  have hname := nameOf_numeral h.year_ge h.year_lt
  have hname' := nameOf_numeral h'.year_ge h'.year_lt
  constructor
  · intro heq
    have hlt := mt (nameOf_lt_iff h h').mpr (by rw [heq]; exact List.lt_irrefl _)
    have hgt := mt (nameOf_lt_iff h' h).mpr (by rw [heq]; exact List.lt_irrefl _)
    omega
  · intro heq
    refine numeral_inj hname.digits hname'.digits (hname.length.trans hname'.length.symm) ?_
    have hkey := (hname.value.trans (keyNumber_congr heq)).trans hname'.value.symm
    exact_mod_cast hkey

end Order

theorem halfHour_prev (hzone : z.offset (t - 1800) = z.offset t) :
    z.halfHour (t - 1800) = z.halfHour t - 1 := by
  unfold Zone.halfHour
  omega

/-- **Time groups.** In any time zone, for the times (but 0) of the years from 1000 to 9999: two times are in
groups of one name exactly if their half hours of local time are the same, and the names are in the
order of the half hours. Where the zone does not change, the previous group is the one directly
before: no other name is between the two. -/
theorem timeGroups_ordered (h : z.Named t) (h' : z.Named t') :
    ∃ g g', getTimeGroup z t = .ok g ∧ getTimeGroup z t' = .ok g' ∧
      (g = g' ↔ z.halfHour t = z.halfHour t') ∧ (g < g' ↔ z.halfHour t < z.halfHour t') ∧
      (z.Named (t - 1800) → z.offset (t - 1800) = z.offset t →
        ∃ g₀, getPrevTimeGroup z t = .ok g₀ ∧ g₀ < g ∧ ¬ (g₀ < g' ∧ g' < g)) := by
  refine ⟨_, _, getTimeGroup_named h, getTimeGroup_named h', nameOf_inj_iff h h', nameOf_lt_iff h h',
    fun hprev hzone => ?_⟩
  refine ⟨nameOf (t - 1800 + z.offset (t - 1800)), ?_, ?_, ?_⟩
  · have hspan : Timespan.ofParts 0 0 30 0 = .ok ⟨1800⟩ := by decide
    rw [getPrevTimeGroup, hspan, Outcome.ok_bind]
    exact getTimeGroup_named hprev
  · rw [nameOf_lt_iff hprev h, halfHour_prev hzone]
    omega
  · rw [nameOf_lt_iff hprev h', nameOf_lt_iff h' h, halfHour_prev hzone]
    omega

/-- In UTC, two minutes around 14:00 of the 14th of November 2023. -/
theorem timeGroups_ordered_two :
    let utc : Zone := ⟨0, 0, fun _ => false⟩
    ∃ g g' g₀, getTimeGroup utc 1699970460 = .ok g ∧ getTimeGroup utc 1699970340 = .ok g' ∧ g' < g ∧
      getPrevTimeGroup utc 1699970460 = .ok g₀ ∧ g₀ < g ∧ ¬ (g₀ < g' ∧ g' < g) := by
  intro utc
  have hlater : utc.Named 1699970460 := ⟨by decide, by decide, by decide⟩
  have hearlier : utc.Named 1699970340 := ⟨by decide, by decide, by decide⟩
  obtain ⟨g, g', hg, hg', -, -, hprev⟩ := timeGroups_ordered hlater hearlier
  obtain ⟨g₀, hg₀, hlt, hnone⟩ := hprev ⟨by decide, by decide, by decide⟩ rfl
  obtain ⟨e', e, he', he, -, hlt', -⟩ := timeGroups_ordered hearlier hlater
  obtain rfl : g' = e' := Outcome.ok.inj (hg'.symm.trans he')
  obtain rfl : g = e := Outcome.ok.inj (hg.symm.trans he)
  exact ⟨g, g', g₀, hg, hg', hlt'.mpr (by decide), hg₀, hlt, hnone⟩

end Time
end Huicpp
