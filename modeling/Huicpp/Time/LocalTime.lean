import Mathlib
import Huicpp.Cxx.Calendar
import Huicpp.Time.ParsedTime

/-!
# Time.LocalTime

`time_basic::ToString`, and what `FromStr` makes of its text. The C library is the calendar, in a time zone
that has one standard time and is ahead of it in summer.

`FromStr` hands `make_me` a `struct tm` of zeros in which it has set the six fields: also `tm_isdst` is
zero, so that the text is taken for standard time. The traits of the repository cannot be called so, and
`make_me` is here `mktime`.

* `secondsOf_brokenDown`: the six fields determine the second.
* `shown_readBack_iff`: which times are read back from their texts.
* `sameText_iff`: which times have the same text.
-/

namespace Huicpp
namespace Time

open Cxx Prog Calendar

/-- The day of the calendar on which time begins. -/
def epochDay : Int := 719468

/-- The fields of second `l`, of local time. -/
def brokenDown (l : Int) : Tm :=
  let day := l / 86400 + epochDay
  { tm_sec := l % 60
    tm_min := l / 60 % 60
    tm_hour := l / 3600 % 24
    tm_mday := dayOf day
    tm_mon := (monthOf day + 2) % 12
    tm_year := (monthOf day + 2) / 12 - 1900 }

/-- The second that fields stand for. -/
def secondsOf (tm : Tm) : Int :=
  86400 * (monthStart (12 * (tm.tm_year + 1900) + tm.tm_mon - 2) + tm.tm_mday - 1 - epochDay)
    + 3600 * tm.tm_hour + 60 * tm.tm_min + tm.tm_sec

theorem secondsOf_brokenDown (l : Int) : secondsOf (brokenDown l) = l := by
  have hday := day_of_date (l / 86400 + epochDay)
  have hmonth : 12 * ((monthOf (l / 86400 + epochDay) + 2) / 12 - 1900 + 1900)
      + (monthOf (l / 86400 + epochDay) + 2) % 12 - 2 = monthOf (l / 86400 + epochDay) := by omega
  simp only [secondsOf, brokenDown]
  rw [hmonth]
  omega

/-- A time zone: how far its standard time is ahead of UTC, and how far and when it is ahead of that. -/
structure Zone where
  std : Int
  save : Int
  isdst : Int → Bool

namespace Zone

variable (z : Zone) (t : Int)

def offset : Int := z.std + if z.isdst t then z.save else 0

/-- `localtime_r` -/
def localtime : Tm := brokenDown (t + z.offset t)

/-- `mktime` of fields with a `tm_isdst` of zero. -/
def mktime (tm : Tm) : Int := secondsOf tm - z.std

def year : Int := (z.localtime t).tm_year + 1900

theorem mktime_localtime : z.mktime (z.localtime t) = t + if z.isdst t then z.save else 0 := by
  rw [mktime, localtime, secondsOf_brokenDown, offset]
  omega

end Zone

/-! ## strftime -/

/-- A conversion of `strftime`, for the flags that are used. -/
def strftimeField (tm : Tm) (flag : Byte) : List Byte :=
  if flag = charByte 'Y' then decimalInt (tm.tm_year + 1900)
  else if flag = charByte 'm' then decimalInt02 (tm.tm_mon + 1)
  else if flag = charByte 'd' then decimalInt02 tm.tm_mday
  else if flag = charByte 'H' then decimalInt02 tm.tm_hour
  else if flag = charByte 'M' then decimalInt02 tm.tm_min
  else if flag = charByte 'S' then decimalInt02 tm.tm_sec
  else [formatMark, flag]

def strftime (tm : Tm) : List Byte → List Byte
  | [] => []
  | [c] => [c]
  | c :: flag :: f =>
    if c = formatMark then strftimeField tm flag ++ strftime tm f else c :: strftime tm (flag :: f)

/-- `TIME_BUF_LEN` -/
def timeBufLen : Nat := 128

def invalidTime : List Byte := "invalid time".toList.map charByte

/-- `ToString(strFormat)`. What is in the buffer is not determined if the text does not fit. -/
def toString (z : Zone) (t : Int) (strFormat : List Byte) : Outcome (List Byte) :=
  if t = 0 then .ok invalidTime
  else if strFormat = [] then .ok []
  else
    let text := strftime (z.localtime t) strFormat
    if text.length < timeBufLen then .ok text else .undef .uninitialised

theorem strftime_default (tm : Tm) : strftime tm defaultFormat =
    decimalInt (tm.tm_year + 1900) ++ charByte '-' :: (decimalInt02 (tm.tm_mon + 1) ++ charByte '-' ::
      (decimalInt02 tm.tm_mday ++ charByte ' ' :: (decimalInt02 tm.tm_hour ++ charByte ':' ::
        (decimalInt02 tm.tm_min ++ charByte ':' :: (decimalInt02 tm.tm_sec ++ []))))) := rfl

/-! ## The text -/

theorem padded : ∀ k < 100, List.replicate (2 - (decimal k).length) (charByte '0') ++ decimal k
    = [digitByte (k / 10), digitByte (k % 10)] := by decide

theorem number_pair : ∀ k < 100, number [digitByte (k / 10), digitByte (k % 10)] = k := by decide

variable {n : Int}

theorem decimalInt02_eq (hlo : 0 ≤ n) (hhi : n < 100) :
    decimalInt02 n = [digitByte (n.toNat / 10), digitByte (n.toNat % 10)] := by
  have habs : n.natAbs = n.toNat := by omega
  rw [decimalInt02, if_neg (by omega), habs]
  exact padded n.toNat (by omega)

theorem isDigit_decimalInt02 (hlo : 0 ≤ n) (hhi : n < 100) : ∀ b ∈ decimalInt02 n, isDigit b = true := by
  rw [decimalInt02_eq hlo hhi]
  intro b hb
  rcases List.mem_cons.mp hb with rfl | hb
  · exact isDigit_digitByte (by omega)
  · rw [List.mem_singleton.mp hb]
    exact isDigit_digitByte (by omega)

def twoDigits (n : Int) (hlo : 0 ≤ n) (hhi : n < 100) : Digits where
  chars := decimalInt02 n
  nonempty := decimalInt02_ne_nil n
  isDigits := isDigit_decimalInt02 hlo hhi

theorem number_twoDigits (hlo : 0 ≤ n) (hhi : n < 100) :
    (number (twoDigits n hlo hhi).chars : Int) = n := by
  have hnum := number_pair n.toNat (by omega)
  show (number (decimalInt02 n) : Int) = n
  rw [decimalInt02_eq hlo hhi, hnum]
  omega

theorem decimalInt_of_nonneg (hlo : 0 ≤ n) : decimalInt n = decimal n.natAbs :=
  if_neg (Int.not_lt.mpr hlo)

theorem isDigit_decimalInt (hlo : 0 ≤ n) : ∀ b ∈ decimalInt n, isDigit b = true := by
  rw [decimalInt_of_nonneg hlo]
  exact isDigit_decimal

def allDigits (n : Int) (hlo : 0 ≤ n) : Digits where
  chars := decimalInt n
  nonempty := decimalInt_ne_nil n
  isDigits := isDigit_decimalInt hlo

theorem number_allDigits (hlo : 0 ≤ n) : (number (allDigits n hlo).chars : Int) = n := by
  show (number (decimalInt n) : Int) = n
  rw [decimalInt_of_nonneg hlo, number_decimal]
  exact Int.natAbs_of_nonneg hlo

theorem brokenDown_ranges (l : Int) :
    let tm := brokenDown l
    (0 ≤ tm.tm_sec ∧ tm.tm_sec < 60) ∧ (0 ≤ tm.tm_min ∧ tm.tm_min < 60) ∧
      (0 ≤ tm.tm_hour ∧ tm.tm_hour < 24) ∧ (1 ≤ tm.tm_mday ∧ tm.tm_mday ≤ 31) ∧
      (0 ≤ tm.tm_mon ∧ tm.tm_mon < 12) := by
  have hday := dayOf_bounds (l / 86400 + epochDay)
  simp only [brokenDown]
  omega

/-- The text of a second of a year that is not negative, in the default format. -/
def textOf (l : Int) (hyear : 0 ≤ (brokenDown l).tm_year + 1900) : TimeText where
  year := allDigits ((brokenDown l).tm_year + 1900) hyear
  month := twoDigits ((brokenDown l).tm_mon + 1) (by have h := brokenDown_ranges l; omega)
    (by have h := brokenDown_ranges l; omega)
  day := twoDigits (brokenDown l).tm_mday (by have h := brokenDown_ranges l; omega)
    (by have h := brokenDown_ranges l; omega)
  hour := twoDigits (brokenDown l).tm_hour (by have h := brokenDown_ranges l; omega)
    (by have h := brokenDown_ranges l; omega)
  minute := twoDigits (brokenDown l).tm_min (by have h := brokenDown_ranges l; omega)
    (by have h := brokenDown_ranges l; omega)
  second := twoDigits (brokenDown l).tm_sec (by have h := brokenDown_ranges l; omega)
    (by have h := brokenDown_ranges l; omega)

section TextOf

variable {l : Int} (hyear : 0 ≤ (brokenDown l).tm_year + 1900)

theorem strftime_textOf : strftime (brokenDown l) defaultFormat = (textOf l hyear).text :=
  strftime_default (brokenDown l)

theorem tm_textOf : (textOf l hyear).tm = brokenDown l := by
  simp only [TimeText.tm, textOf, number_twoDigits, number_allDigits, Int.add_sub_cancel]

theorem textOf_fits (hlast : (brokenDown l).tm_year + 1900 < 2 ^ 31) : (textOf l hyear).Fits := by
  have hsmall : ∀ (n : Int) (hlo : 0 ≤ n) (hhi : n < 100), number (twoDigits n hlo hhi).chars < 2 ^ 31 := by
    intro n hlo hhi
    have hnum := number_twoDigits hlo hhi
    omega
  intro ds hds
  simp only [TimeText.fields, textOf, List.mem_cons, List.not_mem_nil, or_false] at hds
  rcases hds with rfl | rfl | rfl | rfl | rfl | rfl
  · have hnum := number_allDigits hyear
    omega
  · exact hsmall _ _ _
  · exact hsmall _ _ _
  · exact hsmall _ _ _
  · exact hsmall _ _ _
  · exact hsmall _ _ _

theorem textOf_length (hlast : (brokenDown l).tm_year + 1900 < 2 ^ 31) :
    (textOf l hyear).text.length < timeBufLen := by
  have htwo : ∀ (n : Int) (hlo : 0 ≤ n) (hhi : n < 100), (twoDigits n hlo hhi).chars.length = 2 := by
    intro n hlo hhi
    show (decimalInt02 n).length = 2
    rw [decimalInt02_eq hlo hhi]
    rfl
  have hyears : (allDigits _ hyear).chars.length ≤ 10 := by
    show (decimalInt _).length ≤ 10
    rw [decimalInt_of_nonneg hyear]
    exact decimal_length_le (by decide) (by omega)
  simp only [TimeText.text, textOf, List.length_append, List.length_cons, List.length_nil, htwo, timeBufLen]
  omega

end TextOf

/-! ## There and back -/

variable {z : Zone} {t : Int}

theorem toString_shown (ht : t ≠ 0) (hyear : 0 ≤ z.year t) (hlast : z.year t < 2 ^ 31) :
    toString z t defaultFormat = .ok (textOf (t + z.offset t) hyear).text := by
  rw [toString, if_neg ht, if_neg (by decide), Zone.localtime, strftime_textOf hyear]
  exact if_pos (textOf_length hyear hlast)

theorem fromStr_shown (hyear : 0 ≤ z.year t) (hlast : z.year t < 2 ^ 31) (m_time : Int) :
    Returns (fromStr z.mktime m_time (textOf (t + z.offset t) hyear).text (terminated defaultFormat))
      (t + if z.isdst t then z.save else 0) := by
  have hret := (fromStr_default_iff _).mpr (textOf_fits hyear hlast) z.mktime m_time
  rw [← Zone.mktime_localtime, Zone.localtime, ← tm_textOf hyear]
  exact hret

theorem fromStr_invalid (makeMe : Tm → Int) (m_time : Int) :
    Returns (fromStr makeMe m_time invalidTime (terminated defaultFormat)) m_time := by
  refine fromStr_refused (by decide) (by decide) (verdict_refused_iff.mpr ?_)
  rw [directives_default]
  exact trivial

/-- **A time and its text.** In any time zone, for the times of the years from 0 on: the text that `ToString`
gives, in the default format, is read back by `FromStr` as the time it was made from, whatever time the
object has before, exactly if this is not time 0 and not in summer. A summer time comes back too late by
as much as it is ahead. -/
theorem shown_readBack_iff (z : Zone) (t : Int) (hyear : 0 ≤ z.year t) (hlast : z.year t < 2 ^ 31) :
    ∃ text, toString z t defaultFormat = .ok text ∧
      ((∀ m_time, Returns (fromStr z.mktime m_time text (terminated defaultFormat)) t) ↔
        t ≠ 0 ∧ (z.isdst t = true → z.save = 0)) ∧
      (t ≠ 0 → z.isdst t = true → ∀ m_time,
        Returns (fromStr z.mktime m_time text (terminated defaultFormat)) (t + z.save)) := by
  by_cases ht : t = 0
  · refine ⟨invalidTime, by rw [toString, if_pos ht], ?_, fun h => absurd ht h⟩
    refine iff_of_false (fun hall => ?_) fun h => h.1 ht
    have hkept := (hall 1).unique (fromStr_invalid z.mktime 1)
    omega
  · refine ⟨_, toString_shown ht hyear hlast, ?_, fun _ hdst m_time => ?_⟩
    · have hback := fromStr_shown hyear hlast
      constructor
      · intro hall
        refine ⟨ht, fun hdst => ?_⟩
        have htime := (hall 0).unique (hback 0)
        rw [if_pos hdst] at htime
        omega
      · rintro ⟨-, hsave⟩ m_time
        have htime := hback m_time
        split at htime
        · rename_i hdst
          rwa [hsave hdst, Int.add_zero] at htime
        · rwa [Int.add_zero] at htime
    · have htime := fromStr_shown hyear hlast m_time
      rwa [if_pos hdst] at htime

variable {t' : Int}

theorem textOf_inj {l l' : Int} (hyear : 0 ≤ (brokenDown l).tm_year + 1900)
    (hyear' : 0 ≤ (brokenDown l').tm_year + 1900) (hlast : (brokenDown l).tm_year + 1900 < 2 ^ 31)
    (hlast' : (brokenDown l').tm_year + 1900 < 2 ^ 31)
    (htext : (textOf l hyear).text = (textOf l' hyear').text) : l = l' := by
  have hread := (fromStr_default_iff _).mpr (textOf_fits hyear hlast) secondsOf 0
  have hread' := (fromStr_default_iff _).mpr (textOf_fits hyear' hlast') secondsOf 0
  rw [tm_textOf, secondsOf_brokenDown] at hread hread'
  rw [htext] at hread
  exact hread.unique hread'

theorem textOf_ne_invalid {l : Int} (hyear : 0 ≤ (brokenDown l).tm_year + 1900) :
    (textOf l hyear).text ≠ invalidTime := by
  intro htext
  obtain ⟨c, cs, hchars⟩ := List.exists_cons_of_ne_nil (textOf l hyear).year.nonempty
  have hdigit := (textOf l hyear).year.isDigits c (hchars ▸ List.mem_cons_self)
  have hhead := congrArg List.head? htext
  rw [TimeText.text, hchars, List.cons_append, List.head?_cons] at hhead
  rw [Option.some.inj (hhead.trans (show invalidTime.head? = some (charByte 'i') from rfl))] at hdigit
  exact absurd hdigit (by decide)

/-- Two times that the clock shows as one are the same, or the second comes after the end of summer by as
much as the first is before it. -/
theorem sameSecond_iff : t + z.offset t = t' + z.offset t' ↔ t = t' ∨
    (z.isdst t = true ∧ z.isdst t' = false ∧ t' = t + z.save) ∨
    (z.isdst t' = true ∧ z.isdst t = false ∧ t = t' + z.save) := by
  simp only [Zone.offset]
  constructor
  · intro h
    cases hdst : z.isdst t <;> cases hdst' : z.isdst t' <;> simp only [hdst, hdst'] at h <;>
      simp at h ⊢ <;> omega
  · rintro (rfl | ⟨hdst, hdst', rfl⟩ | ⟨hdst', hdst, rfl⟩)
    · rfl
    · simp [hdst, hdst']
      omega
    · simp [hdst, hdst']
      omega

/-- **A time and its text.** In any time zone, for the times of the years from 0 on: `ToString` gives two times
the same text, in the default format, exactly if they are the same, or neither of them is 0 and one is
in summer and the other, out of it, later by as much as summer is ahead. -/
theorem sameText_iff (z : Zone) (t t' : Int) (hyear : 0 ≤ z.year t) (hlast : z.year t < 2 ^ 31)
    (hyear' : 0 ≤ z.year t') (hlast' : z.year t' < 2 ^ 31) :
    ∃ text text', toString z t defaultFormat = .ok text ∧ toString z t' defaultFormat = .ok text' ∧
      (text = text' ↔ t = t' ∨ (t ≠ 0 ∧ t' ≠ 0 ∧
        ((z.isdst t = true ∧ z.isdst t' = false ∧ t' = t + z.save) ∨
          (z.isdst t' = true ∧ z.isdst t = false ∧ t = t' + z.save)))) := by
  have hinvalid : toString z 0 defaultFormat = .ok invalidTime := rfl
  rcases eq_or_ne t 0 with rfl | ht <;> rcases eq_or_ne t' 0 with rfl | ht'
  · exact ⟨_, _, hinvalid, hinvalid, iff_of_true rfl (.inl rfl)⟩
  · refine ⟨_, _, hinvalid, toString_shown ht' hyear' hlast', iff_of_false ?_ ?_⟩
    · exact (textOf_ne_invalid hyear').symm
    · exact fun h => h.elim (fun heq => ht' heq.symm) fun h => h.1 rfl
  · refine ⟨_, _, toString_shown ht hyear hlast, hinvalid, iff_of_false ?_ ?_⟩
    · exact textOf_ne_invalid hyear
    · exact fun h => h.elim ht fun h => h.2.1 rfl
  · refine ⟨_, _, toString_shown ht hyear hlast, toString_shown ht' hyear' hlast', ?_⟩
    have hsecond := @sameSecond_iff z t t'
    constructor
    · intro htext
      exact (hsecond.mp (textOf_inj hyear hyear' hlast hlast' htext)).imp_right fun h => ⟨ht, ht', h⟩
    · intro h
      have hl := hsecond.mpr (h.imp_right fun h => h.2.2)
      simp only [hl]

/-- One hour ahead of UTC, and another one from the end of March to the end of October 2021. -/
def summerZone : Zone := ⟨3600, 3600, fun t => 1616893200 ≤ t && t < 1635642000⟩

/-- Two o'clock of the last day of October 2021, and again one hour later. -/
theorem sameText_iff_october : ∃ text, toString summerZone 1635638400 defaultFormat = .ok text ∧
    toString summerZone 1635642000 defaultFormat = .ok text := by
  obtain ⟨text, text', htext, htext', hsame⟩ := sameText_iff summerZone 1635638400 1635642000
    (by decide) (by decide) (by decide) (by decide)
  obtain rfl := hsame.mpr (.inr ⟨by decide, by decide, .inl ⟨by decide, by decide, by decide⟩⟩)
  exact ⟨text, htext, htext'⟩

end Time
end Huicpp
