import Mathlib

/-!
# Log.RollStrategy

`LogfileRollbackStrategy` on broken-down local times: which messages make the log roll over, and the
name of the log file. Names are streamed with fill character `0` and, but for the year, width 2.
-/

namespace Huicpp
namespace Log

/-- What the code reads of a `struct tm`, in the ranges in which `localtime_r` leaves it. -/
structure Tm where
  tm_year : Int
  tm_mon : Nat
  tm_mday : Nat
  tm_hour : Nat
  tm_min : Nat
  mon_lt : tm_mon < 12
  mday_lt : tm_mday < 32
  hour_lt : tm_hour < 24
  min_lt : tm_min < 60
  deriving DecidableEq, Repr

inductive RolloverValue where
  | DAY
  | HOUR
  | HALFHOUR
  | TENMIN
  deriving DecidableEq, Repr

namespace LogHalfHourControler

inductive HourType where
  | ZERO
  | THIRTY
  deriving DecidableEq, Repr

/-- `LOG_HALF_HOUR_TYPE_NAMES` -/
def getHalfHourName : HourType → String
  | .ZERO => "00"
  | .THIRTY => "30"

def getHalfHourType (hour : Nat) : HourType := if hour < 30 then .ZERO else .THIRTY

end LogHalfHourControler

namespace Log10MintuesControler

def LOG_TEN_MINTUES_TYPE_NAMES : List String := ["00", "10", "20", "30", "40", "50"]

/-- The table has an entry for every minute below 60. -/
def get10MintuesName (mt : Nat) : String := LOG_TEN_MINTUES_TYPE_NAMES.getD mt ""

def get10MintuesType (mm : Nat) : Nat := mm / 10

end Log10MintuesControler

open LogHalfHourControler Log10MintuesControler

/-- `NeedRollback`: `cmt` is the time of a message, `me` the time of the strategy. -/
def needRollback (m_value : RolloverValue) (me cmt : Tm) : Bool :=
  if cmt.tm_year ≠ me.tm_year ∨ cmt.tm_mon ≠ me.tm_mon ∨ cmt.tm_mday ≠ me.tm_mday then true
  else if m_value = .DAY then false
  else if cmt.tm_hour ≠ me.tm_hour then true
  else if m_value = .HOUR then false
  else if getHalfHourType cmt.tm_hour ≠ getHalfHourType me.tm_hour then true
  else if m_value = .HALFHOUR then false
  else if get10MintuesType cmt.tm_min ≠ get10MintuesType me.tm_min then true
  else false

/-- `std::setw(2) << n` with fill character `0`. -/
def setw2 (n : Nat) : String :=
  String.ofList (List.replicate (2 - (toString n).length) '0') ++ toString n

/-- The hour, in the names of all types but `DAY`. -/
def hourPart (m_value : RolloverValue) (tm : Tm) : String :=
  if m_value ≠ .DAY then "_" ++ setw2 tm.tm_hour else ""

/-- The part of the hour, in the names of the last two types. -/
def slotPart (m_value : RolloverValue) (tm : Tm) : String :=
  if m_value = .HALFHOUR then "_" ++ getHalfHourName (getHalfHourType tm.tm_hour)
  else if m_value = .TENMIN then "_" ++ get10MintuesName (get10MintuesType tm.tm_min)
  else ""

def getFileName (m_filename : String) (m_value : RolloverValue) (tm : Tm) (endstr : String) :
    String :=
  m_filename ++ "_" ++ toString (1900 + tm.tm_year) ++ "_" ++ setw2 (1 + tm.tm_mon) ++
    "_" ++ setw2 tm.tm_mday ++ hourPart m_value tm ++ slotPart m_value tm ++
    (if endstr = "" then "" else "_" ++ endstr) ++ ".log"

def SameDate (a b : Tm) : Prop :=
  a.tm_year = b.tm_year ∧ a.tm_mon = b.tm_mon ∧ a.tm_mday = b.tm_mday

def SameHour (a b : Tm) : Prop := SameDate a b ∧ a.tm_hour = b.tm_hour

/-- The periods of a type: the date, the hour, the half of the hour, the ten minutes. -/
def SamePeriod (m_value : RolloverValue) (a b : Tm) : Prop :=
  match m_value with
  | .DAY => SameDate a b
  | .HOUR => SameHour a b
  | .HALFHOUR => SameHour a b ∧ (a.tm_min < 30 ↔ b.tm_min < 30)
  | .TENMIN => SameHour a b ∧ a.tm_min / 10 = b.tm_min / 10

/-- The periods that the code tells apart: its half hours are hours. -/
def SameCodePeriod (m_value : RolloverValue) (a b : Tm) : Prop :=
  match m_value with
  | .HALFHOUR => SameHour a b
  | m_value => SamePeriod m_value a b

/-! ## When the log rolls over -/

/-- The half of the hour is taken from the hour, which is always below 30. -/
theorem getHalfHourType_hour (tm : Tm) : getHalfHourType tm.tm_hour = .ZERO :=
  if_pos (lt_trans tm.hour_lt (by decide))

theorem needRollback_iff (m_value : RolloverValue) (me cmt : Tm) :
    needRollback m_value me cmt = true ↔ ¬ SameCodePeriod m_value me cmt := by
  have hdate : (cmt.tm_year ≠ me.tm_year ∨ cmt.tm_mon ≠ me.tm_mon ∨ cmt.tm_mday ≠ me.tm_mday) ↔
      ¬ SameDate me cmt := by
    simp only [SameDate, not_and_or, ne_eq, eq_comm]
  have hhour : ¬ SameHour me cmt ↔ ¬ SameDate me cmt ∨ cmt.tm_hour ≠ me.tm_hour := by
    rw [SameHour, not_and_or, eq_comm]
  unfold needRollback
  rw [getHalfHourType_hour, getHalfHourType_hour]
  by_cases h1 : SameDate me cmt
  · rw [if_neg (by rw [hdate]; exact not_not.mpr h1)]
    cases m_value with
    | DAY => simp [SameCodePeriod, SamePeriod, h1]
    | HOUR => simp [SameCodePeriod, SamePeriod, hhour, h1]
    | HALFHOUR => simp [SameCodePeriod, hhour, h1]
    | TENMIN =>
      simp only [SameCodePeriod, SamePeriod, not_and_or, hhour, get10MintuesType]
      rw [eq_comm (a := me.tm_min / 10)]
      by_cases h2 : cmt.tm_hour = me.tm_hour
      · by_cases h3 : cmt.tm_min / 10 = me.tm_min / 10
        · simp [h1, h2, h3]
        · simp [h1, h2, h3]
      · simp [h2]
  · rw [if_pos (hdate.mpr h1)]
    refine iff_of_true rfl fun h => h1 ?_
    cases m_value with
    | DAY => exact h
    | HOUR => exact h.1
    | HALFHOUR => exact h.1
    | TENMIN => exact h.1.1

/-! ## The names -/

theorem append_inj_of_length {s t u v : String} (h : s ++ t = u ++ v) (hl : t.length = v.length) :
    s = u ∧ t = v := by
  rw [← String.toList_inj, String.toList_append, String.toList_append] at h
  obtain ⟨h1, h2⟩ := List.append_inj' h hl
  exact ⟨String.toList_inj.mp h1, String.toList_inj.mp h2⟩

theorem setw2_length {n : Nat} (hn : n < 100) : (setw2 n).length = 2 := by
  have hle : n.repr.length ≤ 2 := (Nat.length_repr_le_iff (by decide)).mpr hn
  rw [setw2, String.length_append, String.length_ofList, List.length_replicate, Nat.toString_eq_repr]
  omega

theorem setw2_injective {m n : Nat} (h : setw2 m = setw2 n) : m = n := by
  have hvalue : ∀ k, Nat.ofDigitChars 10 (setw2 k).toList 0 = k := by
    intro k
    rw [setw2, String.toList_append, String.toList_ofList, Nat.ofDigitChars_append,
      Nat.ofDigitChars_replicate_zero, Nat.toString_eq_repr, Nat.toList_repr, Nat.mul_zero]
    exact Nat.ofDigitChars_ten_toDigits
  rw [← hvalue m, h, hvalue n]

theorem hourPart_length (m_value : RolloverValue) (a b : Tm) :
    (hourPart m_value a).length = (hourPart m_value b).length := by
  have hlen : ∀ tm : Tm, (setw2 tm.tm_hour).length = 2 := fun tm =>
    setw2_length (lt_trans tm.hour_lt (by decide))
  unfold hourPart
  split
  · rw [String.length_append, String.length_append, hlen, hlen]
  · rfl

theorem get10MintuesName_length {mt : Nat} (h : mt < 6) : (get10MintuesName mt).length = 2 := by
  interval_cases mt <;> rfl

theorem get10MintuesName_injective {m n : Nat} (hm : m < 6) (hn : n < 6)
    (h : get10MintuesName m = get10MintuesName n) : m = n := by
  interval_cases m <;> interval_cases n <;> first | rfl | exact absurd h (by decide)

theorem get10MintuesType_lt (tm : Tm) : get10MintuesType tm.tm_min < 6 := by
  have := tm.min_lt
  rw [get10MintuesType]
  omega

theorem slotPart_length (m_value : RolloverValue) (a b : Tm) :
    (slotPart m_value a).length = (slotPart m_value b).length := by
  unfold slotPart
  split
  · rw [getHalfHourType_hour, getHalfHourType_hour]
  · split
    · rw [String.length_append, String.length_append,
        get10MintuesName_length (get10MintuesType_lt a),
        get10MintuesName_length (get10MintuesType_lt b)]
    · rfl

theorem hourPart_eq_iff (m_value : RolloverValue) (a b : Tm) :
    hourPart m_value a = hourPart m_value b ↔ m_value = .DAY ∨ a.tm_hour = b.tm_hour := by
  by_cases h : m_value = .DAY
  · simp [hourPart, h]
  · rw [hourPart, hourPart, if_pos h, if_pos h, String.append_right_inj]
    constructor
    · exact fun heq => .inr (setw2_injective heq)
    · rintro (hday | heq)
      · exact absurd hday h
      · rw [heq]

theorem slotPart_eq_iff (m_value : RolloverValue) (a b : Tm) :
    slotPart m_value a = slotPart m_value b ↔
      (m_value = .TENMIN → a.tm_min / 10 = b.tm_min / 10) := by
  unfold slotPart
  rw [getHalfHourType_hour, getHalfHourType_hour]
  cases m_value with
  | DAY => simp
  | HOUR => simp
  | HALFHOUR => simp
  | TENMIN =>
    rw [if_neg (by decide), if_pos rfl, if_neg (by decide), if_pos rfl, String.append_right_inj]
    constructor
    · intro h _
      exact get10MintuesName_injective (get10MintuesType_lt a) (get10MintuesType_lt b) h
    · intro h
      rw [get10MintuesType, h rfl, get10MintuesType]

/-- Names are equal in the same period of the code, whatever they end with. -/
theorem getFileName_eq_iff (m_filename : String) (m_value : RolloverValue) (a b : Tm)
    (endstr : String) :
    getFileName m_filename m_value a endstr = getFileName m_filename m_value b endstr ↔
      SameCodePeriod m_value a b := by
  have hparts : getFileName m_filename m_value a endstr = getFileName m_filename m_value b endstr ↔
      SameDate a b ∧ hourPart m_value a = hourPart m_value b ∧
        slotPart m_value a = slotPart m_value b := by
    constructor
    · intro h
      rw [getFileName, getFileName, String.append_left_inj, String.append_left_inj] at h
      obtain ⟨h, hslot⟩ := append_inj_of_length h (slotPart_length ..)
      obtain ⟨h, hhour⟩ := append_inj_of_length h (hourPart_length ..)
      have hmday : ∀ tm : Tm, (setw2 tm.tm_mday).length = 2 := fun tm =>
        setw2_length (lt_trans tm.mday_lt (by decide))
      have hmon : ∀ tm : Tm, (setw2 (1 + tm.tm_mon)).length = 2 := fun tm =>
        setw2_length (by have := tm.mon_lt; omega)
      obtain ⟨h, hd⟩ := append_inj_of_length h ((hmday a).trans (hmday b).symm)
      rw [String.append_left_inj] at h
      obtain ⟨h, hm⟩ := append_inj_of_length h ((hmon a).trans (hmon b).symm)
      rw [String.append_left_inj, String.append_right_inj] at h
      have hyear : 1900 + a.tm_year = 1900 + b.tm_year := Int.repr_inj.mp h
      exact ⟨⟨by omega, by have := setw2_injective hm; omega, setw2_injective hd⟩, hhour, hslot⟩
    · rintro ⟨⟨hy, hm, hd⟩, hhour, hslot⟩
      rw [getFileName, getFileName, hy, hm, hd, hhour, hslot]
  rw [hparts, hourPart_eq_iff, slotPart_eq_iff]
  cases m_value with
  | DAY => simp [SameCodePeriod, SamePeriod]
  | HOUR => simp [SameCodePeriod, SamePeriod, SameHour]
  | HALFHOUR => simp [SameCodePeriod, SameHour]
  | TENMIN => simp [SameCodePeriod, SamePeriod, SameHour, and_assoc]

/-- Two digits. -/
def TwoDigits (s : String) : Prop := s.length = 2 ∧ 'k' ∉ s.toList

theorem setw2_twoDigits {n : Nat} (hn : n < 100) : TwoDigits (setw2 n) := by
  refine ⟨setw2_length hn, ?_⟩
  rw [setw2, String.toList_append, String.toList_ofList, Nat.toString_eq_repr, Nat.toList_repr,
    List.mem_append, not_or]
  refine ⟨fun h => absurd (List.eq_of_mem_replicate h) (by decide), fun h => ?_⟩
  exact absurd (Nat.isDigit_of_mem_toDigits (by decide) (by decide) h) (by decide)

theorem get10MintuesName_twoDigits {mt : Nat} (h : mt < 6) : TwoDigits (get10MintuesName mt) := by
  refine ⟨get10MintuesName_length h, ?_⟩
  interval_cases mt <;> decide

theorem exists_twoDigits (s : String) (m_value : RolloverValue) (tm : Tm) :
    ∃ p t, TwoDigits t ∧
      s ++ "_" ++ setw2 tm.tm_mday ++ hourPart m_value tm ++ slotPart m_value tm = p ++ t := by
  cases m_value with
  | DAY =>
    have hhour : hourPart .DAY tm = "" := rfl
    have hslot : slotPart .DAY tm = "" := rfl
    rw [hhour, hslot, String.append_empty, String.append_empty]
    exact ⟨_, _, setw2_twoDigits (lt_trans tm.mday_lt (by decide)), rfl⟩
  | HOUR =>
    have hhour : hourPart .HOUR tm = "_" ++ setw2 tm.tm_hour := rfl
    have hslot : slotPart .HOUR tm = "" := rfl
    rw [hhour, hslot, String.append_empty, ← String.append_assoc]
    exact ⟨_, _, setw2_twoDigits (lt_trans tm.hour_lt (by decide)), rfl⟩
  | HALFHOUR =>
    have hslot : slotPart .HALFHOUR tm = "_" ++ "00" := by
      rw [slotPart, if_pos rfl, getHalfHourType_hour, getHalfHourName]
    rw [hslot, ← String.append_assoc]
    exact ⟨_, _, ⟨rfl, by decide⟩, rfl⟩
  | TENMIN =>
    have hslot : slotPart .TENMIN tm = "_" ++ get10MintuesName (get10MintuesType tm.tm_min) := rfl
    rw [hslot, ← String.append_assoc]
    exact ⟨_, _, get10MintuesName_twoDigits (get10MintuesType_lt tm), rfl⟩

theorem getFileName_ne_bak (m_filename : String) (m_value : RolloverValue) (a b : Tm) :
    getFileName m_filename m_value a "" ≠ getFileName m_filename m_value b "bak" := by
  intro h
  rw [getFileName, getFileName, if_pos rfl, if_neg (by decide), String.append_left_inj,
    String.append_empty] at h
  obtain ⟨p, t, ⟨hlen, ht⟩, hp⟩ := exists_twoDigits (m_filename ++ "_" ++ toString (1900 + a.tm_year) ++
    "_" ++ setw2 (1 + a.tm_mon)) m_value a
  have hak : "_" ++ "bak" = "_b" ++ "ak" := rfl
  rw [hp, hak, ← String.append_assoc] at h
  obtain ⟨-, rfl⟩ := append_inj_of_length h hlen
  exact ht (by decide)

/-! ## The configured period -/

/-- The log rolls over, and changes its name, at the ends of the configured period. -/
def FollowsPeriod (m_filename : String) (m_value : RolloverValue) (a b : Tm) : Prop :=
  (needRollback m_value a b = true ↔ ¬ SamePeriod m_value a b) ∧
    ∀ endstr, getFileName m_filename m_value a endstr = getFileName m_filename m_value b endstr ↔
      SamePeriod m_value a b

/-- It does not for times in the two halves of one hour. -/
theorem followsPeriod_iff (m_filename : String) (m_value : RolloverValue) (a b : Tm) :
    FollowsPeriod m_filename m_value a b ↔
      ¬ (m_value = .HALFHOUR ∧ SameHour a b ∧ ¬ (a.tm_min < 30 ↔ b.tm_min < 30)) := by
  simp only [FollowsPeriod, needRollback_iff, getFileName_eq_iff, forall_const]
  cases m_value with
  | DAY => simp [SameCodePeriod]
  | HOUR => simp [SameCodePeriod]
  | HALFHOUR =>
    simp only [SameCodePeriod, SamePeriod, true_and, not_and, not_not]
    constructor
    · intro h hhour
      exact (h.2.mp hhour).2
    · intro h
      have hiff : SameHour a b ↔ SameHour a b ∧ (a.tm_min < 30 ↔ b.tm_min < 30) :=
        ⟨fun hhour => ⟨hhour, h hhour⟩, And.left⟩
      exact ⟨(not_congr hiff).trans not_and, hiff⟩
  | TENMIN => simp [SameCodePeriod]

/-- Ten past ten and twenty to eleven. -/
theorem halfHour_not_followed : ¬ FollowsPeriod "app" .HALFHOUR
    ⟨124, 0, 15, 10, 10, by decide, by decide, by decide, by decide⟩
    ⟨124, 0, 15, 10, 40, by decide, by decide, by decide, by decide⟩ := by
  rintro ⟨hneed, -⟩
  exact absurd (hneed.mpr (by simp [SamePeriod])) (by decide)

end Log
end Huicpp
