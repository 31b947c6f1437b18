import Mathlib
import Huicpp.Cxx.Memory
import Huicpp.Cxx.Narrowing

/-!
# Time.Timespan

A time span in seconds, of 64 bits, made of days, hours, minutes and seconds and taken apart into them
again. The constructor calculates in `int`, and `GetHours` and `GetMinutes` narrow their totals to `int`
before they take the remainder; `GetSeconds` takes the remainder first.

* `holds_iff_fits`: a span is right unless its seconds are no `int`.
* `apart_iff_keeps`: the parts of a span fit together unless narrowing a total changes its remainder.
-/

namespace Huicpp
namespace Time

open Cxx

structure Timespan where
  m_span : Int64
  deriving DecidableEq, Repr

namespace Timespan

/-- The constructor, `nSecs + 60 * (nMins + 60 * (nHours + 24 * lDays))` in `int`. -/
def ofParts (lDays nHours nMins nSecs : Int32) : Outcome Timespan := do
  let n ← checkedHN (24 * lDays.toInt)
  let n ← checkedHN (nHours.toInt + n)
  let n ← checkedHN (60 * n)
  let n ← checkedHN (nMins.toInt + n)
  let n ← checkedHN (60 * n)
  let n ← checkedHN (nSecs.toInt + n)
  return ⟨Int64.ofInt n⟩

def getDays (t : Timespan) : Int32 := (t.m_span / (24 * 3600)).toInt32

def getTotalHours (t : Timespan) : Int32 := (t.m_span / 3600).toInt32

def getHours (t : Timespan) : Int32 := t.getTotalHours % 24

def getTotalMinutes (t : Timespan) : Int32 := (t.m_span / 60).toInt32

def getMinutes (t : Timespan) : Int32 := t.getTotalMinutes % 60

def getTotalSeconds (t : Timespan) : Int32 := t.m_span.toInt32

def getSeconds (t : Timespan) : Int32 := (t.m_span % 60).toInt32

/-! ## The getters -/

variable {t : Timespan}

theorem div_toInt (h : 0 ≤ t.m_span.toInt) {k : Int64} (hk : 0 < k.toInt) :
    (t.m_span / k).toInt = t.m_span.toInt / k.toInt := by
  have hne : k ≠ -1 := by
    rintro rfl
    exact absurd hk (by decide)
  rw [Int64.toInt_div_of_ne_right _ _ hne, Int.tdiv_eq_ediv_of_nonneg h]

theorem getDays_toInt (h : 0 ≤ t.m_span.toInt) (hfit : t.m_span.toInt / 86400 < 2 ^ 31) :
    t.getDays.toInt = t.m_span.toInt / 86400 := by
  rw [getDays, Int64.toInt_toInt32, div_toInt h (by decide),
    show (24 * 3600 : Int64).toInt = 86400 from rfl]
  exact Int.bmod_eq_of_le (by omega) (by omega)

theorem getHours_toInt (h : 0 ≤ t.m_span.toInt) :
    t.getHours.toInt = ((t.m_span.toInt / 3600).bmod (2 ^ 32)).tmod 24 := by
  rw [getHours, getTotalHours, Int32.toInt_mod, Int64.toInt_toInt32, div_toInt h (by decide)]
  rfl

theorem getMinutes_toInt (h : 0 ≤ t.m_span.toInt) :
    t.getMinutes.toInt = ((t.m_span.toInt / 60).bmod (2 ^ 32)).tmod 60 := by
  rw [getMinutes, getTotalMinutes, Int32.toInt_mod, Int64.toInt_toInt32, div_toInt h (by decide)]
  rfl

theorem getSeconds_toInt (h : 0 ≤ t.m_span.toInt) : t.getSeconds.toInt = t.m_span.toInt % 60 := by
  rw [getSeconds, Int64.toInt_toInt32, Int64.toInt_mod, show (60 : Int64).toInt = 60 from rfl,
    Int.tmod_eq_emod_of_nonneg h]
  exact Int.bmod_eq_of_le (by omega) (by omega)

/-! ## A span taken apart -/

/-- The parts of a span fit together. -/
structure Apart (t : Timespan) : Prop where
  total : 86400 * t.getDays.toInt + 3600 * t.getHours.toInt + 60 * t.getMinutes.toInt +
    t.getSeconds.toInt = t.m_span.toInt
  hours : 0 ≤ t.getHours.toInt ∧ t.getHours.toInt < 24
  minutes : 0 ≤ t.getMinutes.toInt ∧ t.getMinutes.toInt < 60
  seconds : 0 ≤ t.getSeconds.toInt ∧ t.getSeconds.toInt < 60

/-- There is only one way to fit. -/
theorem apart_iff_parts (h : 0 ≤ t.m_span.toInt) (hfit : t.m_span.toInt / 86400 < 2 ^ 31) :
    t.Apart ↔ t.getHours.toInt = t.m_span.toInt / 3600 % 24 ∧
      t.getMinutes.toInt = t.m_span.toInt / 60 % 60 := by
  have hdays := getDays_toInt h hfit
  have hsecs := getSeconds_toInt h
  constructor
  · rintro ⟨htotal, hhours, hmins, -⟩
    omega
  · rintro ⟨hhours, hmins⟩
    exact ⟨by omega, by omega, by omega, by omega⟩

theorem apart_iff_keeps (h : 0 ≤ t.m_span.toInt) (hfit : t.m_span.toInt / 86400 < 2 ^ 31) :
    t.Apart ↔ KeepsRem 24 (t.m_span.toInt / 3600) ∧ KeepsRem 60 (t.m_span.toInt / 60) := by
  rw [apart_iff_parts h hfit, getHours_toInt h, getMinutes_toInt h, bmod_tmod_eq_iff (by decide),
    bmod_tmod_eq_iff (by decide)]

/-! ## A span of given parts -/

/-- The constructor makes the span of these parts. -/
def Holds (d h m s : Int32) (o : Outcome Timespan) : Prop :=
  ∃ t : Timespan, o = .ok t ∧ t.getDays = d ∧ t.getHours = h ∧ t.getMinutes = m ∧ t.getSeconds = s ∧
    t.m_span.toInt = 86400 * d.toInt + 3600 * h.toInt + 60 * m.toInt + s.toInt

/-- Parts in their ranges, as the constructor takes them. -/
structure InRange (d h m s : Int32) : Prop where
  days : 0 ≤ d.toInt
  hours : 0 ≤ h.toInt ∧ h.toInt < 24
  minutes : 0 ≤ m.toInt ∧ m.toInt < 60
  seconds : 0 ≤ s.toInt ∧ s.toInt < 60

variable {d h m s : Int32}

theorem ofParts_ok (hr : InRange d h m s)
    (hfit : 86400 * d.toInt + 3600 * h.toInt + 60 * m.toInt + s.toInt < 2 ^ 31) :
    ofParts d h m s =
      .ok ⟨Int64.ofInt (86400 * d.toInt + 3600 * h.toInt + 60 * m.toInt + s.toInt)⟩ := by
  obtain ⟨hd, hh, hm, hs⟩ := hr
  rw [ofParts, checkedHN_ok (by omega) (by omega), Outcome.ok_bind,
    checkedHN_ok (by omega) (by omega), Outcome.ok_bind, checkedHN_ok (by omega) (by omega),
    Outcome.ok_bind, checkedHN_ok (by omega) (by omega), Outcome.ok_bind,
    checkedHN_ok (by omega) (by omega), Outcome.ok_bind, checkedHN_ok (by omega) (by omega),
    Outcome.ok_bind, Outcome.pure_eq]
  congr 3
  ring

theorem ofParts_fits {t : Timespan} (ho : ofParts d h m s = .ok t) :
    86400 * d.toInt + 3600 * h.toInt + 60 * m.toInt + s.toInt < 2 ^ 31 := by
  obtain ⟨n₁, h₁, ho⟩ := Outcome.bind_eq_ok.mp ho
  obtain ⟨n₂, h₂, ho⟩ := Outcome.bind_eq_ok.mp ho
  obtain ⟨n₃, h₃, ho⟩ := Outcome.bind_eq_ok.mp ho
  obtain ⟨n₄, h₄, ho⟩ := Outcome.bind_eq_ok.mp ho
  obtain ⟨n₅, h₅, ho⟩ := Outcome.bind_eq_ok.mp ho
  obtain ⟨n₆, h₆, ho⟩ := Outcome.bind_eq_ok.mp ho
  have hval₁ := checkedHN_eq_ok h₁
  have hval₂ := checkedHN_eq_ok h₂
  have hval₃ := checkedHN_eq_ok h₃
  have hval₄ := checkedHN_eq_ok h₄
  have hval₅ := checkedHN_eq_ok h₅
  have hval₆ := checkedHN_eq_ok h₆
  omega

theorem parts_of_total (hr : InRange d h m s) {t : Timespan}
    (ht : t.m_span.toInt = 86400 * d.toInt + 3600 * h.toInt + 60 * m.toInt + s.toInt)
    (hfit : t.m_span.toInt < 2 ^ 31) :
    t.getDays = d ∧ t.getHours = h ∧ t.getMinutes = m ∧ t.getSeconds = s := by
  obtain ⟨hd, hh, hm, hs⟩ := hr
  have hlo : 0 ≤ t.m_span.toInt := by omega
  have happart : t.Apart := (apart_iff_keeps hlo (by omega)).mpr
    ⟨keepsRem_of_lt 24 (by omega) (by omega), keepsRem_of_lt 60 (by omega) (by omega)⟩
  obtain ⟨hhours, hmins⟩ := (apart_iff_parts hlo (by omega)).mp happart
  have hdays := getDays_toInt hlo (by omega)
  have hsecs := getSeconds_toInt hlo
  refine ⟨?_, ?_, ?_, ?_⟩
  · rw [← Int32.toInt_inj]
    omega
  · rw [← Int32.toInt_inj]
    omega
  · rw [← Int32.toInt_inj]
    omega
  · rw [← Int32.toInt_inj]
    omega

theorem holds_iff_fits (hr : InRange d h m s) :
    Holds d h m s (ofParts d h m s) ↔
      86400 * d.toInt + 3600 * h.toInt + 60 * m.toInt + s.toInt < 2 ^ 31 := by
  constructor
  · rintro ⟨t, ho, -⟩
    exact ofParts_fits ho
  · intro hfit
    have ht : (Int64.ofInt (86400 * d.toInt + 3600 * h.toInt + 60 * m.toInt + s.toInt)).toInt =
        86400 * d.toInt + 3600 * h.toInt + 60 * m.toInt + s.toInt := by
      obtain ⟨hd, hh, hm, hs⟩ := hr
      exact Int64.toInt_ofInt_of_le (by omega) (by omega)
    obtain ⟨hdays, hhours, hmins, hsecs⟩ :=
      parts_of_total (t := ⟨Int64.ofInt _⟩) hr ht (by rw [ht]; exact hfit)
    exact ⟨_, ofParts_ok hr hfit, hdays, hhours, hmins, hsecs, ht⟩

/-- **Parts of a time span.** The constructor makes the span of its parts exactly if the seconds are an
`int`. The parts of a span fit together exactly if the total hours and minutes keep their remainders
when they are narrowed. -/
theorem parts_iff (hr : InRange d h m s) (hlo : 0 ≤ t.m_span.toInt)
    (hfit : t.m_span.toInt / 86400 < 2 ^ 31) :
    (Holds d h m s (ofParts d h m s) ↔
        86400 * d.toInt + 3600 * h.toInt + 60 * m.toInt + s.toInt < 2 ^ 31) ∧
      (t.Apart ↔ KeepsRem 24 (t.m_span.toInt / 3600) ∧ KeepsRem 60 (t.m_span.toInt / 60)) :=
  ⟨holds_iff_fits hr, apart_iff_keeps hlo hfit⟩

/-- One of each, and the span of that. -/
theorem parts_iff_one :
    (Holds 1 1 1 1 (ofParts 1 1 1 1) ↔
        86400 * (1 : Int32).toInt + 3600 * (1 : Int32).toInt + 60 * (1 : Int32).toInt +
          (1 : Int32).toInt < 2 ^ 31) ∧
      ((⟨90061⟩ : Timespan).Apart ↔
        KeepsRem 24 ((90061 : Int64).toInt / 3600) ∧ KeepsRem 60 ((90061 : Int64).toInt / 60)) :=
  parts_iff (t := ⟨90061⟩) ⟨by decide, by decide, by decide, by decide⟩ (by decide) (by decide)

/-- 24856 days have more seconds than an `int` can count, and `2 ^ 31` hours are more hours. -/
theorem parts_lost :
    ¬ (∀ d h m s : Int32, InRange d h m s → Holds d h m s (ofParts d h m s)) ∧
      ¬ ∀ t : Timespan, 0 ≤ t.m_span.toInt → t.m_span.toInt / 86400 < 2 ^ 31 → t.Apart := by
  constructor
  · intro hall
    have hr : InRange 24856 0 0 0 := ⟨by decide, by decide, by decide, by decide⟩
    exact absurd ((holds_iff_fits hr).mp (hall 24856 0 0 0 hr)) (by decide)
  · intro hall
    have happart := hall ⟨7730941132800⟩ (by decide) (by decide)
    exact absurd ((apart_iff_keeps (by decide) (by decide)).mp happart).1 (by decide)

end Timespan

end Time
end Huicpp
