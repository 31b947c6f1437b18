import Mathlib

/-!
# Scheduler.Timeval

`Timeval` and the operators of the delay queue on it. Both fields are `long`; a result outside the
range of `long` wraps around. `micros` is what a `Timeval` means, and on normalized non-negative
values (`IsInterval`) the operators compute with that meaning: `+=` adds as long as the sum fits,
`-=` subtracts down to zero, and `>=` compares.
-/

namespace Huicpp
namespace Scheduler

def LONG_MAX : Int := 2 ^ 63 - 1

def MILLION : Int := 1000000

/-- Conversion to `long`. -/
def toLong (x : Int) : Int := x.bmod (2 ^ 64)

/-- Conversion to `int`, which keeps the low 32 bits. -/
def toInt (x : Int) : Int := x.bmod (2 ^ 32)

structure Timeval where
  seconds : Int
  useconds : Int
  deriving DecidableEq, Repr

abbrev DelayInterval := Timeval
abbrev DelayEventTime := Timeval

def DELAY_ZERO : DelayInterval := ⟨0, 0⟩

def ETERNITY : DelayInterval := ⟨LONG_MAX, MILLION - 1⟩

namespace Timeval

/-- `operator>=` -/
def ge (a b : Timeval) : Bool :=
  decide (b.seconds < a.seconds) ||
    (decide (a.seconds = b.seconds) && decide (b.useconds ≤ a.useconds))

/-- `operator<` -/
def lt (a b : Timeval) : Bool := !a.ge b

/-- `operator==` -/
def eq (a b : Timeval) : Bool := a.ge b && b.ge a

/-- `operator!=` -/
def ne (a b : Timeval) : Bool := !a.eq b

/-- `operator+=` -/
def addAssign (a : Timeval) (b : DelayInterval) : Timeval :=
  let seconds := toLong (a.seconds + b.seconds)
  let useconds := toLong (a.useconds + b.useconds)
  if MILLION ≤ useconds then ⟨toLong (seconds + 1), toLong (useconds - MILLION)⟩
  else ⟨seconds, useconds⟩

/-- `operator-=` -/
def subAssign (a : Timeval) (b : DelayInterval) : Timeval :=
  let seconds := toLong (a.seconds - b.seconds)
  let useconds := toLong (a.useconds - b.useconds)
  let r : Timeval :=
    if useconds < 0 then ⟨toLong (seconds - 1), toLong (useconds + MILLION)⟩
    else ⟨seconds, useconds⟩
  if r.seconds < 0 then ⟨0, 0⟩ else r

/-- `operator-`, which tests the sign of the seconds after a conversion to `int`. -/
def sub (a b : Timeval) : DelayInterval :=
  let secs := toLong (a.seconds - b.seconds)
  let usecs := toLong (a.useconds - b.useconds)
  let r : Timeval :=
    if usecs < 0 then ⟨toLong (secs - 1), toLong (usecs + MILLION)⟩ else ⟨secs, usecs⟩
  if toInt r.seconds < 0 then DELAY_ZERO else r

/-- The microseconds a value stands for. -/
def micros (t : Timeval) : Int := t.seconds * MILLION + t.useconds

/-- The whole seconds of `a - b`, rounded down. -/
def wholeSeconds (a b : Timeval) : Int := (a.micros - b.micros) / MILLION

/-- A time that `gettimeofday` can report. -/
structure IsTime (t : Timeval) : Prop where
  seconds_ge : -LONG_MAX - 1 ≤ t.seconds
  seconds_le : t.seconds ≤ LONG_MAX
  useconds_nonneg : 0 ≤ t.useconds
  useconds_lt : t.useconds < MILLION

/-- A normalized delay that is not negative. -/
structure IsInterval (t : Timeval) : Prop where
  seconds_nonneg : 0 ≤ t.seconds
  seconds_le : t.seconds ≤ LONG_MAX
  useconds_nonneg : 0 ≤ t.useconds
  useconds_lt : t.useconds < MILLION

end Timeval

theorem toLong_eq {x : Int} (h1 : -LONG_MAX - 1 ≤ x) (h2 : x ≤ LONG_MAX) : toLong x = x := by
  unfold LONG_MAX at h1 h2
  exact Int.bmod_eq_of_le_mul_two (by push_cast; omega) (by push_cast; omega)

theorem toInt_eq {x : Int} (h1 : 0 ≤ x) (h2 : x < 2 ^ 31) : toInt x = x :=
  Int.bmod_eq_of_le_mul_two (by push_cast; omega) (by push_cast; omega)

namespace Timeval

variable {a b : Timeval}

theorem IsInterval.isTime (h : a.IsInterval) : a.IsTime := by
  obtain ⟨h1, h2, h3, h4⟩ := h
  refine ⟨?_, h2, h3, h4⟩
  unfold LONG_MAX at *
  omega

theorem isInterval_mk {s u : Int} (h1 : 0 ≤ s) (h2 : s ≤ LONG_MAX) (h3 : 0 ≤ u)
    (h4 : u < MILLION) : IsInterval ⟨s, u⟩ := ⟨h1, h2, h3, h4⟩

theorem isInterval_zero : DELAY_ZERO.IsInterval := by
  refine ⟨?_, ?_, ?_, ?_⟩ <;> decide

theorem isInterval_eternity : ETERNITY.IsInterval := by
  refine ⟨?_, ?_, ?_, ?_⟩ <;> decide

@[simp] theorem micros_zero : DELAY_ZERO.micros = 0 := rfl

theorem IsInterval.micros_nonneg (h : a.IsInterval) : 0 ≤ a.micros := by
  obtain ⟨h1, _, h3, _⟩ := h
  unfold micros MILLION
  omega

theorem ge_iff (ha : a.IsTime) (hb : b.IsTime) : a.ge b = true ↔ b.micros ≤ a.micros := by
  obtain ⟨_, _, ha3, ha4⟩ := ha
  obtain ⟨_, _, hb3, hb4⟩ := hb
  simp only [ge, micros, MILLION, Bool.or_eq_true, Bool.and_eq_true, decide_eq_true_eq] at *
  omega

theorem ge_eq_false_iff (ha : a.IsTime) (hb : b.IsTime) :
    a.ge b = false ↔ a.micros < b.micros := by
  have h := ge_iff ha hb
  rw [← Bool.not_eq_true, h]
  omega

theorem eq_iff (ha : a.IsTime) (hb : b.IsTime) : a.eq b = true ↔ a.micros = b.micros := by
  rw [eq, Bool.and_eq_true, ge_iff ha hb, ge_iff hb ha]
  omega

theorem eq_zero_iff (ha : a.IsInterval) : a.eq DELAY_ZERO = true ↔ a.micros = 0 := by
  rw [eq_iff ha.isTime isInterval_zero.isTime, micros_zero]

theorem addAssign_spec (ha : a.IsInterval) (hb : b.IsInterval)
    (h : a.micros + b.micros ≤ ETERNITY.micros) :
    (a.addAssign b).IsInterval ∧ (a.addAssign b).micros = a.micros + b.micros := by
  obtain ⟨ha1, ha2, ha3, ha4⟩ := ha
  obtain ⟨hb1, hb2, hb3, hb4⟩ := hb
  have hsec : a.seconds + b.seconds ≤ LONG_MAX := by
    simp only [micros, ETERNITY, MILLION] at *
    omega
  have hs : toLong (a.seconds + b.seconds) = a.seconds + b.seconds :=
    toLong_eq (by unfold LONG_MAX; omega) hsec
  have hu : toLong (a.useconds + b.useconds) = a.useconds + b.useconds :=
    toLong_eq (by unfold LONG_MAX; omega) (by unfold LONG_MAX MILLION at *; omega)
  simp only [addAssign, hs, hu]
  by_cases hc : MILLION ≤ a.useconds + b.useconds
  · -- the carry still fits, since the sum does
    have hsec' : a.seconds + b.seconds + 1 ≤ LONG_MAX := by
      simp only [micros, ETERNITY, MILLION] at *
      omega
    rw [if_pos hc, toLong_eq (by unfold LONG_MAX; omega) hsec',
      toLong_eq (by unfold LONG_MAX; omega) (by unfold LONG_MAX MILLION at *; omega)]
    refine ⟨isInterval_mk (by omega) hsec' (by omega) (by unfold MILLION at *; omega), ?_⟩
    simp only [micros, MILLION]
    omega
  · rw [if_neg hc]
    refine ⟨isInterval_mk (by omega) hsec (by omega) (by omega), ?_⟩
    simp only [micros, MILLION]
    omega

/-- The borrow that both subtractions make. -/
theorem borrow_spec {s u : Int} (h1 : -LONG_MAX ≤ s) (h2 : s ≤ LONG_MAX) (h3 : -MILLION < u)
    (h4 : u < MILLION) {r : Timeval}
    (hr : r = if u < 0 then ⟨toLong (s - 1), toLong (u + MILLION)⟩ else ⟨s, u⟩) :
    r.seconds ≤ LONG_MAX ∧ 0 ≤ r.useconds ∧ r.useconds < MILLION ∧
      r.micros = s * MILLION + u := by
  by_cases hc : u < 0
  · rw [if_pos hc, toLong_eq (by omega) (by omega),
      toLong_eq (by unfold LONG_MAX; omega) (by unfold LONG_MAX MILLION at *; omega)] at hr
    subst hr
    refine ⟨?_, ?_, ?_, ?_⟩ <;> simp only [micros, MILLION] at * <;> omega
  · rw [if_neg hc] at hr
    subst hr
    exact ⟨h2, by simpa using hc, h4, rfl⟩

theorem toLong_sub_useconds (ha : a.IsTime) (hb : b.IsTime) :
    toLong (a.useconds - b.useconds) = a.useconds - b.useconds := by
  obtain ⟨_, _, ha3, ha4⟩ := ha
  obtain ⟨_, _, hb3, hb4⟩ := hb
  unfold MILLION at *
  exact toLong_eq (by unfold LONG_MAX; omega) (by unfold LONG_MAX; omega)

/-- `-=` is exact, and stops at zero. -/
theorem subAssign_spec (ha : a.IsInterval) (hb : b.IsInterval) :
    (a.subAssign b).IsInterval ∧ (a.subAssign b).micros = max 0 (a.micros - b.micros) := by
  have hu := toLong_sub_useconds ha.isTime hb.isTime
  obtain ⟨ha1, ha2, ha3, ha4⟩ := ha
  obtain ⟨hb1, hb2, hb3, hb4⟩ := hb
  have hs : toLong (a.seconds - b.seconds) = a.seconds - b.seconds :=
    toLong_eq (by omega) (by omega)
  simp only [subAssign, hs, hu]
  generalize hr : (if a.useconds - b.useconds < 0 then _ else _ : Timeval) = r
  obtain ⟨hr1, hr2, hr3, hr4⟩ :=
    borrow_spec (by omega) (by omega) (by omega) (by omega) hr.symm
  have hm : r.micros = a.micros - b.micros := by
    rw [hr4]
    simp only [micros, MILLION]
    omega
  by_cases hn : r.seconds < 0
  · rw [if_pos hn]
    refine ⟨isInterval_zero, ?_⟩
    simp only [micros, MILLION] at *
    omega
  · rw [if_neg hn]
    refine ⟨⟨by omega, hr1, hr2, hr3⟩, ?_⟩
    simp only [micros, MILLION] at *
    omega

theorem subAssign_of_le (ha : a.IsInterval) (hb : b.IsInterval) (h : b.micros ≤ a.micros) :
    (a.subAssign b).IsInterval ∧ (a.subAssign b).micros = a.micros - b.micros := by
  obtain ⟨h1, h2⟩ := subAssign_spec ha hb
  exact ⟨h1, by omega⟩

/-- `-` is exact on times in order, unless the whole seconds are negative as an `int`. -/
theorem sub_spec (ha : a.IsTime) (hb : b.IsTime) (h : b.micros ≤ a.micros)
    (hfits : a.seconds - b.seconds ≤ LONG_MAX) :
    (a.sub b).IsInterval ∧ (a.sub b).micros =
      if toInt (wholeSeconds a b) < 0 then 0 else a.micros - b.micros := by
  have hu := toLong_sub_useconds ha hb
  obtain ⟨_, _, ha3, ha4⟩ := ha
  obtain ⟨_, _, hb3, hb4⟩ := hb
  have hlo : -1 ≤ a.seconds - b.seconds := by
    simp only [micros, MILLION] at *
    omega
  have hs : toLong (a.seconds - b.seconds) = a.seconds - b.seconds :=
    toLong_eq (by unfold LONG_MAX; omega) hfits
  simp only [sub, hs, hu]
  generalize hr : (if a.useconds - b.useconds < 0 then _ else _ : Timeval) = r
  obtain ⟨hr1, hr2, hr3, hr4⟩ := borrow_spec (by unfold LONG_MAX; omega)
    hfits (by omega) (by omega) hr.symm
  have hm : r.micros = a.micros - b.micros := by
    rw [hr4]
    simp only [micros, MILLION]
    omega
  have hwhole : r.seconds = wholeSeconds a b := by
    rw [wholeSeconds, ← hm]
    simp only [micros, MILLION] at *
    omega
  rw [hwhole]
  by_cases hslip : toInt (wholeSeconds a b) < 0
  · rw [if_pos hslip, if_pos hslip]
    exact ⟨isInterval_zero, rfl⟩
  · rw [if_neg hslip, if_neg hslip]
    refine ⟨⟨?_, hr1, hr2, hr3⟩, hm⟩
    simp only [micros, MILLION] at *
    omega

end Timeval

end Scheduler
end Huicpp
