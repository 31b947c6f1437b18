import Mathlib
import Huicpp.Scheduler.Timeval

/-!
# Scheduler.Subtraction

`operator-` and `operator-=` make the same borrow and then ask whether the seconds are negative:
`-=` of the `long`, and `-` of the `int` that is left of it. `subtracts_iff`: subtraction is exact
and saturating, in both forms, exactly where the seconds keep their sign as an `int`.
-/

namespace Huicpp
namespace Scheduler
namespace Timeval

variable {a b : Timeval}

/-- What both forms promise. -/
structure Subtracts (a b : Timeval) : Prop where
  sub_interval : (a.sub b).IsInterval
  sub_micros : (a.sub b).micros = max 0 (a.micros - b.micros)
  subAssign_interval : (a.subAssign b).IsInterval
  subAssign_micros : (a.subAssign b).micros = max 0 (a.micros - b.micros)
  agree : a.sub b = a.subAssign b
  zero_iff : a.sub b = DELAY_ZERO ↔ b.ge a = true
  addAssign_sub : a.ge b = true → (a.sub b).addAssign b = a

theorem IsInterval.eq_of_micros (ha : a.IsInterval) (hb : b.IsInterval)
    (h : a.micros = b.micros) : a = b := by
  obtain ⟨_, _, ha3, ha4⟩ := ha
  obtain ⟨_, _, hb3, hb4⟩ := hb
  obtain ⟨s, u⟩ := a
  obtain ⟨s', u'⟩ := b
  simp only [micros, MILLION, mk.injEq] at *
  omega

theorem IsInterval.micros_le (ha : a.IsInterval) : a.micros ≤ ETERNITY.micros := by
  obtain ⟨_, ha2, _, ha4⟩ := ha
  simp only [micros, ETERNITY, MILLION] at *
  omega

theorem borrowed (ha : a.IsInterval) (hb : b.IsInterval) :
    ∃ r : Timeval, r.seconds = wholeSeconds a b ∧
      a.subAssign b = (if r.seconds < 0 then DELAY_ZERO else r) ∧
      a.sub b = (if toInt r.seconds < 0 then DELAY_ZERO else r) := by
  have hu := toLong_sub_useconds ha.isTime hb.isTime
  obtain ⟨ha1, ha2, ha3, ha4⟩ := ha
  obtain ⟨hb1, hb2, hb3, hb4⟩ := hb
  have hs : toLong (a.seconds - b.seconds) = a.seconds - b.seconds :=
    toLong_eq (by omega) (by omega)
  simp only [subAssign, sub, hs, hu]
  generalize hr : (if a.useconds - b.useconds < 0 then _ else _ : Timeval) = r
  obtain ⟨_, hr2, hr3, hr4⟩ :=
    borrow_spec (by omega) (by omega) (by omega) (by omega) hr.symm
  refine ⟨r, ?_, rfl, rfl⟩
  simp only [wholeSeconds, micros, MILLION] at *
  omega

/-- The two forms agree where the two questions have one answer. -/
theorem agree_iff (ha : a.IsInterval) (hb : b.IsInterval) :
    a.sub b = a.subAssign b ↔ (toInt (wholeSeconds a b) < 0 ↔ wholeSeconds a b < 0) := by
  obtain ⟨r, hr, hassign, hsub⟩ := borrowed ha hb
  rw [hassign, hsub, ← hr]
  by_cases hlong : r.seconds < 0
  · by_cases hint : toInt r.seconds < 0
    · rw [if_pos hlong, if_pos hint]
      exact ⟨fun _ => ⟨fun _ => hlong, fun _ => hint⟩, fun _ => rfl⟩
    · rw [if_pos hlong, if_neg hint]
      refine ⟨fun h => ?_, fun h => absurd (h.mpr hlong) hint⟩
      -- the seconds of zero are not negative
      rw [h] at hlong
      exact absurd hlong (by decide)
  · by_cases hint : toInt r.seconds < 0
    · rw [if_neg hlong, if_pos hint]
      refine ⟨fun h => ?_, fun h => absurd (h.mp hint) hlong⟩
      rw [← h] at hint
      exact absurd hint (by decide)
    · rw [if_neg hlong, if_neg hint]
      exact ⟨fun _ => ⟨fun h => absurd h hint, fun h => absurd h hlong⟩, fun _ => rfl⟩

theorem subAssign_zero_iff (ha : a.IsInterval) (hb : b.IsInterval) :
    a.subAssign b = DELAY_ZERO ↔ b.ge a = true := by
  obtain ⟨hinterval, hmicros⟩ := subAssign_spec ha hb
  rw [ge_iff hb.isTime ha.isTime]
  constructor
  · intro h
    rw [h, micros_zero] at hmicros
    omega
  · intro h
    refine hinterval.eq_of_micros isInterval_zero ?_
    rw [hmicros, micros_zero]
    omega

theorem addAssign_subAssign (ha : a.IsInterval) (hb : b.IsInterval) (h : a.ge b = true) :
    (a.subAssign b).addAssign b = a := by
  rw [ge_iff ha.isTime hb.isTime] at h
  obtain ⟨hinterval, hmicros⟩ := subAssign_of_le ha hb h
  have hsum : (a.subAssign b).micros + b.micros = a.micros := by omega
  have hfits : (a.subAssign b).micros + b.micros ≤ ETERNITY.micros := by
    rw [hsum]
    exact ha.micros_le
  obtain ⟨hinterval', hmicros'⟩ := addAssign_spec hinterval hb hfits
  exact hinterval'.eq_of_micros ha (hmicros'.trans hsum)

/-- **Time subtraction.** It is exact and saturating, in both forms, exactly where the whole seconds
of the difference keep their sign when they become an `int`. -/
theorem subtracts_iff (ha : a.IsInterval) (hb : b.IsInterval) :
    Subtracts a b ↔ (toInt (wholeSeconds a b) < 0 ↔ wholeSeconds a b < 0) := by
  rw [← agree_iff ha hb]
  constructor
  · intro h
    exact h.agree
  · intro h
    obtain ⟨hinterval, hmicros⟩ := subAssign_spec ha hb
    exact
      { sub_interval := h ▸ hinterval
        sub_micros := h ▸ hmicros
        subAssign_interval := hinterval
        subAssign_micros := hmicros
        agree := h
        zero_iff := h ▸ subAssign_zero_iff ha hb
        addAssign_sub := h ▸ addAssign_subAssign ha hb }

/-- Five seconds less three. -/
theorem subtracts_five_three : Subtracts ⟨5, 0⟩ ⟨3, 0⟩ ↔
    (toInt (wholeSeconds ⟨5, 0⟩ ⟨3, 0⟩) < 0 ↔ wholeSeconds ⟨5, 0⟩ ⟨3, 0⟩ < 0) :=
  subtracts_iff (isInterval_mk (by decide) (by decide) (by decide) (by decide))
    (isInterval_mk (by decide) (by decide) (by decide) (by decide))

/-- `2 ^ 31` seconds less zero are zero, and `ETERNITY` less zero is too. -/
theorem sub_loses_seconds :
    (⟨2 ^ 31, 0⟩ : Timeval).sub DELAY_ZERO = DELAY_ZERO ∧ ETERNITY.sub DELAY_ZERO = DELAY_ZERO ∧
      DELAY_ZERO.ge ⟨2 ^ 31, 0⟩ = false ∧ ¬ Subtracts ⟨2 ^ 31, 0⟩ DELAY_ZERO := by
  refine ⟨by decide, by decide, by decide, fun h => ?_⟩
  have hge : DELAY_ZERO.ge ⟨2 ^ 31, 0⟩ = true := h.zero_iff.mp (by decide)
  exact absurd hge (by decide)

end Timeval
end Scheduler
end Huicpp
