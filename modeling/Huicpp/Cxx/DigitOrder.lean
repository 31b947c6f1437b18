import Mathlib
import Huicpp.Cxx.Decimal

/-!
# Cxx.DigitOrder

Texts of as many digits are in the order of the numbers they stand for.
-/

namespace Cxx

/-- A text of digits. -/
def IsNumeral (ds : List Byte) : Prop := ∀ b ∈ ds, isDigit b = true

variable {a b : Byte} {ds es : List Byte}

theorem isDigit_iff (b : Byte) : isDigit b = true ↔ 48 ≤ b.toNat ∧ b.toNat ≤ 57 := by
  simp [isDigit]

theorem IsNumeral.append (hd : IsNumeral ds) (he : IsNumeral es) : IsNumeral (ds ++ es) := by
  intro b hb
  rcases List.mem_append.mp hb with hb | hb
  · exact hd b hb
  · exact he b hb

theorem number_cons (b : Byte) (ds : List Byte) :
    number (b :: ds) = digitValue b * 10 ^ ds.length + number ds := by
  rw [number, List.map_cons, List.reverse_cons, Nat.ofDigits_append, Nat.ofDigits_singleton,
    List.length_reverse, List.length_map, number]
  ring

theorem number_append (ds es : List Byte) :
    number (ds ++ es) = number ds * 10 ^ es.length + number es := by
  induction ds with
  | nil => simp [number]
  | cons b ds ih =>
    rw [List.cons_append, number_cons, number_cons, ih, List.length_append, pow_add]
    ring

theorem number_lt (h : IsNumeral ds) : number ds < 10 ^ ds.length := by
  induction ds with
  | nil => decide
  | cons b ds ih =>
    have hb := (isDigit_iff b).mp (h b List.mem_cons_self)
    have hds := ih fun c hc => h c (List.mem_cons_of_mem b hc)
    have hvalue : digitValue b ≤ 9 := by
      unfold digitValue
      omega
    calc number (b :: ds) = digitValue b * 10 ^ ds.length + number ds := number_cons b ds
      _ < digitValue b * 10 ^ ds.length + 10 ^ ds.length := Nat.add_lt_add_left hds _
      _ = (digitValue b + 1) * 10 ^ ds.length := by ring
      _ ≤ 10 * 10 ^ ds.length := Nat.mul_le_mul_right _ (by omega)
      _ = 10 ^ (b :: ds).length := by rw [List.length_cons, pow_succ, Nat.mul_comm]

theorem digitValue_lt_iff (ha : isDigit a = true) (hb : isDigit b = true) :
    a < b ↔ digitValue a < digitValue b := by
  have ha := (isDigit_iff a).mp ha
  have hb := (isDigit_iff b).mp hb
  rw [BitVec.lt_def]
  unfold digitValue
  omega

theorem digitValue_inj (ha : isDigit a = true) (hb : isDigit b = true)
    (h : digitValue a = digitValue b) : a = b := by
  have ha := (isDigit_iff a).mp ha
  have hb := (isDigit_iff b).mp hb
  refine BitVec.eq_of_toNat_eq ?_
  unfold digitValue at h
  omega

theorem lead_lt_iff {x y r s k : Nat} (hr : r < k) (hs : s < k) :
    x * k + r < y * k + s ↔ x < y ∨ x = y ∧ r < s := by
  constructor
  · intro h
    rcases Nat.lt_trichotomy x y with hlt | rfl | hgt
    · exact .inl hlt
    · exact .inr ⟨rfl, Nat.lt_of_add_lt_add_left h⟩
    · have hstep := Nat.mul_le_mul_right k (Nat.succ_le_of_lt hgt)
      rw [Nat.succ_mul] at hstep
      omega
  · rintro (hlt | ⟨rfl, hlt⟩)
    · have hstep := Nat.mul_le_mul_right k (Nat.succ_le_of_lt hlt)
      rw [Nat.succ_mul] at hstep
      omega
    · exact Nat.add_lt_add_left hlt _

theorem lead_inj {x y r s k : Nat} (hr : r < k) (hs : s < k) (h : x * k + r = y * k + s) :
    x = y ∧ r = s := by
  have hlt : ¬ (x < y ∨ x = y ∧ r < s) := mt (lead_lt_iff hr hs).mpr (by omega)
  have hgt : ¬ (y < x ∨ y = x ∧ s < r) := mt (lead_lt_iff hs hr).mpr (by omega)
  omega

theorem numeral_lt_iff (hd : IsNumeral ds) (he : IsNumeral es) (hlen : ds.length = es.length) :
    ds < es ↔ number ds < number es := by
  induction ds generalizing es with
  | nil =>
    obtain rfl : es = [] := List.length_eq_zero_iff.mp hlen.symm
    simp
  | cons a ds ih =>
    obtain ⟨b, es, rfl⟩ := List.exists_cons_of_length_eq_add_one hlen.symm
    have hlen : ds.length = es.length := Nat.succ.inj hlen
    have ha := hd a List.mem_cons_self
    have hb := he b List.mem_cons_self
    have hds : IsNumeral ds := fun c hc => hd c (List.mem_cons_of_mem a hc)
    have hes : IsNumeral es := fun c hc => he c (List.mem_cons_of_mem b hc)
    have hdlt := number_lt hds
    rw [hlen] at hdlt
    rw [List.cons_lt_cons_iff, digitValue_lt_iff ha hb, ih hds hes hlen, number_cons, number_cons, hlen,
      lead_lt_iff hdlt (number_lt hes)]
    exact or_congr_right (and_congr_left' ⟨congrArg digitValue, digitValue_inj ha hb⟩)

theorem numeral_inj (hd : IsNumeral ds) (he : IsNumeral es) (hlen : ds.length = es.length)
    (h : number ds = number es) : ds = es := by
  induction ds generalizing es with
  | nil => exact (List.length_eq_zero_iff.mp hlen.symm).symm
  | cons a ds ih =>
    obtain ⟨b, es, rfl⟩ := List.exists_cons_of_length_eq_add_one hlen.symm
    have hlen : ds.length = es.length := Nat.succ.inj hlen
    have hds : IsNumeral ds := fun c hc => hd c (List.mem_cons_of_mem a hc)
    have hes : IsNumeral es := fun c hc => he c (List.mem_cons_of_mem b hc)
    have hdlt := number_lt hds
    rw [hlen] at hdlt
    rw [number_cons, number_cons, hlen] at h
    obtain ⟨hvalue, hrest⟩ := lead_inj hdlt (number_lt hes) h
    rw [digitValue_inj (hd a List.mem_cons_self) (he b List.mem_cons_self) hvalue, ih hds hes hlen hrest]

end Cxx
