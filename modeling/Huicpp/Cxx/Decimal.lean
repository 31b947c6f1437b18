import Mathlib
import Huicpp.Cxx.Memory

/-!
# Cxx.Decimal

Decimal numbers as characters, and `std::stoi`.

* `decimal n`: the digits of `n`, and `number` reads them back.
* `stoi`: blanks and a sign may stand in front, anything may follow. A text without a digit there, and
  a number that is no `int`, are exceptions.
-/

namespace Cxx

/-- `0` to `9` -/
def isDigit (b : Byte) : Bool := 48 ≤ b.toNat && b.toNat ≤ 57

def digitByte (d : Nat) : Byte := BitVec.ofNat 8 (48 + d)

def digitValue (b : Byte) : Nat := b.toNat - 48

/-- The number that digits stand for, the most significant one first. -/
def number (ds : List Byte) : Nat := Nat.ofDigits 10 (ds.map digitValue).reverse

/-- The digits of a number, the most significant one first. -/
def decimal (n : Nat) : List Byte :=
  if n = 0 then [digitByte 0] else ((Nat.digits 10 n).map digitByte).reverse

/-- `%d` -/
def decimalInt (n : Int) : List Byte :=
  if n < 0 then charByte '-' :: decimal n.natAbs else decimal n.natAbs

/-- The characters that `isspace` accepts. -/
def isSpace (b : Byte) : Bool := b = charByte ' ' || (9 ≤ b.toNat && b.toNat ≤ 13)

/-- A sign, and what follows it. -/
def sign (s : List Byte) : Bool × List Byte :=
  match s with
  | [] => (false, [])
  | c :: t => if c = charByte '-' then (true, t) else if c = charByte '+' then (false, t) else (false, s)

/-- `std::stoi(s)` -/
def stoi (s : List Byte) : Outcome Int :=
  let (negative, t) := sign (s.dropWhile isSpace)
  let ds := t.takeWhile isDigit
  if ds = [] then .throws .invalidArgument
  else
    let n : Int := if negative then -number ds else number ds
    if -2 ^ 31 ≤ n ∧ n < 2 ^ 31 then .ok n else .throws .outOfRange

theorem digitByte_toNat {d : Nat} (hd : d < 10) : (digitByte d).toNat = 48 + d := by
  rw [digitByte, BitVec.toNat_ofNat]
  omega

theorem isDigit_digitByte {d : Nat} (hd : d < 10) : isDigit (digitByte d) = true := by
  rw [isDigit, digitByte_toNat hd]
  simp only [Bool.and_eq_true, decide_eq_true_eq]
  omega

theorem digitValue_digitByte {d : Nat} (hd : d < 10) : digitValue (digitByte d) = d := by
  rw [digitValue, digitByte_toNat hd]
  omega

theorem decimal_ne_nil (n : Nat) : decimal n ≠ [] := by
  rw [decimal]
  split
  · exact List.cons_ne_nil _ _
  · rename_i hn
    intro hnil
    exact Nat.digits_ne_nil_iff_ne_zero.mpr hn (List.map_eq_nil_iff.mp (List.reverse_eq_nil_iff.mp hnil))

theorem isDigit_decimal {n : Nat} : ∀ b ∈ decimal n, isDigit b = true := by
  intro b hb
  rw [decimal] at hb
  split at hb
  · rw [List.mem_singleton.mp hb]
    exact isDigit_digitByte (by decide)
  · obtain ⟨d, hd, rfl⟩ := List.mem_map.mp (List.mem_reverse.mp hb)
    exact isDigit_digitByte (Nat.digits_lt_base (by decide) hd)

theorem decimal_length_le {n k : Nat} (hk : 0 < k) (hn : n < 10 ^ k) : (decimal n).length ≤ k := by
  rw [decimal]
  split
  · exact hk
  · rw [List.length_reverse, List.length_map]
    exact (Nat.digits_length_le_iff (by decide) n).mpr hn

theorem number_decimal (n : Nat) : number (decimal n) = n := by
  rw [decimal]
  split
  · rename_i hn
    subst hn
    rfl
  · have hvalues : (Nat.digits 10 n).map (digitValue ∘ digitByte) = Nat.digits 10 n := by
      rw [List.map_congr_left (g := id) ?_, List.map_id]
      intro d hd
      exact digitValue_digitByte (Nat.digits_lt_base (by decide) hd)
    rw [number, List.map_reverse, List.reverse_reverse, List.map_map, hvalues, Nat.ofDigits_digits]

theorem not_isSpace_of_isDigit {c : Byte} (hc : isDigit c = true) : isSpace c = false := by
  rw [isDigit, Bool.and_eq_true, decide_eq_true_eq, decide_eq_true_eq] at hc
  rw [isSpace, Bool.or_eq_false_iff, Bool.and_eq_false_iff, decide_eq_false_iff_not,
    decide_eq_false_iff_not, decide_eq_false_iff_not]
  refine ⟨?_, .inr (by omega)⟩
  rintro rfl
  exact absurd hc.1 (by decide)

theorem sign_of_isDigit {s : List Byte} (h : ∀ c ∈ s.head?, isDigit c = true) :
    sign (s.dropWhile isSpace) = (false, s) := by
  cases s with
  | nil => rfl
  | cons c t =>
    have hc : isDigit c = true := h c rfl
    have hspace : isSpace c = false := not_isSpace_of_isDigit hc
    rw [List.dropWhile_cons_of_neg (by simp [hspace]), sign, if_neg, if_neg]
    · rintro rfl
      cases hc
    · rintro rfl
      cases hc

theorem stoi_nil : stoi [] = .throws .invalidArgument := rfl

theorem stoi_digits {ds : List Byte} (hne : ds ≠ []) (hds : ∀ b ∈ ds, isDigit b = true) :
    stoi ds = if number ds < 2 ^ 31 then .ok (number ds : Int) else .throws .outOfRange := by
  have hhead : ∀ c ∈ ds.head?, isDigit c = true := by
    intro c hc
    exact hds c (List.mem_of_mem_head? hc)
  rw [stoi, sign_of_isDigit hhead]
  simp only [List.takeWhile_eq_self_iff.mpr hds, if_neg hne, Bool.false_eq_true, if_false]
  by_cases hlt : number ds < 2 ^ 31
  · rw [if_pos hlt, if_pos (by omega)]
  · rw [if_neg hlt, if_neg (by omega)]

end Cxx
