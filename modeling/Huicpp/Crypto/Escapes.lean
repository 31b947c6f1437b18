import Mathlib
import Huicpp.Crypto.UrlRoundTrip

/-!
# Crypto.Escapes

Strings whose escapes have two hex digits, what they stand for, and the two functions that scan
them. `Decode` skips over an escape, `IsUrlEncode` looks at every `%`, with a class of characters of
its own.

* `wellEscaped_iff`: both ways to scan find the same strings.
* `WellEscaped.decodes`: `Decode` is right on these strings.
* `exactGuard_iff`: where it accepts those that `Decode` can take.
-/

namespace Huicpp
namespace Crypto

open Cxx

/-- The value of a hex digit. -/
def hexValue (x : Byte) : Option Nat :=
  if charByte '0' ≤ x ∧ x ≤ charByte '9' then some (x.toNat - 48)
  else if charByte 'A' ≤ x ∧ x ≤ charByte 'F' then some (x.toNat - 55)
  else if charByte 'a' ≤ x ∧ x ≤ charByte 'f' then some (x.toNat - 87)
  else none

def isHexDigit (x : Byte) : Bool := (hexValue x).isSome

/-- Every escape, of three characters, has two hex digits. -/
inductive WellEscaped : List Byte → Prop where
  | nil : WellEscaped []
  | char {c : Byte} {s : List Byte} : c ≠ charByte '%' → WellEscaped s → WellEscaped (c :: s)
  | escape {x y : Byte} {s : List Byte} : isHexDigit x = true → isHexDigit y = true →
      WellEscaped s → WellEscaped (charByte '%' :: x :: y :: s)

/-- What a string stands for: a `+` for a blank, an escape for the byte whose two nibbles are the
values of its digits, and any other character for itself. -/
inductive Unescapes : List Byte → List Byte → Prop where
  | nil : Unescapes [] []
  | plus {s d : List Byte} : Unescapes s d → Unescapes (charByte '+' :: s) (charByte ' ' :: d)
  | char {c : Byte} {s d : List Byte} : Plain c → Unescapes s d → Unescapes (c :: s) (c :: d)
  | escape {x y b : Byte} {s d : List Byte} : hexValue x = some (b.toNat / 16) →
      hexValue y = some (b.toNat % 16) → Unescapes s d →
      Unescapes (charByte '%' :: x :: y :: s) (b :: d)

/-- `IsUrlEncode` reads no character from the end on, accepts the well-escaped strings and no
others, and `Decode` gives what they stand for. -/
def ExactGuard (s : List Byte) : Prop :=
  ∃ b, isUrlEncodeOf (inside s) s.length = .ok b ∧ (b = true ↔ WellEscaped s) ∧
    (b = true → ∃ d, decodeLoop false (inside s) s.length 0 = .ok d ∧ Unescapes s d)

/-- A character after a `%`. -/
def InEscape (s : List Byte) (c : Byte) : Prop :=
  ∃ i, s[i]? = some (charByte '%') ∧ (s[i + 1]? = some c ∨ s[i + 2]? = some c)

/-- At least two characters. A small hex digit in an escape, or a letter from `G` on, only stands in
a string that is refused anyway. -/
structure GuardedExactly (s : List Byte) : Prop where
  two : 2 ≤ s.length
  noSmall : EscapesIn isHexDigit s → ∀ c, InEscape s c → ¬ (charByte 'a' ≤ c ∧ c ≤ charByte 'f')
  noBeyond : EscapesIn goodChar s → ∀ c, InEscape s c → ¬ (charByte 'G' ≤ c ∧ c ≤ charByte 'Z')

/-! ## Two ways to scan -/

theorem wellEscaped_iff (s : List Byte) : WellEscaped s ↔ EscapesIn isHexDigit s := by
  constructor
  · intro h
    induction h with
    | nil =>
      intro i hi
      cases hi
    | char hc _ ih => exact ih.char hc
    | escape hx hy _ ih => exact ih.triple (by decide) hx hy
  · intro h
    induction hn : s.length using Nat.strong_induction_on generalizing s with
    | _ n ih =>
      subst hn
      cases s with
      | nil => exact .nil
      | cons c s =>
        by_cases hc : c = charByte '%'
        · subst hc
          obtain ⟨x, y, hx, hy, hhx, hhy⟩ := h 0 rfl
          match s, hx, hy, h, ih with
          | x :: y :: s, rfl, rfl, h, ih =>
            exact .escape hhx hhy (ih s.length (by simp only [List.length_cons]; omega) s
              h.tail.tail.tail rfl)
        · exact .char hc (ih s.length (Nat.lt_succ_self _) s h.tail rfl)

/-! ## Decode -/

theorem between_iff (a b : Char) (x : Byte) : charByte a ≤ x ∧ x ≤ charByte b ↔
    (charByte a).toNat ≤ x.toNat ∧ x.toNat ≤ (charByte b).toNat := by
  rw [BitVec.le_def, BitVec.le_def]

theorem hexValue_lt {x : Byte} {v : Nat} (h : hexValue x = some v) : v < 16 := by
  have h9 : (charByte '9').toNat = 57 := rfl
  have hF : (charByte 'F').toNat = 70 := rfl
  have hf : (charByte 'f').toNat = 102 := rfl
  simp only [hexValue, between_iff, h9, hF, hf] at h
  split at h
  · cases h
    omega
  · split at h
    · cases h
      omega
    · split at h
      · cases h
        omega
      · cases h

theorem fromHex_hexValue (ndebug : Bool) {x : Byte} {v : Nat} (h : hexValue x = some v) :
    fromHex ndebug x = .ok (BitVec.ofNat 8 v) := by
  have hx := x.isLt
  have h0 : (charByte '0').toNat = 48 := rfl
  have h9 : (charByte '9').toNat = 57 := rfl
  have hA : (charByte 'A').toNat = 65 := rfl
  have hF : (charByte 'F').toNat = 70 := rfl
  have hZ : (charByte 'Z').toNat = 90 := rfl
  have ha : (charByte 'a').toNat = 97 := rfl
  have hf : (charByte 'f').toNat = 102 := rfl
  have hz : (charByte 'z').toNat = 122 := rfl
  have hten : (10 : Byte).toNat = 10 := rfl
  simp only [hexValue, between_iff, h0, h9, hA, hF, ha, hf] at h
  simp only [fromHex, between_iff, h0, h9, hA, hZ, ha, hz]
  split at h
  · next hdigit =>
    cases h
    rw [if_neg (by omega), if_neg (by omega), if_pos hdigit]
    refine congrArg Outcome.ok (BitVec.eq_of_toNat_eq ?_)
    rw [BitVec.toNat_sub, BitVec.toNat_ofNat, h0]
    omega
  · split at h
    · next hupper =>
      cases h
      rw [if_pos (by omega)]
      refine congrArg Outcome.ok (BitVec.eq_of_toNat_eq ?_)
      rw [BitVec.toNat_add, BitVec.toNat_sub, BitVec.toNat_ofNat, hA, hten]
      omega
    · split at h
      · next hlower =>
        cases h
        rw [if_neg (by omega), if_pos (by omega)]
        refine congrArg Outcome.ok (BitVec.eq_of_toNat_eq ?_)
        rw [BitVec.toNat_add, BitVec.toNat_sub, BitVec.toNat_ofNat, ha, hten]
        omega
      · cases h

theorem nibbles_toNat {v w : Nat} (hv : v < 16) (hw : w < 16) :
    (BitVec.ofNat 8 v * 16 + BitVec.ofNat 8 w).toNat = 16 * v + w := by
  have h16 : (16 : Byte).toNat = 16 := rfl
  rw [BitVec.toNat_add, BitVec.toNat_mul, BitVec.toNat_ofNat, BitVec.toNat_ofNat, h16]
  omega

theorem decodeChars_digits (ndebug : Bool) {x y : Byte} {v w : Nat} (hx : hexValue x = some v)
    (hy : hexValue y = some w) (s : List Byte) :
    decodeChars ndebug (charByte '%' :: x :: y :: s) = (do
      let dst ← decodeChars ndebug s
      return (BitVec.ofNat 8 v * 16 + BitVec.ofNat 8 w) :: dst) := by
  have hne : charByte '%' ≠ charByte '+' := by decide
  rw [decodeChars.eq_def]
  simp only [hne, if_false, if_true, fromHex_hexValue ndebug hx, fromHex_hexValue ndebug hy,
    Outcome.ok_bind]

theorem WellEscaped.decodeChars {s : List Byte} (h : WellEscaped s) (ndebug : Bool) :
    ∃ d, Crypto.decodeChars ndebug s = .ok d ∧ Unescapes s d := by
  induction h with
  | nil => exact ⟨[], rfl, .nil⟩
  | @char c s hc _ ih =>
    obtain ⟨d, hd, hs⟩ := ih
    by_cases hplus : c = charByte '+'
    · subst hplus
      refine ⟨charByte ' ' :: d, ?_, .plus hs⟩
      rw [decodeChars_plus, hd]
      rfl
    · refine ⟨c :: d, ?_, .char ⟨hplus, hc⟩ hs⟩
      rw [decodeChars_plain ⟨hplus, hc⟩, hd]
      rfl
  | @escape x y s hx hy _ ih =>
    obtain ⟨d, hd, hs⟩ := ih
    obtain ⟨v, hv⟩ := Option.isSome_iff_exists.mp hx
    obtain ⟨w, hw⟩ := Option.isSome_iff_exists.mp hy
    have hw16 := hexValue_lt hw
    have hval := nibbles_toNat (hexValue_lt hv) hw16
    refine ⟨(BitVec.ofNat 8 v * 16 + BitVec.ofNat 8 w) :: d, ?_, .escape ?_ ?_ hs⟩
    · rw [decodeChars_digits ndebug hv hw, hd]
      rfl
    · rw [hval, hv]
      exact congrArg some (by omega)
    · rw [hval, hw]
      exact congrArg some (by omega)

/-- With and without asserts, and never reading past the last character. -/
theorem WellEscaped.decodes {s : List Byte} (h : WellEscaped s) (ndebug : Bool) :
    ∃ d, decodeLoop ndebug (inside s) s.length 0 = .ok d ∧ Unescapes s d := by
  obtain ⟨d, hd, hs⟩ := h.decodeChars false
  have hloop : decodeLoop false (inside s) s.length 0 = .ok d := by
    rw [decodeLoop_inside, decodeLoop_eq, List.drop_zero, hd]
  refine ⟨d, ?_, hs⟩
  cases ndebug with
  | false => exact hloop
  | true => exact decodeLoop_ndebug hloop

/-! ## IsUrlEncode -/

/-- The index of the last character but one is negative, and becomes a huge one. -/
theorem isUrlEncodeOf_short {s : List Byte} (hshort : s.length < 2) :
    isUrlEncodeOf (inside s) s.length = .undef .outOfBounds := by
  have htwo : (2 : Int32).toInt = 2 := rfl
  have hneg : (Int32.ofNat s.length - 2).toInt < 0 := by
    rw [Int32.toInt_sub, Int32.toInt_ofNat_of_lt (by omega), htwo,
      Int.bmod_eq_of_le (by omega) (by omega)]
    omega
  have hhuge := toSizeT_of_neg hneg
  have hread : inside s (toSizeT (Int32.ofNat s.length - 2)) = .undef .outOfBounds := by
    rw [inside, if_neg (by omega)]
  simp only [isUrlEncodeOf, hread, Outcome.undef_bind]

/-! ## The class of the check and the hex digits -/

section Classes

variable {p q : Byte → Bool} {s : List Byte} {c : Byte}

theorem isHexDigit_toNat (c : Byte) : isHexDigit c = true ↔
    (48 ≤ c.toNat ∧ c.toNat ≤ 57) ∨ (65 ≤ c.toNat ∧ c.toNat ≤ 70) ∨
      (97 ≤ c.toNat ∧ c.toNat ≤ 102) := by
  have h0 : (charByte '0').toNat = 48 := rfl
  have h9 : (charByte '9').toNat = 57 := rfl
  have hA : (charByte 'A').toNat = 65 := rfl
  have hF : (charByte 'F').toNat = 70 := rfl
  have ha : (charByte 'a').toNat = 97 := rfl
  have hf : (charByte 'f').toNat = 102 := rfl
  simp only [isHexDigit, hexValue, between_iff, h0, h9, hA, hF, ha, hf]
  split
  · next hdigit => exact iff_of_true rfl (.inl hdigit)
  · split
    · next hupper => exact iff_of_true rfl (.inr (.inl hupper))
    · split
      · next hlower => exact iff_of_true rfl (.inr (.inr hlower))
      · refine iff_of_false Bool.false_ne_true ?_
        omega

theorem goodChar_toNat (c : Byte) : goodChar c = true ↔
    (65 ≤ c.toNat ∧ c.toNat ≤ 90) ∨ (48 ≤ c.toNat ∧ c.toNat ≤ 57) := by
  have h0 : (charByte '0').toNat = 48 := rfl
  have h9 : (charByte '9').toNat = 57 := rfl
  have hA : (charByte 'A').toNat = 65 := rfl
  have hZ : (charByte 'Z').toNat = 90 := rfl
  simp only [goodChar, Bool.or_eq_true, Bool.and_eq_true, decide_eq_true_eq, BitVec.le_def, h0, h9,
    hA, hZ]

theorem goodChar_of_isHexDigit (hhex : isHexDigit c = true) :
    goodChar c = true ↔ ¬ (charByte 'a' ≤ c ∧ c ≤ charByte 'f') := by
  have ha : (charByte 'a').toNat = 97 := rfl
  have hf : (charByte 'f').toNat = 102 := rfl
  rw [isHexDigit_toNat] at hhex
  rw [goodChar_toNat, between_iff, ha, hf]
  omega

/-- What the check lets pass and is no hex digit is a letter from `G` on. -/
theorem isHexDigit_of_goodChar (hgood : goodChar c = true) :
    isHexDigit c = true ↔ ¬ (charByte 'G' ≤ c ∧ c ≤ charByte 'Z') := by
  have hG : (charByte 'G').toNat = 71 := rfl
  have hZ : (charByte 'Z').toNat = 90 := rfl
  rw [goodChar_toNat] at hgood
  rw [isHexDigit_toNat, between_iff, hG, hZ]
  omega

theorem EscapesIn.mem (h : EscapesIn p s) (hc : InEscape s c) : p c = true := by
  obtain ⟨i, hi, hc⟩ := hc
  obtain ⟨x, y, hx, hy, hpx, hpy⟩ := h i hi
  rcases hc with hc | hc
  · rw [hx] at hc
    cases hc
    exact hpx
  · rw [hy] at hc
    cases hc
    exact hpy

theorem EscapesIn.of_class (h : EscapesIn p s)
    (hpq : ∀ c, InEscape s c → p c = true → q c = true) : EscapesIn q s := by
  intro i hi
  obtain ⟨x, y, hx, hy, hpx, hpy⟩ := h i hi
  exact ⟨x, y, hx, hy, hpq x ⟨i, hi, .inl hx⟩ hpx, hpq y ⟨i, hi, .inr hy⟩ hpy⟩

end Classes

/-- **The check as a guard.** For strings below 2^31 bytes, `IsUrlEncode` reads below the end,
accepts exactly the strings that `Decode` can take, and `Decode` is right on them, if and only if
the string has two characters and no escape of it tells the two classes apart. -/
theorem exactGuard_iff (s : List Byte) (hlen : s.length < 2 ^ 31) :
    ExactGuard s ↔ GuardedExactly s := by
  constructor
  · rintro ⟨b, hb, hwell, -⟩
    have htwo : 2 ≤ s.length := by
      by_contra hshort
      rw [isUrlEncodeOf_short (not_le.mp hshort)] at hb
      cases hb
    obtain ⟨b', hb', hgood⟩ := isUrlEncodeOf_eq (inside_reads s) htwo hlen
    obtain rfl : b = b' := Outcome.ok.inj (hb.symm.trans hb')
    rw [wellEscaped_iff] at hwell
    refine ⟨htwo, fun hhex c hc => ?_, fun hescapes c hc => ?_⟩
    · exact (goodChar_of_isHexDigit (hhex.mem hc)).mp ((hgood.mp (hwell.mpr hhex)).mem hc)
    · exact (isHexDigit_of_goodChar (hescapes.mem hc)).mp
        ((hwell.mp (hgood.mpr hescapes)).mem hc)
  · rintro ⟨htwo, hsmall, hbeyond⟩
    obtain ⟨b, hb, hgood⟩ := isUrlEncodeOf_eq (inside_reads s) htwo hlen
    have hsame : EscapesIn goodChar s ↔ EscapesIn isHexDigit s := by
      constructor
      · intro h
        exact h.of_class fun c hc hgc => (isHexDigit_of_goodChar hgc).mpr (hbeyond h c hc)
      · intro h
        exact h.of_class fun c hc hhc => (goodChar_of_isHexDigit hhc).mpr (hsmall h c hc)
    have hwell : b = true ↔ WellEscaped s := by
      rw [hgood, hsame, wellEscaped_iff]
    exact ⟨b, hb, hwell, fun htrue => (hwell.mp htrue).decodes false⟩

/-- An escape with the digits `2` and `F`. -/
theorem exactGuard_iff_slash : ExactGuard [charByte '%', charByte '2', charByte 'F'] := by
  have hmem : ∀ c, InEscape [charByte '%', charByte '2', charByte 'F'] c →
      c = charByte '2' ∨ c = charByte 'F' := by
    rintro c ⟨i, hi, hc⟩
    match i with
    | 0 => exact hc.imp (fun hc => (Option.some.inj hc).symm) fun hc => (Option.some.inj hc).symm
    | 1 => exact absurd (Option.some.inj hi) (by decide)
    | 2 => exact absurd (Option.some.inj hi) (by decide)
    | i + 3 => cases hi
  refine (exactGuard_iff _ (by decide)).mpr ⟨by decide, fun _ c hc => ?_, fun _ c hc => ?_⟩
  · rcases hmem c hc with rfl | rfl
    · decide
    · decide
  · rcases hmem c hc with rfl | rfl
    · decide
    · decide

/-- An escape with a small letter is refused. -/
theorem exactGuard_not : ¬ ∀ s : List Byte, s.length < 2 ^ 31 → ExactGuard s := by
  intro hall
  obtain ⟨b, hb, hwell, -⟩ := hall [charByte '%', charByte '2', charByte 'f'] (by decide)
  obtain ⟨b', hb', hgood⟩ := isUrlEncodeOf_eq (inside_reads [charByte '%', charByte '2', charByte 'f'])
    (by decide) (by decide)
  obtain rfl : b = b' := Outcome.ok.inj (hb.symm.trans hb')
  have htrue : b = true := hwell.mpr (.escape (by decide) (by decide) .nil)
  have hsmall : goodChar (charByte 'f') = true := (hgood.mp htrue).mem ⟨0, rfl, .inr rfl⟩
  exact absurd hsmall (by decide)

end Crypto
end Huicpp
