import Mathlib
import Huicpp.Crypto.EscapeScan

/-!
# Crypto.UrlRoundTrip

`Decode` and `IsUrlEncode` as loops over an index, with every read of a character: a string is a
function from its indices, `charAt` the one of the code and `inside` one that is undefined from the
end on. Both agree on what `Encode` gives, of which `Encoded` is the grammar.
-/

namespace Huicpp
namespace Crypto

open Cxx

/-- `str[i]`: from the end on only the terminating zero may be read. -/
def charAt (str : List Byte) (i : Nat) : Outcome Byte :=
  if i < str.length then .ok (str.getD i 0)
  else if i = str.length then .ok 0
  else .undef .outOfBounds

/-- `str[i]`, not reading the terminating zero either. -/
def inside (str : List Byte) (i : Nat) : Outcome Byte :=
  if i < str.length then .ok (str.getD i 0) else .undef .outOfBounds

section Decode

variable (ndebug : Bool) (str : Nat → Outcome Byte) (length : Nat)

/-- The loop of `Decode` from index `i` on. -/
def decodeLoop (i : Nat) : Outcome (List Byte) :=
  if i < length then do
    let c ← str i
    if c = charByte '+' then do
      let dst ← decodeLoop (i + 1)
      return charByte ' ' :: dst
    else if c = charByte '%' then do
      assertion ndebug (i + 2 < length)
      let x ← str (i + 1)
      let high ← fromHex ndebug x
      let y ← str (i + 2)
      let low ← fromHex ndebug y
      let dst ← decodeLoop (i + 3)
      return (high * 16 + low) :: dst
    else do
      let c ← str i
      let dst ← decodeLoop (i + 1)
      return c :: dst
  else return []
termination_by length - i

end Decode

def urlDecodeAt (ndebug : Bool) (str : List Byte) : Outcome (HRet × List Byte) := do
  let dst ← decodeLoop ndebug (charAt str) str.length 0
  return (.ok, dst)

/-- The loop of `IsUrlEncode` from index `i` on. -/
def isUrlEncodeLoop (str : List Byte) (i : Nat) : Outcome Bool :=
  if i < str.length then do
    let c ← charAt str i
    if c = charByte '%' then do
      let x ← charAt str (i + 1)
      if !goodChar x then return false
      else do
        let y ← charAt str (i + 2)
        if !goodChar y then return false else isUrlEncodeLoop str (i + 1)
    else isUrlEncodeLoop str (i + 1)
  else return true
termination_by str.length - i

/-- An index that is an `int` becomes a `size_t`. -/
def isUrlEncode (str : List Byte) : Outcome Bool := do
  let len := Int32.ofNat str.length
  let c ← charAt str (toSizeT (len - 2))
  if c = charByte '%' then return false
  else do
    let c ← charAt str (toSizeT (len - 1))
    if c = charByte '%' then return false else isUrlEncodeLoop str 0

/-! ## The loop over an index and the one over a list -/

theorem charAt_drop {str rest : List Byte} {c : Byte} {i : Nat} (h : str.drop i = c :: rest) :
    charAt str i = .ok c ∧ i < str.length := by
  have hi : i < str.length := by
    have hlen := congrArg List.length h
    rw [List.length_drop, List.length_cons] at hlen
    omega
  refine ⟨?_, hi⟩
  rw [List.drop_eq_getElem_cons hi] at h
  rw [charAt, if_pos hi, List.getD_eq_getElem _ _ hi, (List.cons.inj h).1]

theorem charAt_length (str : List Byte) : charAt str str.length = .ok 0 := by
  rw [charAt, if_neg (lt_irrefl _), if_pos rfl]

theorem fromHex_zero (ndebug : Bool) {α : Type} (f : Byte → Outcome α) :
    (fromHex ndebug 0 >>= f) = (do
      assertion ndebug false
      .undef .uninitialised) := by
  cases ndebug with
  | false => rfl
  | true => rfl

theorem assertion_true (ndebug : Bool) : assertion ndebug true = .ok () := by
  rw [assertion, Bool.or_true, if_pos rfl]

theorem decodeLoop_eq (ndebug : Bool) (str : List Byte) (i : Nat) :
    decodeLoop ndebug (charAt str) str.length i = decodeChars ndebug (str.drop i) := by
  induction hn : str.length - i using Nat.strong_induction_on generalizing i with
  | _ n ih =>
    subst hn
    rw [decodeLoop]
    by_cases hi : i < str.length
    · have hdrop := List.drop_eq_getElem_cons hi
      generalize str[i] = c at hdrop
      obtain ⟨hc, -⟩ := charAt_drop hdrop
      have hnext := ih (str.length - (i + 1)) (by omega) (i + 1) rfl
      rw [if_pos hi, hc, Outcome.ok_bind, hdrop, decodeChars.eq_def]
      by_cases hplus : c = charByte '+'
      · simp only [if_pos hplus, hnext]
      · by_cases hpercent : c = charByte '%'
        · simp only [if_neg hplus, if_pos hpercent]
          generalize hrest : str.drop (i + 1) = rest
          have hlen := congrArg List.length hrest
          rw [List.length_drop] at hlen
          match rest with
          | [] =>
            have h1 : i + 1 = str.length := by
              rw [List.length_nil] at hlen
              omega
            rw [h1, charAt_length]
            simp only [show ¬ i + 2 < str.length by omega, decide_false, Outcome.ok_bind,
              fromHex_zero]
          | x :: [] =>
            have h2 : i + 2 = str.length := by
              rw [List.length_cons, List.length_nil] at hlen
              omega
            rw [h2, (charAt_drop hrest).1, charAt_length]
            simp only [lt_irrefl, decide_false, Outcome.ok_bind, fromHex_zero]
          | x :: y :: cs =>
            have h2 : i + 2 < str.length := by
              rw [List.length_cons, List.length_cons] at hlen
              omega
            have hdrop2 : str.drop (i + 2) = y :: cs := by
              have htail := congrArg (List.drop 1) hrest
              rwa [List.drop_drop] at htail
            have hdrop3 : str.drop (i + 3) = cs := by
              have htail := congrArg (List.drop 1) hdrop2
              rwa [List.drop_drop] at htail
            have hafter := ih (str.length - (i + 3)) (by omega) (i + 3) rfl
            rw [hdrop3] at hafter
            rw [(charAt_drop hrest).1, (charAt_drop hdrop2).1]
            simp only [h2, decide_true, assertion_true, Outcome.ok_bind, hafter]
        · simp only [if_neg hplus, if_neg hpercent, Outcome.ok_bind, hnext]
    · rw [if_neg hi, List.drop_eq_nil_of_le (by omega)]
      rfl

/-- The asserts keep every read before the end. -/
theorem decodeLoop_inside (str : List Byte) (i : Nat) :
    decodeLoop false (inside str) str.length i = decodeLoop false (charAt str) str.length i := by
  induction hn : str.length - i using Nat.strong_induction_on generalizing i with
  | _ n ih =>
    subst hn
    have hread : ∀ {j}, j < str.length → inside str j = charAt str j := by
      intro j hj
      rw [inside, charAt, if_pos hj, if_pos hj]
    rw [decodeLoop.eq_def false (inside str), decodeLoop.eq_def false (charAt str)]
    by_cases hi : i < str.length
    · rw [if_pos hi, if_pos hi, hread hi, ih _ (by omega) (i + 1) rfl]
      by_cases h2 : i + 2 < str.length
      · rw [hread h2, hread (show i + 1 < str.length by omega), ih _ (by omega) (i + 3) rfl]
      · simp only [h2, decide_false, assertion, Bool.false_or, Bool.false_eq_true, if_false,
          Outcome.undef_bind]
    · rw [if_neg hi, if_neg hi]

theorem fromHex_ndebug {x v : Byte} (h : fromHex false x = .ok v) : fromHex true x = .ok v := by
  simp only [fromHex] at h ⊢
  split at h
  · rename_i hx
    rw [if_pos hx]
    exact h
  · split at h
    · rename_i hx hx'
      rw [if_neg hx, if_pos hx']
      exact h
    · split at h
      · rename_i hx hx' hx''
        rw [if_neg hx, if_neg hx', if_pos hx'']
        exact h
      · cases h

/-- What is decoded with the asserts is decoded without them. -/
theorem decodeLoop_ndebug {str : Nat → Outcome Byte} {length i : Nat} {dst : List Byte}
    (h : decodeLoop false str length i = .ok dst) : decodeLoop true str length i = .ok dst := by
  induction hn : length - i using Nat.strong_induction_on generalizing i dst with
  | _ n ih =>
    subst hn
    rw [decodeLoop] at h ⊢
    by_cases hi : i < length
    · rw [if_pos hi] at h ⊢
      obtain ⟨c, hc, h⟩ := Outcome.bind_eq_ok.mp h
      rw [hc, Outcome.ok_bind]
      by_cases hplus : c = charByte '+'
      · rw [if_pos hplus] at h ⊢
        obtain ⟨rest, hrest, h⟩ := Outcome.bind_eq_ok.mp h
        rw [ih _ (by omega) hrest rfl]
        exact h
      · by_cases hpercent : c = charByte '%'
        · rw [if_neg hplus, if_pos hpercent] at h ⊢
          obtain ⟨u, hassert, h⟩ := Outcome.bind_eq_ok.mp h
          obtain ⟨x, hx, h⟩ := Outcome.bind_eq_ok.mp h
          obtain ⟨high, hhigh, h⟩ := Outcome.bind_eq_ok.mp h
          obtain ⟨y, hy, h⟩ := Outcome.bind_eq_ok.mp h
          obtain ⟨low, hlow, h⟩ := Outcome.bind_eq_ok.mp h
          obtain ⟨rest, hrest, h⟩ := Outcome.bind_eq_ok.mp h
          rw [show assertion true (i + 2 < length) = .ok () from rfl, Outcome.ok_bind, hx,
            Outcome.ok_bind, fromHex_ndebug hhigh, Outcome.ok_bind, hy, Outcome.ok_bind,
            fromHex_ndebug hlow, Outcome.ok_bind, ih _ (by omega) hrest rfl]
          exact h
        · rw [if_neg hplus, if_neg hpercent] at h ⊢
          rw [hc, Outcome.ok_bind] at h
          rw [Outcome.ok_bind]
          obtain ⟨rest, hrest, h⟩ := Outcome.bind_eq_ok.mp h
          rw [ih _ (by omega) hrest rfl]
          exact h
    · rw [if_neg hi] at h ⊢
      exact h

theorem urlDecodeAt_eq (ndebug : Bool) (str : List Byte) :
    urlDecodeAt ndebug str = urlDecode ndebug str := by
  rw [urlDecodeAt, decodeLoop_eq, List.drop_zero, urlDecode]

/-! ## Encoded strings -/

def UpperHex (x : Byte) : Prop :=
  (charByte '0' ≤ x ∧ x ≤ charByte '9') ∨ (charByte 'A' ≤ x ∧ x ≤ charByte 'F')

/-- Letters, digits, the marks, characters of `safes` and triples. -/
inductive Encoded (safes : List Byte) : List Byte → Prop where
  | nil : Encoded safes []
  | char {c : Byte} {e : List Byte} :
      isalnum c = true ∨ c ∈ ['-', '_', '.', '~', '+'].map charByte ∨ c ∈ safes →
      Encoded safes e → Encoded safes (c :: e)
  | triple {x y : Byte} {e : List Byte} :
      UpperHex x → UpperHex y → Encoded safes e → Encoded safes (charByte '%' :: x :: y :: e)

theorem toHex_upperHex : ∀ x < 16, UpperHex (toHex x) := by
  simp only [UpperHex]
  decide

theorem toHex_goodChar : ∀ x < 16, goodChar (toHex x) = true := by decide

theorem encoded_encodeChar {safes e : List Byte} (h : Encoded safes e) (c : Byte) :
    Encoded safes (encodeChar safes c ++ e) := by
  rw [encodeChar]
  split
  · rename_i hc
    simp only [Bool.or_eq_true, decide_eq_true_eq, List.contains_iff_mem] at hc
    refine .char ?_ h
    rcases hc with ((((hc | rfl) | rfl) | rfl) | rfl) | hc
    · exact .inl hc
    · exact .inr (.inl (by decide))
    · exact .inr (.inl (by decide))
    · exact .inr (.inl (by decide))
    · exact .inr (.inl (by decide))
    · exact .inr (.inr hc)
  · split
    · exact .char (.inr (.inl (by decide))) h
    · have hlt := c.isLt
      exact .triple (toHex_upperHex _ (by omega)) (toHex_upperHex _ (by omega)) h

theorem encoded_encode (safes str : List Byte) :
    Encoded safes (str.flatMap (encodeChar safes)) := by
  induction str with
  | nil => exact .nil
  | cons c cs ih =>
    rw [List.flatMap_cons]
    exact encoded_encodeChar ih c

theorem encode_length_le (safes str : List Byte) :
    (str.flatMap (encodeChar safes)).length ≤ 3 * str.length := by
  induction str with
  | nil => exact le_rfl
  | cons c cs ih =>
    have hc : (encodeChar safes c).length ≤ 3 := by
      rw [encodeChar]
      split
      · exact Nat.le_add_left ..
      · split
        · exact Nat.le_add_left ..
        · exact le_rfl
    rw [List.flatMap_cons, List.length_append, List.length_cons]
    omega

/-! ## The check of an encoded string -/

/-- Behind every `%` stand two characters that the check lets pass. -/
def Escapes (e : List Byte) : Prop :=
  ∀ i, e[i]? = some (charByte '%') →
    ∃ x y, e[i + 1]? = some x ∧ e[i + 2]? = some y ∧ goodChar x = true ∧ goodChar y = true

theorem escapes_encode (str : List Byte) : Escapes (str.flatMap (encodeChar [])) := by
  induction str with
  | nil =>
    intro i hi
    cases hi
  | cons c cs ih =>
    rw [List.flatMap_cons, encodeChar]
    split
    · rename_i hc
      simp only [Bool.or_eq_true, decide_eq_true_eq, List.contains_nil, Bool.false_eq_true,
        or_false] at hc
      refine EscapesIn.char ?_ ih
      rcases hc with (((hc | rfl) | rfl) | rfl) | rfl
      · exact (isalnum_plain hc).2
      · decide
      · decide
      · decide
      · decide
    · split
      · exact EscapesIn.char (by decide) ih
      · have hlt := c.isLt
        exact EscapesIn.triple (by decide) (toHex_goodChar _ (by omega))
          (toHex_goodChar _ (by omega)) ih

theorem charAt_reads (s : List Byte) : ReadsInside (charAt s) s := by
  intro i c h
  obtain ⟨hi, hc⟩ := List.getElem?_eq_some_iff.mp h
  rw [charAt, if_pos hi, List.getD_eq_getElem _ _ hi, hc]

theorem inside_reads (s : List Byte) : ReadsInside (inside s) s := by
  intro i c h
  obtain ⟨hi, hc⟩ := List.getElem?_eq_some_iff.mp h
  rw [inside, if_pos hi, List.getD_eq_getElem _ _ hi, hc]

theorem isUrlEncodeOf_charAt (s : List Byte) :
    isUrlEncodeOf (charAt s) s.length = isUrlEncode s := by
  have hloop : ∀ i, isUrlEncodeLoopOf (charAt s) s.length i = isUrlEncodeLoop s i := by
    intro i
    induction hn : s.length - i using Nat.strong_induction_on generalizing i with
    | _ n ih =>
      subst hn
      rw [isUrlEncodeLoopOf, isUrlEncodeLoop]
      by_cases hi : i < s.length
      · rw [if_pos hi, if_pos hi, ih _ (by omega) (i + 1) rfl]
      · rw [if_neg hi, if_neg hi]
  rw [isUrlEncodeOf, isUrlEncode, hloop]

theorem isUrlEncode_escapes {e : List Byte} (h : Escapes e) (htwo : 2 ≤ e.length)
    (hlen : e.length < 2 ^ 31) : isUrlEncode e = .ok true := by
  obtain ⟨b, hb, hbiff⟩ := isUrlEncodeOf_eq (charAt_reads e) htwo hlen
  rw [← isUrlEncodeOf_charAt, hb, hbiff.mpr h]

/-- What `Encode` gives is a string of the grammar which `Decode` turns back, reading no character
from the end on, and with no characters declared safe `IsUrlEncode` accepts it. -/
theorem url_round_trip (ndebug : Bool) (str safes : List Byte) (hlen : str.length < 2 ^ 29)
    (hpercent : charByte '%' ∉ safes) (hplus : charByte '+' ∉ safes) :
    ∃ e, urlEncode str safes = .ok (.ok, e) ∧ Encoded safes e ∧
      urlDecodeAt ndebug e = .ok (.ok, str) ∧
      decodeLoop ndebug (inside e) e.length 0 = .ok str ∧
      (safes = [] →
        (do
          let (_, d) ← urlDecodeAt ndebug e
          urlEncode d safes) = .ok (.ok, e) ∧
        (2 ≤ e.length → isUrlEncode e = .ok true)) := by
  have hsafes : ∀ c ∈ safes, Plain c := fun c hc =>
    ⟨fun heq => hplus (heq ▸ hc), fun heq => hpercent (heq ▸ hc)⟩
  have hchars := fun ndebug => decodeChars_encode hsafes ndebug str
  have hdecode : urlDecodeAt ndebug (str.flatMap (encodeChar safes)) = .ok (.ok, str) := by
    rw [urlDecodeAt_eq, urlDecode, hchars]
    rfl
  have hstrict : decodeLoop false (inside (str.flatMap (encodeChar safes)))
      (str.flatMap (encodeChar safes)).length 0 = .ok str := by
    rw [decodeLoop_inside, decodeLoop_eq, List.drop_zero, hchars]
  refine ⟨_, rfl, encoded_encode safes str, hdecode, ?_, ?_⟩
  · cases ndebug with
    | false => exact hstrict
    | true => exact decodeLoop_ndebug hstrict
  · rintro rfl
    refine ⟨?_, fun htwo => ?_⟩
    · rw [hdecode]
      rfl
    · have hle := encode_length_le [] str
      exact isUrlEncode_escapes (escapes_encode str) htwo (by omega)

/-- A blank, a letter and a byte that needs a triple. -/
theorem url_round_trip_blank : ∃ e, urlEncode [charByte ' ', charByte 'a', 0] [] = .ok (.ok, e) ∧
    e.length = 5 ∧ urlDecodeAt false e = .ok (.ok, [charByte ' ', charByte 'a', 0]) := by
  obtain ⟨e, he, -, hd, -⟩ := url_round_trip false [charByte ' ', charByte 'a', 0] [] (by decide)
    (by decide) (by decide)
  cases he
  exact ⟨_, rfl, by decide, hd⟩

end Crypto
end Huicpp
