import Mathlib
import Huicpp.Crypto.Escapes
import Huicpp.Crypto.Transport

/-!
# Crypto.DecodeTotal

URL decoding of text from outside. `Decode` has a return code, and never uses it: a malformed escape
runs into an assert, or, without asserts, into a digit that was never assigned. `Des3Base64UrlDecode`
hands what it decodes to functions that do not return for every text either.

* `urlTotal_iff`: `Decode` returns what it should for the well-escaped strings only.
* `rest_returns_iff`: for which decoded texts the rest of `Des3Base64UrlDecode` returns.
-/

namespace Huicpp
namespace Crypto

open Cxx

/-- `Decode`, reading no character from the end on. -/
def urlDecodeInside (ndebug : Bool) (str : List Byte) : Outcome (HRet × List Byte) := do
  let dst ← decodeLoop ndebug (inside str) str.length 0
  return (.ok, dst)

/-- The two ways for text from outside to be decoded. -/
inductive UrlEntry where
  | decode
  | des3Base64UrlDecode (ssl : OpenSsl) (strPassword : List Byte)

/-- The function returns, and not with OK if a `%` is not followed by two hex digits. -/
def Answers (f : Outcome (HRet × List Byte)) (s : List Byte) : Prop :=
  ∃ ret d, f = .ok (ret, d) ∧ (¬ EscapesIn isHexDigit s → ret ≠ .ok)

/-- What the rest of `Des3Base64UrlDecode` can take: base64 text of at least four bytes, and not of
so many that twice their number is negative as an `int`. From 2^31 bytes on the number itself is
negative, which is an error. -/
def Carried (ssl : OpenSsl) (text : List Byte) : Prop :=
  let (r, bytes) := ssl.base64Read (memBuf text) (toHN text.length).toNat
  text ≠ [] ∧ 0 ≤ r ∧ (Encryptable (bytes.take r.toNat) ∨ 2 ^ 31 ≤ shortLength (bytes.take r.toNat))

namespace UrlEntry

/-- With and without asserts, every string is decoded or refused. -/
def Total (s : List Byte) : UrlEntry → Prop
  | .decode => ∀ ndebug, Answers (urlDecodeInside ndebug s) s
  | .des3Base64UrlDecode ssl strPassword => ∀ ndebug, Answers (urlDecodeInside ndebug s) s ∧
      Answers (Crypto.des3Base64UrlDecode ssl ndebug s strPassword) s

/-- The string is well escaped, and stands for something that can be handed on. -/
def Fits (s : List Byte) : UrlEntry → Prop
  | .decode => EscapesIn isHexDigit s
  | .des3Base64UrlDecode ssl _ =>
    EscapesIn isHexDigit s ∧ ∀ text, Unescapes s text → Carried ssl text

end UrlEntry

/-! ## Decode -/

theorem urlDecodeInside_ret {ndebug : Bool} {s d : List Byte} {ret : HRet}
    (h : urlDecodeInside ndebug s = .ok (ret, d)) : ret = .ok := by
  obtain ⟨dst, -, h⟩ := Outcome.bind_eq_ok.mp h
  cases h
  rfl

/-- `Decode` never refuses a string. -/
theorem urlTotal_iff (s : List Byte) :
    (∀ ndebug, Answers (urlDecodeInside ndebug s) s) ↔ EscapesIn isHexDigit s := by
  constructor
  · intro hall
    obtain ⟨ret, d, hd, hrefused⟩ := hall false
    by_contra hbad
    exact hrefused hbad (urlDecodeInside_ret hd)
  · intro h ndebug
    obtain ⟨d, hd, -⟩ := ((wellEscaped_iff s).mpr h).decodes ndebug
    refine ⟨.ok, d, ?_, fun hbad => absurd h hbad⟩
    rw [urlDecodeInside, hd]
    rfl

theorem Unescapes.unique {s d d' : List Byte} (h : Unescapes s d) (h' : Unescapes s d') : d = d' := by
  induction h generalizing d' with
  | nil =>
    cases h'
    rfl
  | plus _ ih =>
    cases h' with
    | plus h' => rw [ih h']
    | char hc => exact absurd rfl hc.1
  | char hc _ ih =>
    cases h' with
    | plus => exact absurd rfl hc.1
    | char _ h' => rw [ih h']
    | escape => exact absurd rfl hc.2
  | @escape x y b s d hx hy _ ih =>
    cases h' with
    | char hc => exact absurd rfl hc.2
    | @escape _ _ b' _ _ hx' hy' h' =>
      have hhigh := Option.some.inj (hx.symm.trans hx')
      have hlow := Option.some.inj (hy.symm.trans hy')
      have hb : b = b' := BitVec.eq_of_toNat_eq (by omega)
      rw [hb, ih h']

theorem urlDecode_eq {s text : List Byte} (h : Unescapes s text) (hwell : WellEscaped s)
    (ndebug : Bool) : urlDecode ndebug s = .ok (.ok, text) := by
  obtain ⟨d, hd, hs⟩ := hwell.decodeChars ndebug
  rw [urlDecode, hd, hs.unique h]
  rfl

/-! ## The rest of Des3Base64UrlDecode -/

section Rest

variable {ssl : OpenSsl}

theorem des3Encrypt_ret {inp password out : List Byte} {inlen : Int} {block : Option Nat} {ret : HRet}
    (hlen : 0 ≤ inlen) (h : des3Encrypt ssl inp inlen block password = .ok (ret, out)) : ret = .ok := by
  rw [des3Encrypt, if_neg (by omega)] at h
  obtain ⟨_, -, h⟩ := Outcome.bind_eq_ok.mp h
  obtain ⟨_, -, h⟩ := Outcome.bind_eq_ok.mp h
  cases h
  rfl

theorem encryptMem_returns_iff (src password : List Byte) :
    (∃ ret out, encryptMem ssl src password = .ok (ret, out)) ↔
      Encryptable src ∨ 2 ^ 31 ≤ shortLength src := by
  cases src with
  | nil =>
    have hzero : shortLength [] = 0 := rfl
    refine iff_of_false ?_ ?_
    · rintro ⟨ret, out, h⟩
      cases h
    · rintro (henc | hge)
      · exact absurd henc.1 (by omega)
      · omega
  | cons b bs =>
    have haddress : frontAddress (b :: bs) = .ok () := rfl
    rw [encryptMem, haddress, Outcome.ok_bind]
    generalize b :: bs = src
    have hm : shortLength src = src.length % 2 ^ 32 := rfl
    constructor
    · rintro ⟨ret, out, h⟩
      rcases Nat.lt_or_ge (shortLength src) (2 ^ 31) with hlt | hge
      · obtain ⟨⟨ret', out'⟩, hdes, -⟩ := Outcome.bind_eq_ok.mp h
        have hlen : 0 ≤ toHN src.length := by
          rw [toHN]
          omega
        obtain rfl := des3Encrypt_ret hlen hdes
        exact .inl ((des3Encrypt_ok_iff src password out').mp hdes).1
      · exact .inr hge
    · rintro (henc | hge)
      · rw [(des3Encrypt_ok_iff src password _).mpr ⟨henc, rfl⟩]
        exact ⟨.ok, _, rfl⟩
      · have hneg : toHN src.length < 0 := by
          rw [toHN]
          omega
        rw [des3Encrypt, if_pos hneg]
        exact ⟨.depError, [], rfl⟩

theorem rest_returns_iff (text password : List Byte) :
    (∃ ret out, hnotokReturn (base64Decode ssl text) ([] : List Byte) (fun mem =>
      hnotokReturn (encryptMem ssl mem password) [] fun des3Src => return (.ok, des3Src)) =
        .ok (ret, out)) ↔ Carried ssl text := by
  have hafter : ∀ mem, (∃ ret out, hnotokReturn (encryptMem ssl mem password) ([] : List Byte)
      (fun des3Src => return (.ok, des3Src)) = .ok (ret, out)) ↔
        Encryptable mem ∨ 2 ^ 31 ≤ shortLength mem := by
    intro mem
    rw [← encryptMem_returns_iff mem password]
    constructor
    · rintro ⟨ret, out, h⟩
      obtain ⟨⟨ret', out'⟩, henc, -⟩ := Outcome.bind_eq_ok.mp h
      exact ⟨ret', out', henc⟩
    · rintro ⟨ret, out, h⟩
      rw [h]
      by_cases hret : ret = .ok
      · subst hret
        exact ⟨.ok, out, rfl⟩
      · exact ⟨ret, [], if_neg hret⟩
  rw [Carried]
  cases text with
  | nil =>
    refine iff_of_false ?_ fun h => h.1 rfl
    rintro ⟨ret, out, h⟩
    cases h
  | cons b bs =>
    rw [base64Decode]
    generalize hread : ssl.base64Read (memBuf (b :: bs)) (toHN (b :: bs).length).toNat = read
    obtain ⟨r, bytes⟩ := read
    simp only [List.isEmpty_cons, Bool.false_eq_true, if_false]
    by_cases hr : r < 0
    · rw [if_pos hr]
      refine iff_of_false ?_ fun h => not_lt.mpr h.2.1 hr
      rintro ⟨ret, out, h⟩
      cases h
    · rw [if_neg hr, hnotokReturn_ok, hafter]
      exact ⟨fun h => ⟨List.cons_ne_nil _ _, not_lt.mp hr, h⟩, fun h => h.2.2⟩

end Rest

/-- **URL decoding of any text.** Each function returns for a string, and refuses a malformed one,
exactly if the string is well escaped and, for `Des3Base64UrlDecode`, stands for a text that can be
handed on. -/
theorem decodeTotal_iff (e : UrlEntry) (s : List Byte) : e.Total s ↔ e.Fits s := by
  cases e with
  | decode => exact urlTotal_iff s
  | des3Base64UrlDecode ssl strPassword =>
    constructor
    · intro hall
      have hwell : EscapesIn isHexDigit s := (urlTotal_iff s).mp fun ndebug => (hall ndebug).1
      refine ⟨hwell, fun text htext => ?_⟩
      obtain ⟨ret, d, hd, -⟩ := (hall false).2
      rw [Crypto.des3Base64UrlDecode, urlDecode_eq htext ((wellEscaped_iff s).mpr hwell),
        hnotokReturn_ok] at hd
      exact (rest_returns_iff text strPassword).mp ⟨ret, d, hd⟩
    · rintro ⟨hwell, hcarried⟩ ndebug
      refine ⟨(urlTotal_iff s).mpr hwell ndebug, ?_⟩
      obtain ⟨text, -, htext⟩ := ((wellEscaped_iff s).mpr hwell).decodes ndebug
      obtain ⟨ret, d, hd⟩ := (rest_returns_iff text strPassword).mpr (hcarried text htext)
      refine ⟨ret, d, ?_, fun hbad => absurd hwell hbad⟩
      rw [Crypto.des3Base64UrlDecode, urlDecode_eq htext ((wellEscaped_iff s).mpr hwell),
        hnotokReturn_ok]
      exact hd

/-- A single `%`. With asserts the program stops, without them it reads past the last character. -/
theorem decodeTotal_not : ¬ ∀ s, UrlEntry.decode.Total s := by
  intro hall
  obtain ⟨ret, d, hd, -⟩ := hall [charByte '%'] false
  have hstop : urlDecodeInside false [charByte '%'] = .undef .assertFailed := by
    rw [urlDecodeInside, decodeLoop]
    rfl
  rw [hstop] at hd
  cases hd

end Crypto
end Huicpp
