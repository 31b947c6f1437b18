import Mathlib
import Huicpp.Cxx.Memory

/-!
# Cxx.Json

JSON objects whose members are strings, after the grammar of RFC 8259. Each relation takes a text, what
it says, and what is left of the text behind it.

* `Chars`: the characters of a string, with their escapes, and the quote behind them.
* `Members`: the members of an object and the commas between them.
* `Object`: a whole text.
-/

namespace Json

open Cxx

def quote : Byte := 34
def backslash : Byte := charByte '\\'
def lbrace : Byte := 123
def rbrace : Byte := 125
def colon : Byte := charByte ':'
def comma : Byte := charByte ','

/-- Space, tab, line feed and carriage return -/
def IsBlank (b : Byte) : Prop := b = 32 ∨ b = 9 ∨ b = 10 ∨ b = 13

/-- What a character stands for behind a backslash. -/
def escaped (c : Byte) : Option Byte :=
  if c = quote ∨ c = backslash ∨ c = charByte '/' then some c
  else if c = charByte 'b' then some 8
  else if c = charByte 'f' then some 12
  else if c = charByte 'n' then some 10
  else if c = charByte 'r' then some 13
  else if c = charByte 't' then some 9
  else none

def hexDigit (c : Byte) : Option Nat :=
  if 48 ≤ c.toNat ∧ c.toNat ≤ 57 then some (c.toNat - 48)
  else if 65 ≤ c.toNat ∧ c.toNat ≤ 70 then some (c.toNat - 55)
  else if 97 ≤ c.toNat ∧ c.toNat ≤ 102 then some (c.toNat - 87)
  else none

/-- The code unit that four hexadecimal digits stand for. -/
def codeUnit : List Byte → Option Nat
  | [c1, c2, c3, c4] => do
    return ((← hexDigit c1) * 16 + (← hexDigit c2)) * 256 + (← hexDigit c3) * 16 + (← hexDigit c4)
  | _ => none

/-- The bytes of a code point -/
def utf8 (n : Nat) : List Byte :=
  let tail (k : Nat) : Byte := BitVec.ofNat 8 (128 + n / 64 ^ k % 64)
  if n < 0x80 then [BitVec.ofNat 8 n]
  else if n < 0x800 then [BitVec.ofNat 8 (192 + n / 64), tail 0]
  else if n < 0x10000 then [BitVec.ofNat 8 (224 + n / 4096), tail 1, tail 0]
  else [BitVec.ofNat 8 (240 + n / 262144), tail 2, tail 1, tail 0]

inductive Blanks : List Byte → List Byte → Prop where
  | none {t : List Byte} : Blanks t t
  | more {b : Byte} {t r : List Byte} : IsBlank b → Blanks t r → Blanks (b :: t) r

/-- A structural character, with blanks around it. -/
inductive Structural (c : Byte) : List Byte → List Byte → Prop where
  | intro {t t' r : List Byte} : Blanks t (c :: t') → Blanks t' r → Structural c t r

/-- Bytes from 128 on are parts of characters that stand for themselves. -/
inductive Chars : List Byte → List Byte → List Byte → Prop where
  | close {r : List Byte} : Chars (quote :: r) [] r
  | unescaped {b : Byte} {t s r : List Byte} : 32 ≤ b.toNat → b ≠ quote → b ≠ backslash →
      Chars t s r → Chars (b :: t) (b :: s) r
  | escape {c d : Byte} {t s r : List Byte} : escaped c = some d → Chars t s r →
      Chars (backslash :: c :: t) (d :: s) r
  | unicode {h t s r : List Byte} {n : Nat} : codeUnit h = some n → (n < 0xD800 ∨ 0xDFFF < n) →
      Chars t s r → Chars (backslash :: charByte 'u' :: (h ++ t)) (utf8 n ++ s) r
  | surrogates {h l t s r : List Byte} {n k : Nat} : codeUnit h = some (0xD800 + n) → n < 0x400 →
      codeUnit l = some (0xDC00 + k) → k < 0x400 → Chars t s r →
      Chars (backslash :: charByte 'u' :: (h ++ backslash :: charByte 'u' :: (l ++ t)))
        (utf8 (0x10000 + n * 0x400 + k) ++ s) r

inductive Str : List Byte → List Byte → List Byte → Prop where
  | intro {t s r : List Byte} : Chars t s r → Str (quote :: t) s r

inductive Member : List Byte → List Byte × List Byte → List Byte → Prop where
  | intro {t t₁ t₂ r k v : List Byte} : Str t k t₁ → Structural colon t₁ t₂ → Str t₂ v r →
      Member t (k, v) r

inductive Members : List Byte → List (List Byte × List Byte) → List Byte → Prop where
  | one {t r : List Byte} {e : List Byte × List Byte} : Member t e r → Members t [e] r
  | more {t t₁ t₂ r : List Byte} {e : List Byte × List Byte} {es : List (List Byte × List Byte)} :
      Member t e t₁ → Structural comma t₁ t₂ → Members t₂ es r → Members t (e :: es) r

inductive Object : List Byte → List (List Byte × List Byte) → Prop where
  | empty {t t₁ : List Byte} : Structural lbrace t t₁ → Structural rbrace t₁ [] → Object t []
  | members {t t₁ t₂ : List Byte} {es : List (List Byte × List Byte)} : Structural lbrace t t₁ →
      Members t₁ es t₂ → Structural rbrace t₂ [] → Object t es

variable {b c : Byte} {t r : List Byte} {es : List (List Byte × List Byte)}

theorem Blanks.eq (hb : ¬ IsBlank b) (h : Blanks (b :: t) r) : r = b :: t := by
  cases h with
  | none => rfl
  | more hblank _ => exact absurd hblank hb

theorem Structural.first (hb : ¬ IsBlank b) (h : Structural c (b :: t) r) : b = c ∧ Blanks t r := by
  obtain ⟨hfront, hbehind⟩ := h
  obtain ⟨rfl, rfl⟩ := List.cons_eq_cons.mp (hfront.eq hb)
  exact ⟨rfl, hbehind⟩

theorem Members.first (h : Members t es r) : ∃ t', t = quote :: t' := by
  cases h with
  | one hmember =>
    obtain ⟨⟨_⟩, _, _⟩ := hmember
    exact ⟨_, rfl⟩
  | more hmember _ _ =>
    obtain ⟨⟨_⟩, _, _⟩ := hmember
    exact ⟨_, rfl⟩

theorem object_empty : Object [lbrace, rbrace] [] :=
  .empty (.intro .none .none) (.intro .none .none)

end Json
