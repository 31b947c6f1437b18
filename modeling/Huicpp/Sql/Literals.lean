import Mathlib
import Huicpp.Cxx.Memory

/-!
# Sql.Literals

Lists of rows of string literals, as a server reads them: `('a','b'),('c','d')`. Inside a literal a
quote is doubled or, where the server knows backslash escapes, escaped.

A text of quoted cells is read back as these cells exactly if no cell has a character that means
something inside a literal: `paid_lex` counts quotes and backslashes, and a literal that stands
for fewer characters than were written costs too many of them.
-/

namespace Sql

open Cxx

abbrev Text := List Byte

def quote : Byte := charByte '\''
def backslash : Byte := charByte '\\'
def lpar : Byte := charByte '('
def rpar : Byte := charByte ')'
def comma : Byte := charByte ','
def blank : Byte := charByte ' '
def percent : Byte := charByte '%'
def underscore : Byte := charByte '_'

/-- What a backslash and `c` stand for. The two wildcards keep their backslash. -/
def unescape (c : Byte) : Text :=
  if c = charByte '0' then [0]
  else if c = charByte 'b' then [8]
  else if c = charByte 'n' then [10]
  else if c = charByte 'r' then [13]
  else if c = charByte 't' then [9]
  else if c = charByte 'Z' then [26]
  else if c = percent ∨ c = underscore then [backslash, c]
  else [c]

inductive Token where
  | lpar
  | rpar
  | comma
  | literal (c : Text)
  deriving DecidableEq, Repr

inductive LexState where
  | outside
  | inside (acc : Text)
  | afterQuote (acc : Text)
  | afterBackslash (acc : Text)
  deriving DecidableEq, Repr

/-- The token that a character outside of literals is. Blanks are none. -/
def outsideToken (c : Byte) : Option (List Token) :=
  if c = lpar then some [.lpar]
  else if c = rpar then some [.rpar]
  else if c = comma then some [.comma]
  else if c = blank ∨ c = 10 ∨ c = 13 ∨ c = 9 then some []
  else none

section Lex

variable (escapes : Bool)

def lex : LexState → Text → Option (List Token)
  | .outside, [] => some []
  | .inside _, [] => none
  | .afterQuote acc, [] => some [.literal acc]
  | .afterBackslash _, [] => none
  | .outside, c :: cs =>
    if c = quote then lex (.inside []) cs
    else do
      let t ← outsideToken c
      let ts ← lex .outside cs
      return t ++ ts
  | .inside acc, c :: cs =>
    if c = quote then lex (.afterQuote acc) cs
    else if escapes ∧ c = backslash then lex (.afterBackslash acc) cs
    else lex (.inside (acc ++ [c])) cs
  | .afterQuote acc, c :: cs =>
    if c = quote then lex (.inside (acc ++ [quote])) cs
    else do
      let t ← outsideToken c
      let ts ← lex .outside cs
      return .literal acc :: t ++ ts
  | .afterBackslash acc, c :: cs => lex (.inside (acc ++ unescape c)) cs

end Lex

inductive ParseState where
  | rowStart
  | cell (row : List Text)
  | afterCell (row : List Text)
  | afterRow
  deriving DecidableEq, Repr

def parse : ParseState → List Token → Option (List (List Text))
  | .rowStart, .lpar :: ts => parse (.cell []) ts
  | .cell row, .literal c :: ts => parse (.afterCell (row ++ [c])) ts
  | .afterCell row, .comma :: ts => parse (.cell row) ts
  | .afterCell row, .rpar :: ts => do
    let rows ← parse .afterRow ts
    return row :: rows
  | .afterRow, .comma :: ts => parse .rowStart ts
  | .afterRow, [] => some []
  | _, _ => none

/-- The rows of a `VALUES` list. -/
def readRows (escapes : Bool) (text : Text) : Option (List (List Text)) := do
  let ts ← lex escapes .outside text
  parse .rowStart ts

/-- No quote, and behind each backslash that is an escape a wildcard. -/
inductive Clean (escapes : Bool) : Text → Prop where
  | nil : Clean escapes []
  | plain {c : Byte} {cs : Text} :
      c ≠ quote → (escapes = true → c ≠ backslash) → Clean escapes cs → Clean escapes (c :: cs)
  | wildcard {c : Byte} {cs : Text} :
      escapes = true → c = percent ∨ c = underscore → Clean escapes cs →
      Clean escapes (backslash :: c :: cs)

section Read

variable {escapes : Bool}

theorem Clean.append {a b : Text} (ha : Clean escapes a) (hb : Clean escapes b) :
    Clean escapes (a ++ b) := by
  induction ha with
  | nil => exact hb
  | plain hq he _ ih => exact .plain hq he ih
  | wildcard he hc _ ih => exact .wildcard he hc ih

theorem unescape_wildcard {c : Byte} (h : c = percent ∨ c = underscore) :
    unescape c = [backslash, c] := by
  rcases h with rfl | rfl
  · rfl
  · rfl

/-! ## Clean cells are read back -/

theorem lex_inside {c : Text} (h : Clean escapes c) (acc rest : Text) :
    lex escapes (.inside acc) (c ++ rest) = lex escapes (.inside (acc ++ c)) rest := by
  induction h generalizing acc with
  | nil => rw [List.nil_append, List.append_nil]
  | @plain c cs hq he _ ih =>
    rw [List.cons_append, lex, if_neg hq, if_neg (fun hb => he hb.1 hb.2), ih, List.append_assoc]
    rfl
  | @wildcard c cs he hc _ ih =>
    rw [List.cons_append, List.cons_append, lex, if_neg (by decide), if_pos ⟨he, rfl⟩, lex,
      unescape_wildcard hc, ih, List.append_assoc]
    rfl

section Tokens

variable {d : Byte} {t ts : List Token} {rest : Text}

theorem outsideToken_ne_quote (ht : outsideToken d = some t) : d ≠ quote := by
  rintro rfl
  cases ht

theorem lex_token (ht : outsideToken d = some t) (h : lex escapes .outside rest = some ts) :
    lex escapes .outside (d :: rest) = some (t ++ ts) := by
  rw [lex, if_neg (outsideToken_ne_quote ht), ht, h]
  rfl

theorem lex_literal {c : Text} (hc : Clean escapes c) (ht : outsideToken d = some t)
    (h : lex escapes .outside rest = some ts) :
    lex escapes .outside (quote :: c ++ quote :: d :: rest) = some (.literal c :: t ++ ts) := by
  rw [List.cons_append, lex, if_pos rfl, lex_inside hc, List.nil_append, lex, if_pos rfl, lex,
    if_neg (outsideToken_ne_quote ht), ht, h]
  rfl

end Tokens

/-! ## What is read is paid for -/

def isMark (c : Byte) : Bool := c = quote ∨ c = backslash

/-- How many quotes and backslashes there are. -/
def marks (text : Text) : Nat := text.countP isMark

/-- The marks of cells and of the quotes around them. -/
def weight (cells : List Text) : Nat := (cells.map fun c => 2 + marks c).sum

def literals : List Token → List Text
  | [] => []
  | .literal c :: ts => c :: literals ts
  | _ :: ts => literals ts

theorem literals_append (ts ts' : List Token) :
    literals (ts ++ ts') = literals ts ++ literals ts' := by
  induction ts with
  | nil => rfl
  | cons t ts ih =>
    cases t with
    | literal c => exact congrArg (c :: ·) ih
    | _ => exact ih

@[simp] theorem marks_nil : marks [] = 0 := rfl

@[simp] theorem marks_append (a b : Text) : marks (a ++ b) = marks a + marks b :=
  List.countP_append ..

theorem marks_cons (c : Byte) (cs : Text) : marks (c :: cs) = marks [c] + marks cs :=
  marks_append [c] cs

@[simp] theorem weight_nil : weight [] = 0 := rfl

@[simp] theorem weight_cons (c : Text) (cs : List Text) :
    weight (c :: cs) = 2 + marks c + weight cs := rfl

@[simp] theorem weight_append (a b : List Text) : weight (a ++ b) = weight a + weight b := by
  rw [weight, List.map_append, List.sum_append]
  rfl

namespace LexState

/-- What has been paid for the literal that is being read. -/
def credit : LexState → Nat
  | .outside => 0
  | .inside acc => 1 + marks acc
  | .afterQuote acc => 2 + marks acc
  | .afterBackslash acc => 2 + marks acc

def CleanSoFar (escapes : Bool) : LexState → Prop
  | .outside => True
  | .inside acc => Clean escapes acc
  | .afterQuote acc => Clean escapes acc
  | .afterBackslash acc => Clean escapes acc ∧ escapes = true

end LexState

theorem outsideToken_spec {c : Byte} {t : List Token} (h : outsideToken c = some t) :
    literals t = [] ∧ marks [c] = 0 := by
  simp only [outsideToken] at h
  split at h
  · rename_i hc
    cases h
    subst hc
    exact ⟨rfl, by decide⟩
  · split at h
    · rename_i hc
      cases h
      subst hc
      exact ⟨rfl, by decide⟩
    · split at h
      · rename_i hc
        cases h
        subst hc
        exact ⟨rfl, by decide⟩
      · split at h
        · rename_i hc
          cases h
          refine ⟨rfl, ?_⟩
          rcases hc with rfl | rfl | rfl | rfl
          · decide
          · decide
          · decide
          · decide
        · cases h

/-- An escape stands for at most one mark, and for the one of its backslash only if it is a
wildcard. -/
theorem marks_unescape (c : Byte) :
    marks (unescape c) ≤ 1 + marks [c] ∧
      (marks (unescape c) = 1 + marks [c] → c = percent ∨ c = underscore) := by
  revert c
  decide

/-- The literals cost no more than there is, and if they cost all of it they are clean. -/
structure Paid (escapes : Bool) (budget : Nat) (clean : Prop) (ts : List Token) : Prop where
  le : weight (literals ts) ≤ budget
  clean : weight (literals ts) = budget → clean → ∀ c ∈ literals ts, Clean escapes c

namespace Paid

variable {budget budget' : Nat} {clean clean' : Prop} {ts : List Token}

theorem mono (h : Paid escapes budget clean ts) (hle : budget ≤ budget')
    (hclean : budget = budget' → clean' → clean) : Paid escapes budget' clean' ts where
  le := h.le.trans hle
  clean heq hc := by
    have hle' := h.le
    have hbudget : budget = budget' := by omega
    exact h.clean (heq.trans hbudget.symm) (hclean hbudget hc)

theorem literal {acc : Text} {t : List Token} (h : Paid escapes budget clean ts)
    (ht : literals t = []) (hclean : clean' → clean ∧ Clean escapes acc) :
    Paid escapes (2 + marks acc + budget) clean' (.literal acc :: t ++ ts) := by
  have hlit : literals (.literal acc :: t ++ ts) = acc :: literals ts := by
    rw [List.cons_append, literals, literals_append, ht, List.nil_append]
  refine ⟨?_, fun heq hc => ?_⟩
  · rw [hlit, weight_cons]
    exact Nat.add_le_add_left h.le _
  · rw [hlit, weight_cons] at heq
    rw [hlit]
    exact List.forall_mem_cons.mpr ⟨(hclean hc).2, h.clean (by omega) (hclean hc).1⟩

end Paid

theorem paid_lex {st : LexState} {text : Text} {ts : List Token}
    (h : lex escapes st text = some ts) :
    Paid escapes (st.credit + marks text) (st.CleanSoFar escapes) ts := by
  induction text generalizing st ts with
  | nil =>
    cases st with
    | outside =>
      cases h
      exact ⟨le_rfl, fun _ _ => List.forall_mem_nil _⟩
    | inside acc => cases h
    | afterQuote acc =>
      cases h
      exact ⟨le_rfl, fun _ hc => List.forall_mem_singleton.mpr hc⟩
    | afterBackslash acc => cases h
  | cons c cs ih =>
    rw [marks_cons]
    cases st with
    | outside =>
      rw [lex] at h
      split at h
      · rename_i hc
        subst hc
        refine (ih h).mono ?_ fun _ _ => Clean.nil
        rw [LexState.credit, LexState.credit, marks_nil, show marks [quote] = 1 by decide]
        omega
      · obtain ⟨t, ht, h⟩ := Option.bind_eq_some_iff.mp h
        obtain ⟨rest, hrest, h⟩ := Option.bind_eq_some_iff.mp h
        cases h
        obtain ⟨hlit, hmarks⟩ := outsideToken_spec ht
        have hpaid := ih hrest
        refine ⟨?_, ?_⟩
        · rw [literals_append, hlit, hmarks, Nat.zero_add]
          exact hpaid.le
        · rw [literals_append, hlit, hmarks, Nat.zero_add]
          exact hpaid.clean
    | inside acc =>
      rw [lex] at h
      split at h
      · rename_i hc
        subst hc
        refine (ih h).mono ?_ fun _ hclean => hclean
        rw [LexState.credit, LexState.credit, show marks [quote] = 1 by decide]
        omega
      · rename_i hquote
        split at h
        · rename_i hc
          obtain ⟨he, rfl⟩ := hc
          refine (ih h).mono ?_ fun _ hclean => ⟨hclean, he⟩
          rw [LexState.credit, LexState.credit, show marks [backslash] = 1 by decide]
          omega
        · rename_i hb
          refine (ih h).mono ?_ fun _ hclean =>
            hclean.append (.plain hquote (fun he hc => hb ⟨he, hc⟩) .nil)
          rw [LexState.credit, LexState.credit, marks_append]
          omega
    | afterQuote acc =>
      rw [lex] at h
      split at h
      · rename_i hc
        subst hc
        refine (ih h).mono ?_ fun heq => ?_
        · rw [LexState.credit, LexState.credit, marks_append, show marks [quote] = 1 by decide]
          omega
        · rw [LexState.credit, LexState.credit, marks_append, show marks [quote] = 1 by decide] at heq
          omega
      · obtain ⟨t, ht, h⟩ := Option.bind_eq_some_iff.mp h
        obtain ⟨rest, hrest, h⟩ := Option.bind_eq_some_iff.mp h
        cases h
        obtain ⟨hlit, hmarks⟩ := outsideToken_spec ht
        refine ((ih hrest).literal hlit fun hclean => ⟨trivial, hclean⟩).mono ?_ fun _ hc => hc
        rw [LexState.credit, LexState.credit, hmarks, Nat.zero_add]
    | afterBackslash acc =>
      rw [lex] at h
      have hmarks := marks_unescape c
      refine (ih h).mono ?_ fun heq hclean => ?_
      · rw [LexState.credit, LexState.credit, marks_append]
        omega
      · rw [LexState.credit, LexState.credit, marks_append] at heq
        have hwild := hmarks.2 (by omega)
        rw [LexState.CleanSoFar, unescape_wildcard hwild]
        exact hclean.1.append (.wildcard hclean.2 hwild .nil)

def ParseState.pending : ParseState → List Text
  | .cell row => row
  | .afterCell row => row
  | _ => []

theorem parse_literals {st : ParseState} {ts : List Token} {rows : List (List Text)}
    (h : parse st ts = some rows) : rows.flatten = st.pending ++ literals ts := by
  induction ts generalizing st rows with
  | nil =>
    cases st with
    | afterRow =>
      cases h
      rfl
    | _ => cases h
  | cons t ts ih =>
    cases st with
    | rowStart =>
      cases t with
      | lpar =>
        have hcell : parse (.cell []) ts = some rows := h
        have hflat := ih hcell
        exact hflat
      | _ => cases h
    | cell row =>
      cases t with
      | literal c => exact (ih h).trans (List.append_assoc ..)
      | _ => cases h
    | afterCell row =>
      cases t with
      | comma =>
        have hcell : parse (.cell row) ts = some rows := h
        have hflat := ih hcell
        exact hflat
      | rpar =>
        obtain ⟨rows', hrows, h⟩ := Option.bind_eq_some_iff.mp h
        cases h
        exact congrArg (row ++ ·) (ih hrows)
      | _ => cases h
    | afterRow =>
      cases t with
      | comma =>
        have hrow : parse .rowStart ts = some rows := h
        have hflat := ih hrow
        exact hflat
      | _ => cases h

/-- Rows that are read cost no more marks than the text has, and if they cost all of them their
cells are clean. -/
theorem weight_readRows {text : Text} {rows : List (List Text)}
    (h : readRows escapes text = some rows) :
    weight rows.flatten ≤ marks text ∧
      (weight rows.flatten = marks text → ∀ c ∈ rows.flatten, Clean escapes c) := by
  obtain ⟨ts, hts, h⟩ := Option.bind_eq_some_iff.mp h
  have hpaid := paid_lex hts
  rw [LexState.credit, Nat.zero_add] at hpaid
  have hcells : rows.flatten = literals ts := parse_literals h
  rw [hcells]
  exact ⟨hpaid.le, fun heq => hpaid.clean heq trivial⟩

end Read

end Sql
