import Mathlib
import Huicpp.HRet
import Huicpp.Sql.Literals

/-!
# Db.MultiInsert

`MultiInsert` sends a table in `INSERT` statements of up to 256 rows. The cells are put between
quotes as they are, so that the server reads back what was given exactly if no cell has a quote, or
a backslash that the server takes for an escape.

The driver's `Execute` returns OK, and the statements that it gets are logged.
-/

namespace Huicpp
namespace Db

open Cxx Sql

def str (s : String) : Text := s.toList.map charByte

/-- What `%s` copies of `s.c_str()`. -/
def cStr (s : Text) : Text := s.takeWhile (· ≠ 0)

/-- `HStr::Format` of a text for which its buffer has `bufsize` bytes. -/
def hstrFormat (bufsize : Nat) (text : Text) : Outcome Text :=
  if text.length < bufsize then .ok text else .undef .outOfBounds

def maxMultiInsertCount : Nat := 256

/-! ## The statement -/

def filds (header : List Text) : Text :=
  (str "( " ++ header.flatMap fun name => name ++ [comma]).dropLast ++ [rpar]

def rowVal (row : List Text) : Text :=
  (str "( " ++ row.flatMap fun val => [quote] ++ val ++ [quote, comma]).dropLast ++ [rpar]

def values (data : List (List Text)) : Text :=
  ([blank] ++ data.flatMap fun row => rowVal row ++ [comma]).dropLast

/-- The statement up to its `VALUES` list. -/
def insertInto (strTabName : Text) (header : List Text) : Text :=
  str "INSERT INTO `" ++ cStr strTabName ++ str "` " ++ cStr (filds header) ++ str " VALUES "

def insertSql (strTabName : Text) (header : List Text) (data : List (List Text)) : Text :=
  insertInto strTabName header ++ cStr (values data)

/-- The `VALUES` list of a statement. -/
def valuesOf (strTabName : Text) (header : List Text) (sql : Text) : Text :=
  sql.drop (insertInto strTabName header).length

section Calls

variable (bufsize : Nat) (strTabName : Text) (header : List Text)

/-- The codes come with the log of statements. -/
def multiInsertImpl (data : List (List Text)) (log : List Text) : Outcome (HRet × List Text) :=
  if strTabName = [] then return (.invlPara, log)
  else do
    let sql ← hstrFormat bufsize (insertSql strTabName header data)
    return (.ok, log ++ [sql])

/-- The loop over the rows and what follows it. -/
def multiInsertLoop :
    List (List Text) → List (List Text) → List Text → Outcome (HRet × List Text)
  | [], itemData, log =>
    if itemData = [] then return (.ok, log)
    else hnotokReturn (multiInsertImpl bufsize strTabName header itemData log) log fun log' =>
      return (.ok, log')
  | row :: rows, itemData, log =>
    if (itemData ++ [row]).length = maxMultiInsertCount then
      hnotokReturn (multiInsertImpl bufsize strTabName header (itemData ++ [row]) log) log
        fun log' => multiInsertLoop rows [] log'
    else multiInsertLoop rows (itemData ++ [row]) log

def multiInsert (rows : List (List Text)) : Outcome (HRet × List Text) :=
  multiInsertLoop bufsize strTabName header rows [] []

end Calls

/-- The server reads the rows that were given, between 1 and 256 of them in each statement. -/
def Transmits (escapes : Bool) (strTabName : Text) (header : List Text) (rows : List (List Text))
    (log : List Text) : Prop :=
  ∃ chunks : List (List (List Text)),
    log.map (fun sql => readRows escapes (valuesOf strTabName header sql)) = chunks.map some ∧
    chunks.flatten = rows ∧
    (∀ chunk ∈ chunks, 1 ≤ chunk.length ∧ chunk.length ≤ maxMultiInsertCount) ∧
    (rows = [] → log = [])

/-! ## What is sent -/

section Sent

variable {bufsize : Nat} {strTabName : Text} {header : List Text} {ret : HRet} {log log' : List Text}

/-- The statements of chunks of rows. -/
structure Sent (strTabName : Text) (header : List Text) (rows : List (List Text))
    (log log' : List Text) (chunks : List (List (List Text))) : Prop where
  log : log' = log ++ chunks.map (insertSql strTabName header)
  flatten : chunks.flatten = rows
  size : ∀ chunk ∈ chunks, 1 ≤ chunk.length ∧ chunk.length ≤ maxMultiInsertCount

theorem multiInsertImpl_ok (htable : strTabName ≠ []) {data : List (List Text)} {log : List Text}
    {out : HRet × List Text} (h : multiInsertImpl bufsize strTabName header data log = .ok out) :
    out = (.ok, log ++ [insertSql strTabName header data]) := by
  rw [multiInsertImpl, if_neg htable, hstrFormat] at h
  split at h
  · exact (Outcome.ok.inj h).symm
  · cases h

theorem multiInsertLoop_sent (htable : strTabName ≠ []) {rows itemData : List (List Text)}
    (hsize : itemData.length < maxMultiInsertCount)
    (h : multiInsertLoop bufsize strTabName header rows itemData log = .ok (ret, log')) :
    ∃ chunks, Sent strTabName header (itemData ++ rows) log log' chunks := by
  induction rows generalizing itemData log with
  | nil =>
    rw [multiInsertLoop] at h
    split at h
    · rename_i hempty
      cases h
      subst hempty
      exact ⟨[], (List.append_nil _).symm, rfl, List.forall_mem_nil _⟩
    · rename_i hne
      obtain ⟨out, himpl, h⟩ := Outcome.bind_eq_ok.mp h
      obtain rfl := multiInsertImpl_ok htable himpl
      cases h
      refine ⟨[itemData], rfl, by rw [List.flatten_singleton, List.append_nil], ?_⟩
      exact List.forall_mem_singleton.mpr ⟨List.length_pos_of_ne_nil hne, hsize.le⟩
  | cons row rows ih =>
    rw [multiInsertLoop] at h
    split at h
    · rename_i hfull
      obtain ⟨out, himpl, h⟩ := Outcome.bind_eq_ok.mp h
      obtain rfl := multiInsertImpl_ok htable himpl
      obtain ⟨chunks, hsent⟩ := ih (by decide) h
      refine ⟨(itemData ++ [row]) :: chunks, ?_, ?_, ?_⟩
      · rw [hsent.log, List.append_assoc]
        rfl
      · rw [List.flatten_cons, hsent.flatten, List.append_assoc]
        rfl
      · exact List.forall_mem_cons.mpr ⟨⟨by rw [hfull]; decide, hfull.le⟩, hsent.size⟩
    · rename_i hnot
      obtain ⟨chunks, hsent⟩ := ih (by
        rw [List.length_append, List.length_singleton] at hnot ⊢
        omega) h
      rw [List.append_assoc] at hsent
      exact ⟨chunks, hsent⟩

theorem multiInsertLoop_noTable {rows itemData : List (List Text)}
    (h : multiInsertLoop bufsize [] header rows itemData log = .ok (ret, log')) : log' = log := by
  induction rows generalizing itemData log with
  | nil =>
    rw [multiInsertLoop] at h
    split at h
    · cases h
      rfl
    · cases h
      rfl
  | cons row rows ih =>
    rw [multiInsertLoop] at h
    split at h
    · cases h
      rfl
    · exact ih h

end Sent

/-! ## The text of a `VALUES` list -/

section Values

variable {escapes : Bool}

theorem flatMap_separator {α : Type} {l : List α} (hl : l ≠ []) (f : α → Text) (sep : Byte) :
    (l.flatMap fun a => f a ++ [sep]) = [sep].intercalate (l.map f) ++ [sep] := by
  induction l with
  | nil => exact absurd rfl hl
  | cons a l ih =>
    cases l with
    | nil =>
      rw [List.flatMap_singleton, List.map_singleton, List.intercalate_singleton]
    | cons b l =>
      rw [List.flatMap_cons, ih (List.cons_ne_nil b l)]
      simp only [List.map_cons, List.intercalate_cons_cons, List.append_assoc]

theorem dropLast_separator {α : Type} {l : List α} (hl : l ≠ []) (f : α → Text) (sep : Byte)
    (pre : Text) :
    (pre ++ l.flatMap fun a => f a ++ [sep]).dropLast = pre ++ [sep].intercalate (l.map f) := by
  rw [flatMap_separator hl, ← List.append_assoc, List.dropLast_concat]

def cellText (c : Text) : Text := [quote] ++ c ++ [quote]

theorem rowVal_eq {row : List Text} (hrow : row ≠ []) :
    rowVal row = lpar :: blank :: ([comma].intercalate (row.map cellText) ++ [rpar]) := by
  have hcells : (row.flatMap fun val => [quote] ++ val ++ [quote, comma]) =
      row.flatMap fun val => cellText val ++ [comma] := by
    simp only [cellText, List.append_assoc]
    rfl
  rw [rowVal, hcells, dropLast_separator hrow]
  rfl

theorem values_eq {data : List (List Text)} (hdata : data ≠ []) :
    values data = blank :: [comma].intercalate (data.map rowVal) :=
  dropLast_separator hdata rowVal comma [blank]

/-- The tokens of a row, from its first cell on. -/
def cellTokens : List Text → List Token
  | [] => [.rpar]
  | [c] => [.literal c, .rpar]
  | c :: c' :: cs => .literal c :: .comma :: cellTokens (c' :: cs)

theorem lex_cells {cells : List Text} (hne : cells ≠ []) (hclean : ∀ c ∈ cells, Clean escapes c)
    {rest : Text} {ts : List Token} (h : lex escapes .outside rest = some ts) :
    lex escapes .outside ([comma].intercalate (cells.map cellText) ++ rpar :: rest) =
      some (cellTokens cells ++ ts) := by
  induction cells with
  | nil => exact absurd rfl hne
  | cons c cs ih =>
    obtain ⟨hc, hcs⟩ := List.forall_mem_cons.mp hclean
    cases cs with
    | nil =>
      have hlit := lex_literal hc (show outsideToken rpar = some [.rpar] by rfl) h
      rw [List.map_singleton, List.intercalate_singleton, cellText, List.append_assoc]
      exact hlit
    | cons c' cs =>
      have hlit := lex_literal hc (show outsideToken comma = some [.comma] by rfl)
        (ih (List.cons_ne_nil c' cs) hcs)
      rw [List.map_cons, List.map_cons, List.intercalate_cons_cons, cellText]
      simp only [List.append_assoc] at hlit ⊢
      exact hlit

theorem parse_cells (row : List Text) {cells : List Text} (hne : cells ≠ []) {ts : List Token}
    {rows : List (List Text)} (h : parse .afterRow ts = some rows) :
    parse (.cell row) (cellTokens cells ++ ts) = some ((row ++ cells) :: rows) := by
  induction cells generalizing row with
  | nil => exact absurd rfl hne
  | cons c cs ih =>
    cases cs with
    | nil =>
      show (parse .afterRow ts >>= fun rows => some ((row ++ [c]) :: rows)) = _
      rw [h]
      rfl
    | cons c' cs =>
      have hnext := ih (row ++ [c]) (List.cons_ne_nil c' cs)
      rw [List.append_assoc] at hnext
      exact hnext

theorem lex_row {cells : Text} {ts : List Token} (h : lex escapes .outside cells = some ts) :
    lex escapes .outside (lpar :: blank :: cells) = some (.lpar :: ts) :=
  lex_token (show outsideToken lpar = some [.lpar] by rfl)
    (lex_token (show outsideToken blank = some [] by rfl) h)

def rowTokens : List (List Text) → List Token
  | [] => []
  | [row] => .lpar :: cellTokens row
  | row :: row' :: rows => .lpar :: (cellTokens row ++ .comma :: rowTokens (row' :: rows))

theorem lex_rows {data : List (List Text)} (hne : ∀ row ∈ data, row ≠ [])
    (hclean : ∀ row ∈ data, ∀ c ∈ row, Clean escapes c) :
    lex escapes .outside ([comma].intercalate (data.map rowVal)) = some (rowTokens data) := by
  induction data with
  | nil => rfl
  | cons row data ih =>
    obtain ⟨hrow, hdata⟩ := List.forall_mem_cons.mp hne
    obtain ⟨hc, hcs⟩ := List.forall_mem_cons.mp hclean
    cases data with
    | nil =>
      have hcells := lex_cells hrow hc (show lex escapes .outside [] = some [] by rfl)
      have hrows := lex_row hcells
      rw [List.append_nil] at hrows
      rw [List.map_singleton, List.intercalate_singleton, rowVal_eq hrow]
      exact hrows
    | cons row' data =>
      have hrest := lex_token (show outsideToken comma = some [.comma] by rfl) (ih hdata hcs)
      have hrows := lex_row (lex_cells hrow hc hrest)
      rw [List.map_cons, List.map_cons, List.intercalate_cons_cons, rowVal_eq hrow]
      simp only [List.append_assoc, List.cons_append, List.nil_append] at hrows ⊢
      exact hrows

theorem parse_rows {data : List (List Text)} (hdata : data ≠ []) (hne : ∀ row ∈ data, row ≠ []) :
    parse .rowStart (rowTokens data) = some data := by
  induction data with
  | nil => exact absurd rfl hdata
  | cons row data ih =>
    obtain ⟨hrow, hrest⟩ := List.forall_mem_cons.mp hne
    cases data with
    | nil =>
      have hcells := parse_cells [] hrow (show parse .afterRow [] = some [] by rfl)
      rw [List.append_nil] at hcells
      exact hcells
    | cons row' data =>
      have hnext : parse .afterRow (.comma :: rowTokens (row' :: data)) = some (row' :: data) :=
        ih (List.cons_ne_nil row' data) hrest
      exact parse_cells [] hrow hnext

/-- The server reads clean cells as they are. -/
theorem readRows_values {data : List (List Text)} (hdata : data ≠ [])
    (hne : ∀ row ∈ data, row ≠ []) (hclean : ∀ row ∈ data, ∀ c ∈ row, Clean escapes c) :
    readRows escapes (values data) = some data := by
  have hlex := lex_token (show outsideToken blank = some [] by rfl) (lex_rows hne hclean)
  rw [readRows, values_eq hdata, hlex]
  exact parse_rows hdata hne

/-! ## The marks of a `VALUES` list -/

theorem marks_intercalate {α : Type} (l : List α) (f : α → Text) :
    marks ([comma].intercalate (l.map f)) = (l.map fun a => marks (f a)).sum := by
  induction l with
  | nil => rfl
  | cons a l ih =>
    cases l with
    | nil => simp [List.intercalate_singleton]
    | cons b l =>
      rw [List.map_cons, List.map_cons, List.intercalate_cons_cons, marks_append, marks_append,
        ← List.map_cons, ih, List.map_cons, List.sum_cons, show marks [comma] = 0 by decide]
      rfl

theorem marks_rowVal {row : List Text} (hrow : row ≠ []) : marks (rowVal row) = weight row := by
  have hcell : ∀ c, marks (cellText c) = 2 + marks c := by
    intro c
    rw [cellText, marks_append, marks_append, show marks [quote] = 1 by decide]
    omega
  rw [rowVal_eq hrow, marks_cons lpar, marks_cons blank, marks_append, marks_intercalate,
    show marks [lpar] = 0 by decide, show marks [blank] = 0 by decide,
    show marks [rpar] = 0 by decide]
  simp only [hcell, Nat.zero_add, Nat.add_zero]
  rfl

theorem marks_values {data : List (List Text)} (hdata : data ≠ []) (hne : ∀ row ∈ data, row ≠ []) :
    marks (values data) = weight data.flatten := by
  rw [values_eq hdata, marks_cons, show marks [blank] = 0 by decide, Nat.zero_add,
    marks_intercalate]
  clear hdata
  induction data with
  | nil => rfl
  | cons row data ih =>
    obtain ⟨hrow, hrest⟩ := List.forall_mem_cons.mp hne
    rw [List.map_cons, List.sum_cons, marks_rowVal hrow, ih hrest, List.flatten_cons,
      weight_append]

theorem not_mem_values {data : List (List Text)} (h : ∀ row ∈ data, ∀ c ∈ row, 0 ∉ c) :
    ∀ b ∈ values data, b ≠ 0 := by
  have hcell : ∀ c : Text, 0 ∉ c → ∀ b ∈ [quote] ++ c ++ [quote, comma], b ≠ 0 := by
    rintro c hc b hb rfl
    rw [List.mem_append, List.mem_append] at hb
    rcases hb with (hb | hb) | hb
    · exact absurd hb (by decide)
    · exact hc hb
    · exact absurd hb (by decide)
  have hrow : ∀ row : List Text, (∀ c ∈ row, 0 ∉ c) → ∀ b ∈ rowVal row, b ≠ 0 := by
    intro row hr b hb
    rw [rowVal, List.mem_append] at hb
    rcases hb with hb | hb
    · rcases List.mem_append.mp (List.mem_of_mem_dropLast hb) with hb | hb
      · rintro rfl
        exact absurd hb (by decide)
      · obtain ⟨c, hc, hb⟩ := List.mem_flatMap.mp hb
        exact hcell c (hr c hc) b hb
    · rintro rfl
      exact absurd hb (by decide)
  intro b hb
  rcases List.mem_append.mp (List.mem_of_mem_dropLast hb) with hb | hb
  · rintro rfl
    exact absurd hb (by decide)
  · obtain ⟨row, hr, hb⟩ := List.mem_flatMap.mp hb
    rcases List.mem_append.mp hb with hb | hb
    · exact hrow row (h row hr) b hb
    · rintro rfl
      exact absurd hb (by decide)

theorem valuesOf_insertSql (strTabName : Text) (header : List Text) {data : List (List Text)}
    (h : ∀ row ∈ data, ∀ c ∈ row, 0 ∉ c) :
    valuesOf strTabName header (insertSql strTabName header data) = values data := by
  rw [valuesOf, insertSql, List.drop_left, cStr, List.takeWhile_eq_self_iff]
  intro b hb
  exact decide_eq_true (not_mem_values h b hb)

end Values

/-! ## What the server reads -/

section Transmitted

variable {escapes : Bool} {bufsize : Nat} {strTabName : Text} {header : List Text}
  {rows : List (List Text)} {ret : HRet} {log : List Text} {chunks : List (List (List Text))}

/-- The rows of a table: some cells each, of strings without a zero. -/
structure Cells (rows : List (List Text)) : Prop where
  ne_nil : ∀ row ∈ rows, row ≠ []
  noZero : ∀ row ∈ rows, ∀ c ∈ row, 0 ∉ c

theorem Cells.chunk (h : Cells chunks.flatten) {chunk : List (List Text)} (hc : chunk ∈ chunks) :
    Cells chunk where
  ne_nil row hr := h.ne_nil row (List.mem_flatten.mpr ⟨chunk, hc, hr⟩)
  noZero row hr := h.noZero row (List.mem_flatten.mpr ⟨chunk, hc, hr⟩)

theorem chunk_ne_nil (hsize : ∀ chunk ∈ chunks, 1 ≤ chunk.length ∧
    chunk.length ≤ maxMultiInsertCount) {chunk : List (List Text)} (hc : chunk ∈ chunks) :
    chunk ≠ [] :=
  List.ne_nil_of_length_pos (hsize chunk hc).1

theorem transmits_of_clean (hcells : Cells rows) (hclean : ∀ row ∈ rows, ∀ c ∈ row, Clean escapes c)
    (hsent : Sent strTabName header rows [] log chunks) :
    Transmits escapes strTabName header rows log := by
  obtain ⟨hlog, rfl, hsize⟩ := hsent
  refine ⟨chunks, ?_, rfl, hsize, ?_⟩
  · rw [hlog, List.nil_append, List.map_map]
    refine List.map_congr_left fun chunk hc => ?_
    rw [Function.comp_apply, valuesOf_insertSql _ _ (hcells.chunk hc).noZero]
    refine readRows_values (chunk_ne_nil hsize hc) (hcells.chunk hc).ne_nil fun row hr => ?_
    exact hclean row (List.mem_flatten.mpr ⟨chunk, hc, hr⟩)
  · intro hempty
    cases chunks with
    | nil => exact hlog
    | cons chunk chunks =>
      have hne := chunk_ne_nil hsize List.mem_cons_self
      exact absurd (List.append_eq_nil_iff.mp hempty).1 hne

/-- What is read chunk by chunk weighs no more than what was sent, and the same only if all of it is
clean. -/
theorem weight_chunks {chunks' : List (List (List Text))} (hcells : Cells chunks.flatten)
    (hsize : ∀ chunk ∈ chunks, chunk ≠ [])
    (h : chunks.map (fun chunk => readRows escapes (values chunk)) = chunks'.map some) :
    weight chunks'.flatten.flatten ≤ weight chunks.flatten.flatten ∧
      (weight chunks'.flatten.flatten = weight chunks.flatten.flatten →
        ∀ c ∈ chunks'.flatten.flatten, Clean escapes c) := by
  induction chunks generalizing chunks' with
  | nil =>
    cases chunks' with
    | nil => exact ⟨le_rfl, fun _ => List.forall_mem_nil _⟩
    | cons chunk' chunks' => cases h
  | cons chunk chunks ih =>
    cases chunks' with
    | nil => cases h
    | cons chunk' chunks' =>
      rw [List.map_cons, List.map_cons, List.cons.injEq] at h
      obtain ⟨hread, hrest⟩ := h
      have hhead := hcells.chunk List.mem_cons_self
      obtain ⟨hle, hclean⟩ := weight_readRows hread
      rw [marks_values (hsize chunk List.mem_cons_self) hhead.ne_nil] at hle hclean
      obtain ⟨hle', hclean'⟩ := ih ⟨fun row hr => hcells.ne_nil row (List.mem_append_right _ hr),
        fun row hr => hcells.noZero row (List.mem_append_right _ hr)⟩
        (fun c hc => hsize c (List.mem_cons_of_mem _ hc)) hrest
      simp only [List.flatten_cons, List.flatten_append, weight_append]
      refine ⟨by omega, fun heq => List.forall_mem_append.mpr ⟨?_, ?_⟩⟩
      · exact hclean (by omega)
      · exact hclean' (by omega)

theorem clean_of_transmits (hcells : Cells rows) (hsent : Sent strTabName header rows [] log chunks)
    (h : Transmits escapes strTabName header rows log) :
    ∀ row ∈ rows, ∀ c ∈ row, Clean escapes c := by
  obtain ⟨hlog, rfl, hsize⟩ := hsent
  obtain ⟨chunks', hread, hflat, -, -⟩ := h
  rw [hlog, List.nil_append, List.map_map] at hread
  have hvalues : chunks.map (fun chunk => readRows escapes (values chunk)) = chunks'.map some := by
    rw [← hread]
    refine List.map_congr_left fun chunk hc => ?_
    rw [Function.comp_apply, valuesOf_insertSql _ _ (hcells.chunk hc).noZero]
  have hweight := weight_chunks hcells (fun chunk hc => chunk_ne_nil hsize hc) hvalues
  rw [hflat] at hweight
  intro row hr c hc
  exact hweight.2 rfl c (List.mem_flatten.mpr ⟨row, hr, hc⟩)

end Transmitted

end Db
end Huicpp
