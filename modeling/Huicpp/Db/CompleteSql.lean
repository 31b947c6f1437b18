import Mathlib
import Huicpp.Db.MultiInsert
import Huicpp.Str.Format

/-!
# Db.CompleteSql

What `Format` makes of a string, and of the statement in `multi_insert_impl`, for every length.

* `multiInsertImpl_format`: the statement is what the call of `Format` gives.
* `insertSql_eq_wholeSql_iff`: the strings are passed on up to their first zero.
* `format_complete_iff`: nothing is cut off and nothing is written behind the buffer as long as the
  text is shorter than it.
-/

namespace Huicpp
namespace Db

open Cxx Sql Str

/-- `"INSERT INTO `%s` %s VALUES %s"` and its arguments -/
def insertFormat (strTabName : Sql.Text) (header : List Sql.Text) (data : List (List Sql.Text)) :
    List Piece :=
  [.text (str "INSERT INTO `"), .s strTabName, .text (str "` "), .s (filds header),
    .text (str " VALUES "), .s (values data)]

/-- The statement that the strings make up. -/
def wholeSql (strTabName : Sql.Text) (header : List Sql.Text) (data : List (List Sql.Text)) :
    Sql.Text :=
  str "INSERT INTO `" ++ strTabName ++ str "` " ++ filds header ++ str " VALUES " ++ values data

variable {strTabName : Sql.Text} {header : List Sql.Text} {data : List (List Sql.Text)}

theorem expand_insertFormat :
    expand (insertFormat strTabName header data) = insertSql strTabName header data := by
  simp only [insertFormat, expand, List.flatMap_cons, List.flatMap_nil, Piece.bytes, insertSql,
    insertInto, List.append_assoc, List.append_nil]
  rfl

theorem insertSql_noZero : 0 ∉ insertSql strTabName header data := by
  simp only [insertSql, insertInto, List.mem_append, not_or]
  have hcStr : ∀ s : Sql.Text, 0 ∉ cStr s := Text.not_mem_cStr
  exact ⟨⟨⟨⟨⟨by decide, hcStr _⟩, by decide⟩, hcStr _⟩, by decide⟩, hcStr _⟩

theorem insertSql_eq_wholeSql_iff :
    insertSql strTabName header data = wholeSql strTabName header data ↔
      0 ∉ wholeSql strTabName header data := by
  constructor
  · intro heq
    rw [← heq]
    exact insertSql_noZero
  · intro hzero
    simp only [wholeSql, List.mem_append, not_or] at hzero
    obtain ⟨⟨⟨⟨⟨_, htab⟩, _⟩, hfilds⟩, _⟩, hvalues⟩ := hzero
    have hself : ∀ s : Sql.Text, 0 ∉ s → cStr s = s := fun s => Text.cStr_eq_self
    rw [insertSql, insertInto, wholeSql, hself _ htab, hself _ hfilds, hself _ hvalues]

theorem multiInsertImpl_format (htable : strTabName ≠ []) (log : List Sql.Text) :
    multiInsertImpl hstringLen strTabName header data log = do
      let sql ← format (insertFormat strTabName header data)
      return (.ok, log ++ [sql]) := by
  have hzero : 0 ∉ expand (insertFormat strTabName header data) := by
    rw [expand_insertFormat]
    exact insertSql_noZero
  rw [multiInsertImpl, if_neg htable, format_eq hzero, expand_insertFormat, hstrFormat]

theorem multiInsertImpl_complete_iff (htable : strTabName ≠ []) (log : List Sql.Text) :
    multiInsertImpl hstringLen strTabName header data log =
        .ok (.ok, log ++ [wholeSql strTabName header data]) ↔
      0 ∉ wholeSql strTabName header data ∧
        (wholeSql strTabName header data).length < hstringLen := by
  rw [multiInsertImpl, if_neg htable, hstrFormat, ← insertSql_eq_wholeSql_iff]
  by_cases hfits : (insertSql strTabName header data).length < hstringLen
  · rw [if_pos hfits]
    show Outcome.ok _ = Outcome.ok _ ↔ _
    rw [Outcome.ok.injEq, Prod.mk.injEq, and_iff_right rfl, List.append_cancel_left_eq,
      List.singleton_inj]
    exact (and_iff_left_of_imp fun heq => heq ▸ hfits).symm
  · rw [if_neg hfits]
    refine iff_of_false (fun h => by cases h) fun h => hfits (h.1 ▸ h.2)

/-- **Formatting.** A string comes out as it is, and the statement of `multi_insert_impl` goes to
`Execute` complete, exactly as long as they are shorter than the buffer. -/
theorem format_complete_iff (s t : List Byte) (hs : 0 ∉ s) (strTabName : Sql.Text)
    (header : List Sql.Text) (data : List (List Sql.Text)) (log : List Sql.Text)
    (htable : strTabName ≠ []) :
    (format [.s s] = .ok s ↔ s.length < hstringLen) ∧
    (appendFormat t [.s s] = .ok (t ++ s) ↔ s.length < hstringLen) ∧
    (multiInsertImpl hstringLen strTabName header data log =
        .ok (.ok, log ++ [wholeSql strTabName header data]) ↔
      0 ∉ wholeSql strTabName header data ∧
        (wholeSql strTabName header data).length < hstringLen) := by
  have hzero : 0 ∉ expand [.s s] := (expand_s hs).symm ▸ hs
  refine ⟨?_, ?_, multiInsertImpl_complete_iff htable log⟩
  · rw [format_eq hzero, expand_s hs, ok_iff_fits]
  · rw [appendFormat_eq hzero, expand_s hs, ok_iff_fits]

/-- `a`, and a table without columns -/
theorem format_complete_iff_short : format [.s [97]] = .ok [97] ∧
    multiInsertImpl hstringLen (str "t") [] [] [] = .ok (.ok, [wholeSql (str "t") [] []]) := by
  obtain ⟨hformat, _, hinsert⟩ :=
    format_complete_iff [97] [] (by decide) (str "t") [] [] [] (by decide)
  exact ⟨hformat.mpr (by decide), hinsert.mpr ⟨by decide, by decide⟩⟩

/-- 2048 times `a` is written behind the buffer. -/
theorem format_overruns : ¬ ∀ s : List Byte, 0 ∉ s → format [.s s] = .ok s := by
  intro hall
  have hzero : (0 : Byte) ∉ List.replicate 2048 97 := by
    intro hmem
    exact absurd (List.eq_of_mem_replicate hmem) (by decide)
  have hlong : ¬ (List.replicate 2048 (97 : Byte)).length < hstringLen := by
    rw [List.length_replicate]
    decide
  have hexpand := expand_s hzero
  have hok := hall _ hzero
  rw [format_eq (hexpand.symm ▸ hzero), hexpand, if_neg hlong] at hok
  cases hok

end Db
end Huicpp
