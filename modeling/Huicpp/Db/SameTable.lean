import Mathlib
import Huicpp.Cxx.ForLoop
import Huicpp.Cxx.Text
import Huicpp.Db.HDBRes

/-!
# Db.SameTable

The two loops that make a table of what a client library delivers: `GetResult` for SQLite, and
`saveRes` for MySQL.

* `saveRes_eq`: the table of MySQL.
* `getResult_eq`, `getResult_null`: the table of SQLite, which has a header only if it has a row. A
  NULL is a null pointer there, and a string is made of it.
* `sameTable_iff`: when both are the same.
-/

namespace Huicpp
namespace Db

open Cxx Cxx.Text Sql

/-- A result, as a server has it. A cell that is not there is NULL. -/
structure ResultSet where
  columns : List Text
  rows : List (List (Option Text))
  width : ∀ row ∈ rows, row.length = columns.length
  namesNoZero : ∀ name ∈ columns, 0 ∉ name
  cellsNoZero : ∀ row ∈ rows, ∀ cell ∈ row, ∀ text ∈ cell, 0 ∉ text

/-- `"NULL"` -/
def nullText : Text := [78, 85, 76, 76]

/-- `std::string` of a pointer to its characters. -/
def stringOf (p : Option Text) : Outcome Text :=
  match p with
  | none => .undef .nullAccess
  | some s => .ok (Text.cStr s)

/-- `v.push_back(elem(i))` -/
def pushBack (elem : Nat → Outcome Text) (i : Nat) (v : List Text) : Outcome (List Text) := do
  let text ← elem i
  return v ++ [text]

/-- `for (i = 0; i < n; ++i) v.push_back(elem(i))` -/
def pushEach (elem : Nat → Outcome Text) (n : Nat) (v : List Text) : Outcome (List Text) :=
  forRange (pushBack elem) n v

namespace SqliteDrive

/-- `sqlite3_column_name` -/
def columnName (rs : ResultSet) (i : Nat) : Option Text := rs.columns[i]?

/-- `sqlite3_column_text`, which is null for a NULL. -/
def columnText (row : List (Option Text)) (i : Nat) : Option Text := row[i]?.join

/-- `fill column name` -/
def fillHeader (rs : ResultSet) (header : List Text) : Outcome (List Text) :=
  if header.isEmpty then pushEach (fun i => stringOf (columnName rs i)) rs.columns.length header
  else .ok header

/-- `fill column value` -/
def fillRow (rs : ResultSet) (row : List (Option Text)) : Outcome (List Text) :=
  pushEach (fun i => stringOf (columnText row i)) rs.columns.length []

/-- The loop over the rows that `sqlite3_step` comes to, with `header` and `data`. -/
def fetchRows (rs : ResultSet) :
    List (List (Option Text)) → List Text → List (List Text) → Outcome (List Text × List (List Text))
  | [], header, data => .ok (header, data)
  | row :: rows, header, data => do
    let header ← fillHeader rs header
    let row ← fillRow rs row
    fetchRows rs rows header (data ++ [row])

/-- `sqlite_drive::GetResult`, with what `sqlite3_prepare` makes of the statement. The result has the
final `res`. -/
def getResult (inited : Bool) (prepared : Option ResultSet) (res : HDBRes) :
    Outcome (HRet × HDBRes) :=
  if !inited then .ok (.srcErr, res)
  else
    let res := res.clear
    match prepared with
    | none => .ok (.invlPara, res)
    | some rs => do
      let (header, data) ← fetchRows rs rs.rows [] []
      return (.ok, (res.setHeader header).setData data)

end SqliteDrive

namespace MysqlDrive

/-- `_row[i] ? _row[i] : "NULL"` -/
def cellText (row : List (Option Text)) (i : Nat) : Outcome Text := do
  let cell ← elementAt row i
  match cell with
  | some text => stringOf (some text)
  | none => return nullText

/-- The loop over the rows that `mysql_fetch_row` delivers. -/
def addRows (filedNum : Nat) : List (List (Option Text)) → HDBRes → Outcome HDBRes
  | [], res => .ok res
  | row :: rows, res => do
    let row ← pushEach (cellText row) filedNum []
    addRows filedNum rows (res.addRow row)

/-- `saveRes`. The result has the final `res`. -/
def saveRes (dbRes : ResultSet) (res : HDBRes) : Outcome HDBRes :=
  let res := res.clear
  let filedNum := dbRes.columns.length
  let names := dbRes.columns.foldl (fun names field => names ++ [Text.cStr field]) []
  addRows filedNum dbRes.rows (res.setHeader names)

end MysqlDrive

/-- Both fill their table with the same header and the same rows, whatever was in it. -/
def SameTable (rs : ResultSet) (old old' : HDBRes) : Prop :=
  ∃ t, SqliteDrive.getResult true (some rs) old = .ok (.ok, t) ∧ MysqlDrive.saveRes rs old' = .ok t

/-! ## Filling a row -/

section Loops

variable {elem : Nat → Outcome Text} {ts v : List Text} {rs : ResultSet}
  {row : List (Option Text)} {rows : List (List (Option Text))}

theorem pushBack_ok {i : Nat} {text : Text} (h : elem i = .ok text) (v : List Text) :
    pushBack elem i v = .ok (v ++ [text]) := by
  rw [pushBack, h]
  rfl

theorem pushEach_eq (h : ∀ i (hi : i < ts.length), elem i = .ok ts[i]) :
    pushEach elem ts.length v = .ok (v ++ ts) := by
  have hstart : v = v ++ ts.take 0 := by rw [List.take_zero, List.append_nil]
  obtain ⟨v', hrun, rfl⟩ := @forRange_ok _ (pushBack elem) ts.length v
    (fun i v' => v' = v ++ ts.take i) hstart fun i v' hi hv => by
      refine ⟨_, pushBack_ok (h i hi) v', ?_⟩
      rw [hv, List.append_assoc, ← List.take_succ_eq_append_getElem hi]
  rw [pushEach, hrun, List.take_length]

theorem pushEach_undef {n k : Nat} (hk : k < n) (hbefore : ∀ i < k, ∃ t, elem i = .ok t)
    (hnull : elem k = .undef .nullAccess) : pushEach elem n v = .undef .nullAccess := by
  obtain ⟨v', hrun, _⟩ := @forRange_ok _ (pushBack elem) k v (fun _ _ => True) trivial
    fun i v' hi _ => by
      obtain ⟨t, ht⟩ := hbefore i hi
      exact ⟨_, pushBack_ok ht v', trivial⟩
  have hstop : ∀ m, k < m → forRange (pushBack elem) m v = .undef .nullAccess := by
    intro m hm
    induction m with
    | zero => exact absurd hm (Nat.not_lt_zero k)
    | succ m ih =>
      rcases Nat.lt_succ_iff_lt_or_eq.mp hm with hlt | rfl
      · rw [forRange, ih hlt, Outcome.undef_bind]
      · rw [forRange, hrun, Outcome.ok_bind, pushBack, hnull, Outcome.undef_bind]
  exact hstop n hk

theorem ResultSet.cStr_name (rs : ResultSet) {name : Text} (h : name ∈ rs.columns) :
    Text.cStr name = name :=
  cStr_eq_self (rs.namesNoZero name h)

theorem ResultSet.cStr_cell (rs : ResultSet) (hrow : row ∈ rs.rows) {text : Text}
    (h : some text ∈ row) : Text.cStr text = text :=
  cStr_eq_self (rs.cellsNoZero row hrow _ h text rfl)

/-- A row, as MySQL renders it. -/
def rendered (row : List (Option Text)) : List Text := row.map fun cell => cell.getD nullText

@[simp] theorem rendered_length (row : List (Option Text)) : (rendered row).length = row.length :=
  List.length_map _

/-! ## MySQL -/

theorem cellText_eq (hrow : row ∈ rs.rows) {i : Nat} (hi : i < (rendered row).length) :
    MysqlDrive.cellText row i = .ok (rendered row)[i] := by
  have hi' : i < row.length := by rwa [rendered_length] at hi
  simp only [MysqlDrive.cellText, elementAt_of_lt hi', Outcome.ok_bind, rendered, List.getElem_map]
  cases hcell : row[i] with
  | none => rfl
  | some text => exact congrArg Outcome.ok (rs.cStr_cell hrow (hcell ▸ List.getElem_mem hi'))

theorem addRows_eq (hrows : rows ⊆ rs.rows) (res : HDBRes) :
    MysqlDrive.addRows rs.columns.length rows res =
      .ok ⟨res.header, res.data ++ rows.map rendered⟩ := by
  induction rows generalizing res with
  | nil => rw [MysqlDrive.addRows, List.map_nil, List.append_nil]
  | cons row rows ih =>
    obtain ⟨hrow, hrest⟩ := List.cons_subset.mp hrows
    have hpush : pushEach (MysqlDrive.cellText row) rs.columns.length [] = .ok (rendered row) := by
      have hlen : rs.columns.length = (rendered row).length := by
        rw [rendered_length, rs.width row hrow]
      rw [hlen, pushEach_eq fun i hi => cellText_eq hrow hi, List.nil_append]
    rw [MysqlDrive.addRows, hpush, Outcome.ok_bind, ih hrest, HDBRes.addRow, List.append_assoc]
    rfl

theorem saveRes_eq (rs : ResultSet) (old : HDBRes) :
    MysqlDrive.saveRes rs old = .ok ⟨rs.columns, rs.rows.map rendered⟩ := by
  have hnames : ∀ (fields names : List Text), fields ⊆ rs.columns →
      fields.foldl (fun names field => names ++ [Text.cStr field]) names = names ++ fields := by
    intro fields
    induction fields with
    | nil => exact fun names _ => (List.append_nil names).symm
    | cons field fields ih =>
      intro names hfields
      obtain ⟨hfield, hrest⟩ := List.cons_subset.mp hfields
      rw [List.foldl_cons, rs.cStr_name hfield, ih _ hrest, List.append_assoc]
      rfl
  rw [MysqlDrive.saveRes, addRows_eq (List.Subset.refl _), hnames _ _ (List.Subset.refl _)]
  rfl

/-! ## SQLite -/

theorem header_filled (rs : ResultSet) {header : List Text} (h : header = [] ∨ header = rs.columns) :
    SqliteDrive.fillHeader rs header = .ok rs.columns := by
  have hfill : pushEach (fun i => stringOf (SqliteDrive.columnName rs i)) rs.columns.length [] =
      .ok rs.columns := by
    refine pushEach_eq fun i hi => ?_
    rw [SqliteDrive.columnName, List.getElem?_eq_getElem hi, stringOf,
      rs.cStr_name (List.getElem_mem hi)]
  rcases h with rfl | rfl
  · exact hfill
  · rw [SqliteDrive.fillHeader]
    split
    · rename_i hempty
      rw [List.isEmpty_iff] at hempty
      rw [hempty] at hfill ⊢
      exact hfill
    · rfl

theorem fillRow_eq (hrow : row ∈ rs.rows) (hfull : none ∉ row) :
    SqliteDrive.fillRow rs row = .ok (rendered row) := by
  have hlen : rs.columns.length = (rendered row).length := by
    rw [rendered_length, rs.width row hrow]
  rw [SqliteDrive.fillRow, hlen]
  refine pushEach_eq fun i hi => ?_
  have hi' : i < row.length := by rwa [rendered_length] at hi
  simp only [SqliteDrive.columnText, List.getElem?_eq_getElem hi', rendered, List.getElem_map]
  cases hcell : row[i] with
  | none => exact absurd (hcell ▸ List.getElem_mem hi') hfull
  | some text => exact congrArg Outcome.ok (rs.cStr_cell hrow (hcell ▸ List.getElem_mem hi'))

theorem fillRow_null (hrow : row ∈ rs.rows) (hnull : none ∈ row) :
    SqliteDrive.fillRow rs row = .undef .nullAccess := by
  have hlt : row.idxOf none < row.length := List.idxOf_lt_length_of_mem hnull
  refine pushEach_undef (rs.width row hrow ▸ hlt) (fun i hi => ?_) ?_
  · have hcell : row.get ⟨i, hi.trans hlt⟩ ≠ none := by
      have hearlier := List.not_of_lt_findIdx hi
      rw [beq_eq_false_iff_ne] at hearlier
      exact hearlier
    obtain ⟨text, htext⟩ := Option.ne_none_iff_exists'.mp hcell
    rw [List.get_eq_getElem] at htext
    refine ⟨Text.cStr text, ?_⟩
    rw [SqliteDrive.columnText, List.getElem?_eq_getElem (hi.trans hlt), htext]
    rfl
  · rw [SqliteDrive.columnText, List.getElem?_eq_getElem hlt, List.getElem_idxOf]
    rfl

theorem fetchRows_eq (hrows : rows ⊆ rs.rows) (hfull : ∀ row ∈ rows, none ∉ row)
    {header : List Text} (hheader : header = [] ∨ header = rs.columns) (data : List (List Text)) :
    SqliteDrive.fetchRows rs rows header data =
      .ok (if rows = [] then header else rs.columns, data ++ rows.map rendered) := by
  induction rows generalizing header data with
  | nil => rw [SqliteDrive.fetchRows, if_pos rfl, List.map_nil, List.append_nil]
  | cons row rows ih =>
    obtain ⟨hrow, hrest⟩ := List.cons_subset.mp hrows
    obtain ⟨hfirst, hlater⟩ := List.forall_mem_cons.mp hfull
    rw [SqliteDrive.fetchRows, header_filled rs hheader, Outcome.ok_bind,
      fillRow_eq hrow hfirst, Outcome.ok_bind, ih hrest hlater (.inr rfl), ite_self,
      if_neg (List.cons_ne_nil _ _), List.append_assoc]
    rfl

theorem fetchRows_null (hrows : rows ⊆ rs.rows) (hnull : ∃ row ∈ rows, none ∈ row)
    {header : List Text} (hheader : header = [] ∨ header = rs.columns) (data : List (List Text)) :
    SqliteDrive.fetchRows rs rows header data = .undef .nullAccess := by
  induction rows generalizing header data with
  | nil =>
    obtain ⟨_, hmem, _⟩ := hnull
    exact absurd hmem List.not_mem_nil
  | cons row rows ih =>
    obtain ⟨hrow, hrest⟩ := List.cons_subset.mp hrows
    rw [SqliteDrive.fetchRows, header_filled rs hheader, Outcome.ok_bind]
    by_cases hfirst : none ∈ row
    · rw [fillRow_null hrow hfirst, Outcome.undef_bind]
    · obtain ⟨row', hmem, hnull'⟩ := hnull
      have hlater : row' ∈ rows := by
        rcases List.mem_cons.mp hmem with rfl | hmem
        · exact absurd hnull' hfirst
        · exact hmem
      rw [fillRow_eq hrow hfirst, Outcome.ok_bind]
      exact ih hrest ⟨row', hlater, hnull'⟩ (.inr rfl) _

/-- The table of SQLite, when there is no NULL. -/
theorem getResult_eq (hfull : ∀ row ∈ rs.rows, none ∉ row) (old : HDBRes) :
    SqliteDrive.getResult true (some rs) old =
      .ok (.ok, ⟨if rs.rows = [] then [] else rs.columns, rs.rows.map rendered⟩) := by
  show (SqliteDrive.fetchRows rs rs.rows [] [] >>= fun p => _) = _
  rw [fetchRows_eq (List.Subset.refl _) hfull (.inl rfl)]
  rfl

theorem getResult_null (hnull : ∃ row ∈ rs.rows, none ∈ row) (old : HDBRes) :
    SqliteDrive.getResult true (some rs) old = .undef .nullAccess := by
  show (SqliteDrive.fetchRows rs rs.rows [] [] >>= fun p => _) = _
  rw [fetchRows_null (List.Subset.refl _) hnull (.inl rfl), Outcome.undef_bind]

end Loops

/-- **The same table.** The two drives agree when no cell is NULL, and the header is not lost for
want of a row. -/
theorem sameTable_iff (rs : ResultSet) (old old' : HDBRes) :
    SameTable rs old old' ↔
      (∀ row ∈ rs.rows, none ∉ row) ∧ (rs.rows = [] → rs.columns = []) := by
  rw [SameTable, saveRes_eq]
  by_cases hfull : ∀ row ∈ rs.rows, none ∉ row
  · rw [getResult_eq hfull, and_iff_right hfull]
    constructor
    · rintro ⟨t, hsqlite, hmysql⟩ hnone
      rw [if_pos hnone, ← Outcome.ok.inj hmysql] at hsqlite
      exact (congrArg (fun p => p.2.header) (Outcome.ok.inj hsqlite)).symm
    · intro hheader
      refine ⟨_, rfl, ?_⟩
      by_cases hnone : rs.rows = []
      · rw [if_pos hnone, hheader hnone]
      · rw [if_neg hnone]
  · refine iff_of_false ?_ fun h => hfull h.1
    rintro ⟨t, hsqlite, _⟩
    push Not at hfull
    rw [getResult_null hfull] at hsqlite
    cases hsqlite

/-- One column, no rows -/
def noRows : ResultSet where
  columns := [[97]]
  rows := []
  width := List.forall_mem_nil _
  namesNoZero := by decide
  cellsNoZero := List.forall_mem_nil _

theorem tables_differ : ¬ ∀ (rs : ResultSet) (old old' : HDBRes), SameTable rs old old' := by
  intro hall
  obtain ⟨t, hsqlite, hmysql⟩ := hall noRows ⟨[], []⟩ ⟨[], []⟩
  rw [getResult_eq (List.forall_mem_nil _)] at hsqlite
  rw [saveRes_eq] at hmysql
  cases Outcome.ok.inj hmysql
  cases hsqlite

end Db
end Huicpp
