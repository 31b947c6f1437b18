import Mathlib
import Huicpp.HRet
import Huicpp.Sql.Literals

/-!
# Db.HDBRes

A result as a table with a header, and the two lookups in it: by row and column, and by the name of
the column and the row.

* `getValueByName_cell`, `getValueByName_throws_iff`: the second lookup.
* `getValue_throws`: the first one finds nothing, since its last assertion is the wrong way round.
* `lookupsAgree_iff`: where the two agree.
-/

namespace Huicpp
namespace Db

open Cxx Sql

/-- What is thrown. -/
structure HException where
  msg : String
  err : HRet
  deriving DecidableEq, Repr

/-- `HASSERT_MSG_THROW(ff, msg, ee)`, and what follows it. -/
def assertMsgThrow {α : Type} (ff : Prop) [Decidable ff] (msg : String) (ee : HRet)
    (rest : Outcome (Except HException α)) : Outcome (Except HException α) :=
  if ff then rest else .ok (.error ⟨msg, ee⟩)

/-- `v[k]` -/
def elementAt {α : Type} (v : List α) (k : Nat) : Outcome α :=
  match v[k]? with
  | some a => .ok a
  | none => .undef .outOfBounds

structure HDBRes where
  header : List Text
  data : List (List Text)
  deriving DecidableEq, Repr

namespace HDBRes

def clear (_ : HDBRes) : HDBRes := ⟨[], []⟩

def setHeader (header : List Text) (s : HDBRes) : HDBRes := { s with header := header }

def setData (data : List (List Text)) (s : HDBRes) : HDBRes := { s with data := data }

def addRow (row : List Text) (s : HDBRes) : HDBRes := { s with data := s.data ++ [row] }

/-- `GetValue(strKey, _row)`. `std::find` gives the end of the header for a name that is not there. -/
def getValueByName (s : HDBRes) (strKey : Text) (row : UInt32) : Outcome (Except HException Text) :=
  assertMsgThrow (row.toNat < s.data.length) "HDBRes::GetValue row number overflow" .invlPara do
    let fit := s.header.idxOf strKey
    assertMsgThrow (fit ≠ s.header.length) "HDBRes::GetValue key column is not found" .invlPara do
      let r ← elementAt s.data row.toNat
      let val ← elementAt r fit
      return .ok val

/-- `GetValue(i, j)` -/
def getValue (s : HDBRes) (i j : UInt32) : Outcome (Except HException Text) :=
  assertMsgThrow (i.toNat < s.data.length) "HDBRes::GetValue row number overflow" .invlPara <|
  assertMsgThrow (j.toNat < s.header.length) "HDBRes::GetValue column number overflow" .invlPara do
    let r ← elementAt s.data i.toNat
    assertMsgThrow (r.length ≤ j.toNat) "HDBRes row source is invalid" .srcErr do
      let val ← elementAt r j.toNat
      return .ok val

/-- The name of column `j`, and its cell in row `i`. -/
def Cell (s : HDBRes) (i j : Nat) (col val : Text) : Prop :=
  s.header[j]? = some col ∧ ∃ row, s.data[i]? = some row ∧ row[j]? = some val

end HDBRes

/-- The columns have different names, and the rows are as long as the header. -/
structure Table extends HDBRes where
  nodup : header.Nodup
  width : ∀ row ∈ data, row.length = header.length

/-- An exception comes out. -/
def Thrown (o : Outcome (Except HException Text)) : Prop := ∃ e, o = .ok (.error e)

/-- What the two lookups have to do, for a row, a column and a name. -/
structure LookupsAgree (s : HDBRes) (i j : UInt32) (name : Text) : Prop where
  cell : ∀ col val, s.Cell i.toNat j.toNat col val →
    s.getValue i j = .ok (.ok val) ∧ s.getValueByName col i = .ok (.ok val)
  noRow : s.data.length ≤ i.toNat →
    Thrown (s.getValue i j) ∧ ∀ col ∈ s.header, Thrown (s.getValueByName col i)
  byPosition : Thrown (s.getValue i j) ↔ s.data.length ≤ i.toNat ∨ s.header.length ≤ j.toNat
  byName : Thrown (s.getValueByName name i) ↔ s.data.length ≤ i.toNat ∨ name ∉ s.header

section Assert

variable {α : Type} {ff : Prop} [Decidable ff] {msg : String} {ee : HRet}
  {rest : Outcome (Except HException α)}

theorem assertMsgThrow_pass (h : ff) : assertMsgThrow ff msg ee rest = rest := if_pos h

theorem assertMsgThrow_fail (h : ¬ ff) : assertMsgThrow ff msg ee rest = .ok (.error ⟨msg, ee⟩) :=
  if_neg h

theorem elementAt_of_lt {v : List α} {k : Nat} (h : k < v.length) : elementAt v k = .ok v[k] := by
  rw [elementAt, List.getElem?_eq_getElem h]

end Assert

/-! ## By name -/

section Lookups

variable {t : Table} {i j : UInt32} {name : Text}

theorem Table.width_at (t : Table) (hi : i.toNat < t.data.length) :
    (t.data[i.toNat]).length = t.header.length :=
  t.width _ (List.getElem_mem hi)

theorem getValueByName_noRow (s : HDBRes) (name : Text) (h : s.data.length ≤ i.toNat) :
    Thrown (s.getValueByName name i) :=
  ⟨_, assertMsgThrow_fail (not_lt.mpr h)⟩

theorem getValueByName_noColumn (s : HDBRes) (h : name ∉ s.header) :
    Thrown (s.getValueByName name i) := by
  by_cases hi : i.toNat < s.data.length
  · refine ⟨⟨"HDBRes::GetValue key column is not found", .invlPara⟩, ?_⟩
    rw [HDBRes.getValueByName, assertMsgThrow_pass hi]
    exact assertMsgThrow_fail (not_not.mpr (List.idxOf_eq_length_iff.mpr h))
  · exact getValueByName_noRow s name (not_lt.mp hi)

theorem getValueByName_found (t : Table) (hi : i.toNat < t.data.length) (hname : name ∈ t.header) :
    ∃ val, t.Cell i.toNat (t.header.idxOf name) name val ∧
      t.getValueByName name i = .ok (.ok val) := by
  have hfit : t.header.idxOf name < t.header.length := List.idxOf_lt_length_of_mem hname
  have hcol : t.header.idxOf name < (t.data[i.toNat]).length := by
    rw [t.width_at hi]
    exact hfit
  refine ⟨(t.data[i.toNat])[t.header.idxOf name], ⟨?_, _, List.getElem?_eq_getElem hi,
    List.getElem?_eq_getElem hcol⟩, ?_⟩
  · rw [List.getElem?_eq_getElem hfit, List.getElem_idxOf]
  · rw [HDBRes.getValueByName, assertMsgThrow_pass hi, assertMsgThrow_pass hfit.ne,
      elementAt_of_lt hi, Outcome.ok_bind, elementAt_of_lt hcol]
    rfl

theorem getValueByName_cell {col val : Text} (h : t.Cell i.toNat j.toNat col val) :
    t.getValueByName col i = .ok (.ok val) := by
  obtain ⟨hcol, row, hrow, hval⟩ := h
  obtain ⟨hj, hcol⟩ := List.getElem?_eq_some_iff.mp hcol
  obtain ⟨hi, _⟩ := List.getElem?_eq_some_iff.mp hrow
  have hfit : t.header.idxOf col = j.toNat := by
    rw [← hcol]
    exact t.nodup.idxOf_getElem j.toNat hj
  obtain ⟨val', ⟨_, row', hrow', hval'⟩, hget⟩ :=
    getValueByName_found t hi (hcol ▸ List.getElem_mem hj)
  rw [hfit, ← Option.some.inj (hrow.symm.trans hrow'), hval] at hval'
  rw [hget, Option.some.inj hval']

theorem getValueByName_throws_iff (t : Table) (i : UInt32) (name : Text) :
    Thrown (t.getValueByName name i) ↔ t.data.length ≤ i.toNat ∨ name ∉ t.header := by
  constructor
  · rintro ⟨e, he⟩
    by_contra h
    obtain ⟨hi, hname⟩ := not_or.mp h
    obtain ⟨val, _, hget⟩ := getValueByName_found t (not_le.mp hi) (not_not.mp hname)
    rw [hget] at he
    cases he
  · rintro (hi | hname)
    · exact getValueByName_noRow _ name hi
    · exact getValueByName_noColumn _ hname

/-! ## By position -/

/-- In range, the assertion about the row fails. -/
theorem getValue_throws (t : Table) (i j : UInt32) : Thrown (t.getValue i j) := by
  by_cases hi : i.toNat < t.data.length
  · by_cases hj : j.toNat < t.header.length
    · have hshort : ¬ (t.data[i.toNat]).length ≤ j.toNat := by
        rw [t.width_at hi]
        exact not_le.mpr hj
      refine ⟨⟨"HDBRes row source is invalid", .srcErr⟩, ?_⟩
      rw [HDBRes.getValue, assertMsgThrow_pass hi, assertMsgThrow_pass hj, elementAt_of_lt hi,
        Outcome.ok_bind, assertMsgThrow_fail hshort]
    · refine ⟨⟨"HDBRes::GetValue column number overflow", .invlPara⟩, ?_⟩
      rw [HDBRes.getValue, assertMsgThrow_pass hi, assertMsgThrow_fail hj]
  · exact ⟨_, assertMsgThrow_fail hi⟩

end Lookups

/-- **The two lookups.** They agree exactly where there is no cell. -/
theorem lookupsAgree_iff (t : Table) (i j : UInt32) (name : Text) :
    LookupsAgree t.toHDBRes i j name ↔
      t.data.length ≤ i.toNat ∨ t.header.length ≤ j.toNat := by
  constructor
  · intro h
    exact h.byPosition.mp (getValue_throws t i j)
  · intro hout
    refine ⟨fun col val hcell => ?_, fun hi => ⟨getValue_throws t i j, fun col _ => ?_⟩,
      iff_of_true (getValue_throws t i j) hout, getValueByName_throws_iff t i name⟩
    · obtain ⟨hcol, row, hrow, _⟩ := hcell
      obtain ⟨hj, _⟩ := List.getElem?_eq_some_iff.mp hcol
      obtain ⟨hi, _⟩ := List.getElem?_eq_some_iff.mp hrow
      omega
    · exact getValueByName_noRow _ col hi

/-- One row with one cell -/
def oneCell : Table where
  header := [[97]]
  data := [[[120]]]
  nodup := List.nodup_singleton _
  width := by decide

theorem lookups_differ : ¬ ∀ (t : Table) (i j : UInt32) (name : Text),
    LookupsAgree t.toHDBRes i j name := by
  intro hall
  have hout := (hall oneCell 0 0 [97]).byPosition.mp (getValue_throws oneCell 0 0)
  revert hout
  decide

end Db
end Huicpp
