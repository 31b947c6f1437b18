import Mathlib
import Huicpp.Db.Mysql

/-!
# Db.Sqlite

`sqlite_drive` and `HSqliteConnection`, which run the same `MultiExec` as MySQL does. A statement is
executed by one call of `sqlite3_step`, and `Execute` takes it for a success if this returns
`SQLITE_OK`, which it never does.

* `sqlite_execute_fails`: no statement is a success.
* `rollBack_spec`: what is left after the failure.
* `multiExec_commits_iff`: what `MultiExec` is good for.
-/

namespace Huicpp
namespace Db

inductive SqliteCode where
  | ok
  | row
  | done
  | error
  deriving DecidableEq, Repr

/-- What `sqlite3_step` does: the statement is executed and returns no rows, or comes to its first
row, or fails. Some failures end the transaction too. -/
inductive StepAnswer where
  | done
  | row
  | failed (rolledBack : Bool)
  deriving DecidableEq, Repr

/-- What the library answers while one statement is executed. -/
structure StatementAnswer where
  prepared : Bool
  step : StepAnswer
  deriving DecidableEq, Repr

def StatementAnswer.Succeeds (a : StatementAnswer) : Prop :=
  a.prepared ∧ (a.step = .done ∨ a.step = .row)

instance (a : StatementAnswer) : Decidable a.Succeeds := inferInstanceAs (Decidable (_ ∧ _))

namespace Server

variable {α : Type}

def sqliteStep (a : α) : StepAnswer → Server α → SqliteCode × Server α
  | .done, s => (.done, s.run (.statement a))
  | .row, s => (.row, s.run (.statement a))
  | .failed true, s => (.error, s.run .rollback)
  | .failed false, s => (.error, s)

/-- `sqlite3_exec` of a transaction command. Transactions are not nested, and `executed` is whether
one that could begin or be committed is. -/
def sqliteExec (executed : Bool) (cmd : Query α) (s : Server α) : SqliteCode × Server α :=
  match cmd, s.session with
  | .startTransaction, .autocommit => if executed then (.ok, s.run cmd) else (.error, s)
  | .commit, .transaction _ => if executed then (.ok, s.run cmd) else (.error, s)
  | .rollback, .transaction _ => (.ok, s.run cmd)
  | _, _ => (.error, s)

end Server

/-- `sqlite_drive`: `m_st != nullptr`, and the database behind it. -/
structure SqliteDrive (α : Type) where
  inited : Bool
  server : Server α
  deriving DecidableEq, Repr

namespace SqliteDrive

variable {α : Type}

def execute (sql : α × StatementAnswer) (d : SqliteDrive α) : HRet × SqliteDrive α :=
  if !d.inited then (.srcErr, d)
  else if !sql.2.prepared then (.invlPara, d)
  else
    let (code, server) := d.server.sqliteStep sql.1 sql.2.step
    let d := { d with server := server }
    if code = .ok then (.ok, d) else (.depError, d)

def executeUnsafe (executed : Bool) (cmd : Query α) (d : SqliteDrive α) : HRet × SqliteDrive α :=
  if !d.inited then (.srcErr, d)
  else
    let (code, server) := d.server.sqliteExec executed cmd
    let d := { d with server := server }
    if code = .ok then (.ok, d) else (.invlPara, d)

end SqliteDrive

/-- `HSqliteConnection` as a connection, given whether `BEGIN` and `COMMIT` are executed. -/
def HSqliteConnection.connection {α : Type} (begin commit : Bool) :
    DbConnection (SqliteDrive α) (α × StatementAnswer) where
  execute := SqliteDrive.execute
  beginTransaction := SqliteDrive.executeUnsafe begin .startTransaction
  commitTransaction := SqliteDrive.executeUnsafe commit .commit
  rollBack := SqliteDrive.executeUnsafe true .rollback

open HSqliteConnection

variable {α : Type}

/-- A database that is open, with no transaction, in which `log` is committed. -/
def SqliteDrive.idle (log : List α) : SqliteDrive α := ⟨true, ⟨.autocommit, log⟩⟩

/-- If all statements succeed, all of them are committed. If one fails there is an error, none is
committed, and there is no transaction. -/
structure Commits (log : List α) (sqlss : List (α × StatementAnswer)) (r : HRet × SqliteDrive α) :
    Prop where
  all : (∀ s ∈ sqlss, s.2.Succeeds) →
    r.1 = .ok ∧ r.2.server.committed = log ++ sqlss.map Prod.fst
  none : (∃ s ∈ sqlss, ¬ s.2.Succeeds) →
    r.1 ≠ .ok ∧ r.2.server.committed = log ∧ r.2.server.session = .autocommit

/-! ## The statements -/

section Statements

variable {d : SqliteDrive α} {log : List α}

/-- An open database with `log` committed, in a transaction or not. -/
def Uncommitted (log : List α) (d : SqliteDrive α) : Prop :=
  d.inited = true ∧ d.server.committed = log ∧ d.server.session ≠ .closed

theorem step_uncommitted (x : α) (a : StepAnswer) {p : List α} :
    ((⟨.transaction p, log⟩ : Server α).sqliteStep x a).1 ≠ .ok ∧
      Uncommitted log ⟨true, ((⟨.transaction p, log⟩ : Server α).sqliteStep x a).2⟩ := by
  cases a with
  | done => exact ⟨nofun, rfl, rfl, nofun⟩
  | row => exact ⟨nofun, rfl, rfl, nofun⟩
  | failed rolledBack =>
    cases rolledBack with
    | true => exact ⟨nofun, rfl, rfl, nofun⟩
    | false => exact ⟨nofun, rfl, rfl, nofun⟩

/-- In a transaction every statement is taken for a failure, and nothing is committed. -/
theorem sqlite_execute_fails (sql : α × StatementAnswer) (p : List α) :
    (SqliteDrive.execute sql ⟨true, ⟨.transaction p, log⟩⟩).1 ≠ .ok ∧
      Uncommitted log (SqliteDrive.execute sql ⟨true, ⟨.transaction p, log⟩⟩).2 := by
  obtain ⟨x, prepared, a⟩ := sql
  cases prepared with
  | false => exact ⟨nofun, rfl, rfl, nofun⟩
  | true =>
    obtain ⟨hcode, hd⟩ := @step_uncommitted α log x a p
    have hexec : SqliteDrive.execute (x, ⟨true, a⟩) ⟨true, ⟨.transaction p, log⟩⟩ =
        (.depError, ⟨true, ((⟨.transaction p, log⟩ : Server α).sqliteStep x a).2⟩) := if_neg hcode
    rw [hexec]
    exact ⟨nofun, hd⟩

theorem rollBack_spec (hd : Uncommitted log d) :
    (SqliteDrive.executeUnsafe true .rollback d).2 = SqliteDrive.idle log := by
  obtain ⟨inited, session, committed⟩ := d
  obtain ⟨rfl, rfl, hopen⟩ := hd
  cases session with
  | closed => exact absurd rfl hopen
  | autocommit => rfl
  | transaction p => rfl

theorem execEach_cons (begin commit : Bool) (sql : α × StatementAnswer)
    (sqlss : List (α × StatementAnswer)) (log : List α) :
    (connection begin commit).execEach (sql :: sqlss) ⟨true, ⟨.transaction [], log⟩⟩ =
      (.depError, SqliteDrive.idle log) := by
  obtain ⟨hret, hd⟩ := @sqlite_execute_fails α log sql []
  have hback := rollBack_spec hd
  rw [DbConnection.execEach]
  simp only [connection, if_neg hret, hback]

/-- An error that leaves nothing behind is right when a statement fails. -/
theorem commits_failed_iff {sqlss : List (α × StatementAnswer)} {err : HRet} (herr : err ≠ .ok) :
    Commits log sqlss (err, SqliteDrive.idle log) ↔ ∃ s ∈ sqlss, ¬ s.2.Succeeds := by
  constructor
  · intro h
    by_contra hnone
    push Not at hnone
    exact herr (h.all hnone).1
  · rintro ⟨s, hs, hfail⟩
    exact ⟨fun hall => absurd (hall s hs) hfail, fun _ => ⟨herr, rfl, rfl⟩⟩

end Statements

/-- **Committing on SQLite.** `MultiExec` does what it is for when a statement fails, and for an empty
list whose transaction can begin and be committed. -/
theorem multiExec_commits_iff (begin commit : Bool) (sqlss : List (α × StatementAnswer))
    (log : List α) :
    Commits log sqlss ((connection begin commit).multiExec sqlss (SqliteDrive.idle log)) ↔
      (∃ s ∈ sqlss, ¬ s.2.Succeeds) ∨ sqlss = [] ∧ begin = true ∧ commit = true := by
  cases begin with
  | false =>
    have hrun : (connection false commit).multiExec sqlss (SqliteDrive.idle log) =
        (.invlPara, SqliteDrive.idle log) := rfl
    rw [hrun, commits_failed_iff (by decide)]
    simp
  | true =>
    have hbegin : (connection true commit).multiExec sqlss (SqliteDrive.idle log) =
        (connection true commit).execEach sqlss ⟨true, ⟨.transaction [], log⟩⟩ := rfl
    rw [hbegin]
    cases sqlss with
    | nil =>
      cases commit with
      | false => exact iff_of_false (fun h => absurd (h.all (List.forall_mem_nil _)).1 nofun) (by simp)
      | true =>
        refine iff_of_true ⟨fun _ => ⟨rfl, rfl⟩, ?_⟩ (.inr ⟨rfl, rfl, rfl⟩)
        · rintro ⟨s, hs, _⟩
          exact absurd hs List.not_mem_nil
    | cons sql sqlss =>
      rw [execEach_cons, commits_failed_iff (by decide)]
      simp

/-- One statement, which succeeds, and `MultiExec` rolls it back. -/
theorem multiExec_rolls_back : ¬ ∀ (sqlss : List (Nat × StatementAnswer)) (log : List Nat),
    Commits log sqlss ((connection true true).multiExec sqlss (SqliteDrive.idle log)) := by
  intro hall
  have hcommits := hall [(1, ⟨true, .done⟩)] []
  have hret := (hcommits.all (by decide)).1
  revert hret
  decide

end Db
end Huicpp
