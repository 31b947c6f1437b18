import Mathlib

/-!
# Db.Server

A transactional server as one client connection sees it. `committed` logs the effects that are
permanent. A new connection is in autocommit mode, and losing the connection discards the open
transaction.
-/

namespace Huicpp
namespace Db

/-- A connection's session, with the effects of its open transaction. -/
inductive Session (α : Type) where
  | closed
  | autocommit
  | transaction (pending : List α)
  deriving DecidableEq, Repr

inductive Query (α : Type) where
  | startTransaction
  | commit
  | rollback
  | statement (a : α)
  deriving DecidableEq, Repr

structure Server (α : Type) where
  session : Session α
  committed : List α
  deriving DecidableEq, Repr

namespace Server

variable {α : Type}

def lose (s : Server α) : Server α := { s with session := .closed }

/-- There is a connection: the one there was, or a new one. -/
def wake (s : Server α) : Server α :=
  match s.session with
  | .closed => { s with session := .autocommit }
  | _ => s

/-- What a successful query does. Starting a transaction commits the one that is open. -/
def run (s : Server α) (q : Query α) : Server α :=
  match q, s.session with
  | .startTransaction, .transaction p => ⟨.transaction [], s.committed ++ p⟩
  | .startTransaction, _ => ⟨.transaction [], s.committed⟩
  | .commit, .transaction p => ⟨.autocommit, s.committed ++ p⟩
  | .commit, _ => s
  | .rollback, .transaction _ => ⟨.autocommit, s.committed⟩
  | .rollback, _ => s
  | .statement a, .transaction p => ⟨.transaction (p ++ [a]), s.committed⟩
  | .statement a, _ => ⟨s.session, s.committed ++ [a]⟩

@[simp] theorem lose_committed (s : Server α) : s.lose.committed = s.committed := rfl

@[simp] theorem wake_committed (s : Server α) : s.wake.committed = s.committed := by
  unfold wake
  split <;> rfl

/-- A lost connection is lost, whatever it was before. -/
@[simp] theorem lose_wake (s : Server α) : s.wake.lose = s.lose := by
  unfold wake
  split <;> rfl

theorem run_rollback_committed (s : Server α) : (s.run .rollback).committed = s.committed := by
  unfold run
  split <;> simp_all

end Server

end Db
end Huicpp
