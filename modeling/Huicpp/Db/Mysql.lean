import Mathlib
import Huicpp.HRet
import Huicpp.Db.Server

/-!
# Db.Mysql

`mysql_drive`, the virtual interface of `dbconnectionbase` with its `MultiExec`, and
`HMysqlConnection`, which implements the interface with the drive and retries a failed statement on
a new connection.

Every call into the client library takes what the library answers as an argument, so that a result
about all answers is a result about every pattern of failures and lost connections.
-/

namespace Huicpp
namespace Db

/-- What `mysql_real_query` does: the server executed the query or refused it, or the connection
was lost, before the query was executed or after it and before the reply. -/
inductive QueryAnswer where
  | done
  | refused
  | lost
  | unanswered
  deriving DecidableEq, Repr

/-- What `mysql_ping` does: the connection is alive, the library replaced it by a new one, or there
is none. -/
inductive PingAnswer where
  | alive
  | replaced
  | dead
  deriving DecidableEq, Repr

/-- What `Connect` meets: success, an option that cannot be set, or `mysql_real_connect` returning
null. -/
inductive ConnectAnswer where
  | connected
  | optionRefused
  | refused
  deriving DecidableEq, Repr

/-- `mysql_drive`: `m_st != nullptr`, `m_bConnected`, and the server behind it. -/
structure MysqlDrive (α : Type) where
  inited : Bool
  connected : Bool
  server : Server α
  deriving DecidableEq, Repr

namespace MysqlDrive

variable {α : Type}

def execute (ans : QueryAnswer) (sql : Query α) (d : MysqlDrive α) : HRet × MysqlDrive α :=
  if d.inited && d.connected then
    match ans with
    | .done => (.ok, { d with server := d.server.wake.run sql })
    | .refused => (.depError, { d with server := d.server.wake })
    | .lost => (.depError, { d with server := d.server.lose })
    | .unanswered => (.depError, { d with server := (d.server.wake.run sql).lose })
  else (.errStatus, d)

def ping (ans : PingAnswer) (d : MysqlDrive α) : Bool × MysqlDrive α :=
  if d.inited then
    match ans with
    | .alive => (true, { d with server := d.server.wake })
    | .replaced => (true, { d with server := d.server.lose.wake })
    | .dead => (false, { d with server := d.server.lose })
  else (false, d)

/-- `Reconnect`: disconnect, initialise, connect. -/
def reconnect (ans : ConnectAnswer) (d : MysqlDrive α) : HRet × MysqlDrive α :=
  match ans with
  | .connected => (.ok, ⟨true, true, d.server.lose.wake⟩)
  | .optionRefused => (.depError, ⟨true, false, d.server.lose⟩)
  | .refused => (.depError, ⟨false, false, d.server.lose⟩)

end MysqlDrive

/-! ## The virtual interface -/

/-- The virtual functions of `dbconnectionbase`. -/
structure DbConnection (σ β : Type) where
  execute : β → σ → HRet × σ
  beginTransaction : σ → HRet × σ
  commitTransaction : σ → HRet × σ
  rollBack : σ → HRet × σ

namespace DbConnection

variable {σ β : Type} (c : DbConnection σ β)

/-- The loop of `MultiExec`, and the commit after it. -/
def execEach : List β → σ → HRet × σ
  | [], s => c.commitTransaction s
  | str :: sqlss, s =>
    let (ret, s) := c.execute str s
    if ret = .ok then execEach sqlss s
    else
      let (_, s) := c.rollBack s
      (.depError, s)

def multiExec (sqlss : List β) (s : σ) : HRet × σ :=
  let (ret, s) := c.beginTransaction s
  if ret = .ok then c.execEach sqlss s else (ret, s)

end DbConnection

/-! ## MySQL -/

/-- What the library answers while one statement is executed. -/
structure Attempt where
  first : QueryAnswer
  ping : PingAnswer
  reconnect : ConnectAnswer
  second : QueryAnswer
  deriving DecidableEq, Repr

namespace HMysqlConnection

variable {α : Type}

def execute (sql : α × Attempt) (d : MysqlDrive α) : HRet × MysqlDrive α :=
  if !d.inited then (.srcErr, d)
  else if !d.connected then (.srcErr, d)
  else
    let (ret, d) := d.execute sql.2.first (.statement sql.1)
    if ret = .ok then (ret, d)
    else
      let (pong, d) := d.ping sql.2.ping
      if pong then (ret, d)
      else
        let (err, d) := d.reconnect sql.2.reconnect
        if err = .ok then d.execute sql.2.second (.statement sql.1) else (ret, d)

/-- `HMysqlConnection` as a connection, given the answers to the transaction commands. -/
def connection (start commit rollback : QueryAnswer) : DbConnection (MysqlDrive α) (α × Attempt) where
  execute := execute
  beginTransaction := MysqlDrive.execute start .startTransaction
  commitTransaction := MysqlDrive.execute commit .commit
  rollBack := MysqlDrive.execute rollback .rollback

end HMysqlConnection

end Db
end Huicpp
