import LogosDelivery.Lib.OrderBy
import LogosDelivery.Persistency.Keys

/-! # The SQLite backend

`persistency/backend_sqlite.nim` over the table `kv` of `persistency/schema.nim`, whose three BLOB
columns are `NOT NULL` and whose primary key is `(category, key)`.

A parameter of a statement is a blob or `NULL`; `bindBlob` and `bindParam` bind the empty byte
string through a nil pointer, which is `NULL`.  A comparison with `NULL` is never true, and a `NULL`
in a `NOT NULL` column without a default makes `INSERT OR REPLACE` fail.  `execStmt` is what SQLite
does with each write statement, `select` what it does with the reads; `applyOps` takes the
execution of a statement as a parameter. -/

namespace LogosDelivery.Persistency

open Lib

/-- A row of `kv`. -/
structure Row where
  category : List Byte
  key : Key
  payload : List Byte
deriving DecidableEq

inductive TxOp where
  | put (category : List Byte) (key : Key) (payload : List Byte)
  | delete (category : List Byte) (key : Key)
  | deletePrefix (category : List Byte) (key : Key)
deriving DecidableEq

/-- A bound parameter; `none` is `NULL`. -/
abbrev SqlBlob := Option (List Byte)

/-- `bindBlob`, and `bindParam` of a byte sequence. -/
def bindBlob (val : List Byte) : SqlBlob := if val.length > 0 then some val else none

/-! ### What SQLite does -/

/-- `column = ?`. -/
def sqlEq (column : List Byte) (param : SqlBlob) : Bool := decide (param = some column)

/-- `column >= ?`; blobs compare byte by byte. -/
def sqlGe (column : List Byte) : SqlBlob → Bool
  | none => false
  | some param => decide (param ≤ column)

/-- `column < ?`. -/
def sqlLt (column : List Byte) : SqlBlob → Bool
  | none => false
  | some param => decide (column < param)

/-- The database: the committed or current rows, and the rows to go back to while a transaction is
open. -/
structure Db where
  rows : List Row := []
  saved : Option (List Row) := none
deriving DecidableEq

/-- The write statements of the backend with their parameters. -/
inductive Stmt where
  | beginImmediate
  | commit
  | rollback
  /-- `INSERT OR REPLACE INTO kv(category, key, payload) VALUES (?, ?, ?);` -/
  | put (category key payload : SqlBlob)
  /-- `DELETE FROM kv WHERE category = ? AND key = ?;` -/
  | delete (category key : SqlBlob)
  /-- `DELETE FROM kv WHERE category = ? AND key >= ?;`, and `AND key < ?` with a `stop`. -/
  | deleteRange (category start : SqlBlob) (stop : Option SqlBlob)

/-- `WHERE category = ? AND key >= ?`, and `AND key < ?` with a `stop`. -/
def inSqlRange (category start : SqlBlob) (stop : Option SqlBlob) (row : Row) : Bool :=
  sqlEq row.category category && sqlGe row.key start &&
    match stop with
    | none => true
    | some stop => sqlLt row.key stop

/-- `WHERE category = ? AND key = ?`. -/
def isSqlRow (category key : SqlBlob) (row : Row) : Bool :=
  sqlEq row.category category && sqlEq row.key key

def notNullFailed (column : String) : String :=
  "constraint failed NOT NULL constraint failed: kv." ++ column

/-- A write statement. -/
def execStmt (db : Db) : Stmt → Except String Unit × Db
  | .beginImmediate =>
      if db.saved.isSome then (.error "SQL logic error", db)
      else (.ok (), { db with saved := some db.rows })
  | .commit =>
      if db.saved.isNone then (.error "SQL logic error", db) else (.ok (), { db with saved := none })
  | .rollback =>
      match db.saved with
      | none => (.error "SQL logic error", db)
      | some rows => (.ok (), { rows := rows, saved := none })
  | .put none _ _ => (.error (notNullFailed "category"), db)
  | .put _ none _ => (.error (notNullFailed "key"), db)
  | .put _ _ none => (.error (notNullFailed "payload"), db)
  | .put (some category) (some key) (some payload) =>
      (.ok (), { db with
        rows := db.rows.filter (fun row => !isSqlRow (some category) (some key) row) ++
          [⟨category, key, payload⟩] })
  | .delete category key =>
      (.ok (), { db with rows := db.rows.filter (fun row => !isSqlRow category key row) })
  | .deleteRange category start stop =>
      (.ok (), { db with rows := db.rows.filter (fun row => !inSqlRange category start stop row) })

/-! ### Writing -/

section Write

variable {σ : Type} (exec : σ → Stmt → Except String Unit × σ)

def deletePrefix (db : σ) (category : List Byte) (p : Key) : Except String Unit × σ :=
  let rng := prefixRange p
  let openEnded := rng.stop.length = 0
  let (r, db) := exec db (.deleteRange (bindBlob category) (bindBlob rng.start)
    (if openEnded then none else some (bindBlob rng.stop)))
  (r.mapError ("deletePrefix step: " ++ ·), db)

def applyOne (db : σ) : TxOp → Except String Unit × σ
  | .put category key payload =>
      let (r, db) := exec db (.put (bindBlob category) (bindBlob key) (bindBlob payload))
      (r.mapError ("put failed: " ++ ·), db)
  | .delete category key =>
      let (r, db) := exec db (.delete (bindBlob category) (bindBlob key))
      (r.mapError ("delete failed: " ++ ·), db)
  | .deletePrefix category key => deletePrefix exec db category key

def execSql (db : σ) (sql : String) (stmt : Stmt) : Except String Unit × σ :=
  let (r, db) := exec db stmt
  (r.mapError (sql ++ ": " ++ ·), db)

/-- The loop over the operations of a transaction. -/
def applyAll (db : σ) : List TxOp → Except String Unit × σ
  | [] => execSql exec db "COMMIT;" .commit
  | op :: ops =>
      match applyOne exec db op with
      | (.error e, db) => (.error e, (execSql exec db "ROLLBACK;" .rollback).2)
      | (.ok _, db) => applyAll db ops

/-- A single operation commits on its own; several are one transaction. -/
def applyOps (db : σ) : List TxOp → Except String Unit × σ
  | [] => (.ok (), db)
  | [op] => applyOne exec db op
  | ops =>
      match execSql exec db "BEGIN IMMEDIATE;" .beginImmediate with
      | (.error e, db) => (.error e, db)
      | (.ok _, db) => applyAll exec db ops

end Write

/-! ### Reading -/

namespace Db

variable (db : Db)

/-- `SELECT payload FROM kv WHERE category = ? AND key = ? LIMIT 1;` -/
def getOne (category : List Byte) (key : Key) : Option (List Byte) :=
  (db.rows.find? (isSqlRow (bindBlob category) (bindBlob key))).map Row.payload

/-- `SELECT 1 FROM kv WHERE category = ? AND key = ? LIMIT 1;` -/
def existsOne (category : List Byte) (key : Key) : Bool :=
  (db.rows.find? (isSqlRow (bindBlob category) (bindBlob key))).isSome

/-- The rows of a range, as `scanRange` and `countRange` ask for them. -/
def rangeRows (category : List Byte) (range : KeyRange) : List Row :=
  let openEnded := range.stop.length = 0
  db.rows.filter (inSqlRange (bindBlob category) (bindBlob range.start)
    (if openEnded then none else some (bindBlob range.stop)))

/-- `SELECT key, payload FROM kv WHERE ... ORDER BY key ASC` or `DESC`. -/
def scanRange (category : List Byte) (range : KeyRange) (reverse : Bool) :
    List (Key × List Byte) :=
  let rows := db.rangeRows category range
  (if reverse then orderBy (fun row => OrderDual.toDual row.key) rows else orderBy Row.key rows).map
    (fun row => (row.key, row.payload))

/-- `SELECT COUNT(*) FROM kv WHERE ...`. -/
def countRange (category : List Byte) (range : KeyRange) : ℕ := (db.rangeRows category range).length

end Db

end LogosDelivery.Persistency
