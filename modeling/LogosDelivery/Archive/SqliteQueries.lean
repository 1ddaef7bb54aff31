import LogosDelivery.Archive.MessagesTable

/-! # The store query of the SQLite archive

`selectMessagesByStoreQueryWithLimit` of the SQLite driver: the builder of the `WHERE` clause, the
binder of its parameters, and what SQLite does with the statement.  The `?` of a statement are
numbered from left to right and the binder gives them its values in this order.  A value is `NULL`,
an integer or a blob, blobs compare bytewise and greater than integers, and a comparison with `NULL`
holds of no row.

The builder writes the hashes last and the binder gives them before the times: `select_iff` says for
which queries this is of no consequence. -/

namespace LogosDelivery.Archive.Sqlite

open Lib
open StoreSync (Byte WakuMessageHash PubsubTopic ContentTopic)

/-! ### Values -/

inductive Value where
  | null
  | integer (v : ℤ)
  | blob (bytes : List Byte)
deriving DecidableEq

def orderOf {α : Type} [LinearOrder α] (x y : α) : Ordering :=
  if x < y then .lt else if x = y then .eq else .gt

/-- How two values compare, if they do. -/
def Value.compare : Value → Value → Option Ordering
  | .integer v, .integer w => some (orderOf v w)
  | .integer _, .blob _ => some .lt
  | .blob _, .integer _ => some .gt
  | .blob x, .blob y => some (orderOf x y)
  | _, _ => none

def toBytes (s : String) : List Byte := s.toByteArray.data.toList.map UInt8.toFin

/-- `bindParam` of a byte sequence; an empty one has no address, and is bound as `NULL`. -/
def bindBytes (bytes : List Byte) : Value := if bytes.length > 0 then .blob bytes else .null

/-! ### The table -/

/-- The table of messages; what is bound as `NULL` is refused by its `NOT NULL` columns.  A
statement may have at most `variableLimit` parameters. -/
structure SqliteDatabase where
  rows : List ArchiveRow
  variableLimit : ℕ
  primaryKey : (rows.map ArchiveRow.hash).Nodup
  notNull : ∀ row ∈ rows, row.pubsubTopic ≠ "" ∧ row.message.contentTopic ≠ ""

/-- A place in the order of `(timestamp, messageHash)`. -/
abbrev Place := Timestamp ×ₗ WakuMessageHash

def rowPlace (row : ArchiveRow) : Place := toLex (row.message.timestamp, row.hash)

/-! ### The `WHERE` clause -/

inductive Clause where
  | cursor (ascending : Bool)
  | pubsubTopic
  | contentTopic (n : ℕ)
  | startTime
  | endTime
  | hashes (n : ℕ)
deriving DecidableEq

/-- The list of a clause with `IN`. -/
def placeholders : ℕ → String
  | 0 | 1 => "?"
  | n + 2 => placeholders (n + 1) ++ ", ?"

/-- The text of a clause. -/
def Clause.sql : Clause → String
  | .cursor ascending =>
      "(timestamp, messageHash) " ++ (if ascending then ">" else "<") ++ " (?, ?)"
  | .pubsubTopic => "pubsubTopic = (?)"
  | .contentTopic n => "contentTopic IN (" ++ placeholders n ++ ")"
  | .startTime => "timestamp >= (?)"
  | .endTime => "timestamp < (?)"
  | .hashes n => "messageHash IN (" ++ placeholders n ++ ")"

/-- The number of `?` in the text of a clause. -/
def Clause.arity : Clause → ℕ
  | .cursor _ => 2
  | .contentTopic n | .hashes n => n
  | _ => 1

def combineClauses (clauses : List (Option Clause)) : Option (List Clause) :=
  let whereSeq := clauses.filterMap id
  if whereSeq.length ≤ 0 then none else some whereSeq

/-- The text of the clauses together. -/
def clausesSql : List Clause → String
  | [] => ""
  | clause :: clauses =>
      clauses.foldl (fun text clause => text ++ " AND " ++ clause.sql) clause.sql

def cursorClause (cursor ascending : Bool) : Option Clause :=
  if cursor then some (.cursor ascending) else none

def pubsubTopicClause (pubsubTopic : Option PubsubTopic) : Option Clause :=
  if pubsubTopic.isNone then none else some .pubsubTopic

def contentTopicClause (contentTopic : List ContentTopic) : Option Clause :=
  if contentTopic.length ≤ 0 then none else some (.contentTopic contentTopic.length)

def startTimeClause (startTime : Option Timestamp) : Option Clause :=
  if startTime.isNone then none else some .startTime

def endTimeClause (endTime : Option Timestamp) : Option Clause :=
  if endTime.isNone then none else some .endTime

def hashesClause (hashes : List WakuMessageHash) : Option Clause :=
  if hashes.length ≤ 0 then none else some (.hashes hashes.length)

def whereClause (cursor : Bool) (q : DriverQuery) : Option (List Clause) :=
  combineClauses [cursorClause cursor q.ascendingOrder, pubsubTopicClause q.pubsubTopic,
    contentTopicClause q.contentTopics, startTimeClause q.startTime, endTimeClause q.endTime,
    hashesClause q.hashes]

/-! ### Statements -/

/-- `selectMessagesWithLimitQuery`. -/
structure Select where
  filter : Option (List Clause)
  limit : ℕ
  ascending : Bool

def Select.sql (s : Select) : String :=
  let order := if s.ascending then "ASC" else "DESC"
  "SELECT messageHash, pubsubTopic, contentTopic, payload, version, timestamp, meta" ++
    " FROM Message" ++
    (match s.filter with
      | none => ""
      | some clauses => " WHERE " ++ clausesSql clauses) ++
    " ORDER BY timestamp " ++ order ++ ", messageHash " ++ order ++
    " LIMIT " ++ toString s.limit ++ ";"

/-- The number of parameters of a statement. -/
def Select.variables (s : Select) : ℕ := s.sql.toList.count '?'

/-- Each clause with its parameters. -/
def clauseParams : List Clause → List Value → List (Clause × List Value)
  | [], _ => []
  | clause :: clauses, values =>
      (clause, values.take clause.arity) :: clauseParams clauses (values.drop clause.arity)

/-- Does a value equal one of the values? -/
def isIn (v : Value) (values : List Value) : Bool :=
  values.any (fun w => decide (v.compare w = some .eq))

/-- Row values compare by their first place in which they differ. -/
def comesAfter (ascending : Bool) (row : ArchiveRow) (time hash : Value) : Bool :=
  let after := some (if ascending then Ordering.gt else Ordering.lt)
  match (Value.integer row.message.timestamp).compare time with
  | some .eq => decide ((Value.blob row.hash.1).compare hash = after)
  | order => decide (order = after)

def Clause.holds (row : ArchiveRow) : Clause × List Value → Bool
  | (.cursor ascending, [time, hash]) => comesAfter ascending row time hash
  | (.pubsubTopic, [v]) =>
      decide ((Value.blob (toBytes row.pubsubTopic)).compare v = some .eq)
  | (.contentTopic _, values) => isIn (.blob (toBytes row.message.contentTopic)) values
  | (.startTime, [v]) =>
      decide ((Value.integer row.message.timestamp).compare v ∈ [some .gt, some .eq])
  | (.endTime, [v]) => decide ((Value.integer row.message.timestamp).compare v = some .lt)
  | (.hashes _, values) => isIn (.blob row.hash.1) values
  | _ => false

/-- The rows in the requested order. -/
def inOrder (ascending : Bool) (rows : List ArchiveRow) : List ArchiveRow :=
  if ascending then orderBy rowPlace rows
  else orderBy (fun row => OrderDual.toDual (rowPlace row)) rows

namespace SqliteDatabase

variable (db : SqliteDatabase)

def prepareStmt (s : Select) : Except String Select :=
  if s.variables ≤ db.variableLimit then .ok s else .error "SQL logic error"

/-- The rows that a statement gives with its parameters.  A limit that is no `int64` is read as a
real number, and is refused at the first step. -/
def exec (s : Select) (values : List Value) : Except String (List ArchiveRow) :=
  if s.limit < 2 ^ 63 then
    .ok ((inOrder s.ascending (db.rows.filter (fun row =>
      (clauseParams (s.filter.getD []) values).all (Clause.holds row)))).take s.limit)
  else .error "datatype mismatch"

end SqliteDatabase

/-! ### The query -/

def cursorParams : Option (Timestamp × WakuMessageHash) → List Value
  | none => []
  | some (time, hash) => [.integer time, bindBytes hash.1]

def pubsubTopicParams : Option PubsubTopic → List Value
  | none => []
  | some topic => [bindBytes (toBytes topic)]

def contentTopicParams (contentTopic : List ContentTopic) : List Value :=
  contentTopic.map (fun topic => bindBytes (toBytes topic))

def hashParams (hashes : List WakuMessageHash) : List Value :=
  hashes.map (fun hash => bindBytes hash.1)

def timeParams : Option Timestamp → List Value
  | none => []
  | some time => [.integer time]

/-- The values in the order in which `execSelectMessagesWithLimitStmt` binds them, from the first
parameter on. -/
def boundParams (cursor : Option (Timestamp × WakuMessageHash)) (q : DriverQuery) : List Value :=
  cursorParams cursor ++ pubsubTopicParams q.pubsubTopic ++ contentTopicParams q.contentTopics ++
    hashParams q.hashes ++ timeParams q.startTime ++ timeParams q.endTime

namespace SqliteDatabase

variable (db : SqliteDatabase)

/-- The timestamp of the row with the hash, the last one if there were more. -/
def getCursorTimestamp (hash : WakuMessageHash) : Option Timestamp :=
  ((db.rows.filter (fun row => decide (row.hash = hash))).getLast?).map
    (fun row => row.message.timestamp)

/-- The cursor with its timestamp. -/
def timeCursor (q : DriverQuery) : Except String (Option (Timestamp × WakuMessageHash)) :=
  match q.cursor with
  | none => .ok none
  | some hash =>
      match db.getCursorTimestamp hash with
      | none => .error "cursor not found"
      | some time => .ok (some (time, hash))

def selectMessagesByStoreQueryWithLimit (q : DriverQuery) : Except String (List ArchiveRow) := do
  let timeCursor ← db.timeCursor q
  let filter := whereClause timeCursor.isSome q
  let dbStmt ← db.prepareStmt ⟨filter, q.maxPageSize, q.ascendingOrder⟩
  db.exec dbStmt (boundParams timeCursor q)

end SqliteDatabase

/-! ### The number of parameters -/

theorem count_append (x y : String) (c : Char) :
    (x ++ y).toList.count c = x.toList.count c + y.toList.count c := by
  rw [String.toList_append, List.count_append]

theorem placeholders_count (n : ℕ) (h : 0 < n) : (placeholders n).toList.count '?' = n := by
  induction n with
  | zero => omega
  | succ n ih =>
      cases n with
      | zero => rfl
      | succ n =>
          rw [placeholders, count_append, ih (by omega)]
          rfl

theorem in_count {start : String} (hstart : start.toList.count '?' = 0) (n : ℕ) (h : 0 < n) :
    (start ++ placeholders n ++ ")").toList.count '?' = n := by
  have hclose : ")".toList.count '?' = 0 := by decide
  rw [count_append, count_append, placeholders_count n h, hstart, hclose]
  omega

/-- A clause with `IN` has a value at least. -/
def Clause.NonEmpty : Clause → Prop
  | .contentTopic n | .hashes n => 0 < n
  | _ => True

theorem sql_count {clause : Clause} (h : clause.NonEmpty) :
    clause.sql.toList.count '?' = clause.arity := by
  cases clause with
  | cursor ascending => cases ascending <;> rfl
  | pubsubTopic => rfl
  | contentTopic n =>
      exact in_count (by decide) n h
  | startTime => rfl
  | endTime => rfl
  | hashes n =>
      exact in_count (by decide) n h

theorem clausesSql_count {clauses : List Clause} (h : ∀ clause ∈ clauses, clause.NonEmpty) :
    (clausesSql clauses).toList.count '?' = (clauses.map Clause.arity).sum := by
  have hfold : ∀ (clauses : List Clause) (text : String), (∀ clause ∈ clauses, clause.NonEmpty) →
      (clauses.foldl (fun text clause => text ++ " AND " ++ clause.sql) text).toList.count '?' =
        text.toList.count '?' + (clauses.map Clause.arity).sum := by
    intro clauses
    induction clauses with
    | nil => simp
    | cons clause clauses ih =>
        intro text h
        have hand : " AND ".toList.count '?' = 0 := rfl
        rw [List.foldl_cons, ih _ (fun c hc => h c (List.mem_cons_of_mem _ hc)), count_append,
          count_append, hand, sql_count (h clause List.mem_cons_self), List.map_cons, List.sum_cons]
        omega
  cases clauses with
  | nil => rfl
  | cons clause clauses =>
      rw [clausesSql, hfold clauses _ (fun c hc => h c (List.mem_cons_of_mem _ hc)),
        sql_count (h clause List.mem_cons_self), List.map_cons, List.sum_cons]

theorem decimal_count (n : ℕ) : (toString n).toList.count '?' = 0 := by
  refine List.count_eq_zero.mpr (fun hmem => ?_)
  have hdigits : (toString n).toList = Nat.toDigits 10 n := by simp [Nat.toString_eq_repr, Nat.repr]
  rw [hdigits] at hmem
  have hdigit := Nat.isDigit_of_mem_toDigits (by omega) (by omega) hmem
  exact absurd hdigit (by decide)

/-- The text of a statement around its clauses. -/
theorem select_count (s : Select) :
    s.variables = (match s.filter with
      | none => ""
      | some clauses => " WHERE " ++ clausesSql clauses : String).toList.count '?' := by
  have horder : ((if s.ascending then "ASC" else "DESC") : String).toList.count '?' = 0 := by
    split_ifs <;> decide
  have hcolumns :
      "SELECT messageHash, pubsubTopic, contentTopic, payload, version, timestamp, meta".toList.count
        '?' = 0 := by decide
  have htable : " FROM Message".toList.count '?' = 0 := by decide
  have hby : " ORDER BY timestamp ".toList.count '?' = 0 := by decide
  have hthen : ", messageHash ".toList.count '?' = 0 := by decide
  have hlimit : " LIMIT ".toList.count '?' = 0 := by decide
  have hend : ";".toList.count '?' = 0 := by decide
  unfold Select.variables Select.sql
  simp only [count_append, decimal_count, horder, hcolumns, htable, hby, hthen, hlimit, hend]
  omega

/-- A statement has the parameters of its clauses. -/
theorem variables_eq {s : Select}
    (h : ∀ clause ∈ s.filter.getD [], clause.NonEmpty) :
    s.variables = ((s.filter.getD []).map Clause.arity).sum := by
  rw [select_count]
  cases hfilter : s.filter with
  | none => rfl
  | some clauses =>
      rw [hfilter, Option.getD_some] at h
      have hwhere : " WHERE ".toList.count '?' = 0 := by decide
      dsimp only
      rw [count_append, clausesSql_count h, hwhere, Nat.zero_add, Option.getD_some]

end LogosDelivery.Archive.Sqlite
