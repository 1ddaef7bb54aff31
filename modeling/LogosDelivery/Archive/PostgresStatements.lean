import LogosDelivery.Archive.MessagesTable

/-! # The statements of the Postgres archive

`getMessagesWithinLimits` of the Postgres driver and the statements behind it.  A statement is a list
of clauses, whose parameters are taken in the order of their appearance, with an order and a limit;
`Select.run` is what the database does with it.  A parameter is text or a number in decimal, and is
read in the type of the column that it is compared with.

The arbitrary query asks for the rows that the filters describe, after the place that is looked up for
the cursor.  The other two paths do not always: the query by hashes is always in descending order and
finds only what is looked up, and the prepared statements get the content topics and the hashes
joined into one text each, the hash and the time of the cursor in each other's place and, in one
case, too few lengths.  No statement takes a limit that is no `bigint`.  `PathSuited` says when this makes
no difference. -/

namespace LogosDelivery.Archive

open Lib
open StoreSync (WakuMessageHash PubsubTopic ContentTopic)

/-- A parameter of a statement; a number is written in decimal. -/
inductive Param where
  | num (v : ℤ)
  | text (s : Text)

/-- The value of a text of decimal digits. -/
def digitsValue (s : Text) : ℕ := s.foldl (fun v c => 10 * v + (c.toNat - '0'.toNat)) 0

/-- The first number that is too large for a `bigint`. -/
def bigintEnd : ℕ := 2 ^ 63

/-- How a text without sign and blanks is read as a `bigint`. -/
def readBigint (s : Text) : Option ℤ :=
  if s ≠ [] ∧ s.all Char.isDigit ∧ digitsValue s < bigintEnd then some (digitsValue s : ℤ) else none

/-- The parameter compared with a `bigint` column; times are `int64`. -/
def Param.bigint : Param → Option ℤ
  | .num v => some v
  | .text s => readBigint s

/-- The parameter of a `LIMIT`, which is a page size. -/
def Param.limit : Param → Option ℕ
  | .num v => if v.toNat < bigintEnd then some v.toNat else none
  | .text s => (readBigint s).map Int.toNat

/-- The decimal text of a number. -/
def decimal (v : ℤ) : Text := (toString v).toList

/-- The parameter compared with a text column. -/
def Param.varchar : Param → Text
  | .num v => decimal v
  | .text s => s

/-- The clauses of the statements. -/
inductive Clause where
  /-- `contentTopic IN (?,...)` with that many parameters. -/
  | contentTopicIn (n : ℕ)
  | messageHashIn (n : ℕ)
  | pubsubTopicEq
  | timestampGe
  | timestampLt
  /-- `(timestamp, messageHash) > (?,?)`, or `<` in descending order. -/
  | place (ascending : Bool)

def Clause.arity : Clause → ℕ
  | .contentTopicIn n => n
  | .messageHashIn n => n
  | .place _ => 2
  | _ => 1

/-- The parameters can be read in the types of the columns. -/
def Clause.typed : Clause × List Param → Bool
  | (.timestampGe, [p]) => p.bigint.isSome
  | (.timestampLt, [p]) => p.bigint.isSome
  | (.place _, [p, _]) => p.bigint.isSome
  | (clause, args) => decide (args.length = clause.arity)

def Clause.holds (row : ArchiveRow) : Clause × List Param → Bool
  | (.contentTopicIn _, args) => decide (row.message.contentTopic.toList ∈ args.map Param.varchar)
  | (.messageHashIn _, args) => decide (toHex row.hash ∈ args.map Param.varchar)
  | (.pubsubTopicEq, [p]) => decide (row.pubsubTopic.toList = p.varchar)
  | (.timestampGe, [p]) => p.bigint.any (fun t => decide (t ≤ row.message.timestamp))
  | (.timestampLt, [p]) => p.bigint.any (fun t => decide (row.message.timestamp < t))
  | (.place ascending, [p, p']) =>
      p.bigint.any (fun t => isAfter ascending (some (toLex (t, p'.varchar))) row)
  | _ => false

/-- `SELECT ... FROM messages WHERE ... ORDER BY timestamp, messageHash LIMIT ?`. -/
structure Select where
  clauses : List Clause
  ascending : Bool

/-- Each clause with its parameters, and the parameters that are left. -/
def bindParams : List Clause → List Param → List (Clause × List Param) × List Param
  | [], args => ([], args)
  | clause :: clauses, args =>
      let rest := bindParams clauses (args.drop clause.arity)
      ((clause, args.take clause.arity) :: rest.1, rest.2)

/-- The rows that a statement selects. -/
def Select.run (db : Database) (s : Select) (args : List Param) : Except String (List ArchiveRow) :=
  match bindParams s.clauses args with
  | (bound, [limit]) =>
      match limit.limit with
      | none => .error "bigint out of range"
      | some limit =>
          if bound.all Clause.typed then
            .ok ((inOrder s.ascending (db.messages.filter (fun row =>
              bound.all (Clause.holds row)))).take limit)
          else .error "invalid input syntax for type bigint"
  | _ => .error "wrong number of parameters"

/-! ### The arbitrary query -/

/-- The clause of the cursor with its arguments. -/
def cursorClause (ascendingOrder : Bool) : Option (Timestamp × Text) → List (Clause × List Param)
  | none => []
  | some (timeCursor, hashHex) => [(.place ascendingOrder, [.num timeCursor, .text hashHex])]

def contentTopicsClause (contentTopics : List ContentTopic) : List (Clause × List Param) :=
  if contentTopics.length > 0 then
    [(.contentTopicIn contentTopics.length, contentTopics.map (fun t => .text t.toList))]
  else []

def hashesClause (hashes : List WakuMessageHash) : List (Clause × List Param) :=
  if hashes.length > 0 then
    [(.messageHashIn hashes.length, hashes.map (fun h => .text (toHex h)))]
  else []

def pubsubTopicClause : Option PubsubTopic → List (Clause × List Param)
  | none => []
  | some topic => [(.pubsubTopicEq, [.text topic.toList])]

def startTimeClause : Option Timestamp → List (Clause × List Param)
  | none => []
  | some t => [(.timestampGe, [.num t])]

def endTimeClause : Option Timestamp → List (Clause × List Param)
  | none => []
  | some t => [(.timestampLt, [.num t])]

/-- The clauses that `getMessagesArbitraryQuery` adds, each with the arguments it adds for it. -/
def arbitraryClauses (q : DriverQuery) (cursor : Option (Timestamp × Text)) :
    List (Clause × List Param) :=
  cursorClause q.ascendingOrder cursor ++ contentTopicsClause q.contentTopics ++
    hashesClause q.hashes ++ pubsubTopicClause q.pubsubTopic ++ startTimeClause q.startTime ++
    endTimeClause q.endTime

def runArbitrary (db : Database) (q : DriverQuery) (cursor : Option (Timestamp × Text)) :
    Except String (List ArchiveRow) :=
  let parts := arbitraryClauses q cursor
  Select.run db ⟨parts.map Prod.fst, q.ascendingOrder⟩
    (parts.flatMap Prod.snd ++ [.num q.maxPageSize])

/-- `getMessagesArbitraryQuery` and `getMessageHashesArbitraryQuery`, which differ in the columns
that they select. -/
def getMessagesArbitraryQuery (db : Database) (q : DriverQuery) : Except String (List ArchiveRow) :=
  match q.cursor with
  | none => runArbitrary db q none
  | some c =>
      match db.getTimeCursor c with
      | none => .error "cursor not found"
      | some timeCursor => runArbitrary db q (some (timeCursor, toHex c))

/-! ### The prepared statements -/

/-- `SelectNoCursorAscStmtDef` and its three variants. -/
def selectNoCursorStmtDef (ascending : Bool) : Select :=
  ⟨[.contentTopicIn 1, .messageHashIn 1, .pubsubTopicEq, .timestampGe, .timestampLt], ascending⟩

/-- `SelectWithCursorAscStmtDef` and its three variants. -/
def selectWithCursorStmtDef (ascending : Bool) : Select :=
  ⟨[.contentTopicIn 1, .messageHashIn 1, .pubsubTopicEq, .place ascending, .timestampGe,
    .timestampLt], ascending⟩

/-- `runStmt`, with the numbers of lengths and formats that are passed with the values. -/
def runStmt (db : Database) (s : Select) (paramValues : List Param) (lengths formats : ℕ) :
    Except String (List ArchiveRow) :=
  if paramValues.length ≠ lengths ∨ paramValues.length ≠ formats then
    .error "lengths discrepancies in sendQueryPrepared"
  else s.run db paramValues

/-- `getMessagesPreparedStmt`, which passes five lengths without a cursor, and
`getMessageHashesPreparedStmt`, which passes six. -/
def runPreparedStmt (db : Database) (lengthsNoCursor : ℕ) (contentTopic : Text)
    (pubsubTopic : PubsubTopic) (cursor : Option ArchiveCursor) (startTime endTime : Timestamp)
    (hashes : Text) (maxPageSize : ℕ) (ascOrder : Bool) : Except String (List ArchiveRow) :=
  match cursor with
  | none => runStmt db (selectNoCursorStmtDef ascOrder)
      [.text contentTopic, .text hashes, .text pubsubTopic.toList, .num startTime, .num endTime,
        .num maxPageSize] lengthsNoCursor lengthsNoCursor
  | some c =>
      match db.getTimeCursor c with
      | none => .error "cursor not found"
      | some timeCursor => runStmt db (selectWithCursorStmtDef ascOrder)
          [.text contentTopic, .text hashes, .text pubsubTopic.toList, .text (toHex c),
            .num timeCursor, .num startTime, .num endTime, .num maxPageSize] 8 8

def getMessagesPreparedStmt (db : Database) := runPreparedStmt db 5
def getMessageHashesPreparedStmt (db : Database) := runPreparedStmt db 6

/-! ### The query by hashes -/

/-- The first rows of an answer, where the limit is one. -/
def limited (limit : ℕ) (rows : List ArchiveRow) : Except String (List ArchiveRow) :=
  if limit < bigintEnd then .ok (rows.take limit) else .error "bigint out of range"

/-- `messagesAtTimestampsQuery`. -/
def messagesAtTimestamps (db : Database) (hashes : List Text) (timestamps : List Timestamp)
    (maxPageSize : ℕ) : Except String (List ArchiveRow) :=
  limited maxPageSize (inOrder false (db.messages.filter (fun row =>
    decide (row.message.timestamp ∈ timestamps) && decide (toHex row.hash ∈ hashes))))

/-- `SELECT DISTINCT timestamp FROM messages_lookup WHERE messagehash IN (...)`. -/
def Database.lookedUpTimes (db : Database) (hashes : List Text) : List Timestamp :=
  ((db.lookup.filter (fun row => decide (toHex row.1 ∈ hashes))).map Prod.snd).dedup

/-- The timestamps are looked up first. -/
def getMessagesByMessageHashes (db : Database) (hashes : List Text) (maxPageSize : ℕ) :
    Except String (List ArchiveRow) :=
  let timestamps := db.lookedUpTimes hashes
  if timestamps.length = 0 then .ok [] else messagesAtTimestamps db hashes timestamps maxPageSize

/-! ### The three paths -/

/-- `texts.join(",")`. -/
def joinTexts (texts : List Text) : Text := List.intercalate [','] texts

/-- The query filters by hashes and nothing else. -/
def isHashQuery (q : DriverQuery) : Bool :=
  q.cursor.isNone && q.pubsubTopic.isNone && decide (q.contentTopics.length = 0) &&
    q.startTime.isNone && q.endTime.isNone && decide (q.hashes.length > 0)

def getMessagesWithinLimits (db : Database) (q : DriverQuery) : Except String (List ArchiveRow) :=
  if q.hashes.length > MaxHashesPerQuery then
    .error "can not attend queries with more than 100 hashes"
  else
    let hexHashes := q.hashes.map toHex
    if isHashQuery q then getMessagesByMessageHashes db hexHashes q.maxPageSize
    else
      match q.pubsubTopic, q.startTime, q.endTime with
      | some pubsubTopic, some startTime, some endTime =>
          if q.contentTopics.length > 0 ∧ hexHashes.length > 0 then
            let contentTopic := joinTexts (q.contentTopics.map String.toList)
            if q.includeData then
              getMessagesPreparedStmt db contentTopic pubsubTopic q.cursor startTime endTime
                (joinTexts hexHashes) q.maxPageSize q.ascendingOrder
            else
              getMessageHashesPreparedStmt db contentTopic pubsubTopic q.cursor startTime endTime
                (joinTexts hexHashes) q.maxPageSize q.ascendingOrder
          else getMessagesArbitraryQuery db q
      | _, _, _ => getMessagesArbitraryQuery db q

/-! ### Binding -/

theorem bindParams_parts {parts : List (Clause × List Param)}
    (harity : ∀ part ∈ parts, part.2.length = part.1.arity) (rest : List Param) :
    bindParams (parts.map Prod.fst) (parts.flatMap Prod.snd ++ rest) = (parts, rest) := by
  induction parts with
  | nil => rfl
  | cons part parts ih =>
      have hlen := harity part List.mem_cons_self
      have htail := ih (fun p hp => harity p (List.mem_cons_of_mem _ hp))
      simp only [List.map_cons, List.flatMap_cons, List.append_assoc, bindParams]
      rw [← hlen, List.drop_left, List.take_left, htail]

/-! ### The arbitrary query asks for what the filters describe -/

theorem toList_mem_iff {topic : String} {topics : List String} :
    topic.toList ∈ topics.map String.toList ↔ topic ∈ topics :=
  List.mem_map_of_injective (fun _ _ h => String.toList_inj.mp h)

theorem toHex_mem_iff {hash : WakuMessageHash} {hashes : List WakuMessageHash} :
    toHex hash ∈ hashes.map toHex ↔ hash ∈ hashes :=
  List.mem_map_of_injective (fun _ _ h => toHex_inj.mp h)

/-- The clauses have their parameters, and ask for the rows that the predicate describes. -/
structure Asks (parts : List (Clause × List Param)) (p : ArchiveRow → Bool) : Prop where
  arity : ∀ part ∈ parts, part.2.length = part.1.arity
  typed : parts.all Clause.typed = true
  holds : ∀ row, parts.all (Clause.holds row) = p row

theorem asks_nil : Asks [] (fun _ => true) := ⟨by simp, rfl, fun _ => rfl⟩

theorem Asks.append {parts parts' : List (Clause × List Param)} {p p' : ArchiveRow → Bool}
    (h : Asks parts p) (h' : Asks parts' p') : Asks (parts ++ parts') (fun row => p row && p' row) where
  arity := fun part hpart => by
    rcases List.mem_append.mp hpart with hpart | hpart
    · exact h.arity part hpart
    · exact h'.arity part hpart
  typed := by rw [List.all_append, h.typed, h'.typed]; rfl
  holds := fun row => by rw [List.all_append, h.holds, h'.holds]

theorem asks_singleton (part : Clause × List Param) (harity : part.2.length = part.1.arity)
    (htyped : Clause.typed part = true) : Asks [part] (fun row => Clause.holds row part) :=
  ⟨by simpa using harity, by simpa using htyped, fun row => by simp⟩

theorem asks_cursor (ascendingOrder : Bool) (cursor : Option (Timestamp × Text)) :
    Asks (cursorClause ascendingOrder cursor) (isAfter ascendingOrder (cursor.map toLex)) := by
  cases cursor with
  | none => exact asks_nil
  | some place => exact asks_singleton _ rfl rfl

theorem asks_contentTopics (contentTopics : List ContentTopic) :
    Asks (contentTopicsClause contentTopics) (fun row =>
      decide (contentTopics = []) || isTopicOf contentTopics row.message.contentTopic) := by
  cases hct : contentTopics with
  | nil => exact asks_nil
  | cons t ts =>
      rw [← hct, contentTopicsClause, if_pos (by simp [hct])]
      have hmap : (contentTopics.map (fun t => Param.text t.toList)).map Param.varchar =
          contentTopics.map String.toList := by
        rw [List.map_map]
        rfl
      have hholds : (fun row : ArchiveRow => decide (contentTopics = []) ||
          isTopicOf contentTopics row.message.contentTopic) = fun row => Clause.holds row
            (.contentTopicIn contentTopics.length,
              contentTopics.map (fun t => Param.text t.toList)) := by
        funext row
        rw [Clause.holds, hmap, decide_eq_false (by simp [hct]), Bool.false_or]
        exact decide_eq_decide.mpr toList_mem_iff.symm
      rw [hholds]
      exact asks_singleton _ (by simp [Clause.arity]) (by simp [Clause.typed, Clause.arity])

theorem asks_hashes (hashes : List WakuMessageHash) :
    Asks (hashesClause hashes) (fun row =>
      decide (hashes = []) || isHashOf hashes row.hash) := by
  cases hh : hashes with
  | nil => exact asks_nil
  | cons h hs =>
      rw [← hh, hashesClause, if_pos (by simp [hh])]
      have hmap : (hashes.map (fun h => Param.text (toHex h))).map Param.varchar =
          hashes.map toHex := by
        rw [List.map_map]
        rfl
      have hholds : (fun row : ArchiveRow => decide (hashes = []) || isHashOf hashes row.hash) =
          fun row => Clause.holds row
            (.messageHashIn hashes.length, hashes.map (fun h => Param.text (toHex h))) := by
        funext row
        rw [Clause.holds, hmap, decide_eq_false (by simp [hh]), Bool.false_or]
        exact decide_eq_decide.mpr toHex_mem_iff.symm
      rw [hholds]
      exact asks_singleton _ (by simp [Clause.arity]) (by simp [Clause.typed, Clause.arity])

theorem asks_pubsubTopic (pubsubTopic : Option PubsubTopic) :
    Asks (pubsubTopicClause pubsubTopic) (fun row =>
      pubsubTopic.all (fun topic => decide (row.pubsubTopic = topic))) := by
  cases pubsubTopic with
  | none => exact asks_nil
  | some topic =>
      have hholds : (fun row : ArchiveRow => (some topic).all
          (fun topic => decide (row.pubsubTopic = topic))) = fun row => Clause.holds row
            (.pubsubTopicEq, [.text topic.toList]) := by
        funext row
        exact decide_eq_decide.mpr String.toList_inj.symm
      rw [hholds]
      exact asks_singleton _ rfl rfl

theorem asks_startTime (startTime : Option Timestamp) : Asks (startTimeClause startTime) (fun row =>
    startTime.all (fun t => decide (t ≤ row.message.timestamp))) := by
  cases startTime with
  | none => exact asks_nil
  | some t => exact asks_singleton _ rfl rfl

theorem asks_endTime (endTime : Option Timestamp) : Asks (endTimeClause endTime) (fun row =>
    endTime.all (fun t => decide (row.message.timestamp < t))) := by
  cases endTime with
  | none => exact asks_nil
  | some t => exact asks_singleton _ rfl rfl

theorem asks_arbitrary (q : DriverQuery) (cursor : Option (Timestamp × Text)) :
    Asks (arbitraryClauses q cursor) (fun row =>
      rowMatches q row && isAfter q.ascendingOrder (cursor.map toLex) row) := by
  have h := (((((asks_cursor q.ascendingOrder cursor).append
    (asks_contentTopics q.contentTopics)).append (asks_hashes q.hashes)).append
    (asks_pubsubTopic q.pubsubTopic)).append (asks_startTime q.startTime)).append
    (asks_endTime q.endTime)
  refine ⟨h.arity, h.typed, fun row => (h.holds row).trans ?_⟩
  rw [Bool.and_comm (rowMatches q row)]
  simp only [rowMatches, Bool.and_assoc]

/-- A statement asks for the rows that its clauses describe. -/
theorem run_asks (db : Database) {parts : List (Clause × List Param)} {p : ArchiveRow → Bool}
    (h : Asks parts p) (ascending : Bool) (limit : ℕ) :
    Select.run db ⟨parts.map Prod.fst, ascending⟩ (parts.flatMap Prod.snd ++ [.num limit]) =
      limited limit (inOrder ascending (db.messages.filter p)) := by
  have hfilter : (fun row => parts.all (Clause.holds row)) = p := funext h.holds
  have hlimit : Param.limit (.num limit) = if limit < bigintEnd then some limit else none := by
    rw [Param.limit, Int.toNat_natCast]
  simp only [Select.run, bindParams_parts h.arity, hlimit, h.typed, hfilter, if_true]
  unfold limited
  by_cases hroom : limit < bigintEnd
  · simp only [if_pos hroom]
  · simp only [if_neg hroom]

theorem runArbitrary_eq (db : Database) (q : DriverQuery) (cursor : Option (Timestamp × Text)) :
    runArbitrary db q cursor = limited q.maxPageSize (db.matchingRows q (cursor.map toLex)) :=
  run_asks db (asks_arbitrary q cursor) q.ascendingOrder q.maxPageSize

/-! ### What a path selects -/

/-- The first of the rows that a statement selects after the place that is looked up. -/
def Database.selected (db : Database) (q : DriverQuery) (selects : Option Place → ArchiveRow → Bool) :
    Except String (List ArchiveRow) :=
  (db.lookedUpPlace q).bind (fun place =>
    limited q.maxPageSize (inOrder q.ascendingOrder (db.messages.filter (selects place))))

/-- A cursor that is stored is looked up; and where there is a place, the limit is one and the
statement selects the same first rows as the filters after the place of the cursor. -/
structure PageSuited (db : Database) (q : DriverQuery) (selects : Option Place → ArchiveRow → Bool) :
    Prop where
  found : ∀ c, q.cursor = some c → db.getTimeCursor c = none → ∀ row ∈ db.messages, row.hash ≠ c
  rows : ∀ place place', db.lookedUpPlace q = .ok place → db.cursorPlace q = .ok place' →
    q.maxPageSize < bigintEnd ∧
    db.SameFirst q (selects place) (fun row => rowMatches q row && isAfter q.ascendingOrder place' row)

/-- A cursor that is looked up has a place. -/
theorem Database.exists_cursorPlace (db : Database) {q : DriverQuery} {place : Option Place}
    (h : db.lookedUpPlace q = .ok place) : ∃ place', db.cursorPlace q = .ok place' := by
  unfold lookedUpPlace placeAt at h
  unfold cursorPlace placeAt
  cases hc : q.cursor with
  | none => exact ⟨none, rfl⟩
  | some c =>
      simp only [hc] at h
      cases ht : db.getTimeCursor c with
      | none =>
          simp only [ht] at h
          cases h
      | some t =>
          have hsome : db.timeOf c ≠ none := by
            rw [ne_eq, db.timeOf_eq_none, ht]
            simp
          obtain ⟨t', ht'⟩ := Option.ne_none_iff_exists'.mp hsome
          exact ⟨some (toLex (t', toHex c)), by simp only [ht']⟩

/-- The place of the cursor is unknown just where it is not looked up and not stored. -/
theorem Database.lookedUpPlace_error (db : Database) {q : DriverQuery} {e : String}
    (h : db.lookedUpPlace q = .error e) : ∃ c, q.cursor = some c ∧ db.getTimeCursor c = none ∧
      (db.cursorPlace q = .error e ↔ ∀ row ∈ db.messages, row.hash ≠ c) := by
  unfold lookedUpPlace placeAt at h
  unfold cursorPlace placeAt
  cases hc : q.cursor with
  | none =>
      simp only [hc] at h
      cases h
  | some c =>
      simp only [hc] at h
      cases ht : db.getTimeCursor c with
      | some t =>
          simp only [ht] at h
          cases h
      | none =>
          simp only [ht] at h
          obtain rfl := Except.error.inj h
          refine ⟨c, rfl, ht, ?_⟩
          have hnone : db.timeOf c = none ↔
              db.getTimeCursor c = none ∧ ∀ row ∈ db.messages, row.hash ≠ c := db.timeOf_eq_none
          rw [and_iff_right ht] at hnone
          rw [← hnone]
          cases htime : db.timeOf c with
          | none => exact iff_of_true (by simp only [htime]) rfl
          | some t => exact iff_of_false (by simp only [htime]; nofun) nofun

theorem selected_iff (db : Database) (q : DriverQuery) (selects : Option Place → ArchiveRow → Bool) :
    db.selected q selects = db.answer q ↔ PageSuited db q selects := by
  unfold Database.selected Database.answer
  cases hlooked : db.lookedUpPlace q with
  | error e =>
      obtain ⟨c, hc, ht, hiff⟩ := db.lookedUpPlace_error hlooked
      have hanswer : (Except.error e : Except String (List ArchiveRow)) =
          (db.cursorPlace q).map (fun place => (db.matchingRows q place).take q.maxPageSize) ↔
            db.cursorPlace q = .error e := by
        cases db.cursorPlace q <;> simp [Except.map, eq_comm]
      refine hanswer.trans (hiff.trans ⟨fun hnot => ⟨?_, ?_⟩, fun h => h.found c hc ht⟩)
      · intro c' hc' _
        rw [hc] at hc'
        obtain rfl := Option.some.inj hc'
        exact hnot
      · intro place place' hplace
        rw [hlooked] at hplace
        cases hplace
  | ok place =>
      obtain ⟨place', hplace'⟩ := db.exists_cursorPlace hlooked
      have hfound : ∀ c, q.cursor = some c → db.getTimeCursor c = none →
          ∀ row ∈ db.messages, row.hash ≠ c := by
        intro c hc ht
        rw [Database.lookedUpPlace, placeAt, hc] at hlooked
        simp only [ht] at hlooked
        cases hlooked
      have hpage : PageSuited db q selects ↔ q.maxPageSize < bigintEnd ∧
          db.SameFirst q (selects place)
            (fun row => rowMatches q row && isAfter q.ascendingOrder place' row) := by
        refine ⟨fun h => h.rows place place' hlooked hplace', fun h => ⟨hfound, ?_⟩⟩
        intro p p' hp hp'
        rw [hlooked] at hp
        rw [hplace'] at hp'
        obtain rfl := Except.ok.inj hp
        obtain rfl := Except.ok.inj hp'
        exact h
      rw [hpage, hplace', ← db.sameFirst_iff]
      simp only [Except.bind, Except.map, limited]
      split_ifs with hlimit
      · rw [Except.ok.injEq, and_iff_right hlimit]
        rfl
      · exact iff_of_false (fun h => by cases h) (fun h => hlimit h.1)

/-- The arbitrary query selects what the filters describe. -/
def arbitraryMatches (q : DriverQuery) (place : Option Place) (row : ArchiveRow) : Bool :=
  rowMatches q row && isAfter q.ascendingOrder place row

theorem getMessagesArbitraryQuery_eq (db : Database) (q : DriverQuery) :
    getMessagesArbitraryQuery db q = db.selected q (arbitraryMatches q) := by
  unfold getMessagesArbitraryQuery Database.selected Database.lookedUpPlace placeAt
  cases q.cursor with
  | none => exact runArbitrary_eq db q none
  | some c =>
      cases ht : db.getTimeCursor c with
      | none =>
          simp only [ht]
          rfl
      | some t =>
          simp only [ht]
          exact runArbitrary_eq db q (some (t, toHex c))

/-! ### The query by hashes is in descending order -/

/-- What a query by hashes asks for: the rows of the hashes. -/
theorem hashQuery_eq {q : DriverQuery} (h : isHashQuery q = true) :
    q.cursor = none ∧ q.hashes ≠ [] ∧
      ∀ row, rowMatches q row = isHashOf q.hashes row.hash := by
  simp only [isHashQuery, Bool.and_eq_true, Option.isNone_iff_eq_none, decide_eq_true_eq,
    List.length_eq_zero_iff] at h
  obtain ⟨⟨⟨⟨⟨hcursor, hpubsub⟩, htopics⟩, hstart⟩, hend⟩, hpos⟩ := h
  have hne : q.hashes ≠ [] := List.length_pos_iff.mp hpos
  refine ⟨hcursor, hne, fun row => ?_⟩
  simp [rowMatches, hpubsub, htopics, hstart, hend, hne]

/-- The row has one of the hashes and a time that is looked up for them. -/
def foundByTime (db : Database) (hashes : List WakuMessageHash) (row : ArchiveRow) : Bool :=
  decide (row.message.timestamp ∈ db.lookedUpTimes (hashes.map toHex)) && isHashOf hashes row.hash

/-- The rows that are found, the last first. -/
theorem getMessagesByMessageHashes_eq (db : Database) (hashes : List WakuMessageHash) (k : ℕ) :
    getMessagesByMessageHashes db (hashes.map toHex) k =
      if db.lookedUpTimes (hashes.map toHex) = [] ∨ k < bigintEnd then
        .ok ((inOrder false (db.messages.filter (foundByTime db hashes))).take k)
      else .error "bigint out of range" := by
  have hfilter : db.messages.filter (fun row =>
      decide (row.message.timestamp ∈ db.lookedUpTimes (hashes.map toHex)) &&
        decide (toHex row.hash ∈ hashes.map toHex)) = db.messages.filter (foundByTime db hashes) := by
    refine List.filter_congr fun row _ => ?_
    rw [foundByTime, isHashOf, decide_eq_decide.mpr toHex_mem_iff]
  simp only [getMessagesByMessageHashes, messagesAtTimestamps, List.length_eq_zero_iff, hfilter,
    limited]
  by_cases hnil : db.lookedUpTimes (hashes.map toHex) = []
  · have hempty : db.messages.filter (foundByTime db hashes) = [] :=
      List.filter_eq_nil_iff.mpr fun row _ => by simp [foundByTime, hnil]
    rw [if_pos hnil, if_pos (Or.inl hnil), hempty]
    simp [inOrder, orderBy]
  · rw [if_neg hnil]
    exact if_congr (by rw [or_iff_right hnil]) rfl rfl

/-- Nothing is asked for, or nothing has one of the hashes, or one row is found, which is the first of
those that have one, and it is the only one of them or the only one asked for. -/
def OnlyFirst (db : Database) (q : DriverQuery) : Prop :=
  q.maxPageSize = 0 ∨ (∀ row ∈ db.messages, isHashOf q.hashes row.hash = false) ∨
    ∃ first, db.messages.filter (foundByTime db q.hashes) = [first] ∧
      ∀ row ∈ db.messages, isHashOf q.hashes row.hash = true →
        row = first ∨ (q.maxPageSize = 1 ∧ rowKey first < rowKey row)

/-- The limit is one where something is looked up; in descending order the rows that are found are as
good as all rows of the hashes, in ascending order there is one at most. -/
structure HashSuited (db : Database) (q : DriverQuery) : Prop where
  limit : db.lookedUpTimes (q.hashes.map toHex) = [] ∨ q.maxPageSize < bigintEnd
  descending : q.ascendingOrder = false →
    db.SameFirst q (foundByTime db q.hashes) (fun row => isHashOf q.hashes row.hash)
  ascending : q.ascendingOrder = true → OnlyFirst db q

/-- The found rows in descending order begin like all the rows in ascending order. -/
theorem take_found_iff (db : Database) (q : DriverQuery) :
    (inOrder false (db.messages.filter (foundByTime db q.hashes))).take q.maxPageSize =
        (inOrder true (db.messages.filter (fun row => isHashOf q.hashes row.hash))).take
          q.maxPageSize ↔ OnlyFirst db q := by
  have hasc : Ordered true (inOrder true (db.messages.filter (fun row =>
      isHashOf q.hashes row.hash))) := ordered_inOrder (db.distinct_messages.filter _)
  have hdesc : Ordered false (inOrder false (db.messages.filter (foundByTime db q.hashes))) :=
    ordered_inOrder (db.distinct_messages.filter _)
  have hmem : ∀ row, row ∈ inOrder true (db.messages.filter (fun row => isHashOf q.hashes row.hash)) ↔
      row ∈ db.messages ∧ isHashOf q.hashes row.hash = true := by
    intro row
    rw [(perm_inOrder _ _).mem_iff, List.mem_filter]
  have hfound := perm_inOrder false (db.messages.filter (foundByTime db q.hashes))
  have hsub : ∀ row ∈ inOrder false (db.messages.filter (foundByTime db q.hashes)),
      row ∈ inOrder true (db.messages.filter (fun row => isHashOf q.hashes row.hash)) := by
    intro row hrow
    obtain ⟨hin, hfind⟩ := List.mem_filter.mp (hfound.mem_iff.mp hrow)
    rw [foundByTime, Bool.and_eq_true] at hfind
    exact (hmem row).mpr ⟨hin, hfind.2⟩
  have hasc' : Ascending rowKey (inOrder true (db.messages.filter (fun row =>
      isHashOf q.hashes row.hash))) := hasc
  rw [hasc'.take_descending_iff hdesc hsub, OnlyFirst]
  refine or_congr_right (or_congr ?_ ⟨?_, ?_⟩)
  · rw [List.eq_nil_iff_forall_not_mem]
    refine forall_congr' fun row => ?_
    rw [hmem, not_and, Bool.not_eq_true]
  · rintro ⟨first, rest, hone, hall, hend⟩
    rw [hone] at hfound
    rw [hall] at hasc' hmem
    refine ⟨first, (List.singleton_perm.mp hfound).symm, fun row hrow hhash => ?_⟩
    rcases List.mem_cons.mp ((hmem row).mpr ⟨hrow, hhash⟩) with rfl | hrest
    · exact Or.inl rfl
    · refine Or.inr ⟨hend.resolve_right (List.ne_nil_of_mem hrest), ?_⟩
      exact (List.pairwise_cons.mp hasc').1 row hrest
  · rintro ⟨first, hone, hothers⟩
    rw [hone] at hfound hsub ⊢
    have hfirst := hsub first (hfound.symm.subset (List.mem_singleton_self _))
    obtain ⟨rest, hall⟩ := hasc'.eq_cons hfirst fun row hrow =>
      (hothers row ((hmem row).mp hrow).1 ((hmem row).mp hrow).2).imp_right And.right
    rw [hall] at hasc' hmem
    refine ⟨first, rest, List.perm_singleton.mp hfound, hall, ?_⟩
    cases rest with
    | nil => exact Or.inr rfl
    | cons y rest =>
        obtain ⟨hy, hhash⟩ := (hmem y).mp (by simp)
        rcases hothers y hy hhash with rfl | ⟨hk, -⟩
        · exact absurd ((List.pairwise_cons.mp hasc').1 y List.mem_cons_self) (lt_irrefl _)
        · exact Or.inl hk

/-! ### What the prepared statements ask for -/

/-- The cursor's place with the time in the place of the hash and the hash in that of the time. -/
def misplaced (place : Place) : Option Place :=
  (readBigint (ofLex place).2).map (fun v => toLex (v, decimal (ofLex place).1))

/-- The row passes the filters of the query as a prepared statement reads them: the content topics
joined as one topic, the hashes joined as one hash and the cursor misplaced. -/
def misreadMatches (q : DriverQuery) (place : Option Place) (row : ArchiveRow) : Bool :=
  decide (row.message.contentTopic.toList = joinTexts (q.contentTopics.map String.toList)) &&
  decide (toHex row.hash = joinTexts (q.hashes.map toHex)) &&
  q.pubsubTopic.all (fun topic => decide (row.pubsubTopic = topic)) &&
  isAfter q.ascendingOrder (place.bind misplaced) row &&
  q.startTime.all (fun startTime => decide (startTime ≤ row.message.timestamp)) &&
  q.endTime.all (fun endTime => decide (row.message.timestamp < endTime))

/-- A query that is run as a prepared statement. -/
structure IsPrepared (q : DriverQuery) (pubsubTopic : PubsubTopic) (startTime endTime : Timestamp) :
    Prop where
  pubsubTopic : q.pubsubTopic = some pubsubTopic
  startTime : q.startTime = some startTime
  endTime : q.endTime = some endTime
  contentTopics : q.contentTopics ≠ []
  hashes : q.hashes ≠ []

/-- The query runs as a prepared statement. -/
def isPreparedQuery (q : DriverQuery) : Bool :=
  decide (q.contentTopics.length > 0) && decide (q.hashes.length > 0) && q.pubsubTopic.isSome &&
    q.startTime.isSome && q.endTime.isSome

theorem exists_isPrepared {q : DriverQuery} (h : isPreparedQuery q = true) :
    ∃ pubsubTopic startTime endTime, IsPrepared q pubsubTopic startTime endTime := by
  simp only [isPreparedQuery, Bool.and_eq_true, decide_eq_true_eq, Option.isSome_iff_exists] at h
  obtain ⟨⟨⟨⟨htopics, hhashes⟩, pubsubTopic, hp⟩, startTime, hs⟩, endTime, he⟩ := h
  exact ⟨pubsubTopic, startTime, endTime, hp, hs, he, List.length_pos_iff.mp htopics,
    List.length_pos_iff.mp hhashes⟩

theorem asks_oneTopic (text : Text) : Asks [(.contentTopicIn 1, [.text text])]
    (fun row => decide (row.message.contentTopic.toList = text)) := by
  have h := asks_singleton (.contentTopicIn 1, [.text text]) rfl rfl
  refine ⟨h.arity, h.typed, fun row => (h.holds row).trans ?_⟩
  simp [Clause.holds, Param.varchar]

theorem asks_oneHash (text : Text) : Asks [(.messageHashIn 1, [.text text])]
    (fun row => decide (toHex row.hash = text)) := by
  have h := asks_singleton (.messageHashIn 1, [.text text]) rfl rfl
  refine ⟨h.arity, h.typed, fun row => (h.holds row).trans ?_⟩
  simp [Clause.holds, Param.varchar]

section Prepared

variable {db : Database} {q : DriverQuery} {pubsubTopic : PubsubTopic} {startTime endTime : Timestamp}

/-- The clauses of a prepared statement with the values that it gets. -/
theorem asks_misread {parts : List (Clause × List Param)} {place : Option Place}
    (hplace : Asks parts (isAfter q.ascendingOrder (place.bind misplaced))) :
    Asks ([(.contentTopicIn 1, [.text (joinTexts (q.contentTopics.map String.toList))])] ++
      [(.messageHashIn 1, [.text (joinTexts (q.hashes.map toHex))])] ++
      pubsubTopicClause q.pubsubTopic ++ parts ++ startTimeClause q.startTime ++
      endTimeClause q.endTime) (misreadMatches q place) :=
  (((((asks_oneTopic _).append (asks_oneHash _)).append (asks_pubsubTopic _)).append hplace).append
    (asks_startTime _)).append (asks_endTime _)

theorem runStmt_noCursor (h : IsPrepared q pubsubTopic startTime endTime) :
    runPreparedStmt db 6 (joinTexts (q.contentTopics.map String.toList)) pubsubTopic none startTime
      endTime (joinTexts (q.hashes.map toHex)) q.maxPageSize q.ascendingOrder =
    limited q.maxPageSize (inOrder q.ascendingOrder (db.messages.filter (misreadMatches q none))) := by
  have hasks : Asks _ (misreadMatches q none) := asks_misread asks_nil
  have hrun := run_asks db hasks q.ascendingOrder q.maxPageSize
  rw [h.pubsubTopic, h.startTime, h.endTime] at hrun
  exact hrun

theorem runStmt_cursor (n : ℕ) {c : ArchiveCursor} {t : Timestamp}
    (ht : db.getTimeCursor c = some t) :
    runPreparedStmt db n (joinTexts (q.contentTopics.map String.toList)) pubsubTopic (some c)
      startTime endTime (joinTexts (q.hashes.map toHex)) q.maxPageSize q.ascendingOrder =
      Select.run db (selectWithCursorStmtDef q.ascendingOrder)
        [.text (joinTexts (q.contentTopics.map String.toList)),
          .text (joinTexts (q.hashes.map toHex)), .text pubsubTopic.toList, .text (toHex c), .num t,
          .num startTime, .num endTime, .num q.maxPageSize] := by
  simp [runPreparedStmt, ht, runStmt]

theorem runStmt_readable (h : IsPrepared q pubsubTopic startTime endTime) (n : ℕ)
    {c : ArchiveCursor} {t : Timestamp} (ht : db.getTimeCursor c = some t)
    (hread : (readBigint (toHex c)).isSome = true) :
    runPreparedStmt db n (joinTexts (q.contentTopics.map String.toList)) pubsubTopic (some c)
      startTime endTime (joinTexts (q.hashes.map toHex)) q.maxPageSize q.ascendingOrder =
    limited q.maxPageSize (inOrder q.ascendingOrder
      (db.messages.filter (misreadMatches q (some (toLex (t, toHex c)))))) := by
  obtain ⟨v, hv⟩ := Option.isSome_iff_exists.mp hread
  have hmis : (some (toLex (t, toHex c))).bind misplaced = some (toLex (v, decimal t)) := by
    simp [misplaced, hv]
  have hplace : Asks [(.place q.ascendingOrder, [.text (toHex c), .num t])]
      (isAfter q.ascendingOrder ((some (toLex (t, toHex c))).bind misplaced)) := by
    have hone := asks_singleton (.place q.ascendingOrder, [.text (toHex c), .num t]) rfl
      (by simp [Clause.typed, Param.bigint, hv])
    refine ⟨hone.arity, hone.typed, fun row => (hone.holds row).trans ?_⟩
    rw [hmis]
    simp [Clause.holds, Param.bigint, Param.varchar, hv]
  have hrun := run_asks db (asks_misread hplace) q.ascendingOrder q.maxPageSize
  rw [h.pubsubTopic, h.startTime, h.endTime] at hrun
  rw [runStmt_cursor n ht]
  exact hrun

theorem runStmt_unreadable (n : ℕ) {c : ArchiveCursor} {t : Timestamp}
    (ht : db.getTimeCursor c = some t) (hread : ¬ (readBigint (toHex c)).isSome = true) :
    ∃ e, runPreparedStmt db n (joinTexts (q.contentTopics.map String.toList)) pubsubTopic (some c)
      startTime endTime (joinTexts (q.hashes.map toHex)) q.maxPageSize q.ascendingOrder = .error e := by
  rw [runStmt_cursor n ht]
  simp only [Select.run, selectWithCursorStmtDef, bindParams, Clause.arity, List.take_succ_cons,
    List.take_zero, List.drop_succ_cons, List.drop_zero]
  cases Param.limit (.num q.maxPageSize) with
  | none => exact ⟨_, rfl⟩
  | some limit => exact ⟨_, if_neg (by simp [Clause.typed, Param.bigint, hread])⟩

end Prepared

/-! ### When the path makes no difference -/

/-- A prepared statement is given as many lengths as values, the hash of a cursor that is looked up
reads as a number, and the filters select the same first rows when they are misread. -/
structure PreparedSuited (db : Database) (q : DriverQuery) : Prop where
  lengths : q.includeData = true → q.cursor ≠ none
  cursor : ∀ c, q.cursor = some c → db.getTimeCursor c ≠ none → (readBigint (toHex c)).isSome = true
  page : PageSuited db q (misreadMatches q)

/-- The path of the query makes no difference. -/
def PathSuited (db : Database) (q : DriverQuery) : Prop :=
  if isHashQuery q then HashSuited db q
  else if isPreparedQuery q then PreparedSuited db q
  else PageSuited db q (arbitraryMatches q)

theorem hashQuery_iff (db : Database) {q : DriverQuery} (h : isHashQuery q = true) :
    getMessagesByMessageHashes db (q.hashes.map toHex) q.maxPageSize = db.answer q ↔
      HashSuited db q := by
  obtain ⟨hcursor, -, hmatch⟩ := hashQuery_eq h
  have hrows : db.matchingRows q none = inOrder q.ascendingOrder
      (db.messages.filter (fun row => isHashOf q.hashes row.hash)) := by
    rw [Database.matchingRows]
    congr 1
    refine List.filter_congr fun row _ => ?_
    rw [hmatch]
    exact Bool.and_true _
  have hanswer : db.answer q = .ok ((inOrder q.ascendingOrder
      (db.messages.filter (fun row => isHashOf q.hashes row.hash))).take q.maxPageSize) := by
    rw [Database.answer, Database.cursorPlace, placeAt, hcursor, ← hrows]
    rfl
  have hsuited : HashSuited db q ↔
      (db.lookedUpTimes (q.hashes.map toHex) = [] ∨ q.maxPageSize < bigintEnd) ∧
      (inOrder false (db.messages.filter (foundByTime db q.hashes))).take q.maxPageSize =
        (inOrder q.ascendingOrder (db.messages.filter (fun row =>
          isHashOf q.hashes row.hash))).take q.maxPageSize := by
    cases hasc : q.ascendingOrder with
    | false =>
        have hiff := db.sameFirst_iff q (foundByTime db q.hashes)
          (fun row => isHashOf q.hashes row.hash)
        rw [hasc] at hiff
        rw [hiff]
        have hnot : q.ascendingOrder ≠ true := by rw [hasc]; exact Bool.false_ne_true
        exact ⟨fun h => ⟨h.limit, h.descending hasc⟩,
          fun h => ⟨h.1, fun _ => h.2, fun htrue => absurd htrue hnot⟩⟩
    | true =>
        rw [take_found_iff]
        have hnot : q.ascendingOrder ≠ false := by rw [hasc]; exact Bool.false_ne_true.symm
        exact ⟨fun h => ⟨h.limit, h.ascending hasc⟩,
          fun h => ⟨h.1, fun hfalse => absurd hfalse hnot, fun _ => h.2⟩⟩
  rw [getMessagesByMessageHashes_eq, hanswer, hsuited]
  split_ifs with hlimit
  · rw [Except.ok.injEq, and_iff_right hlimit]
  · exact iff_of_false (fun heq => by cases heq) (fun h => hlimit h.1)

theorem prepared_iff (db : Database) {q : DriverQuery} {pubsubTopic : PubsubTopic}
    {startTime endTime : Timestamp} (h : IsPrepared q pubsubTopic startTime endTime) :
    runPreparedStmt db (if q.includeData then 5 else 6)
        (joinTexts (q.contentTopics.map String.toList)) pubsubTopic q.cursor startTime endTime
        (joinTexts (q.hashes.map toHex)) q.maxPageSize q.ascendingOrder = db.answer q ↔
      PreparedSuited db q := by
  have hselected := selected_iff db q (misreadMatches q)
  cases hc : q.cursor with
  | none =>
      have hplace : db.lookedUpPlace q = .ok none := by rw [Database.lookedUpPlace, placeAt, hc]
      have hanswer : ∃ rows, db.answer q = .ok rows := by
        rw [Database.answer, Database.cursorPlace, placeAt, hc]
        exact ⟨_, rfl⟩
      cases hdata : q.includeData with
      | true =>
          -- six values and five lengths
          obtain ⟨rows, hrows⟩ := hanswer
          rw [hrows]
          refine iff_of_false (fun heq => ?_) (fun hsuited => hsuited.lengths hdata hc)
          cases heq
      | false =>
          rw [if_neg Bool.false_ne_true, runStmt_noCursor h]
          rw [Database.selected, hplace] at hselected
          refine hselected.trans ⟨fun hpage => ⟨?_, ?_, hpage⟩, PreparedSuited.page⟩
          · intro hasked
            exact absurd (hdata.symm.trans hasked) Bool.false_ne_true
          · intro c hsome
            exact absurd (hc.symm.trans hsome) (Option.some_ne_none c).symm
  | some c =>
      have hlengths : q.includeData = true → q.cursor ≠ none := fun _ => by
        rw [hc]
        exact Option.some_ne_none c
      cases ht : db.getTimeCursor c with
      | none =>
          have hplace : db.lookedUpPlace q = .error "cursor not found" := by
            rw [Database.lookedUpPlace, placeAt, hc]
            simp only [ht]
          rw [Database.selected, hplace] at hselected
          simp only [runPreparedStmt, ht]
          refine hselected.trans ⟨fun hpage => ⟨hlengths, ?_, hpage⟩, PreparedSuited.page⟩
          intro c' hc' hfound
          rw [hc] at hc'
          obtain rfl := Option.some.inj hc'
          exact absurd ht hfound
      | some t =>
          have hplace : db.lookedUpPlace q = .ok (some (toLex (t, toHex c))) := by
            rw [Database.lookedUpPlace, placeAt, hc]
            simp only [ht]
          by_cases hread : (readBigint (toHex c)).isSome = true
          · rw [runStmt_readable h _ ht hread]
            rw [Database.selected, hplace] at hselected
            refine hselected.trans ⟨fun hpage => ⟨hlengths, ?_, hpage⟩, PreparedSuited.page⟩
            intro c' hc' _
            rw [hc] at hc'
            obtain rfl := Option.some.inj hc'
            exact hread
          · obtain ⟨e, he⟩ := @runStmt_unreadable db q pubsubTopic startTime endTime
              (if q.includeData then 5 else 6) c t ht hread
            obtain ⟨place', hplace'⟩ := db.exists_cursorPlace hplace
            rw [he, Database.answer, hplace']
            refine iff_of_false (fun heq => by cases heq) (fun hsuited => hread ?_)
            exact hsuited.cursor c hc (by rw [ht]; exact Option.some_ne_none t)

/-- **The path of a query** makes no difference exactly when it is suited. -/
theorem withinLimits_iff_pathSuited (db : Database) (q : DriverQuery)
    (hlimit : q.hashes.length ≤ MaxHashesPerQuery) :
    getMessagesWithinLimits db q = db.answer q ↔ PathSuited db q := by
  unfold getMessagesWithinLimits PathSuited
  rw [if_neg (by omega)]
  by_cases hhash : isHashQuery q = true
  · simp only [if_pos hhash]
    exact hashQuery_iff db hhash
  · simp only [if_neg hhash]
    by_cases hprepared : isPreparedQuery q = true
    · obtain ⟨pubsubTopic, startTime, endTime, h⟩ := exists_isPrepared hprepared
      have hlists : q.contentTopics.length > 0 ∧ (q.hashes.map toHex).length > 0 :=
        ⟨List.length_pos_iff.mpr h.contentTopics, by
          rw [List.length_map]
          exact List.length_pos_iff.mpr h.hashes⟩
      have hiff := prepared_iff db h
      rw [if_pos hprepared, ← hiff]
      simp only [h.pubsubTopic, h.startTime, h.endTime, if_pos hlists]
      cases q.includeData <;> exact Iff.rfl
    · rw [if_neg hprepared, ← selected_iff, ← getMessagesArbitraryQuery_eq]
      simp only [isPreparedQuery, Bool.and_eq_true, decide_eq_true_eq] at hprepared
      cases hp : q.pubsubTopic with
      | none => exact Iff.rfl
      | some pubsubTopic =>
          cases hs : q.startTime with
          | none => exact Iff.rfl
          | some startTime =>
              cases he : q.endTime with
              | none => exact Iff.rfl
              | some endTime =>
                  have hlists : ¬ (q.contentTopics.length > 0 ∧ (q.hashes.map toHex).length > 0) := by
                    rintro ⟨htopics, hhashes⟩
                    rw [List.length_map] at hhashes
                    rw [hp, hs, he] at hprepared
                    exact hprepared ⟨⟨⟨⟨htopics, hhashes⟩, rfl⟩, rfl⟩, rfl⟩
                  simp only [if_neg hlists]

/-- The two messages by their hashes, the first first. -/
def twoHashes : DriverQuery :=
  allRows.withHashes [StoreSync.constFingerprint 1, StoreSync.constFingerprint 2]

/-- The later message comes first. -/
theorem withinLimits_twoHashes :
    getMessagesWithinLimits twoRows twoHashes ≠ twoRows.answer twoHashes := by
  decide +kernel

theorem withinLimits_allRows : allRows.hashes.length ≤ MaxHashesPerQuery ∧
    getMessagesWithinLimits twoRows allRows = twoRows.answer allRows := by
  refine ⟨by decide, (withinLimits_iff_pathSuited twoRows allRows (by decide)).mpr ?_⟩
  rw [PathSuited, if_neg (by decide), if_neg (by decide)]
  refine ⟨nofun, fun place place' hplace hplace' => ?_⟩
  obtain rfl := Except.ok.inj hplace
  obtain rfl := Except.ok.inj hplace'
  exact ⟨by decide, fun _ _ hne => absurd rfl hne⟩

end LogosDelivery.Archive
