import LogosDelivery.Archive.SqliteQueries

/-! # What the store query of the SQLite archive answers

The clauses of a query, with the values that belong to them, ask for the rows that its filters
describe (`Asks`).  The binder gives every `?` the value that belongs to it, and the query answers
with the first of these rows, exactly if there are no hashes or no times among the filters and the
limit and the number of values are in the range of SQLite (`select_iff`). -/

namespace LogosDelivery.Archive.Sqlite

open Lib
open StoreSync (Byte WakuMessageHash PubsubTopic ContentTopic)

variable {cursor : Option (Timestamp × WakuMessageHash)} {q : DriverQuery} {row : ArchiveRow}

/-! ### What a query asks for -/

/-- The row is strictly after the place, if there is one. -/
def follows (ascending : Bool) (place : Option Place) (row : ArchiveRow) : Bool :=
  place.all (fun p => if ascending then decide (p < rowPlace row) else decide (rowPlace row < p))

/-- The place is the one of the row with the hash of the cursor. -/
def SqliteDatabase.CursorAt (db : SqliteDatabase) (q : DriverQuery) : Option Place → Prop
  | none => q.cursor = none
  | some place => ∃ row ∈ db.rows, q.cursor = some row.hash ∧ place = rowPlace row

/-- The first of the rows after the place that match all the filters. -/
def SqliteDatabase.answer (db : SqliteDatabase) (q : DriverQuery) (place : Option Place) :
    List ArchiveRow :=
  (inOrder q.ascendingOrder (db.rows.filter (fun row =>
    rowMatches q row && follows q.ascendingOrder place row))).take q.maxPageSize

/-- The values that belong to the `?` of a clause. -/
def ownParams (cursor : Option (Timestamp × WakuMessageHash)) (q : DriverQuery) :
    Clause → List Value
  | .cursor _ => cursorParams cursor
  | .pubsubTopic => pubsubTopicParams q.pubsubTopic
  | .contentTopic _ => contentTopicParams q.contentTopics
  | .startTime => timeParams q.startTime
  | .endTime => timeParams q.endTime
  | .hashes _ => hashParams q.hashes

/-- The clauses of the query. -/
def clausesOf (cursor : Option (Timestamp × WakuMessageHash)) (q : DriverQuery) : List Clause :=
  (whereClause cursor.isSome q).getD []

/-- Each `?` of the `WHERE` clause is bound to its own value. -/
def BindsOwn (cursor : Option (Timestamp × WakuMessageHash)) (q : DriverQuery) : Prop :=
  boundParams cursor q = (clausesOf cursor q).flatMap (ownParams cursor q)

/-! ### Comparisons -/

section Compare

variable {α : Type} [LinearOrder α] {x y : α}

theorem orderOf_eq_lt : orderOf x y = .lt ↔ x < y := by
  unfold orderOf
  split_ifs with hlt heq <;> simp [hlt]

theorem orderOf_eq_eq : orderOf x y = .eq ↔ x = y := by
  unfold orderOf
  split_ifs with hlt heq
  · simp [hlt.ne]
  · simp [heq]
  · simp [heq]

theorem orderOf_eq_gt : orderOf x y = .gt ↔ y < x := by
  unfold orderOf
  split_ifs with hlt heq
  · simp [hlt.not_gt]
  · simp [heq]
  · simpa using lt_of_le_of_ne (not_lt.mp hlt) (Ne.symm heq)

end Compare

theorem toBytes_inj {s t : String} : toBytes s = toBytes t ↔ s = t := by
  constructor
  · intro h
    have hbytes : s.toByteArray.data.toList = t.toByteArray.data.toList :=
      List.map_injective_iff.mpr (fun _ _ heq => UInt8.toFin_inj.mp heq) h
    exact String.toByteArray_inj.mp (ByteArray.ext (Array.toList_inj.mp hbytes))
  · rintro rfl
    rfl

theorem toBytes_eq_nil {s : String} : toBytes s = [] ↔ s = "" := by
  have hempty : toBytes "" = [] := rfl
  rw [← hempty]
  exact toBytes_inj

/-- A column that is not empty equals what is bound exactly if the bytes are the same. -/
theorem compare_bindBytes {x y : List Byte} (hx : x ≠ []) :
    (Value.blob x).compare (bindBytes y) = some .eq ↔ x = y := by
  unfold bindBytes
  split_ifs with hpos
  · rw [Value.compare, Option.some.injEq]
    exact orderOf_eq_eq
  · have hy : y = [] := List.length_eq_zero_iff.mp (by omega)
    rw [hy]
    simp [Value.compare, hx]

theorem bindBytes_hash (hash : WakuMessageHash) : bindBytes hash.1 = .blob hash.1 := by
  have hlen : hash.1.length > 0 := by
    rw [hash.2]
    omega
  rw [bindBytes, if_pos hlen]

/-! ### Clauses with their own values -/

/-- A clause, if there is one, has the values, one for each of its `?`, and with them asks for the
rows that the predicate describes. -/
structure Asks (cursor : Option (Timestamp × WakuMessageHash)) (q : DriverQuery)
    (o : Option Clause) (values : List Value) (p : ArchiveRow → Bool) : Prop where
  own : o.toList.flatMap (ownParams cursor q) = values
  arity : ∀ clause ∈ o, (ownParams cursor q clause).length = clause.arity
  nonEmpty : ∀ clause ∈ o, clause.NonEmpty
  holds : ∀ row : ArchiveRow, row.pubsubTopic ≠ "" → row.message.contentTopic ≠ "" →
    o.all (fun clause => Clause.holds row (clause, ownParams cursor q clause)) = p row

theorem Asks.clause {o : Option Clause} {values : List Value} {p : ArchiveRow → Bool}
    (h : Asks cursor q o values p) {clause : Clause} (hclause : o = some clause) :
    clause.NonEmpty ∧ (ownParams cursor q clause).length = clause.arity :=
  ⟨h.nonEmpty clause hclause, h.arity clause hclause⟩

theorem asks_none : Asks cursor q none [] (fun _ => true) :=
  ⟨rfl, by simp, by simp, fun _ _ _ => rfl⟩

theorem asks_some {clause : Clause} {values : List Value} {p : ArchiveRow → Bool}
    (hown : ownParams cursor q clause = values) (harity : values.length = clause.arity)
    (hnonEmpty : clause.NonEmpty)
    (hholds : ∀ row : ArchiveRow, row.pubsubTopic ≠ "" → row.message.contentTopic ≠ "" →
      Clause.holds row (clause, values) = p row) : Asks cursor q (some clause) values p := by
  subst hown
  refine ⟨List.flatMap_singleton .., ?_, ?_, hholds⟩
  · rintro _ ⟨⟩
    exact harity
  · rintro _ ⟨⟩
    exact hnonEmpty

theorem comesAfter_eq (ascending : Bool) (row : ArchiveRow) (time : Timestamp)
    (hash : WakuMessageHash) : comesAfter ascending row (.integer time) (.blob hash.1) =
      follows ascending (some (toLex (time, hash))) row := by
  have hlt : (toLex (time, hash) : Place) < rowPlace row ↔
      time < row.message.timestamp ∨ time = row.message.timestamp ∧ hash < row.hash :=
    Prod.Lex.toLex_lt_toLex
  have hgt : rowPlace row < (toLex (time, hash) : Place) ↔
      row.message.timestamp < time ∨ row.message.timestamp = time ∧ row.hash < hash :=
    Prod.Lex.toLex_lt_toLex
  unfold comesAfter follows
  simp only [Value.compare, Option.all_some, hlt, hgt]
  rcases lt_trichotomy row.message.timestamp time with hcmp | hcmp | hcmp
  · have horder := orderOf_eq_lt.mpr hcmp
    cases ascending <;> simp [horder, hcmp, hcmp.not_gt, hcmp.ne']
  · have horder : orderOf time time = .eq := orderOf_eq_eq.mpr rfl
    cases ascending
    · simp [hcmp, horder, orderOf_eq_lt]
    · simp [hcmp, horder, orderOf_eq_gt]
  · have horder := orderOf_eq_gt.mpr hcmp
    cases ascending <;> simp [horder, hcmp, hcmp.not_gt, hcmp.ne']

theorem asks_cursor (place : Option Place) (q : DriverQuery) :
    Asks (place.map ofLex) q (cursorClause (place.map ofLex).isSome q.ascendingOrder)
      (cursorParams (place.map ofLex)) (follows q.ascendingOrder place) := by
  cases place with
  | none => exact asks_none
  | some place =>
      refine asks_some rfl rfl trivial (fun row _ _ => ?_)
      refine Eq.trans ?_ (comesAfter_eq q.ascendingOrder row (ofLex place).1 (ofLex place).2)
      rw [← bindBytes_hash]
      rfl

theorem asks_pubsubTopic : Asks cursor q (pubsubTopicClause q.pubsubTopic)
    (pubsubTopicParams q.pubsubTopic)
    (fun row => q.pubsubTopic.all (fun topic => decide (row.pubsubTopic = topic))) := by
  cases hq : q.pubsubTopic with
  | none => exact asks_none
  | some topic =>
      refine asks_some (by rw [ownParams, hq]) rfl trivial (fun row hrow _ => ?_)
      refine decide_eq_decide.mpr ?_
      rw [compare_bindBytes (fun hnil => hrow (toBytes_eq_nil.mp hnil)), toBytes_inj]

/-- A column that is not empty is among the bound values exactly if its bytes are. -/
theorem isIn_bindBytes {α : Type} (bytesOf : α → List Byte) {x : List Byte} (hx : x ≠ [])
    (l : List α) :
    isIn (.blob x) (l.map (fun y => bindBytes (bytesOf y))) = true ↔ ∃ y ∈ l, x = bytesOf y := by
  simp only [isIn, List.any_map, List.any_eq_true, Function.comp_apply, decide_eq_true_eq,
    compare_bindBytes hx]

theorem asks_contentTopic : Asks cursor q (contentTopicClause q.contentTopics)
    (contentTopicParams q.contentTopics)
    (fun row => decide (q.contentTopics = []) ||
      isTopicOf q.contentTopics row.message.contentTopic) := by
  unfold contentTopicClause
  split_ifs with hlen
  · have hnil : q.contentTopics = [] := List.length_eq_zero_iff.mp (by omega)
    simp only [hnil, decide_true, Bool.true_or]
    exact asks_none
  · have hne : q.contentTopics ≠ [] := fun hnil => hlen (by simp [hnil])
    refine asks_some rfl (by simp [contentTopicParams, Clause.arity])
      (Nat.lt_of_not_le hlen) (fun row _ hrow => ?_)
    rw [decide_eq_false hne, Bool.false_or, Bool.eq_iff_iff, isTopicOf_iff]
    refine (isIn_bindBytes toBytes (fun hnil => hrow (toBytes_eq_nil.mp hnil)) _).trans ?_
    simp only [toBytes_inj, exists_eq_right']

theorem asks_hashes : Asks cursor q (hashesClause q.hashes) (hashParams q.hashes)
    (fun row => decide (q.hashes = []) || isHashOf q.hashes row.hash) := by
  unfold hashesClause
  split_ifs with hlen
  · have hnil : q.hashes = [] := List.length_eq_zero_iff.mp (by omega)
    simp only [hnil, decide_true, Bool.true_or]
    exact asks_none
  · have hne : q.hashes ≠ [] := fun hnil => hlen (by simp [hnil])
    refine asks_some rfl (by simp [hashParams, Clause.arity])
      (Nat.lt_of_not_le hlen) (fun row _ _ => ?_)
    have hrow : row.hash.1 ≠ [] := fun hnil => by
      have hlength := row.hash.2
      rw [hnil] at hlength
      cases hlength
    rw [decide_eq_false hne, Bool.false_or, Bool.eq_iff_iff, isHashOf_iff]
    refine (isIn_bindBytes (fun hash : WakuMessageHash => hash.1) hrow _).trans ?_
    simp only [← Subtype.ext_iff, exists_eq_right']

theorem asks_startTime : Asks cursor q (startTimeClause q.startTime) (timeParams q.startTime)
    (fun row => q.startTime.all (fun t => decide (t ≤ row.message.timestamp))) := by
  cases hq : q.startTime with
  | none => exact asks_none
  | some time =>
      refine asks_some (by rw [ownParams, hq]) rfl trivial (fun row _ _ => ?_)
      refine decide_eq_decide.mpr ?_
      simp only [Value.compare, List.mem_cons, Option.some.injEq, List.not_mem_nil, or_false,
        orderOf_eq_gt, orderOf_eq_eq]
      exact (le_iff_lt_or_eq.trans (or_congr_right eq_comm)).symm

theorem asks_endTime : Asks cursor q (endTimeClause q.endTime) (timeParams q.endTime)
    (fun row => q.endTime.all (fun t => decide (row.message.timestamp < t))) := by
  cases hq : q.endTime with
  | none => exact asks_none
  | some time =>
      refine asks_some (by rw [ownParams, hq]) rfl trivial (fun row _ _ => ?_)
      refine decide_eq_decide.mpr ?_
      rw [Value.compare, Option.some.injEq]
      exact orderOf_eq_lt

/-! ### The clauses together -/

theorem filterMap_id_cons {α : Type} (o : Option α) (l : List (Option α)) :
    (o :: l).filterMap id = o.toList ++ l.filterMap id := by
  cases o <;> rfl

/-- The clauses in the order of the statement. -/
theorem clausesOf_eq (cursor : Option (Timestamp × WakuMessageHash)) (q : DriverQuery) :
    clausesOf cursor q =
      (cursorClause cursor.isSome q.ascendingOrder).toList ++
        ((pubsubTopicClause q.pubsubTopic).toList ++
          ((contentTopicClause q.contentTopics).toList ++
            ((startTimeClause q.startTime).toList ++
              ((endTimeClause q.endTime).toList ++ (hashesClause q.hashes).toList)))) := by
  have hcombine : ∀ clauses, (combineClauses clauses).getD [] = clauses.filterMap id := by
    intro clauses
    unfold combineClauses
    dsimp only
    split_ifs with hlen
    · rw [List.length_eq_zero_iff.mp (by omega : (clauses.filterMap id).length = 0)]
      rfl
    · rfl
  unfold clausesOf whereClause
  rw [hcombine]
  simp only [filterMap_id_cons, List.filterMap_nil, List.append_nil]

/-- The values of the `?` in the order of the statement. -/
theorem own_eq (place : Option Place) (q : DriverQuery) :
    (clausesOf (place.map ofLex) q).flatMap (ownParams (place.map ofLex) q) =
      cursorParams (place.map ofLex) ++ pubsubTopicParams q.pubsubTopic ++
        contentTopicParams q.contentTopics ++ timeParams q.startTime ++ timeParams q.endTime ++
        hashParams q.hashes := by
  rw [clausesOf_eq]
  simp only [List.flatMap_append, (asks_cursor place q).own, asks_pubsubTopic.own,
    asks_contentTopic.own, asks_startTime.own, asks_endTime.own, asks_hashes.own,
    List.append_assoc]

/-- The clauses ask for the rows that match the filters and are after the place. -/
theorem clauses_hold (place : Option Place) (q : DriverQuery)
    (htopic : row.pubsubTopic ≠ "") (hcontent : row.message.contentTopic ≠ "") :
    (clausesOf (place.map ofLex) q).all
        (fun clause => Clause.holds row (clause, ownParams (place.map ofLex) q clause)) =
      (rowMatches q row && follows q.ascendingOrder place row) := by
  have hall : ∀ (o : Option Clause) (p : Clause → Bool), o.toList.all p = o.all p := by
    intro o p
    cases o <;> simp
  rw [clausesOf_eq]
  simp only [List.all_append, hall, (asks_cursor place q).holds row htopic hcontent,
    asks_pubsubTopic.holds row htopic hcontent, asks_contentTopic.holds row htopic hcontent,
    asks_startTime.holds row htopic hcontent, asks_endTime.holds row htopic hcontent,
    asks_hashes.holds row htopic hcontent]
  rw [rowMatches]
  ac_rfl

theorem clausesOf_arity (place : Option Place) (q : DriverQuery) :
    ∀ clause ∈ clausesOf (place.map ofLex) q, clause.NonEmpty ∧
      (ownParams (place.map ofLex) q clause).length = clause.arity := by
  intro clause hclause
  rw [clausesOf_eq] at hclause
  simp only [List.mem_append, Option.mem_toList] at hclause
  rcases hclause with h | h | h | h | h | h
  · exact (asks_cursor place q).clause h
  · exact asks_pubsubTopic.clause h
  · exact asks_contentTopic.clause h
  · exact asks_startTime.clause h
  · exact asks_endTime.clause h
  · exact asks_hashes.clause h

/-- Values in the order of the statement reach their clauses. -/
theorem clauseParams_own {own : Clause → List Value} {clauses : List Clause}
    (harity : ∀ clause ∈ clauses, (own clause).length = clause.arity) :
    clauseParams clauses (clauses.flatMap own) = clauses.map (fun clause => (clause, own clause)) := by
  induction clauses with
  | nil => rfl
  | cons clause clauses ih =>
      have hlen := harity clause List.mem_cons_self
      have htail := ih (fun c hc => harity c (List.mem_cons_of_mem _ hc))
      rw [List.flatMap_cons, clauseParams, ← hlen, List.take_left, List.drop_left, htail]
      rfl

/-- The statement has as many parameters as the binder binds. -/
theorem variables_boundParams (place : Option Place) (q : DriverQuery) (limit : ℕ)
    (ascending : Bool) :
    (Select.mk (whereClause (place.map ofLex).isSome q) limit ascending).variables =
      (boundParams (place.map ofLex) q).length := by
  have harity := clausesOf_arity place q
  have hvariables := variables_eq
    (s := ⟨whereClause (place.map ofLex).isSome q, limit, ascending⟩)
    (fun clause hclause => (harity clause hclause).1)
  have hlength : ((clausesOf (place.map ofLex) q).flatMap (ownParams (place.map ofLex) q)).length =
      ((clausesOf (place.map ofLex) q).map Clause.arity).sum := by
    rw [List.length_flatMap]
    exact congrArg List.sum (List.map_congr_left (fun clause hclause => (harity clause hclause).2))
  rw [hvariables]
  refine hlength.symm.trans ?_
  rw [own_eq]
  simp only [boundParams, List.length_append]
  omega

/-! ### The binder -/

/-- The binder gives every `?` its own value exactly if no hashes and times come together. -/
theorem bindsOwn_iff (place : Option Place) (q : DriverQuery) :
    BindsOwn (place.map ofLex) q ↔
      q.hashes = [] ∨ (q.startTime = none ∧ q.endTime = none) := by
  have hcancel : BindsOwn (place.map ofLex) q ↔
      hashParams q.hashes ++ (timeParams q.startTime ++ timeParams q.endTime) =
        (timeParams q.startTime ++ timeParams q.endTime) ++ hashParams q.hashes := by
    unfold BindsOwn
    rw [own_eq]
    simp only [boundParams, List.append_assoc, List.append_cancel_left_eq]
  rw [hcancel]
  constructor
  · intro heq
    cases hhashes : q.hashes with
    | nil => exact Or.inl rfl
    | cons hash hashes =>
        refine Or.inr ?_
        rw [hhashes, hashParams, List.map_cons, bindBytes_hash] at heq
        -- the first value would be a blob and an integer
        cases hstart : q.startTime with
        | some time =>
            rw [hstart] at heq
            cases (List.cons.inj heq).1
        | none =>
            cases hend : q.endTime with
            | some time =>
                rw [hstart, hend] at heq
                cases (List.cons.inj heq).1
            | none => exact ⟨rfl, rfl⟩
  · rintro (hhashes | ⟨hstart, hend⟩)
    · rw [hhashes]
      simp [hashParams]
    · rw [hstart, hend]
      simp [timeParams]

namespace SqliteDatabase

variable (db : SqliteDatabase)

/-- A cursor in the table is found, with the timestamp of its row. -/
theorem timeCursor_eq {place : Option Place} (hplace : db.CursorAt q place) :
    db.timeCursor q = .ok (place.map ofLex) := by
  cases place with
  | none =>
      have hnone : q.cursor = none := hplace
      simp [timeCursor, hnone]
  | some place =>
      obtain ⟨row, hrow, hcursor, rfl⟩ := hplace
      have hfound : db.getCursorTimestamp row.hash = some row.message.timestamp := by
        have hmem : row ∈ db.rows.filter (fun row' => decide (row'.hash = row.hash)) :=
          List.mem_filter.mpr ⟨hrow, decide_eq_true rfl⟩
        obtain ⟨last, hlast⟩ := Option.isSome_iff_exists.mp
          (List.getLast?_isSome.mpr (List.ne_nil_of_mem hmem))
        have hin := List.mem_filter.mp (List.mem_of_getLast? hlast)
        have heq : last = row := List.inj_on_of_nodup_map db.primaryKey hin.1 hrow
          (of_decide_eq_true hin.2)
        rw [getCursorTimestamp, hlast, heq]
        rfl
      simp only [timeCursor, hcursor, hfound]
      rfl

/-- The query on a table that has its cursor. -/
theorem select_eq {place : Option Place} (hplace : db.CursorAt q place) :
    db.selectMessagesByStoreQueryWithLimit q =
      if (boundParams (place.map ofLex) q).length ≤ db.variableLimit then
        db.exec ⟨whereClause (place.map ofLex).isSome q, q.maxPageSize, q.ascendingOrder⟩
          (boundParams (place.map ofLex) q)
      else .error "SQL logic error" := by
  unfold selectMessagesByStoreQueryWithLimit prepareStmt
  rw [db.timeCursor_eq hplace]
  simp only [bind, Except.bind, variables_boundParams]
  split_ifs <;> rfl

/-- With every `?` bound to its own value the statement gives the answer. -/
theorem exec_own {place : Option Place} (hown : BindsOwn (place.map ofLex) q)
    (hlimit : q.maxPageSize < 2 ^ 63) :
    db.exec ⟨whereClause (place.map ofLex).isSome q, q.maxPageSize, q.ascendingOrder⟩
      (boundParams (place.map ofLex) q) = .ok (db.answer q place) := by
  have hparams : clauseParams (clausesOf (place.map ofLex) q) (boundParams (place.map ofLex) q) =
      (clausesOf (place.map ofLex) q).map
        (fun clause => (clause, ownParams (place.map ofLex) q clause)) := by
    rw [hown]
    exact clauseParams_own (fun clause hclause => (clausesOf_arity place q clause hclause).2)
  have hfilter : db.rows.filter (fun row => (clauseParams (clausesOf (place.map ofLex) q)
      (boundParams (place.map ofLex) q)).all (Clause.holds row)) =
      db.rows.filter (fun row => rowMatches q row && follows q.ascendingOrder place row) := by
    refine List.filter_congr (fun row hrow => ?_)
    rw [hparams, List.all_map]
    exact clauses_hold place q (db.notNull row hrow).1 (db.notNull row hrow).2
  unfold exec answer
  rw [if_pos hlimit, ← hfilter]
  rfl

/-- For a cursor in the table: each `?` is bound to its own value and the answer are the first rows
after the cursor that match all the filters, exactly if no hashes and times come together among the
filters, the limit is an `int64` and there are no more values than SQLite takes. -/
theorem select_iff (q : DriverQuery) (place : Option Place) (hplace : db.CursorAt q place) :
    (BindsOwn (place.map ofLex) q ∧
      db.selectMessagesByStoreQueryWithLimit q = .ok (db.answer q place)) ↔
    (q.hashes = [] ∨ (q.startTime = none ∧ q.endTime = none)) ∧ q.maxPageSize < 2 ^ 63 ∧
      (boundParams (place.map ofLex) q).length ≤ db.variableLimit := by
  rw [bindsOwn_iff]
  refine and_congr_right (fun hown => ?_)
  rw [db.select_eq hplace]
  constructor
  · intro heq
    split_ifs at heq with hvariables
    refine ⟨?_, hvariables⟩
    by_contra hlimit
    rw [exec, if_neg hlimit] at heq
    cases heq
  · rintro ⟨hlimit, hvariables⟩
    rw [if_pos hvariables]
    exact db.exec_own ((bindsOwn_iff place q).mpr hown) hlimit

/-- A message of the time. -/
def rowAt (byte : Fin 256) (timestamp : Timestamp) : ArchiveRow :=
  ⟨StoreSync.constFingerprint byte, "topic", ⟨[], "content", [], 0, timestamp⟩⟩

/-- A table with rows of the times 10, 20 and 30. -/
def threeRows : SqliteDatabase where
  rows := [rowAt 1 10, rowAt 2 20, rowAt 3 30]
  variableLimit := 32766
  primaryKey := by decide
  notNull := by decide

/-- The rows of some hashes after a cursor, before an end time. -/
def hashQuery (cursor : Option WakuMessageHash) (hashes : List WakuMessageHash)
    (endTime : Option Timestamp) : DriverQuery where
  includeData := true
  contentTopics := []
  pubsubTopic := none
  cursor := cursor
  startTime := none
  endTime := endTime
  hashes := hashes
  maxPageSize := 20
  ascendingOrder := true
  requestId := ""

/-- A query by hashes after the row of the cursor, with a row before it, itself and a row after it. -/
theorem select_afterCursor :
    let q := hashQuery (some (rowAt 2 20).hash) (threeRows.rows.map ArchiveRow.hash) none
    threeRows.selectMessagesByStoreQueryWithLimit q =
        .ok (threeRows.answer q (some (toLex (20, (rowAt 2 20).hash)))) ∧
      threeRows.answer q (some (toLex (20, (rowAt 2 20).hash))) = [rowAt 3 30] := by
  have hplace : threeRows.CursorAt
      (hashQuery (some (rowAt 2 20).hash) (threeRows.rows.map ArchiveRow.hash) none)
      (some (toLex (20, (rowAt 2 20).hash))) := ⟨rowAt 2 20, by decide, rfl, rfl⟩
  refine ⟨((threeRows.select_iff _ _ hplace).mpr ⟨Or.inr ⟨rfl, rfl⟩, by decide, by decide⟩).2, rfl⟩

/-- A query by the hash of the row, before an end time after it: the end time is compared with the
hash and the hash with the end time, and the row is not found. -/
theorem select_beforeEndTime :
    let q := hashQuery none [(rowAt 1 10).hash] (some 20)
    ¬ BindsOwn none q ∧ threeRows.selectMessagesByStoreQueryWithLimit q = .ok [] ∧
      threeRows.answer q none = [rowAt 1 10] := by
  intro q
  refine ⟨fun hown => ?_, ?_, rfl⟩
  · have hapart := (bindsOwn_iff none q).mp hown
    exact absurd hapart (by decide)
  · have hplace : threeRows.CursorAt q none := rfl
    rw [threeRows.select_eq hplace]
    rfl

end SqliteDatabase

end LogosDelivery.Archive.Sqlite
