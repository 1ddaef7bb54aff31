import LogosDelivery.Archive.PostgresChunks
import LogosDelivery.Archive.PostgresRequestIds
import LogosDelivery.Archive.PostgresStatements
import LogosDelivery.Archive.QueueDriver
import LogosDelivery.Archive.SqliteAnswers

/-! # The archive drivers behind one interface

A node has one of three drivers.  They find rows in different ways, but a query that suits the driver
is served by each of them alike (`ArchiveStore.Usable.serves`): with the first of the rows after the
cursor that match, in the order of `(timestamp, hash)`.  So the pages of an archive are complete and in
one order, whichever driver it has (`ArchiveStore.Usable.exists_pages`). -/

namespace LogosDelivery.Archive

open Lib
open Sqlite (SqliteDatabase rowPlace)
open StoreSync (WakuMessageHash emptyFingerprint)

/-- `$` of an archive error. -/
def ArchiveError.text : ArchiveError → String
  | driverError cause => "DRIVER_ERROR: " ++ cause
  | invalidQuery cause => "INVALID_QUERY: " ++ cause

/-! ### The drivers -/

namespace Sqlite

/-- What the driver gives of a row when it selects the hashes alone. -/
def hashOnly (row : ArchiveRow) : ArchiveRow := ⟨row.hash, "", ⟨[], "", [], 0, 0⟩⟩

namespace SqliteDatabase

variable (db : SqliteDatabase)

/-- The query with the column `messageHash` alone. -/
def selectMessageHashesByStoreQueryWithLimit (q : DriverQuery) : Except String (List ArchiveRow) :=
  (db.selectMessagesByStoreQueryWithLimit q).map (List.map hashOnly)

def getMessages (q : DriverQuery) : Except String (List ArchiveRow) :=
  if !q.includeData then db.selectMessageHashesByStoreQueryWithLimit q
  else db.selectMessagesByStoreQueryWithLimit q

end SqliteDatabase

end Sqlite

/-- The id is secure and takes no argument of the statement. -/
def acceptsId (requestId : String) : Bool :=
  Postgres.isSecureString requestId.toList && !requestId.toList.contains '?'

/-- `getMessages` of the Postgres driver.  All but the prepared statements have the id of the request in
a comment: an id that is not secure is refused; a `?` in the id is a defect, which is no answer
either. -/
def postgresMessages (db : Database) (q : DriverQuery) : Except String (List ArchiveRow) :=
  if isPreparedQuery q || acceptsId q.requestId then getMessages (getMessagesWithinLimits db) q
  else .error ((if isHashQuery q then "failed to look up message timestamps: "
      else "failed to run query: ") ++
    "error in asyncpool query: the passed request id is not secure: " ++ q.requestId)

/-- The archive of a node, with one of the drivers. -/
inductive ArchiveStore where
  | queue (driver : QueueDriver)
  | sqlite (db : SqliteDatabase)
  | postgres (db : Database)

namespace ArchiveStore

def getMessages : ArchiveStore → DriverQuery → Except String (List ArchiveRow)
  | .queue driver => driver.getMessages
  | .sqlite db => db.getMessages
  | .postgres db => postgresMessages db

def rows : ArchiveStore → List ArchiveRow
  | .queue driver => driver.items.map Entry.row
  | .sqlite db => db.rows
  | .postgres db => db.messages

/-- A row has a hash of its own, that is not all zeroes, the queue keeps it at its time, and Postgres
looks it up at its time. -/
structure Usable (store : ArchiveStore) : Prop where
  distinct : (store.rows.map ArchiveRow.hash).Nodup
  nonzero : ∀ row ∈ store.rows, row.hash ≠ emptyFingerprint
  timed : ∀ driver, store = .queue driver → ∀ entry ∈ driver.items, entry.1.time = entry.2.timestamp
  lookedUp : ∀ db, store = .postgres db → db.LooksUp

/-- The number of values of a query with a cursor. -/
def valuesOf (query : ArchiveQuery) : ℕ :=
  2 + query.pubsubTopic.toList.length + query.contentTopics.length + query.hashes.length +
    query.startTime.toList.length + query.endTime.toList.length

/-- SQLite takes the values of the query, and its hashes come without times; the query of Postgres has
no hashes and an id that the connection accepts. -/
def Suits (query : ArchiveQuery) : ArchiveStore → Prop
  | .queue _ => True
  | .sqlite db => (query.hashes = [] ∨ (query.startTime = none ∧ query.endTime = none)) ∧
      valuesOf query ≤ db.variableLimit
  | .postgres _ => query.hashes = [] ∧ acceptsId query.requestId = true

end ArchiveStore

/-! ### Orders -/

theorem hexDigit_lt : ∀ a < 16, ∀ b < 16, (hexDigit a < hexDigit b ↔ a < b) := by
  decide

/-- Texts of hashes are in the order of the hashes. -/
theorem hexText_lt_iff (x : List (Fin 256)) : ∀ y : List (Fin 256), hexText x < hexText y ↔ x < y := by
  induction x with
  | nil =>
      intro y
      cases y with
      | nil => simp [hexText]
      | cons b y => simp [hexText]
  | cons a x ih =>
      intro y
      cases y with
      | nil => simp [hexText]
      | cons b y =>
          have ha := a.isLt
          have hb := b.isLt
          have hhigh := hexDigit_lt (a.val / 16) (by omega) (b.val / 16) (by omega)
          have hlow := hexDigit_lt (a.val % 16) (by omega) (b.val % 16) (by omega)
          have hhigh' : hexDigit (a.val / 16) = hexDigit (b.val / 16) ↔ a.val / 16 = b.val / 16 :=
            ⟨hexDigit_inj _ (by omega) _ (by omega), fun h => by rw [h]⟩
          have hlow' : hexDigit (a.val % 16) = hexDigit (b.val % 16) ↔ a.val % 16 = b.val % 16 :=
            ⟨hexDigit_inj _ (by omega) _ (by omega), fun h => by rw [h]⟩
          have hcons : ∀ (c : Fin 256) (l : List (Fin 256)), hexText (c :: l) =
              hexDigit (c.val / 16) :: hexDigit (c.val % 16) :: hexText l := fun _ _ => rfl
          rw [hcons, hcons, List.cons_lt_cons_iff, List.cons_lt_cons_iff, List.cons_lt_cons_iff, ih,
            hhigh, hhigh', hlow, hlow', Fin.lt_def, Fin.ext_iff]
          constructor
          · rintro (h | ⟨h, h' | ⟨h', hrest⟩⟩)
            · exact Or.inl (by omega)
            · exact Or.inl (by omega)
            · exact Or.inr ⟨by omega, hrest⟩
          · rintro (h | ⟨h, hrest⟩)
            · by_cases hd : a.val / 16 < b.val / 16
              · exact Or.inl hd
              · exact Or.inr ⟨by omega, Or.inl (by omega)⟩
            · exact Or.inr ⟨by omega, Or.inr ⟨by omega, hrest⟩⟩

theorem rowKey_lt_iff (row row' : ArchiveRow) : rowKey row < rowKey row' ↔ rowPlace row < rowPlace row' := by
  rw [rowKey, rowKey, rowPlace, rowPlace, Prod.Lex.toLex_lt_toLex, Prod.Lex.toLex_lt_toLex, toHex, toHex,
    hexText_lt_iff]
  rfl

/-- An order of the rows that agrees with another one. -/
theorem InQueryOrder.congr {ρ κ κ' : Type} [LinearOrder κ] [LinearOrder κ'] {key : ρ → κ}
    {key' : ρ → κ'} {direction : PagingDirection} {rows : List ρ}
    (h : InQueryOrder direction key rows)
    (hkey : ∀ x ∈ rows, ∀ y ∈ rows, key x < key y → key' x < key' y) :
    InQueryOrder direction key' rows := by
  cases direction with
  | forward => exact List.Pairwise.imp_of_mem (fun hx hy => hkey _ hx _ hy) h
  | backward =>
      refine List.Pairwise.imp_of_mem (fun hx hy => ?_) h
      exact hkey _ (List.mem_reverse.mp hx) _ (List.mem_reverse.mp hy)

theorem InQueryOrder.map {ρ σ κ : Type} [LinearOrder κ] {key : σ → κ} {f : ρ → σ}
    {direction : PagingDirection} {rows : List ρ}
    (h : InQueryOrder direction (fun x => key (f x)) rows) : InQueryOrder direction key (rows.map f) := by
  cases direction with
  | forward => exact List.pairwise_map.mpr h
  | backward =>
      unfold InQueryOrder at h ⊢
      dsimp only at h ⊢
      rw [← List.map_reverse]
      exact List.pairwise_map.mpr h

/-! ### What each driver answers -/

/-- A request with a cursor is answered with the first of the rows after it, as they are or, without
data, by their hashes. -/
def Serves (getMessages : DriverQuery → Except String (List ArchiveRow)) (query : ArchiveQuery)
    (rows : List ArchiveRow) : Prop :=
  ∃ (found : List ArchiveRow) (sent : ArchiveRow → ArchiveRow),
    InQueryOrder query.direction rowPlace found ∧ found.Perm rows ∧
    (∀ row, (sent row).hash = row.hash) ∧ (query.includeData = true → ∀ row, sent row = row) ∧
    ∀ cursor rest, RowsFrom ArchiveRow.hash found cursor rest →
      getMessages (query.withCursor cursor).driverQuery =
        .ok ((rest.map sent).take (pageLimit query.pageSize + 1))

section Drivers

variable {query : ArchiveQuery}

theorem serves_queue (driver : QueueDriver) (h : (ArchiveStore.queue driver).Usable) :
    Serves driver.getMessages query
      ((driver.items.map Entry.row).filter query.selects) := by
  set q := query.driverQuery with hq
  have hplace : ∀ entry ∈ driver.items, entry.1.key = rowPlace entry.row := by
    intro entry hentry
    rw [Index.key, rowPlace, Entry.row, h.timed driver rfl entry hentry]
  have hdistinct : (driver.items.map (fun entry => entry.1.hash)).Nodup := by
    have hrows := h.distinct
    rw [ArchiveStore.rows, List.map_map] at hrows
    exact hrows
  have hperm : ((driver.walk query.direction.into).filter (matchesQuery q)).Perm
      (driver.items.filter (matchesQuery q)) := (driver.perm_walk query.direction.into).filter _
  have horder : InQueryOrder query.direction (fun entry : Entry => entry.1.key)
      ((driver.walk query.direction.into).filter (matchesQuery q)) := by
    have hascending := driver.ascending_items.filter (matchesQuery q)
    cases query.direction with
    | forward => exact hascending
    | backward =>
        have hrev : ((driver.walk false).filter (matchesQuery q)).reverse =
            driver.items.filter (matchesQuery q) := by
          rw [← List.filter_reverse, QueueDriver.walk, if_neg Bool.false_ne_true, List.reverse_reverse]
        rw [← hrev] at hascending
        exact hascending
  refine ⟨((driver.walk query.direction.into).filter (matchesQuery q)).map Entry.row, id, ?_, ?_,
    fun _ => rfl, fun _ _ => rfl, ?_⟩
  · refine InQueryOrder.map (horder.congr fun x hx y hy hlt => ?_)
    rw [← hplace x (List.mem_of_mem_filter (hperm.mem_iff.mp hx)),
      ← hplace y (List.mem_of_mem_filter (hperm.mem_iff.mp hy))]
    exact hlt
  · rw [List.filter_map]
    refine (hperm.map _).trans (List.Perm.of_eq (congrArg _ ?_))
    exact List.filter_congr fun entry _ => matchesQuery_eq q entry
  · intro cursor rest hfrom
    obtain ⟨entries, hentries, rfl⟩ := exists_rowsFrom_of_map hfrom
    rw [List.map_id]
    exact driver.getMessages_eq hdistinct (query.withCursor cursor).driverQuery entries hentries

/-- In either direction, the rows in the order after a row are those that follow it. -/
theorem inOrder_after {rows : List ArchiveRow} {p : ArchiveRow → Bool}
    (hkeys : ∀ p, DistinctKeys rowPlace (rows.filter p)) {ascending : Bool} {pre rest : List ArchiveRow}
    {x : ArchiveRow} (hsplit : Sqlite.inOrder ascending (rows.filter p) = pre ++ x :: rest) :
    Sqlite.inOrder ascending (rows.filter (fun row => p row &&
      Sqlite.follows ascending (some (rowPlace x)) row)) = rest := by
  have hafter : ∀ {κ : Type} [LinearOrder κ] (key : ArchiveRow → κ),
      (∀ p, DistinctKeys key (rows.filter p)) → orderBy key (rows.filter p) = pre ++ x :: rest →
      (∀ row, Sqlite.follows ascending (some (rowPlace x)) row = true ↔ key x < key row) →
      orderBy key (rows.filter (fun row => p row &&
        Sqlite.follows ascending (some (rowPlace x)) row)) = rest := by
    intro κ _ key hkeys hsplit hfollows
    have hascending : Ascending key (pre ++ x :: rest) := hsplit ▸ ascending_orderBy (hkeys p)
    have hrest : Ascending key rest :=
      (List.pairwise_cons.mp (List.pairwise_append.mp hascending).2.1).2
    refine (ascending_orderBy (hkeys _)).eq_of_mem_iff hrest fun y => ?_
    rw [hascending.mem_after y, ← hsplit, mem_orderBy, mem_orderBy, List.mem_filter,
      List.mem_filter, Bool.and_eq_true, and_assoc, hfollows y]
  cases ascending with
  | true => exact hafter rowPlace hkeys hsplit fun row => decide_eq_true_iff
  | false =>
      refine hafter (fun row => OrderDual.toDual (rowPlace row)) (fun p => ?_) hsplit
        fun row => decide_eq_true_iff
      exact (hkeys p).imp fun hne heq => hne (OrderDual.toDual.injective heq)

theorem length_boundParams_le (cursor : Option ArchiveCursor) (place : Option Sqlite.Place) :
    (Sqlite.boundParams (place.map ofLex) (query.withCursor cursor).driverQuery).length ≤
      ArchiveStore.valuesOf query := by
  have hcursor : (Sqlite.cursorParams (place.map ofLex)).length ≤ 2 := by
    cases place <;> simp [Sqlite.cursorParams]
  have htime : ∀ time, (Sqlite.timeParams time).length = time.toList.length := by
    rintro (_ | _) <;> rfl
  have htopic : ∀ topic, (Sqlite.pubsubTopicParams topic).length = topic.toList.length := by
    rintro (_ | _) <;> rfl
  simp only [Sqlite.boundParams, List.length_append, htime, htopic, Sqlite.contentTopicParams,
    Sqlite.hashParams, List.length_map, ArchiveStore.valuesOf, ArchiveQuery.driverQuery,
    ArchiveQuery.withCursor]
  omega

/-- A page is small. -/
theorem maxPageSize_lt (query : ArchiveQuery) (cursor : Option ArchiveCursor) :
    (query.withCursor cursor).driverQuery.maxPageSize < bigintEnd := by
  have hpage : pageLimit query.pageSize ≤ MaxPageSize := by
    unfold pageLimit DefaultPageSize MaxPageSize
    split_ifs <;> omega
  have hmax : (query.withCursor cursor).driverQuery.maxPageSize = pageLimit query.pageSize + 1 := rfl
  unfold MaxPageSize at hpage
  unfold bigintEnd
  omega

theorem serves_sqlite (db : SqliteDatabase) (hsuits : (ArchiveStore.sqlite db).Suits query) :
    Serves db.getMessages query (db.rows.filter query.selects) := by
  set q := query.driverQuery with hq
  set found := Sqlite.inOrder q.ascendingOrder (db.rows.filter (rowMatches q)) with hfound
  have hkeys : ∀ p, DistinctKeys rowPlace (db.rows.filter p) := by
    intro p
    refine DistinctKeys.filter ?_ p
    refine (List.pairwise_map.mp db.primaryKey).imp fun {row row'} hne hkey => ?_
    exact hne (Prod.mk.inj (toLex.injective hkey)).2
  have hdescending : ∀ p, DistinctKeys (fun row => OrderDual.toDual (rowPlace row)) (db.rows.filter p) :=
    fun p => (hkeys p).imp fun hne heq => hne (OrderDual.toDual.injective heq)
  have horder : InQueryOrder query.direction rowPlace found := by
    cases hdir : query.direction with
    | forward =>
        have hasc : q.ascendingOrder = true := by
          simp [hq, ArchiveQuery.driverQuery, PagingDirection.into, hdir]
        rw [hfound, hasc]
        exact ascending_orderBy (hkeys _)
    | backward =>
        have hdesc : q.ascendingOrder = false := by
          simp [hq, ArchiveQuery.driverQuery, PagingDirection.into, hdir]
        rw [hfound, hdesc]
        exact ascending_toDual_iff.mp (ascending_orderBy (hdescending _))
  have hperm : found.Perm (db.rows.filter (rowMatches q)) := by
    rw [hfound]
    unfold Sqlite.inOrder
    split_ifs <;> exact perm_orderBy _
  refine ⟨found, fun row => if query.includeData then row else Sqlite.hashOnly row, horder, hperm, ?_, ?_,
    ?_⟩
  · intro row
    dsimp only
    split_ifs <;> rfl
  · intro hdata row
    exact if_pos hdata
  · intro cursor rest hfrom
    set q' := (query.withCursor cursor).driverQuery with hq'
    have hplace : ∃ place, db.CursorAt q' place ∧
        Sqlite.inOrder q.ascendingOrder (db.rows.filter (fun row => rowMatches q' row &&
          Sqlite.follows q.ascendingOrder place row)) = rest := by
      cases cursor with
      | none =>
          refine ⟨none, rfl, ?_⟩
          have hrest : rest = found := hfrom
          have hsame : db.rows.filter (fun row => rowMatches q' row &&
              Sqlite.follows q.ascendingOrder none row) = db.rows.filter (rowMatches q) :=
            List.filter_congr fun row _ => Bool.and_true _
          rw [hsame, hrest, hfound]
      | some c =>
          obtain ⟨pre, x, hsplit, rfl⟩ := hfrom
          have hx : x ∈ db.rows.filter (rowMatches q) :=
            hperm.mem_iff.mp (hsplit ▸ List.mem_append_right pre List.mem_cons_self)
          refine ⟨some (rowPlace x), ⟨x, List.mem_of_mem_filter hx, rfl, rfl⟩, ?_⟩
          rw [hfound] at hsplit
          exact inOrder_after hkeys hsplit
    obtain ⟨place, hcursor, hrest⟩ := hplace
    have hlength : (Sqlite.boundParams (place.map ofLex) q').length ≤ db.variableLimit := by
      exact (length_boundParams_le _ _).trans hsuits.2
    have hown := (Sqlite.bindsOwn_iff place q').mpr hsuits.1
    have hlimit : q'.maxPageSize < 2 ^ 63 := maxPageSize_lt query cursor
    have hselect : db.selectMessagesByStoreQueryWithLimit q' =
        .ok (rest.take (pageLimit query.pageSize + 1)) := by
      rw [db.select_eq hcursor, if_pos hlength, db.exec_own hown hlimit, ← hrest]
      rfl
    have hdata : q'.includeData = query.includeData := rfl
    unfold SqliteDatabase.getMessages SqliteDatabase.selectMessageHashesByStoreQueryWithLimit
    rw [hselect, hdata]
    cases query.includeData with
    | true => simp
    | false => simp [Except.map, List.map_take]

/-- Where every message is looked up, the arbitrary query selects what is asked for. -/
theorem Database.LooksUp.selected_eq {db : Database} (h : db.LooksUp) {q : DriverQuery}
    (hlimit : q.maxPageSize < bigintEnd) : db.selected q (arbitraryMatches q) = db.answer q := by
  refine (selected_iff db q _).mpr ⟨fun c _ ht row hrow heq => ?_,
    fun place place' hplace hplace' => ⟨hlimit, ?_⟩⟩
  · have hfound := h row hrow
    rw [heq, ht] at hfound
    cases hfound
  · rw [h.cursorPlace_eq, hplace] at hplace'
    obtain rfl := Except.ok.inj hplace'
    exact fun _ _ hne => absurd rfl hne

/-- Without hashes, the arbitrary query answers. -/
theorem postgresMessages_noHashes (db : Database) {q : DriverQuery} (hnil : q.hashes = [])
    (hid : acceptsId q.requestId = true) :
    postgresMessages db q = db.selected q (arbitraryMatches q) := by
  have hone : getMessagesWithinLimits db q = db.selected q (arbitraryMatches q) := by
    rw [← getMessagesArbitraryQuery_eq]
    simp only [getMessagesWithinLimits, isHashQuery, hnil, List.length_nil, gt_iff_lt, not_lt_zero,
      if_false, decide_false, Bool.and_false, Bool.false_eq_true, List.map_nil, and_false]
    split <;> rfl
  have hstarts : chunkStarts q.hashes.length = [0] := by
    simp [chunkStarts, hnil, MaxHashesPerQuery]
  have hchunk : q.withHashes (splittedHashes q.hashes 0) = q := by
    have hkeep : q.withHashes q.hashes = q := rfl
    rw [hnil] at hkeep ⊢
    exact hkeep
  rw [postgresMessages, hid, Bool.or_true, if_pos rfl, getMessages, hstarts, getMessagesLoop, hchunk, hone]
  cases db.selected q (arbitraryMatches q) <;> rfl

theorem serves_postgres (db : Database) (h : (ArchiveStore.postgres db).Usable)
    (hsuits : (ArchiveStore.postgres db).Suits query) :
    Serves (postgresMessages db) query
      (db.messages.filter query.selects) := by
  set q := query.driverQuery with hq
  refine ⟨db.matchingRows q none, id, ?_, ?_, fun _ => rfl, fun _ _ => rfl, ?_⟩
  · exact (inQueryOrder_matchingRows db query).congr fun x _ y _ hlt => (rowKey_lt_iff x y).mp hlt
  · have hsame : db.messages.filter (fun row => rowMatches q row && isAfter q.ascendingOrder none row) =
        db.messages.filter (rowMatches q) :=
      List.filter_congr fun row _ => by simp [isAfter]
    rw [Database.matchingRows, hsame]
    exact perm_inOrder _ _
  · intro cursor rest hfrom
    set q' := (query.withCursor cursor).driverQuery with hq'
    have hplace : ∃ place, db.cursorPlace q' = .ok place ∧ db.matchingRows q place = rest := by
      cases cursor with
      | none => exact ⟨none, rfl, hfrom.symm⟩
      | some c =>
          obtain ⟨pre, x, hsplit, rfl⟩ := hfrom
          have hx : x ∈ db.messages :=
            ((db.mem_matchingRows q none x).mp (by rw [hsplit]; simp)).1
          exact ⟨_, cursorPlace_row db h.distinct q' hx rfl, db.matchingRows_after hsplit⟩
    obtain ⟨place, hcursor, hrest⟩ := hplace
    have hnil : q'.hashes = [] := hsuits.1
    have hid : acceptsId q'.requestId = true := hsuits.2
    have hlooked : db.LooksUp := h.lookedUp db rfl
    rw [postgresMessages_noHashes db hnil hid, hlooked.selected_eq (maxPageSize_lt query cursor),
      Database.answer, hcursor, List.map_id, ← hrest]
    rfl

/-- **Every driver serves a query alike.** -/
theorem ArchiveStore.Usable.serves {store : ArchiveStore} (h : store.Usable) (hsuits : store.Suits query) :
    Serves store.getMessages query (store.rows.filter query.selects) := by
  cases store with
  | queue driver => exact serves_queue driver h
  | sqlite db => exact serves_sqlite db hsuits
  | postgres db => exact serves_postgres db h hsuits

/-! ### The pages -/

variable {getMessages : DriverQuery → Except String (List ArchiveRow)} {rows page : List ArchiveRow}
  {response : ArchiveResponse}

/-- Rows as they were sent show the same page. -/
theorem Shows.of_sent {sent : ArchiveRow → ArchiveRow} (hhash : ∀ row, (sent row).hash = row.hash)
    (hdata : query.includeData = true → ∀ row, sent row = row)
    (h : Shows query response (page.map sent)) : Shows query response page := by
  refine ⟨?_, ?_, ?_⟩
  · rw [h.hashes, List.map_map]
    exact List.map_congr_left fun row _ => hhash row
  · rw [h.topics]
    split_ifs with hinclude
    · rw [List.map_map]
      exact List.map_congr_left fun row _ => congrArg _ (hdata hinclude row)
    · rfl
  · rw [h.messages]
    split_ifs with hinclude
    · rw [List.map_map]
      exact List.map_congr_left fun row _ => congrArg _ (hdata hinclude row)
    · rfl

/-- The pages of a driver that serves the query are complete. -/
theorem Serves.exists_pages (h : Serves getMessages query rows)
    (htopics : query.contentTopics.length ≤ MaxContentTopicsPerQuery)
    (hzero : ∀ row ∈ rows, row.hash ≠ emptyFingerprint) :
    ∃ rs pages, Paged (fun cursor => findMessages getMessages (query.withCursor cursor))
        ArchiveResponse.cursor none rs ∧
      List.Forall₂ (Shows query) rs pages ∧ CompletePages query rowPlace rows pages := by
  obtain ⟨found, sent, horder, hperm, hhash, hdata, hserved⟩ := h
  have hids : (fun row => (sent row).hash) = ArchiveRow.hash := funext hhash
  have hzero' : ∀ row ∈ found, (sent row).hash ≠ emptyFingerprint := fun row hrow => by
    rw [hhash]
    exact hzero row (hperm.mem_iff.mp hrow)
  obtain ⟨rs, pages, hpaged, hshows, hcomplete⟩ := Archive.exists_pages getMessages sent htopics hzero'
    horder hperm fun cursor rest hfrom => hserved cursor rest (hids ▸ hfrom)
  exact ⟨rs, pages, hpaged, hshows.imp fun _ _ hpage => hpage.of_sent hhash hdata, hcomplete⟩

theorem ArchiveStore.Usable.exists_pages {store : ArchiveStore} (h : store.Usable)
    (hsuits : store.Suits query) (htopics : query.contentTopics.length ≤ MaxContentTopicsPerQuery) :
    ∃ rs pages, Paged (fun cursor => findMessages store.getMessages (query.withCursor cursor))
        ArchiveResponse.cursor none rs ∧
      List.Forall₂ (Shows query) rs pages ∧
      CompletePages query rowPlace (store.rows.filter query.selects) pages :=
  (h.serves hsuits).exists_pages htopics fun row hrow => h.nonzero row (List.mem_of_mem_filter hrow)

end Drivers

end LogosDelivery.Archive
