import LogosDelivery.Lib.OrderBy
import LogosDelivery.Lib.Paging
import LogosDelivery.StoreSync.Common

/-! # Pages of the archive

`waku_archive/archive.nim` over any driver.  `findMessages` asks the driver for one row more than
the page may have; when it gets it, the second last row is the last one of the page and gives the
cursor.  A driver that answers with the first matching rows after the cursor is paged through
completely (`exists_pages`). -/

namespace LogosDelivery.Archive

open Lib
open StoreSync (Byte WakuMessageHash PubsubTopic ContentTopic emptyFingerprint)

abbrev Timestamp := ℤ
abbrev ArchiveCursor := WakuMessageHash

structure WakuMessage where
  payload : List Byte
  contentTopic : ContentTopic
  msgMeta : List Byte
  version : ℕ
  timestamp : Timestamp
deriving DecidableEq

structure ArchiveRow where
  hash : WakuMessageHash
  pubsubTopic : PubsubTopic
  message : WakuMessage
deriving DecidableEq

inductive PagingDirection where
  | backward
  | forward
deriving DecidableEq

/-- `direction.into()`: is the order ascending? -/
def PagingDirection.into (d : PagingDirection) : Bool := decide (d = .forward)

structure ArchiveQuery where
  includeData : Bool
  pubsubTopic : Option PubsubTopic
  contentTopics : List ContentTopic
  cursor : Option ArchiveCursor
  startTime : Option Timestamp
  endTime : Option Timestamp
  hashes : List WakuMessageHash
  pageSize : ℕ
  direction : PagingDirection
  requestId : String

/-- The same query with another cursor. -/
def ArchiveQuery.withCursor (query : ArchiveQuery) (cursor : Option ArchiveCursor) : ArchiveQuery :=
  { query with cursor := cursor }

structure ArchiveResponse where
  hashes : List WakuMessageHash := []
  messages : List WakuMessage := []
  topics : List PubsubTopic := []
  cursor : Option ArchiveCursor := none

inductive ArchiveError where
  | driverError (cause : String)
  | invalidQuery (cause : String)
deriving DecidableEq

/-- Is the hash one of the hashes? -/
def isHashOf (hashes : List WakuMessageHash) (hash : WakuMessageHash) : Bool := decide (hash ∈ hashes)

/-- Is the topic one of the topics? -/
def isTopicOf (topics : List ContentTopic) (topic : ContentTopic) : Bool := decide (topic ∈ topics)

@[simp] theorem isHashOf_iff {hashes : List WakuMessageHash} {hash : WakuMessageHash} :
    isHashOf hashes hash = true ↔ hash ∈ hashes := decide_eq_true_iff

@[simp] theorem isTopicOf_iff {topics : List ContentTopic} {topic : ContentTopic} :
    isTopicOf topics topic = true ↔ topic ∈ topics := decide_eq_true_iff

/-- The parameters of `getMessages`. -/
structure DriverQuery where
  includeData : Bool
  contentTopics : List ContentTopic
  pubsubTopic : Option PubsubTopic
  cursor : Option ArchiveCursor
  startTime : Option Timestamp
  endTime : Option Timestamp
  hashes : List WakuMessageHash
  maxPageSize : ℕ
  ascendingOrder : Bool
  requestId : String

/-- The row passes all the filters that the driver gets. -/
def rowMatches (q : DriverQuery) (row : ArchiveRow) : Bool :=
  (decide (q.contentTopics = []) || isTopicOf q.contentTopics row.message.contentTopic) &&
  (decide (q.hashes = []) || isHashOf q.hashes row.hash) &&
  q.pubsubTopic.all (fun topic => decide (row.pubsubTopic = topic)) &&
  q.startTime.all (fun startTime => decide (startTime ≤ row.message.timestamp)) &&
  q.endTime.all (fun endTime => decide (row.message.timestamp < endTime))

def DefaultPageSize : ℕ := 20
def MaxPageSize : ℕ := 100
def MaxContentTopicsPerQuery : ℕ := 10

/-- The `maxPageSize` of `findMessages`. -/
def pageLimit (pageSize : ℕ) : ℕ := if pageSize ≤ 0 then DefaultPageSize else min pageSize MaxPageSize

/-- What `findMessages` asks the driver for. -/
def ArchiveQuery.driverQuery (query : ArchiveQuery) : DriverQuery where
  includeData := query.includeData
  contentTopics := query.contentTopics
  pubsubTopic := query.pubsubTopic
  cursor := query.cursor
  startTime := query.startTime
  endTime := query.endTime
  hashes := query.hashes
  maxPageSize := pageLimit query.pageSize + 1
  ascendingOrder := query.direction.into
  requestId := query.requestId

/-- The row passes all the filters of the query. -/
def ArchiveQuery.selects (query : ArchiveQuery) (row : ArchiveRow) : Bool :=
  (decide (query.contentTopics = []) || isTopicOf query.contentTopics row.message.contentTopic) &&
  (decide (query.hashes = []) || isHashOf query.hashes row.hash) &&
  query.pubsubTopic.all (fun topic => decide (row.pubsubTopic = topic)) &&
  query.startTime.all (fun startTime => decide (startTime ≤ row.message.timestamp)) &&
  query.endTime.all (fun endTime => decide (row.message.timestamp < endTime))

/-- The driver is asked with the filters of the query. -/
theorem rowMatches_driverQuery (query : ArchiveQuery) :
    rowMatches query.driverQuery = query.selects := rfl

/-- The checks of a query with a cursor; the length of the cursor is part of its type. -/
def checkCursor (query : ArchiveQuery) : Except ArchiveError Unit :=
  match query.cursor with
  | none => .ok ()
  | some cursor =>
      if cursor = emptyFingerprint then .error (.invalidQuery "all zeroes cursor hash")
      else if query.contentTopics.length > MaxContentTopicsPerQuery then
        .error (.invalidQuery "too many content topics")
      else .ok ()

/-- The response of the rows that the driver returned. -/
def respond (query : ArchiveQuery) (rows : List ArchiveRow) : ArchiveResponse :=
  let maxPageSize := pageLimit query.pageSize
  if rows.length = 0 then {}
  else
    let page := rows.take (min rows.length maxPageSize)
    let hashes := page.map ArchiveRow.hash
    let topics := if query.includeData then page.map ArchiveRow.pubsubTopic else []
    let messages := if query.includeData then page.map ArchiveRow.message else []
    let cursor :=
      if rows.length > maxPageSize then (rows[rows.length - 2]?).map ArchiveRow.hash else none
    if !query.direction.into then
      { cursor := cursor, topics := topics.reverse, hashes := hashes.reverse,
        messages := messages.reverse }
    else { cursor := cursor, topics := topics, hashes := hashes, messages := messages }

def findMessages (getMessages : DriverQuery → Except String (List ArchiveRow))
    (query : ArchiveQuery) : Except ArchiveError ArchiveResponse :=
  match checkCursor query with
  | .error e => .error e
  | .ok _ =>
      match getMessages query.driverQuery with
      | .error cause => .error (.driverError cause)
      | .ok rows => .ok (respond query rows)

/-! ### One page -/

theorem pageLimit_pos (pageSize : ℕ) : 0 < pageLimit pageSize := by
  unfold pageLimit DefaultPageSize MaxPageSize
  split_ifs <;> omega

/-- The rows of a page in the order of time, of a page in the order of the query. -/
def chronological {ρ : Type} (direction : PagingDirection) (page : List ρ) : List ρ :=
  if direction.into then page else page.reverse

/-- The response lists the rows, in the order of time. -/
structure Shows (query : ArchiveQuery) (r : ArchiveResponse) (page : List ArchiveRow) : Prop where
  hashes : r.hashes = page.map ArchiveRow.hash
  topics : r.topics = if query.includeData then page.map ArchiveRow.pubsubTopic else []
  messages : r.messages = if query.includeData then page.map ArchiveRow.message else []

theorem getElem?_second_last {ρ : Type} {n : ℕ} (hn : 0 < n) {rest : List ρ} (h : n < rest.length) :
    (rest.take (n + 1))[(rest.take (n + 1)).length - 2]? = (rest.take n).getLast? := by
  have hlen : (rest.take (n + 1)).length = n + 1 := by
    rw [List.length_take]
    omega
  rw [hlen, List.getElem?_take, List.getLast?_eq_getElem?, List.length_take, List.getElem?_take,
    min_eq_left h.le, if_pos (by omega), if_pos (by omega)]
  rfl

/-- The page of a driver that answers with the first of the rows. -/
theorem shows_respond (query : ArchiveQuery) (rest : List ArchiveRow) :
    Shows query (respond query (rest.take (pageLimit query.pageSize + 1)))
      (chronological query.direction (rest.take (pageLimit query.pageSize))) ∧
    (respond query (rest.take (pageLimit query.pageSize + 1))).cursor =
      cursorAfter ArchiveRow.hash (pageLimit query.pageSize) rest := by
  have hpos := pageLimit_pos query.pageSize
  generalize hn : pageLimit query.pageSize = n at hpos
  unfold respond
  rw [hn]
  have hlen : (rest.take (n + 1)).length = min (n + 1) rest.length := List.length_take
  by_cases hnil : (rest.take (n + 1)).length = 0
  · have hrest : rest = [] := List.length_eq_zero_iff.mp (by omega)
    subst hrest
    simp only [if_pos hnil]
    refine ⟨⟨?_, ?_, ?_⟩, (cursorAfter_eq_none (Nat.zero_le n)).symm⟩
    all_goals simp [chronological]
  · have htake : (rest.take (n + 1)).take (min (rest.take (n + 1)).length n) = rest.take n := by
      rw [List.take_take, hlen]
      by_cases h : n ≤ rest.length
      · congr 1
        omega
      · rw [List.take_of_length_le (by omega), List.take_of_length_le (by omega)]
    have hcursor : (if (rest.take (n + 1)).length > n then
        ((rest.take (n + 1))[(rest.take (n + 1)).length - 2]?).map ArchiveRow.hash else none) =
          cursorAfter ArchiveRow.hash n rest := by
      unfold cursorAfter
      by_cases h : n < rest.length
      · rw [if_pos h, if_pos (by omega), getElem?_second_last hpos h]
      · rw [if_neg h, if_neg (by omega)]
    simp only [if_neg hnil, htake, hcursor]
    cases hdir : query.direction.into with
    | true =>
        refine ⟨⟨?_, ?_, ?_⟩, rfl⟩
        all_goals simp [chronological, hdir]
    | false =>
        refine ⟨⟨?_, ?_, ?_⟩, rfl⟩
        · simp [chronological, hdir]
        · cases query.includeData <;> simp [chronological, hdir]
        · cases query.includeData <;> simp [chronological, hdir]

theorem checkCursor_ok {query : ArchiveQuery}
    (htopics : query.contentTopics.length ≤ MaxContentTopicsPerQuery)
    (hcursor : ∀ c, query.cursor = some c → c ≠ emptyFingerprint) : checkCursor query = .ok () := by
  unfold checkCursor
  cases hc : query.cursor with
  | none => rfl
  | some c =>
      have hne := hcursor c hc
      have hle : ¬ query.contentTopics.length > MaxContentTopicsPerQuery := by omega
      simp [hne, hle]

theorem findMessages_ok {getMessages : DriverQuery → Except String (List ArchiveRow)}
    {query : ArchiveQuery} {rows : List ArchiveRow} (hcheck : checkCursor query = .ok ())
    (hrows : getMessages query.driverQuery = .ok rows) :
    findMessages getMessages query = .ok (respond query rows) := by
  simp only [findMessages, hcheck, hrows]

/-! ### All pages -/

section Pages

variable {ρ κ : Type} [LinearOrder κ]

/-- The pages of a complete answer, each in the order of time: every matching row once and nothing
else, in pages of limited size, the first of the rows first or the last of the rows first. -/
structure CompletePages (query : ArchiveQuery) (key : ρ → κ) (matching : List ρ)
    (pages : List (List ρ)) : Prop where
  once : pages.flatten.Perm matching
  bounded : ∀ page ∈ pages, page.length ≤ pageLimit query.pageSize
  forward : query.direction = .forward → Ascending key pages.flatten
  backward : query.direction = .backward → (∀ page ∈ pages, Ascending key page) ∧
    pages.Pairwise (fun page later => ∀ x ∈ later, ∀ y ∈ page, key x < key y)

/-- The rows in the order of the query: ascending or descending. -/
def InQueryOrder (direction : PagingDirection) (key : ρ → κ) (rows : List ρ) : Prop :=
  match direction with
  | .forward => Ascending key rows
  | .backward => Ascending key rows.reverse

/-- Pages of the rows in the order of the query, each turned to the order of time. -/
theorem completePages_of_flatten {query : ArchiveQuery} {key : ρ → κ} {rows matching : List ρ}
    {pages : List (List ρ)} (hflat : pages.flatten = rows)
    (horder : InQueryOrder query.direction key rows) (hperm : rows.Perm matching)
    (hbound : ∀ page ∈ pages, page.length ≤ pageLimit query.pageSize) :
    CompletePages query key matching (pages.map (chronological query.direction)) := by
  cases hdir : query.direction with
  | forward =>
      have hsame : pages.map (chronological .forward) = pages := List.map_id pages
      rw [hdir] at horder
      rw [hsame]
      refine ⟨hflat ▸ hperm, hbound, fun _ => ?_, fun h => ?_⟩
      · rw [hflat]
        exact horder
      · rw [hdir] at h
        cases h
  | backward =>
      have hrev : ∀ page : List ρ, chronological .backward page = page.reverse := fun _ => rfl
      rw [hdir] at horder
      have hdesc : rows.Pairwise (fun x y => key y < key x) := List.pairwise_reverse.mp horder
      rw [← hflat, List.pairwise_flatten] at hdesc
      refine ⟨?_, ?_, fun h => ?_, fun _ => ⟨?_, ?_⟩⟩
      · have hpages : (pages.map (chronological .backward)).flatten.Perm pages.flatten := by
          refine List.Perm.flatten_congr ?_
          rw [List.forall₂_map_left_iff]
          exact List.forall₂_same.mpr (fun page _ => List.reverse_perm page)
        rw [hflat] at hpages
        exact hpages.trans hperm
      · intro page hpage
        obtain ⟨page', hpage', rfl⟩ := List.mem_map.mp hpage
        rw [hrev, List.length_reverse]
        exact hbound page' hpage'
      · rw [hdir] at h
        cases h
      · intro page hpage
        obtain ⟨page', hpage', rfl⟩ := List.mem_map.mp hpage
        exact List.pairwise_reverse.mpr (hdesc.1 page' hpage')
      · rw [List.pairwise_map]
        refine hdesc.2.imp ?_
        intro page later hlt x hx y hy
        exact hlt y (List.mem_reverse.mp hy) x (List.mem_reverse.mp hx)

/-- A driver that answers every request with the first rows after the cursor is paged through
completely. -/
theorem exists_pages (getMessages : DriverQuery → Except String (List ArchiveRow))
    (rowOf : ρ → ArchiveRow) {query : ArchiveQuery} {key : ρ → κ} {rows matching : List ρ}
    (htopics : query.contentTopics.length ≤ MaxContentTopicsPerQuery)
    (hzero : ∀ x ∈ rows, (rowOf x).hash ≠ emptyFingerprint)
    (horder : InQueryOrder query.direction key rows) (hperm : rows.Perm matching)
    (hdriver : ∀ cursor rest, RowsFrom (fun x => (rowOf x).hash) rows cursor rest →
      getMessages (query.withCursor cursor).driverQuery =
        .ok ((rest.map rowOf).take (pageLimit query.pageSize + 1))) :
    ∃ rs pages,
      Paged (fun cursor => findMessages getMessages (query.withCursor cursor))
        ArchiveResponse.cursor none rs ∧
      List.Forall₂ (fun r page => Shows query r (page.map rowOf)) rs pages ∧
      CompletePages query key matching pages := by
  have hask : ∀ cursor rest, RowsFrom (fun x => (rowOf x).hash) rows cursor rest → ∃ r,
      findMessages getMessages (query.withCursor cursor) = .ok r ∧
      Shows query r ((chronological query.direction (rest.take (pageLimit query.pageSize))).map
        rowOf) ∧
      r.cursor = cursorAfter (fun x => (rowOf x).hash) (pageLimit query.pageSize) rest := by
    intro cursor rest hfrom
    have hok : checkCursor (query.withCursor cursor) = .ok () := by
      refine checkCursor_ok htopics ?_
      intro c hc
      obtain rfl : cursor = some c := hc
      obtain ⟨pre, x, hrows, rfl⟩ := hfrom
      exact hzero x (by rw [hrows]; simp)
    obtain ⟨hshows, hcursor⟩ := shows_respond (query.withCursor cursor) (rest.map rowOf)
    refine ⟨_, findMessages_ok hok (hdriver cursor rest hfrom), ?_, ?_⟩
    · have hmap : (chronological query.direction (rest.take (pageLimit query.pageSize))).map rowOf =
          chronological query.direction ((rest.map rowOf).take (pageLimit query.pageSize)) := by
        unfold chronological
        split_ifs <;> simp
      rw [hmap]
      exact ⟨hshows.hashes, hshows.topics, hshows.messages⟩
    · refine hcursor.trans ?_
      simp [cursorAfter, ← List.map_take, Function.comp_def, ArchiveQuery.withCursor]
  obtain ⟨rs, pages, hpaged, hall, hflat, hbound⟩ := exists_paged _ ArchiveResponse.cursor
    (fun r page => Shows query r ((chronological query.direction page).map rowOf))
    (pageLimit_pos _) hask
  refine ⟨rs, pages.map (chronological query.direction), hpaged, ?_,
    completePages_of_flatten hflat horder hperm hbound⟩
  exact List.forall₂_map_right_iff.mpr hall

end Pages

end LogosDelivery.Archive
