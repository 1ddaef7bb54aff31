import LogosDelivery.Archive.Archive

/-! # The queue driver

`waku_archive/driver/queue_driver`: the archive in memory, a `SortedSet` of messages by their
`Index`.  The set is its entries in the order of `cmp`; a walker is the list of the entries that it
has not visited, which is the reversed set when it walks backward.

The entry of a cursor is found by the hash alone, the order is by time and hash, and the filter is
applied after the cursor.  As no two entries have one hash, the entries after the cursor's one are
those after it in the order. -/

namespace LogosDelivery.Archive

open Lib
open StoreSync (WakuMessageHash PubsubTopic ContentTopic emptyFingerprint)

structure Index where
  time : Timestamp
  hash : WakuMessageHash
  pubsubTopic : PubsubTopic
deriving DecidableEq

namespace Index

/-- The `==` of indices. -/
def eq (x y : Index) : Bool := decide (x.hash = y.hash)

/-- `cmp` of a type with an order. -/
def cmpOf {α : Type} [LinearOrder α] (x y : α) : ℤ := if x < y then -1 else if x = y then 0 else 1

def cmp (x y : Index) : ℤ :=
  let timeCMP := cmpOf x.time y.time
  if timeCMP ≠ 0 then timeCMP else cmpOf x.hash y.hash

/-- The place of an index in the order. -/
def key (x : Index) : Timestamp ×ₗ WakuMessageHash := toLex (x.time, x.hash)

theorem cmpOf_neg_iff {α : Type} [LinearOrder α] (x y : α) : cmpOf x y < 0 ↔ x < y := by
  unfold cmpOf
  split_ifs with h h'
  · simp [h]
  · simp [h]
  · simp [h]

theorem cmpOf_eq_zero_iff {α : Type} [LinearOrder α] (x y : α) : cmpOf x y = 0 ↔ x = y := by
  unfold cmpOf
  split_ifs with h h'
  · simp [h.ne]
  · simp [h']
  · simp [h']

theorem cmp_neg_iff (x y : Index) : cmp x y < 0 ↔ x.key < y.key := by
  rw [cmp, key, key, Prod.Lex.toLex_lt_toLex]
  by_cases ht : x.time = y.time
  · have hzero := (cmpOf_eq_zero_iff x.time y.time).mpr ht
    rw [if_neg (not_not.mpr hzero), cmpOf_neg_iff]
    simp [ht]
  · have hne := mt (cmpOf_eq_zero_iff x.time y.time).mp ht
    simp [hne, cmpOf_neg_iff, ht]

end Index

/-- An entry of the queue. -/
abbrev Entry := Index × WakuMessage

structure QueueDriver where
  items : List Entry
  capacity : ℕ
  sorted : items.Pairwise (fun x y => Index.cmp x.1 y.1 < 0)

/-! ### Reading -/

/-- The entries that a walker visits. -/
def QueueDriver.walk (driver : QueueDriver) (forward : Bool) : List Entry :=
  if forward then driver.items else driver.items.reverse

/-- `walkToCursor`: the entries after the cursor's one, if there is one. -/
def walkToCursor (startCursor : Index) : List Entry → Option (List Entry)
  | [] => none
  | nextItem :: rest =>
      if nextItem.1.eq startCursor then some rest else walkToCursor startCursor rest

def Entry.row (entry : Entry) : ArchiveRow := ⟨entry.1.hash, entry.1.pubsubTopic, entry.2⟩

/-- The loop of `getPage`. -/
def getPageLoop (pageSize : ℕ) (predicate : Entry → Bool) :
    List Entry → ℕ → List ArchiveRow → List ArchiveRow
  | [], _, outSeq => outSeq
  | currentEntry :: rest, numberOfItems, outSeq =>
      if numberOfItems < pageSize then
        if predicate currentEntry then
          getPageLoop pageSize predicate rest (numberOfItems + 1)
            (outSeq ++ [Entry.row currentEntry])
        else getPageLoop pageSize predicate rest numberOfItems outSeq
      else outSeq

def QueueDriver.getPage (driver : QueueDriver) (pageSize : ℕ) (forward : Bool)
    (cursor : Option Index) (predicate : Entry → Bool) : Except String (List ArchiveRow) :=
  match cursor with
  | none => .ok (getPageLoop pageSize predicate (driver.walk forward) 0 [])
  | some index =>
      match walkToCursor index (driver.walk forward) with
      | none => .error "invalid_cursor"
      | some rest => .ok (getPageLoop pageSize predicate rest 0 [])

/-- The filter of a query. -/
def matchesQuery (q : DriverQuery) (entry : Entry) : Bool :=
  if q.pubsubTopic.isSome && decide (some entry.1.pubsubTopic ≠ q.pubsubTopic) then false
  else if decide (q.contentTopics.length > 0) && !isTopicOf q.contentTopics entry.2.contentTopic then
    false
  else if q.startTime.any (fun startTime => decide (entry.2.timestamp < startTime)) then false
  else if q.endTime.any (fun endTime => decide (entry.2.timestamp ≥ endTime)) then false
  else if decide (q.hashes.length > 0) && !isHashOf q.hashes entry.1.hash then false
  else true

theorem matchesQuery_eq (q : DriverQuery) (entry : Entry) :
    matchesQuery q entry = rowMatches q entry.row := by
  rw [Bool.eq_iff_iff]
  unfold matchesQuery rowMatches Entry.row
  by_cases htopics : q.contentTopics = [] <;> by_cases hhashes : q.hashes = [] <;>
    cases q.pubsubTopic <;> cases q.startTime <;> cases q.endTime <;>
      simp [htopics, hhashes, List.length_pos_iff] <;> tauto

def QueueDriver.getMessages (driver : QueueDriver) (q : DriverQuery) :
    Except String (List ArchiveRow) :=
  -- The index of a cursor has no time and no topic.
  let index := q.cursor.map (fun hash => ({ time := 0, hash := hash, pubsubTopic := "" } : Index))
  driver.getPage q.maxPageSize q.ascendingOrder index (matchesQuery q)

/-! ### The rows after a cursor -/

theorem getPageLoop_eq (pageSize : ℕ) (predicate : Entry → Bool) :
    ∀ (entries : List Entry) (n : ℕ) (outSeq : List ArchiveRow),
      getPageLoop pageSize predicate entries n outSeq =
        outSeq ++ ((entries.filter predicate).map Entry.row).take (pageSize - n)
  | [], n, outSeq => by simp [getPageLoop]
  | entry :: entries, n, outSeq => by
      rw [getPageLoop]
      by_cases hn : n < pageSize
      · rw [if_pos hn, List.filter_cons]
        by_cases hp : predicate entry = true
        · have hsub : pageSize - n = pageSize - (n + 1) + 1 := by omega
          rw [if_pos hp, if_pos hp, getPageLoop_eq pageSize predicate entries, List.map_cons, hsub,
            List.take_succ_cons, List.append_assoc, List.singleton_append]
        · rw [if_neg hp, if_neg hp, getPageLoop_eq pageSize predicate entries]
      · have hzero : pageSize - n = 0 := by omega
        rw [if_neg hn, hzero, List.take_zero, List.append_nil]

theorem walkToCursor_eq {entries pre post : List Entry} {x : Entry} {index : Index}
    (hsplit : entries = pre ++ x :: post) (hx : x.1.hash = index.hash)
    (hpre : ∀ y ∈ pre, y.1.hash ≠ index.hash) : walkToCursor index entries = some post := by
  subst hsplit
  induction pre with
  | nil => simp [walkToCursor, Index.eq, hx]
  | cons y pre ih =>
      have hy : y.1.hash ≠ index.hash := hpre y List.mem_cons_self
      rw [List.cons_append, walkToCursor, if_neg (by simp [Index.eq, hy])]
      exact ih (fun z hz => hpre z (List.mem_cons_of_mem _ hz))

/-- The matching entries after one of them, as the entries of the walk after it. -/
theorem split_of_filter {α : Type} {p : α → Bool} {l pre post : List α} {x : α}
    (h : l.filter p = pre ++ x :: post) :
    ∃ pre' post', l = pre' ++ x :: post' ∧ post'.filter p = post := by
  induction l generalizing pre with
  | nil => simp at h
  | cons y l ih =>
      rw [List.filter_cons] at h
      by_cases hy : p y = true
      · rw [if_pos hy] at h
        cases pre with
        | nil =>
            obtain ⟨rfl, rfl⟩ := List.cons.inj h
            exact ⟨[], l, rfl, rfl⟩
        | cons z pre =>
            obtain ⟨rfl, hrest⟩ := List.cons.inj h
            obtain ⟨pre', post', rfl, hpost⟩ := ih hrest
            exact ⟨y :: pre', post', rfl, hpost⟩
      · rw [if_neg hy] at h
        obtain ⟨pre', post', rfl, hpost⟩ := ih h
        exact ⟨y :: pre', post', rfl, hpost⟩

namespace QueueDriver

variable (driver : QueueDriver)

theorem perm_walk (forward : Bool) : (driver.walk forward).Perm driver.items := by
  cases forward with
  | true => exact List.Perm.refl _
  | false => exact List.reverse_perm _

theorem ascending_items : Ascending (fun entry : Entry => entry.1.key) driver.items :=
  driver.sorted.imp (fun {x y} h => (Index.cmp_neg_iff x.1 y.1).mp h)

/-- A request is answered with the first matching entries after the cursor. -/
theorem getMessages_eq (hdistinct : (driver.items.map (fun entry => entry.1.hash)).Nodup)
    (q : DriverQuery) (rest : List Entry)
    (hfrom : RowsFrom (fun entry : Entry => (Entry.row entry).hash)
      ((driver.walk q.ascendingOrder).filter (matchesQuery q)) q.cursor rest) :
    driver.getMessages q = .ok ((rest.map Entry.row).take q.maxPageSize) := by
  have hnodup : ((driver.walk q.ascendingOrder).map (fun entry => entry.1.hash)).Nodup :=
    ((driver.perm_walk q.ascendingOrder).map _).nodup_iff.mpr hdistinct
  unfold getMessages getPage
  cases hc : q.cursor with
  | none =>
      rw [hc] at hfrom
      obtain rfl := hfrom
      simp [getPageLoop_eq]
  | some c =>
      rw [hc] at hfrom
      obtain ⟨pre, x, hsplit, hx⟩ := hfrom
      obtain ⟨pre', post', hwalk, rfl⟩ := split_of_filter hsplit
      have hpre : ∀ y ∈ pre', y.1.hash ≠ c := by
        intro y hy heq
        rw [hwalk, List.map_append, List.map_cons] at hnodup
        have hdisj := (List.nodup_append.mp hnodup).2.2 _ (List.mem_map_of_mem hy) x.1.hash
          List.mem_cons_self
        exact hdisj (heq.trans hx.symm)
      have hafter : walkToCursor { time := 0, hash := c, pubsubTopic := "" }
          (driver.walk q.ascendingOrder) = some post' := walkToCursor_eq hwalk hx hpre
      simp only [Option.map_some, hafter, getPageLoop_eq, List.nil_append, Nat.sub_zero]

end QueueDriver

/-- **Pagination over the queue is complete.**  Repeating a query with the cursor of each answer
ends, and the pages are those of a complete answer. -/
theorem findMessages_queue (driver : QueueDriver)
    (hdistinct : (driver.items.map (fun entry => entry.1.hash)).Nodup)
    (hzero : ∀ entry ∈ driver.items, entry.1.hash ≠ emptyFingerprint) (query : ArchiveQuery)
    (htopics : query.contentTopics.length ≤ MaxContentTopicsPerQuery) :
    ∃ (rs : List ArchiveResponse) (pages : List (List Entry)),
      Paged (fun cursor => findMessages driver.getMessages (query.withCursor cursor))
        ArchiveResponse.cursor none rs ∧
      List.Forall₂ (fun r page => Shows query r (page.map Entry.row)) rs pages ∧
      CompletePages query (fun entry => entry.1.key)
        (driver.items.filter (fun entry => query.selects entry.row)) pages := by
  have hmatch : ∀ cursor, matchesQuery (query.withCursor cursor).driverQuery =
      fun entry => query.selects entry.row := by
    intro cursor
    funext entry
    rw [matchesQuery_eq, rowMatches_driverQuery]
    rfl
  have hperm : ((driver.walk query.direction.into).filter (fun entry => query.selects entry.row)).Perm
      (driver.items.filter (fun entry => query.selects entry.row)) :=
    (driver.perm_walk query.direction.into).filter _
  refine exists_pages driver.getMessages Entry.row htopics ?_ ?_ hperm ?_
  · intro entry hentry
    exact hzero entry (List.mem_of_mem_filter (hperm.mem_iff.mp hentry))
  · have hasc := driver.ascending_items.filter (fun entry => query.selects entry.row)
    cases hdir : query.direction with
    | forward => exact hasc
    | backward =>
        have hrev : ((driver.walk false).filter (fun entry => query.selects entry.row)).reverse =
            driver.items.filter (fun entry => query.selects entry.row) := by
          rw [← List.filter_reverse, QueueDriver.walk, if_neg Bool.false_ne_true,
            List.reverse_reverse]
        rw [← hrev] at hasc
        exact hasc
  · intro cursor rest hfrom
    refine driver.getMessages_eq hdistinct (query.withCursor cursor).driverQuery rest ?_
    rw [hmatch]
    exact hfrom

/-- Four messages: two of one time, one of another pubsub topic, one of another content topic. -/
def fourMessages : QueueDriver where
  items := [(⟨5, StoreSync.constFingerprint 1, "/waku/2/rs/0/0"⟩, ⟨[7], "/app/1/chat/proto", [], 0, 5⟩),
    (⟨5, StoreSync.constFingerprint 2, "/waku/2/rs/0/0"⟩, ⟨[8], "/app/1/chat/proto", [], 0, 5⟩),
    (⟨6, StoreSync.constFingerprint 3, "/waku/2/rs/0/1"⟩, ⟨[9], "/app/1/chat/proto", [], 0, 6⟩),
    (⟨7, StoreSync.constFingerprint 4, "/waku/2/rs/0/0"⟩, ⟨[9], "/app/1/news/proto", [], 0, 7⟩)]
  capacity := 25000
  sorted := by decide

/-- The chat on one shard before a time, one message a page, the last first. -/
def onePerPage : ArchiveQuery where
  includeData := true
  pubsubTopic := some "/waku/2/rs/0/0"
  contentTopics := ["/app/1/chat/proto"]
  cursor := none
  startTime := some 5
  endTime := some 7
  hashes := []
  pageSize := 1
  direction := .backward
  requestId := ""

theorem findMessages_fourMessages :
    (fourMessages.items.map (fun entry => entry.1.hash)).Nodup ∧
    (∀ entry ∈ fourMessages.items, entry.1.hash ≠ emptyFingerprint) ∧
    fourMessages.items.filter (fun entry => onePerPage.selects entry.row) =
      fourMessages.items.take 2 ∧
    ∃ (rs : List ArchiveResponse) (pages : List (List Entry)),
      Paged (fun cursor => findMessages fourMessages.getMessages (onePerPage.withCursor cursor))
        ArchiveResponse.cursor none rs ∧
      List.Forall₂ (fun r page => Shows onePerPage r (page.map Entry.row)) rs pages ∧
      CompletePages onePerPage (fun entry => entry.1.key)
        (fourMessages.items.filter (fun entry => onePerPage.selects entry.row)) pages := by
  have hdistinct : (fourMessages.items.map (fun entry => entry.1.hash)).Nodup := by decide
  have hzero : ∀ entry ∈ fourMessages.items, entry.1.hash ≠ emptyFingerprint := by decide
  have hselected : fourMessages.items.filter (fun entry => onePerPage.selects entry.row) =
      fourMessages.items.take 2 := by rfl
  exact ⟨hdistinct, hzero, hselected,
    findMessages_queue fourMessages hdistinct hzero onePerPage (by decide)⟩

end LogosDelivery.Archive
