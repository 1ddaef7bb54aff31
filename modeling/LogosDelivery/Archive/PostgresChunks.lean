import LogosDelivery.Archive.MessagesTable

/-! # Long lists of hashes

`getMessages` of the Postgres driver splits a list of hashes into chunks of `MaxHashesPerQuery`,
queries each chunk and concatenates the answers.  Each chunk's answer is ordered and limited on its
own, so the concatenation is the answer to the whole query only when the chunks do not interfere:
at most one of them has matching rows, or all the matching rows fit into the page and the chunks
follow each other in the requested order (`ChunksAgree`). -/

namespace LogosDelivery.Archive

open Lib
open StoreSync (WakuMessageHash emptyFingerprint)

/-- `countup(0, max(hashes.len - 1, 0), MaxHashesPerQuery)`. -/
def chunkStarts (len : ℕ) : List ℕ :=
  (List.range (max (len - 1) 0 / MaxHashesPerQuery + 1)).map (· * MaxHashesPerQuery)

/-- `hashes[i ..< stop]`. -/
def splittedHashes (hashes : List WakuMessageHash) (i : ℕ) : List WakuMessageHash :=
  let stop := min (i + MaxHashesPerQuery) hashes.length
  (hashes.take stop).drop i

section Driver

variable (getMessagesWithinLimits : DriverQuery → Except String (List ArchiveRow))

/-- The loop of `getMessages` over the starts of the chunks; an error ends it. -/
def getMessagesLoop (q : DriverQuery) : List ℕ → List ArchiveRow → Except String (List ArchiveRow)
  | [], rows => .ok rows
  | i :: starts, rows =>
      match getMessagesWithinLimits (q.withHashes (splittedHashes q.hashes i)) with
      | .error e => .error e
      | .ok subRows => getMessagesLoop q starts (rows ++ subRows)

def getMessages (q : DriverQuery) : Except String (List ArchiveRow) :=
  getMessagesLoop getMessagesWithinLimits q (chunkStarts q.hashes.length) []

end Driver

/-! ### The chunks of a query -/

/-- The queries of the chunks. -/
def chunkQueries (q : DriverQuery) : List DriverQuery :=
  (chunkStarts q.hashes.length).map (fun i => q.withHashes (splittedHashes q.hashes i))

theorem length_splittedHashes_le (hashes : List WakuMessageHash) (i : ℕ) :
    (splittedHashes hashes i).length ≤ MaxHashesPerQuery := by
  unfold splittedHashes
  rw [List.length_drop, List.length_take]
  omega

theorem mem_splittedHashes {hashes : List WakuMessageHash} {i : ℕ} {h : WakuMessageHash} :
    h ∈ splittedHashes hashes i ↔
      ∃ j, i ≤ j ∧ j < i + MaxHashesPerQuery ∧ hashes[j]? = some h := by
  unfold splittedHashes
  rw [List.mem_iff_getElem?]
  constructor
  · rintro ⟨n, hn⟩
    rw [List.getElem?_drop, List.getElem?_take] at hn
    split_ifs at hn with hlt
    exact ⟨i + n, by omega, by omega, hn⟩
  · rintro ⟨j, hij, hj, hget⟩
    have hlen := (List.getElem?_eq_some_iff.mp hget).1
    refine ⟨j - i, ?_⟩
    rw [List.getElem?_drop, List.getElem?_take, Nat.add_sub_cancel' hij, if_pos (by omega), hget]

/-- Every hash is in a chunk, and the chunks have no others. -/
theorem mem_hashes_iff {hashes : List WakuMessageHash} {h : WakuMessageHash} :
    h ∈ hashes ↔ ∃ i ∈ chunkStarts hashes.length, h ∈ splittedHashes hashes i := by
  unfold chunkStarts
  constructor
  · intro hmem
    obtain ⟨j, hj, hget⟩ := List.mem_iff_getElem.mp hmem
    refine ⟨j / MaxHashesPerQuery * MaxHashesPerQuery, ?_, ?_⟩
    · refine List.mem_map.mpr ⟨j / MaxHashesPerQuery, ?_, rfl⟩
      rw [List.mem_range, Nat.lt_succ_iff]
      exact Nat.div_le_div_right (by omega)
    · refine mem_splittedHashes.mpr ⟨j, ?_, ?_, by rw [List.getElem?_eq_getElem hj, hget]⟩
      · exact Nat.div_mul_le_self j _
      · unfold MaxHashesPerQuery
        omega
  · rintro ⟨i, -, hin⟩
    obtain ⟨j, -, -, hget⟩ := mem_splittedHashes.mp hin
    exact List.mem_of_getElem? hget

/-- No chunk of a list with elements is empty, so no chunk goes without a filter. -/
theorem splittedHashes_ne_nil {hashes : List WakuMessageHash} (hne : hashes ≠ []) {i : ℕ}
    (hi : i ∈ chunkStarts hashes.length) : splittedHashes hashes i ≠ [] := by
  obtain ⟨n, hn, rfl⟩ := List.mem_map.mp hi
  have hpos := List.length_pos_iff.mpr hne
  rw [List.mem_range, Nat.lt_succ_iff] at hn
  have hlt : n * MaxHashesPerQuery < hashes.length := by
    have := Nat.mul_le_mul_right MaxHashesPerQuery hn
    have := Nat.div_mul_le_self (max (hashes.length - 1) 0) MaxHashesPerQuery
    omega
  have hmem : hashes[n * MaxHashesPerQuery] ∈ splittedHashes hashes (n * MaxHashesPerQuery) :=
    mem_splittedHashes.mpr ⟨_, le_rfl, by unfold MaxHashesPerQuery; omega,
      List.getElem?_eq_getElem hlt⟩
  exact List.ne_nil_of_mem hmem

/-- A row matches a query when it matches the query of one of its chunks. -/
theorem rowMatches_iff_chunks (q : DriverQuery) (row : ArchiveRow) :
    rowMatches q row = true ↔ ∃ q' ∈ chunkQueries q, rowMatches q' row = true := by
  unfold chunkQueries
  simp only [List.mem_map, exists_exists_and_eq_and]
  by_cases hnil : q.hashes = []
  · have hsame : ∀ i, q.withHashes (splittedHashes q.hashes i) = q := by
      intro i
      have hsplit : splittedHashes q.hashes i = [] := by simp [splittedHashes, hnil]
      rw [hsplit, ← hnil]
      rfl
    simp only [hsame]
    constructor
    · intro h
      exact ⟨0, List.mem_map.mpr ⟨0, by simp, rfl⟩, h⟩
    · rintro ⟨-, -, h⟩
      exact h
  · -- The filters other than the hashes are the same for all chunks.
    have hsplit : ∀ hashes : List WakuMessageHash, hashes ≠ [] →
        (rowMatches (q.withHashes hashes) row = true ↔
          rowMatches (q.withHashes []) row = true ∧ row.hash ∈ hashes) := by
      intro hashes hne
      rw [← decide_eq_true_iff (p := row.hash ∈ hashes)]
      simp only [rowMatches, DriverQuery.withHashes, hne, decide_false, decide_true, Bool.false_or,
        Bool.true_or, Bool.and_true, Bool.and_eq_true]
      tauto
    have hq : q.withHashes q.hashes = q := rfl
    rw [← hq, hsplit _ hnil]
    constructor
    · rintro ⟨hother, hmem⟩
      obtain ⟨i, hi, hin⟩ := mem_hashes_iff.mp hmem
      exact ⟨i, hi, (hsplit _ (splittedHashes_ne_nil hnil hi)).mpr ⟨hother, hin⟩⟩
    · rintro ⟨i, hi, hrow⟩
      obtain ⟨hother, hin⟩ := (hsplit _ (splittedHashes_ne_nil hnil hi)).mp hrow
      exact ⟨hother, mem_hashes_iff.mpr ⟨i, hi, hin⟩⟩

/-! ### The answer of the chunks -/

/-- The matching rows of each chunk after a place, in the requested order. -/
def Database.chunkRows (db : Database) (q : DriverQuery) (place : Option Place) :
    List (List ArchiveRow) :=
  (chunkQueries q).map (fun q' => db.matchingRows q' place)

/-- The chunks do not interfere: nothing is asked for, at most one of them has matching rows, or all
the matching rows fit into the page and the chunks follow each other in the requested order. -/
def ChunksAgree (db : Database) (q : DriverQuery) (place : Option Place) : Prop :=
  q.maxPageSize = 0 ∨ (nonEmpty (db.chunkRows q place)).length ≤ 1 ∨
    ((db.chunkRows q place).flatten.length ≤ q.maxPageSize ∧
      Ordered q.ascendingOrder (db.chunkRows q place).flatten)

/-- The chunks agree after the cursor of the query. -/
def ChunksSuited (db : Database) (q : DriverQuery) : Prop :=
  ∀ place, db.cursorPlace q = .ok place → ChunksAgree db q place

theorem cursorPlace_chunk (db : Database) {q q' : DriverQuery} (h : q' ∈ chunkQueries q) :
    db.cursorPlace q' = db.cursorPlace q ∧ q'.maxPageSize = q.maxPageSize ∧
      q'.ascendingOrder = q.ascendingOrder ∧ q'.hashes.length ≤ MaxHashesPerQuery := by
  obtain ⟨i, -, rfl⟩ := List.mem_map.mp h
  exact ⟨rfl, rfl, rfl, length_splittedHashes_le q.hashes i⟩

section Answer

variable {db : Database} {getMessagesWithinLimits : DriverQuery → Except String (List ArchiveRow)}
variable (hwithin : ∀ q, q.hashes.length ≤ MaxHashesPerQuery →
  getMessagesWithinLimits q = db.answer q)
include hwithin

theorem getMessagesLoop_ok {q : DriverQuery} {place : Option Place}
    (hplace : db.cursorPlace q = .ok place) (starts : List ℕ) (rows : List ArchiveRow) :
    getMessagesLoop getMessagesWithinLimits q starts rows = .ok (rows ++ (starts.map (fun i =>
      (db.matchingRows (q.withHashes (splittedHashes q.hashes i)) place).take
        q.maxPageSize)).flatten) := by
  induction starts generalizing rows with
  | nil => simp [getMessagesLoop]
  | cons i starts ih =>
      have hplace' : db.cursorPlace (q.withHashes (splittedHashes q.hashes i)) = .ok place := hplace
      have hchunk : getMessagesWithinLimits (q.withHashes (splittedHashes q.hashes i)) =
          .ok ((db.matchingRows (q.withHashes (splittedHashes q.hashes i)) place).take
            q.maxPageSize) := by
        rw [hwithin _ (length_splittedHashes_le q.hashes i), Database.answer, hplace']
        rfl
      rw [getMessagesLoop, hchunk]
      simp only [ih, List.map_cons, List.flatten_cons, List.append_assoc]

/-- The limited rows of the chunks, one after the other. -/
theorem getMessages_ok {q : DriverQuery} {place : Option Place}
    (hplace : db.cursorPlace q = .ok place) : getMessages getMessagesWithinLimits q =
      .ok ((db.chunkRows q place).map (List.take q.maxPageSize)).flatten := by
  rw [getMessages, getMessagesLoop_ok hwithin hplace, Database.chunkRows, chunkQueries,
    List.map_map, List.map_map]
  rfl

theorem getMessages_error {q : DriverQuery} {e : String} (hplace : db.cursorPlace q = .error e) :
    getMessages getMessagesWithinLimits q = .error e := by
  have hstarts : chunkStarts q.hashes.length =
      0 :: (chunkStarts q.hashes.length).tail := by
    simp [chunkStarts, List.range_succ_eq_map]
  have hplace' : db.cursorPlace (q.withHashes (splittedHashes q.hashes 0)) = .error e := hplace
  rw [getMessages, hstarts, getMessagesLoop, hwithin _ (length_splittedHashes_le q.hashes 0),
    Database.answer, hplace']
  rfl

end Answer

/-- The limited chunks after a place are the limited matching rows exactly when they agree. -/
theorem flatten_chunkRows_iff (db : Database) (q : DriverQuery) (place : Option Place) :
    ((db.chunkRows q place).map (List.take q.maxPageSize)).flatten =
        (db.matchingRows q place).take q.maxPageSize ↔ ChunksAgree db q place := by
  unfold ChunksAgree
  by_cases hzero : q.maxPageSize = 0
  · simp [hzero]
  · rw [ordered_iff, flatten_take_iff ?_ ?_ (ordered_iff.mp (db.ordered_matchingRows q place)) ?_
      (Nat.pos_of_ne_zero hzero)]
    · simp [hzero]
    · intro l l' h h' hmem
      exact (ordered_iff.mpr h).eq_of_mem_iff (ordered_iff.mpr h') hmem
    · intro chunk hchunk
      obtain ⟨q', hq', rfl⟩ := List.mem_map.mp hchunk
      have hord := ordered_iff.mp (db.ordered_matchingRows q' place)
      rw [(cursorPlace_chunk db hq').2.2.1] at hord
      exact hord
    · intro row
      rw [db.mem_matchingRows, rowMatches_iff_chunks]
      constructor
      · rintro ⟨hrow, ⟨q', hq', hmatch⟩, hafter⟩
        refine ⟨_, List.mem_map.mpr ⟨q', hq', rfl⟩, (db.mem_matchingRows q' place row).mpr ?_⟩
        rw [(cursorPlace_chunk db hq').2.2.1]
        exact ⟨hrow, hmatch, hafter⟩
      · rintro ⟨chunk, hchunk, hin⟩
        obtain ⟨q', hq', rfl⟩ := List.mem_map.mp hchunk
        obtain ⟨hrow, hmatch, hafter⟩ := (db.mem_matchingRows q' place row).mp hin
        rw [(cursorPlace_chunk db hq').2.2.1] at hafter
        exact ⟨hrow, ⟨q', hq', hmatch⟩, hafter⟩

/-- Chunks that agree from the start agree after every place. -/
theorem ChunksAgree.after {db : Database} {q : DriverQuery} (h : ChunksAgree db q none)
    (place : Option Place) : ChunksAgree db q place := by
  have hfilter : db.chunkRows q place =
      (db.chunkRows q none).map (List.filter (isAfter q.ascendingOrder place)) := by
    rw [Database.chunkRows, Database.chunkRows, List.map_map]
    refine List.map_congr_left fun q' hq' => ?_
    rw [Function.comp_apply, db.matchingRows_place, (cursorPlace_chunk db hq').2.2.1]
  have hflat : (db.chunkRows q place).flatten =
      (db.chunkRows q none).flatten.filter (isAfter q.ascendingOrder place) := by
    rw [hfilter, List.filter_flatten]
  rcases h with hzero | hone | ⟨hfits, hord⟩
  · exact Or.inl hzero
  · refine Or.inr (Or.inl (le_trans ?_ hone))
    rw [hfilter, nonEmpty, nonEmpty, ← List.countP_eq_length_filter, ← List.countP_eq_length_filter,
      List.countP_map]
    refine List.countP_mono_left fun chunk _ hchunk => ?_
    cases chunk with
    | nil => simp at hchunk
    | cons x chunk => rfl
  · refine Or.inr (Or.inr ⟨?_, ?_⟩)
    · rw [hflat]
      exact (List.length_filter_le _ _).trans hfits
    · rw [hflat, ordered_iff]
      exact (ordered_iff.mp hord).filter _

theorem getMessages_iff {db : Database}
    {getMessagesWithinLimits : DriverQuery → Except String (List ArchiveRow)}
    (hwithin : ∀ q, q.hashes.length ≤ MaxHashesPerQuery → getMessagesWithinLimits q = db.answer q)
    (q : DriverQuery) :
    getMessages getMessagesWithinLimits q = db.answer q ↔ ChunksSuited db q := by
  unfold ChunksSuited
  cases hplace : db.cursorPlace q with
  | error e =>
      rw [getMessages_error hwithin hplace, Database.answer, hplace]
      simp [Except.map]
  | ok place =>
      rw [getMessages_ok hwithin hplace, Database.answer, hplace]
      simp [Except.map, flatten_chunkRows_iff]

/-- The place of a row's cursor. -/
theorem cursorPlace_row (db : Database) (hnodup : (db.messages.map (·.hash)).Nodup) (q : DriverQuery)
    {row : ArchiveRow} (h : row ∈ db.messages) (hc : q.cursor = some row.hash) :
    db.cursorPlace q = .ok (some (rowKey row)) := by
  rw [Database.cursorPlace, placeAt, hc]
  simp only [db.timeOf_row hnodup h]
  rfl

theorem chunkRows_withCursor (db : Database) (query : ArchiveQuery) (cursor : Option ArchiveCursor)
    (place : Option Place) : db.chunkRows (query.withCursor cursor).driverQuery place =
      db.chunkRows query.driverQuery place := by
  rw [Database.chunkRows, Database.chunkRows, chunkQueries, chunkQueries, List.map_map, List.map_map]
  rfl

/-- The matching rows of an archive query, in its order. -/
theorem inQueryOrder_matchingRows (db : Database) (query : ArchiveQuery) :
    InQueryOrder query.direction rowKey (db.matchingRows query.driverQuery none) := by
  have hord := db.ordered_matchingRows query.driverQuery none
  unfold InQueryOrder
  cases hdir : query.direction with
  | forward =>
      have hasc : query.driverQuery.ascendingOrder = true := by
        simp [ArchiveQuery.driverQuery, PagingDirection.into, hdir]
      rw [hasc] at hord
      exact hord
  | backward =>
      have hdesc : query.driverQuery.ascendingOrder = false := by
        simp [ArchiveQuery.driverQuery, PagingDirection.into, hdir]
      rw [hdesc] at hord
      exact ascending_toDual_iff.mp hord

/-- **A hash query in chunks** is answered as the whole query exactly when the chunks agree; and
when the chunks of its first request do, and no two messages have one hash, paging through it is
complete. -/
theorem getMessages_chunks (db : Database)
    (getMessagesWithinLimits : DriverQuery → Except String (List ArchiveRow))
    (hwithin : ∀ q, q.hashes.length ≤ MaxHashesPerQuery → getMessagesWithinLimits q = db.answer q) :
    (∀ q, getMessages getMessagesWithinLimits q = db.answer q ↔ ChunksSuited db q) ∧
    ∀ query : ArchiveQuery, query.contentTopics.length ≤ MaxContentTopicsPerQuery →
      (db.messages.map (·.hash)).Nodup → (∀ row ∈ db.messages, row.hash ≠ emptyFingerprint) →
      ChunksSuited db (query.withCursor none).driverQuery →
      ∃ (rs : List ArchiveResponse) (pages : List (List ArchiveRow)),
        Paged (fun cursor => findMessages (getMessages getMessagesWithinLimits)
          (query.withCursor cursor)) ArchiveResponse.cursor none rs ∧
        List.Forall₂ (Shows query) rs pages ∧
        CompletePages query rowKey (db.messages.filter query.selects) pages := by
  refine ⟨getMessages_iff hwithin, fun query htopics hnodup hzero hsuited => ?_⟩
  have hfirst : ChunksAgree db query.driverQuery none := by
    have h := hsuited none rfl
    unfold ChunksAgree at h ⊢
    rw [chunkRows_withCursor] at h
    exact h
  have hperm : (db.matchingRows query.driverQuery none).Perm
      (db.messages.filter query.selects) := by
    have hsame : db.messages.filter (fun row => rowMatches query.driverQuery row &&
        isAfter query.driverQuery.ascendingOrder none row) =
          db.messages.filter query.selects :=
      List.filter_congr (fun row _ => by simp [isAfter, rowMatches_driverQuery])
    rw [Database.matchingRows, hsame]
    exact perm_inOrder _ _
  have hpages := exists_pages (getMessages getMessagesWithinLimits) id htopics ?_
    (inQueryOrder_matchingRows db query) hperm ?_
  · simpa using hpages
  · intro row hrow
    exact hzero row ((db.mem_matchingRows _ _ row).mp hrow).1
  · intro cursor rest hfrom
    -- The request with the cursor of a row is about the rows after its place.
    have hplace : ∃ place, db.cursorPlace (query.withCursor cursor).driverQuery = .ok place ∧
        db.matchingRows query.driverQuery place = rest := by
      cases cursor with
      | none => exact ⟨none, rfl, hfrom.symm⟩
      | some c =>
          obtain ⟨pre, x, hsplit, rfl⟩ := hfrom
          have hx : x ∈ db.messages :=
            ((db.mem_matchingRows query.driverQuery none x).mp (by rw [hsplit]; simp)).1
          exact ⟨_, cursorPlace_row db hnodup _ hx rfl, db.matchingRows_after hsplit⟩
    obtain ⟨place, hplace, hrest⟩ := hplace
    have hagree := (flatten_chunkRows_iff db query.driverQuery place).mpr (hfirst.after place)
    rw [getMessages_ok hwithin hplace, chunkRows_withCursor, List.map_id, ← hrest]
    exact congrArg Except.ok hagree

theorem getMessages_allRows : (∀ q, q.hashes.length ≤ MaxHashesPerQuery →
    twoRows.answer q = twoRows.answer q) ∧
    getMessages twoRows.answer allRows = twoRows.answer allRows := by
  refine ⟨fun _ _ => rfl, ((getMessages_chunks twoRows twoRows.answer (fun _ _ => rfl)).1
    allRows).mpr ?_⟩
  intro place hplace
  obtain rfl : none = place := Except.ok.inj hplace
  exact Or.inr (Or.inl (by decide))

/-- 101 hashes, in whose first hundred is that of the later message and not that of the earlier. -/
def laterFirst : DriverQuery :=
  allRows.withHashes (StoreSync.constFingerprint 2 ::
    List.replicate 99 (StoreSync.constFingerprint 3) ++ [StoreSync.constFingerprint 1])

/-- The later message comes first. -/
theorem getMessages_laterFirst : getMessages twoRows.answer laterFirst ≠ twoRows.answer laterFirst := by
  decide +kernel

end LogosDelivery.Archive
