import LogosDelivery.Archive.ArchiveStores
import LogosDelivery.StoreSync.Delivery
import LogosDelivery.StoreSync.TopicAttribution

/-! # The index of a node that starts

`initFillStorage` pages through the archive and inserts what it reads; `SyncReconciliation.new`
starts from its storage, or from an empty one if a page could not be read.  The range of the sync is
cut first, so that no session reaches behind what the archive's retention keeps.

With any of the three drivers the index that a node starts with is the slice of its archive: the
messages of the sync range, each under its own topics (`new_filled`). -/

namespace LogosDelivery.StoreSync

open Archive (ArchiveStore ArchiveQuery ArchiveResponse ArchiveRow ArchiveError DriverQuery Timestamp)
open Lib

/-! ### The sync range -/

/-- Reduces `syncRange` so that with the jitter it never exceeds the time retention. -/
def clampSyncRange (syncRange relayJitter : ℤ) (timeRetention : Option ℤ) : ℤ :=
  match timeRetention with
  | none => syncRange
  | some retention =>
      if syncRange + relayJitter ≤ retention then syncRange
      else if retention ≤ relayJitter then 0
      else retention - relayJitter

inductive RetentionPolicy where
  | time (retentionTime : ℤ)
  | capacity (capacity : ℤ)
  | size (sizeLimit : ℤ)

/-- The shortest time retention among the policies, if there is one. -/
def getShortestTimeRetention (retentionPolicies : List RetentionPolicy) : Option ℤ :=
  retentionPolicies.foldl (fun shortest policy =>
    match policy with
    | .time retention => if shortest.all (fun s => decide (retention < s)) then some retention
        else shortest
    | _ => shortest) none

/-! ### Filling the storage -/

/-- What `initFillStorage` asks for. -/
def fillQuery (startTime endTime : Timestamp) : ArchiveQuery where
  includeData := true
  pubsubTopic := none
  contentTopics := []
  cursor := none
  startTime := some startTime
  endTime := some endTime
  hashes := []
  pageSize := 100
  direction := .forward
  requestId := ""

/-- The loop over a response; `none` if it lists fewer messages or topics than hashes, which is an
`IndexDefect`. -/
def insertResponse (storage : SeqStorage) :
    List WakuMessageHash → List Archive.WakuMessage → List PubsubTopic → Option SeqStorage
  | [], _, _ => some storage
  | hash :: hashes, msg :: messages, pubsubTopic :: topics =>
      insertResponse (storage.insert ⟨msg.timestamp, hash⟩ pubsubTopic msg.contentTopic) hashes
        messages topics
  | _ :: _, _, _ => none

/-- Where the filling is. -/
inductive Filling where
  | running
  | indexDefect
  | done (result : Except String SeqStorage)

/-- The loop of `initFillStorage`, for at most so many pages. -/
def fillLoop (getMessages : DriverQuery → Except String (List ArchiveRow)) (query : ArchiveQuery) :
    ℕ → Option WakuMessageHash → SeqStorage → Filling
  | 0, _, _ => .running
  | fuel + 1, cursor, storage =>
      match Archive.findMessages getMessages (query.withCursor cursor) with
      | .error e => .done (.error ("archive retrival failed: " ++ e.text))
      | .ok response =>
          match insertResponse storage response.hashes response.messages response.topics with
          | none => .indexDefect
          | some storage =>
              match response.cursor with
              | none => .done (.ok storage)
              | some cursor => fillLoop getMessages query fuel (some cursor) storage

/-- What the sync reads of a `WakuArchive`. -/
structure ReadArchive where
  getMessages : DriverQuery → Except String (List ArchiveRow)
  retentionPolicies : List RetentionPolicy

/-- `wakuArchive` is none where the reference is `nil`. -/
def initFillStorage (syncRange : ℤ) (wakuArchive : Option ReadArchive) (now : Timestamp)
    (fuel : ℕ) : Filling :=
  match wakuArchive with
  | none => .done (.error "waku archive unavailable")
  | some archive =>
      let endTime := now
      let startTime := endTime - syncRange
      fillLoop archive.getMessages (fillQuery startTime endTime) fuel none {}

/-- The configuration of `SyncReconciliation.new`. -/
structure SyncConf where
  cluster : UInt16
  shards : List UInt16
  syncRange : ℤ
  relayJitter : ℤ
  pendingTimeout : ℤ

/-- The node and its effective sync range, once its storage is filled. -/
def SyncReconciliation.new (conf : SyncConf) (wakuArchive : Option ReadArchive) (now : Timestamp)
    (fuel : ℕ) : Option (SyncReconciliation × ℤ) :=
  let timeRetention := wakuArchive.bind (fun a => getShortestTimeRetention a.retentionPolicies)
  let effectiveRange := clampSyncRange conf.syncRange conf.relayJitter timeRetention
  let node := fun storage : SeqStorage =>
    ({ cluster := conf.cluster, shards := conf.shards, storage := storage,
       pendingTimeout := conf.pendingTimeout } : SyncReconciliation)
  match initFillStorage effectiveRange wakuArchive now fuel with
  | .done (.ok storage) => some (node storage, effectiveRange)
  | .done (.error _) => some (node {}, effectiveRange)
  | _ => none

/-! ### What the clamp is for -/

theorem getShortestTimeRetention_spec (retentionPolicies : List RetentionPolicy) (retention : ℤ) :
    RetentionPolicy.time retention ∈ retentionPolicies →
      ∃ shortest, getShortestTimeRetention retentionPolicies = some shortest ∧
        shortest ≤ retention := by
  induction retentionPolicies using List.reverseRecOn with
  | nil => simp
  | append_singleton policies policy ih =>
      intro hmem
      have hlast : getShortestTimeRetention (policies ++ [policy]) =
          match policy with
          | .time r => if (getShortestTimeRetention policies).all (fun s => decide (r < s)) then some r
              else getShortestTimeRetention policies
          | _ => getShortestTimeRetention policies := by
        unfold getShortestTimeRetention
        rw [List.foldl_append]
        cases policy <;> rfl
      rw [hlast]
      rcases List.mem_append.mp hmem with hmem | hmem
      · obtain ⟨shortest, heq, hle⟩ := ih hmem
        cases policy with
        | time r =>
            by_cases hlt : r < shortest
            · refine ⟨r, ?_, by omega⟩
              simp [heq, hlt]
            · refine ⟨shortest, ?_, hle⟩
              simp [heq, hlt]
        | _ => exact ⟨shortest, heq, hle⟩
      · obtain rfl := List.mem_singleton.mp hmem
        cases heq : getShortestTimeRetention policies with
        | none => exact ⟨retention, by simp, le_rfl⟩
        | some shortest =>
            by_cases hlt : retention < shortest
            · exact ⟨retention, by simp [hlt], le_rfl⟩
            · exact ⟨shortest, by simp [hlt], not_lt.mp hlt⟩

/-- The range is not extended, and a session within it stays within the retention, if there is any
room beside the jitter. -/
structure Clamped (syncRange relayJitter : ℤ) (retentionPolicies : List RetentionPolicy)
    (range : ℤ) : Prop where
  le : range ≤ syncRange
  kept : ∀ retention, RetentionPolicy.time retention ∈ retentionPolicies →
    range + relayJitter ≤ retention ∨ range = 0

theorem clamped_clampSyncRange {syncRange relayJitter : ℤ} (hrange : 0 ≤ syncRange)
    (retentionPolicies : List RetentionPolicy) :
    Clamped syncRange relayJitter retentionPolicies
      (clampSyncRange syncRange relayJitter (getShortestTimeRetention retentionPolicies)) := by
  constructor
  · unfold clampSyncRange
    split
    · exact le_rfl
    · split_ifs <;> omega
  · intro retention hmem
    obtain ⟨shortest, heq, hle⟩ := getShortestTimeRetention_spec retentionPolicies retention hmem
    rw [heq]
    unfold clampSyncRange
    dsimp only
    split_ifs
    · exact Or.inl (by omega)
    · exact Or.inr rfl
    · exact Or.inl (by omega)

/-! ### Inserting rows -/

/-- The insert of a row. -/
def insertOf (row : ArchiveRow) : StorageOp :=
  .insert (rowId row) row.pubsubTopic row.message.contentTopic

/-- The storage after the inserts of rows. -/
def storageOf (rows : List ArchiveRow) : SeqStorage := storageAfter 8 100 (rows.map insertOf)

def topicsOf (rows : List ArchiveRow) : Attribution := attributionAfter (rows.map insertOf)

theorem storageOf_concat (rows : List ArchiveRow) (row : ArchiveRow) :
    storageOf (rows ++ [row]) =
      (storageOf rows).insert (rowId row) row.pubsubTopic row.message.contentTopic := by
  rw [storageOf, List.map_append]
  exact Lib.run_concat _ _ _ _

theorem topicsOf_concat (rows : List ArchiveRow) (row : ArchiveRow) :
    topicsOf (rows ++ [row]) =
      (topicsOf rows).insert (rowId row) row.pubsubTopic row.message.contentTopic := by
  rw [topicsOf, List.map_append]
  exact Lib.run_concat _ _ _ _

/-- A response that shows rows inserts them. -/
theorem insertResponse_shows {query : ArchiveQuery} (hdata : query.includeData = true)
    {response : ArchiveResponse} {page : List ArchiveRow} (h : Archive.Shows query response page)
    (rows : List ArchiveRow) :
    insertResponse (storageOf rows) response.hashes response.messages response.topics =
      some (storageOf (rows ++ page)) := by
  rw [h.hashes, h.messages, h.topics, if_pos hdata, if_pos hdata]
  clear h
  induction page generalizing rows with
  | nil => simp [insertResponse]
  | cons row page ih =>
      have hnext := ih (rows ++ [row])
      rw [storageOf_concat, List.append_assoc, List.singleton_append] at hnext
      exact hnext

/-- Inserts alone leave no slot unused. -/
theorem unused_insert {s : SeqStorage}
    (hunused : s.unusedPubsubTopicSet = ∅ ∧ s.unusedContentTopicSet = ∅) (hwell : s.WellFormed)
    (e : SyncID) (p : PubsubTopic) (c : ContentTopic) :
    (s.insert e p c).unusedPubsubTopicSet = ∅ ∧ (s.insert e p c).unusedContentTopicSet = ∅ := by
  have hnone : ∀ (topics : List String) (topic : String),
      (getTopicIndex topics ∅ topic).2.2 = ∅ := by
    intro topics topic
    rcases getTopicIndex_cases topics ∅ topic with ⟨i, _, h⟩ | ⟨_, k, rest, hun, _⟩ | ⟨_, _, h⟩
    · rw [h]
    · cases hun
    · rw [h]
  by_cases he : e ∈ s.elements
  · rw [hwell.insert_of_mem he]
    exact hunused
  · rw [SeqStorage.insert_of_notMem hwell he]
    dsimp only [SeqStorage.getPubsubTopicIndex, SeqStorage.getContentTopicIndex]
    rw [hunused.1, hunused.2]
    exact ⟨hnone _ _, hnone _ _⟩

/-- The storage after inserts alone holds the rows under their topics. -/
theorem attributed_storageOf (rows : List ArchiveRow) :
    (storageOf rows).Attributed (topicsOf rows) ∧
      (storageOf rows).unusedPubsubTopicSet = ∅ ∧ (storageOf rows).unusedContentTopicSet = ∅ := by
  induction rows using List.reverseRecOn with
  | nil => exact ⟨SeqStorage.attributed_empty 8 100, rfl, rfl⟩
  | append_singleton rows row ih =>
      obtain ⟨hattributed, hunused⟩ := ih
      have hsound : (storageOf rows).Sound (topicsOf rows) :=
        sound_storageAfter 8 100 (rows.map insertOf)
      have hkeeps : ¬ (storageOf rows).OverwritesUsed (rowId row) row.pubsubTopic
          row.message.contentTopic := by
        rintro ⟨_, ⟨_, k, hk, _⟩ | ⟨_, k, hk, _⟩⟩
        · rw [hunused.1] at hk
          cases hk
        · rw [hunused.2] at hk
          cases hk
      rw [storageOf_concat, topicsOf_concat]
      exact ⟨hattributed.insert hsound.slots hsound.wellFormed hkeeps,
        unused_insert hunused hsound.wellFormed _ _ _⟩

theorem topicsOf_eq_none {rows : List ArchiveRow} {e : SyncID} :
    topicsOf rows e = none ↔ e ∉ rows.map rowId := by
  induction rows using List.reverseRecOn with
  | nil =>
      have hempty : topicsOf [] e = none := rfl
      simp [hempty]
  | append_singleton rows row ih =>
      rw [topicsOf_concat, List.map_append, List.mem_append, not_or, ← ih]
      unfold Attribution.insert
      by_cases he : e = rowId row
      · by_cases hnone : topicsOf rows (rowId row) = none <;> simp [he, hnone]
      · simp [he]

/-- Rows with ids of their own are found under their topics. -/
theorem topicsOf_row {rows : List ArchiveRow} (hnodup : (rows.map rowId).Nodup) {row : ArchiveRow}
    (hrow : row ∈ rows) : topicsOf rows (rowId row) = some (row.pubsubTopic, row.message.contentTopic) := by
  induction rows using List.reverseRecOn with
  | nil => cases hrow
  | append_singleton rows last ih =>
      rw [List.map_append, List.nodup_append] at hnodup
      obtain ⟨hnodup, _, hapart⟩ := hnodup
      rw [topicsOf_concat]
      unfold Attribution.insert
      rcases List.mem_append.mp hrow with hrow | hrow
      · have hne : rowId row ≠ rowId last :=
          hapart _ (List.mem_map_of_mem hrow) _ (List.mem_singleton_self _)
        rw [if_neg (fun h => hne h.1)]
        exact ih hnodup hrow
      · obtain rfl := List.mem_singleton.mp hrow
        have hnew : topicsOf rows (rowId row) = none :=
          topicsOf_eq_none.mpr fun hmem => hapart _ hmem _ (List.mem_singleton_self _) rfl
        rw [if_pos ⟨rfl, hnew⟩]

/-! ### The loop -/

/-- Once all pages are read the storage is that of their rows. -/
theorem fillLoop_paged {getMessages : DriverQuery → Except String (List ArchiveRow)}
    {query : ArchiveQuery} (hdata : query.includeData = true) {cursor : Option WakuMessageHash}
    {rs : List ArchiveResponse} {pages : List (List ArchiveRow)}
    (hpaged : Paged (fun cursor => Archive.findMessages getMessages (query.withCursor cursor))
      ArchiveResponse.cursor cursor rs)
    (hshows : List.Forall₂ (Archive.Shows query) rs pages) (rows : List ArchiveRow) {fuel : ℕ}
    (hfuel : rs.length ≤ fuel) :
    fillLoop getMessages query fuel cursor (storageOf rows) =
      .done (.ok (storageOf (rows ++ pages.flatten))) := by
  induction hpaged generalizing pages rows fuel with
  | last h hc =>
      rw [List.length_singleton] at hfuel
      obtain ⟨fuel, rfl⟩ : ∃ n, fuel = n + 1 := ⟨fuel - 1, by omega⟩
      obtain ⟨page, later, hpage, hlater, rfl⟩ := List.forall₂_cons_left_iff.mp hshows
      obtain rfl := List.forall₂_nil_left_iff.mp hlater
      rw [fillLoop, h]
      dsimp only
      rw [insertResponse_shows hdata hpage, hc]
      simp
  | more h hc _ ih =>
      rw [List.length_cons] at hfuel
      obtain ⟨fuel, rfl⟩ : ∃ n, fuel = n + 1 := ⟨fuel - 1, by omega⟩
      obtain ⟨page, later, hpage, hlater, rfl⟩ := List.forall₂_cons_left_iff.mp hshows
      rw [fillLoop, h]
      dsimp only
      rw [insertResponse_shows hdata hpage, hc]
      dsimp only
      rw [ih hlater (rows ++ page) (by omega), List.flatten_cons, List.append_assoc]

/-! ### The pages of the archive -/

/-- The time of the row is in the range. -/
def inTime (startTime endTime : Timestamp) (row : ArchiveRow) : Bool :=
  decide (startTime ≤ row.message.timestamp) && decide (row.message.timestamp < endTime)

theorem selects_fillQuery (startTime endTime : Timestamp) (row : ArchiveRow) :
    (fillQuery startTime endTime).selects row = inTime startTime endTime row := by
  simp [ArchiveQuery.selects, fillQuery, inTime]

/-- The query has at most four values. -/
theorem suits_fillQuery {store : ArchiveStore} (hlimit : ∀ db, store = .sqlite db → 4 ≤ db.variableLimit)
    (startTime endTime : Timestamp) : store.Suits (fillQuery startTime endTime) := by
  cases store with
  | queue driver => exact trivial
  | sqlite db => exact ⟨Or.inl rfl, hlimit db rfl⟩
  | postgres db => exact ⟨rfl, (by decide : Archive.acceptsId "" = true)⟩

/-! ### The storage of a node that starts -/

/-- The storage holds the ids of the rows in the range and no others, each under its own topics. -/
structure FilledFrom (storage : SeqStorage) (rows : List ArchiveRow)
    (startTime endTime : Timestamp) : Prop where
  wellFormed : storage.WellFormed
  mem : ∀ x, x ∈ storage.elements ↔ ∃ row ∈ rows, rowId row = x ∧
    startTime ≤ row.message.timestamp ∧ row.message.timestamp < endTime
  topics : ∀ i row, row ∈ rows → storage.elements[i]? = some (rowId row) →
    storage.topicsAt i = some (row.pubsubTopic, row.message.contentTopic)

theorem filledFrom_storageOf {rows found : List ArchiveRow} {startTime endTime : Timestamp}
    (hdistinct : (rows.map ArchiveRow.hash).Nodup)
    (hfound : found.Perm (rows.filter (inTime startTime endTime))) :
    FilledFrom (storageOf found) rows startTime endTime := by
  have hwell : (storageOf found).WellFormed := (sound_storageAfter 8 100 (found.map insertOf)).wellFormed
  have hattributed := (attributed_storageOf found).1
  have hmem : ∀ x, x ∈ (storageOf found).elements ↔ ∃ row ∈ rows, rowId row = x ∧
      startTime ≤ row.message.timestamp ∧ row.message.timestamp < endTime := by
    intro x
    rw [hattributed.mem x, Ne, topicsOf_eq_none, not_not, List.mem_map]
    refine exists_congr fun row => ?_
    rw [hfound.mem_iff, List.mem_filter, inTime, Bool.and_eq_true, decide_eq_true_iff,
      decide_eq_true_iff]
    tauto
  -- a row is given by its hash
  have hids : (rows.map rowId).Nodup := by
    refine List.Nodup.of_map SyncID.hash ?_
    rw [List.map_map]
    exact hdistinct
  refine ⟨hwell, hmem, fun i row hrow hi => ?_⟩
  obtain ⟨row', hrow', hid, hstart, hend⟩ := (hmem _).mp (List.mem_of_getElem? hi)
  obtain rfl := List.inj_on_of_nodup_map hids hrow' hrow hid
  have hin : row' ∈ found := by
    rw [hfound.mem_iff, List.mem_filter, inTime, Bool.and_eq_true, decide_eq_true_iff,
      decide_eq_true_iff]
    exact ⟨hrow, hstart, hend⟩
  have hnodup : (found.map rowId).Nodup := by
    have hsub := (List.filter_sublist (p := inTime startTime endTime) (l := rows)).map rowId
    exact ((hfound.map rowId).nodup_iff).mpr (hids.sublist hsub)
  rw [hattributed.topicsAt_eq hwell hi]
  exact topicsOf_row hnodup hin

/-- **A node starts with the slice of its archive.**  With any driver, `new` ends, and its storage
holds the messages of the effective sync range before now, each under its own topics; no session of
this range reaches behind what a time retention keeps. -/
theorem new_filled (store : ArchiveStore) (hstore : store.Usable)
    (hlimit : ∀ db, store = .sqlite db → 4 ≤ db.variableLimit)
    (retentionPolicies : List RetentionPolicy) (conf : SyncConf) (hrange : 0 ≤ conf.syncRange)
    (now : Timestamp) : ∃ node range enough,
      (∀ fuel ≥ enough, SyncReconciliation.new conf (some ⟨store.getMessages, retentionPolicies⟩) now
        fuel = some (node, range)) ∧
      Clamped conf.syncRange conf.relayJitter retentionPolicies range ∧
      FilledFrom node.storage store.rows (now - range) now := by
  set range := clampSyncRange conf.syncRange conf.relayJitter
    (getShortestTimeRetention retentionPolicies) with hrangeOf
  obtain ⟨rs, pages, hpaged, hshows, hcomplete⟩ :=
    hstore.exists_pages (suits_fillQuery hlimit (now - range) now) (Nat.zero_le _)
  have hperm : pages.flatten.Perm (store.rows.filter (inTime (now - range) now)) := by
    have hsame := List.filter_congr fun row (_ : row ∈ store.rows) =>
      selects_fillQuery (now - range) now row
    rw [← hsame]
    exact hcomplete.once
  refine ⟨⟨conf.cluster, conf.shards, storageOf pages.flatten, [], 0, conf.pendingTimeout, ∅, [], ∅⟩,
    range, rs.length, fun fuel hfuel => ?_, clamped_clampSyncRange hrange retentionPolicies,
    filledFrom_storageOf hstore.distinct hperm⟩
  have hfill : initFillStorage range (some ⟨store.getMessages, retentionPolicies⟩) now fuel =
      .done (.ok (storageOf pages.flatten)) := fillLoop_paged rfl hpaged hshows [] hfuel
  unfold SyncReconciliation.new
  dsimp only [Option.bind_some]
  rw [← hrangeOf, hfill]

/-- An archive of two messages. -/
def olderAndNewer : Archive.Sqlite.SqliteDatabase where
  rows := [⟨constFingerprint 1, "p", ⟨[], "c", [], 0, 50⟩⟩, ⟨constFingerprint 2, "p", ⟨[], "c", [], 0, 10⟩⟩]
  variableLimit := 999
  primaryKey := by decide
  notNull := by simp

/-- The range of the configuration reaches behind both messages, the retention only behind one. -/
theorem new_olderAndNewer :
    (SyncReconciliation.new ⟨1, [], 100, 5, 0⟩
        (some ⟨(ArchiveStore.sqlite olderAndNewer).getMessages, [.capacity 10, .time 25]⟩) 60 1).map
      (fun started => (started.1.storage.elements, started.2)) =
        some ([⟨50, constFingerprint 1⟩], 20) ∧
    ∃ node range enough,
      (∀ fuel ≥ enough, SyncReconciliation.new ⟨1, [], 100, 5, 0⟩
        (some ⟨(ArchiveStore.sqlite olderAndNewer).getMessages, [.capacity 10, .time 25]⟩) 60 fuel =
          some (node, range)) ∧
      Clamped 100 5 [.capacity 10, .time 25] range ∧
      FilledFrom node.storage (ArchiveStore.sqlite olderAndNewer).rows (60 - range) 60 :=
  ⟨by decide +kernel, new_filled (.sqlite olderAndNewer)
    ⟨by decide, by decide, nofun, nofun⟩ (by rintro _ ⟨⟩; decide) [.capacity 10, .time 25]
    ⟨1, [], 100, 5, 0⟩ (by decide) 60⟩

end LogosDelivery.StoreSync
