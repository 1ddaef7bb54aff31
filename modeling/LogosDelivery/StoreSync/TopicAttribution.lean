import LogosDelivery.Lib.Runs
import LogosDelivery.StoreSync.StorageOrder

/-! # Whose topics an element has

What the storage is for: it remembers, for every element it holds, the pubsub and the content
topic it was inserted with.  `Attribution` is that memory as a partial map, and `topicsAt` what the
storage answers through the topic indexes.

The two agree as long as no insert overwrites a slot that is in use.  A slot is overwritten when
the topic is unknown and a slot is marked unused; `prune` marks slots, but an insert that finds its
topic in a marked slot goes on to use it and leaves the mark, so a later insert of an unknown topic
may take the slot from under it (`OverwritesUsed`).  `attributionHolds_iff` says that this is the
only way in which the storage can misattribute a topic, along any run. -/

namespace LogosDelivery.StoreSync

open Lib (PackedSet)

/-! ### Looking a topic up -/

/-- The topics that the indexes stand for. -/
def topicNames (topics : List String) (indexes : List ℕ) : List (Option String) :=
  indexes.map (fun k => topics[k]?)

/-- The slot that an unknown topic takes over is the index of some element. -/
def OverwritesSlot (topics : List String) (unused : PackedSet ℕ) (indexes : List ℕ)
    (topic : String) : Prop :=
  topic ∉ topics ∧ ∃ k, unused.items.head? = some k ∧ k ∈ indexes

/-- The three ways in which a topic gets its index. -/
theorem getTopicIndex_cases (topics : List String) (unused : PackedSet ℕ) (topic : String) :
    (∃ i, topics[i]? = some topic ∧ getTopicIndex topics unused topic = (i, topics, unused)) ∨
    (topic ∉ topics ∧ ∃ k rest, unused.items = k :: rest ∧
      getTopicIndex topics unused topic = (k, topics.set k topic, unused.excl k)) ∨
    (topic ∉ topics ∧ unused.items = [] ∧
      getTopicIndex topics unused topic = (topics.length, topics ++ [topic], unused)) := by
  unfold getTopicIndex
  cases hf : topics.findIdx? (· == topic) with
  | some i =>
      left
      obtain ⟨hi, he, _⟩ := List.findIdx?_eq_some_iff_getElem.mp hf
      refine ⟨i, ?_, rfl⟩
      rw [List.getElem?_eq_getElem hi]
      simpa using he
  | none =>
      right
      have hnot : topic ∉ topics := by
        intro hmem
        simpa using List.findIdx?_eq_none_iff.mp hf topic hmem
      cases hu : unused.items with
      | nil => exact Or.inr ⟨hnot, rfl, rfl⟩
      | cons k rest => exact Or.inl ⟨hnot, k, rest, rfl, rfl⟩

section slots

variable {topics : List String} {unused : PackedSet ℕ} {indexes : List ℕ} {topic : String}

/-- After the allocation the index stands for the topic, and all slots are still in range. -/
theorem getTopicIndex_spec (hu : ∀ k ∈ unused, k < topics.length) (topic : String) :
    (getTopicIndex topics unused topic).2.1[(getTopicIndex topics unused topic).1]? = some topic ∧
    topics.length ≤ (getTopicIndex topics unused topic).2.1.length ∧
    ∀ k ∈ (getTopicIndex topics unused topic).2.2,
      k < (getTopicIndex topics unused topic).2.1.length := by
  rcases getTopicIndex_cases topics unused topic with ⟨i, hi, h⟩ | ⟨_, k, rest, hun, h⟩ | ⟨_, hun, h⟩
  · rw [h]
    exact ⟨hi, le_rfl, hu⟩
  · have hk : k < topics.length := hu k (by rw [PackedSet.mem_iff, hun]; simp)
    rw [h]
    refine ⟨by simp [List.getElem?_set_self hk], by simp, ?_⟩
    intro j hj
    rw [List.length_set]
    exact hu j (PackedSet.mem_of_mem_excl hj)
  · rw [h]
    refine ⟨by simp, by simp, fun k hk => ?_⟩
    rw [PackedSet.mem_iff, hun] at hk
    exact absurd hk List.not_mem_nil

/-- An allocation that takes no slot in use leaves every other topic where it was. -/
theorem topicNames_getTopicIndex (hi : ∀ k ∈ indexes, k < topics.length)
    (hno : ¬ OverwritesSlot topics unused indexes topic) :
    topicNames (getTopicIndex topics unused topic).2.1 indexes = topicNames topics indexes := by
  refine List.map_congr_left ?_
  intro j hj
  rcases getTopicIndex_cases topics unused topic with
    ⟨i, _, h⟩ | ⟨hnot, k, rest, hun, h⟩ | ⟨_, _, h⟩
  · rw [h]
  · rw [h]
    have hkj : k ≠ j := by
      rintro rfl
      exact hno ⟨hnot, k, by rw [hun]; rfl, hj⟩
    exact List.getElem?_set_ne hkj
  · rw [h]
    exact List.getElem?_append_left (hi j hj)

/-- Taking over a slot in use renames the elements that point to it. -/
theorem exists_renamed_of_overwritesSlot (hu : ∀ k ∈ unused, k < topics.length)
    (hov : OverwritesSlot topics unused indexes topic) :
    ∃ i k : ℕ, indexes[i]? = some k ∧
      (getTopicIndex topics unused topic).2.1[k]? = some topic ∧ topics[k]? ≠ some topic := by
  obtain ⟨hnot, k, hk, hmem⟩ := hov
  obtain ⟨i, hi⟩ := List.mem_iff_getElem?.mp hmem
  refine ⟨i, k, hi, ?_, fun h => hnot (List.mem_of_getElem? h)⟩
  rcases getTopicIndex_cases topics unused topic with ⟨j, hj, _⟩ | ⟨_, k', rest, hun, h⟩ | ⟨_, hun, _⟩
  · exact absurd (List.mem_of_getElem? hj) hnot
  · rw [hun] at hk
    obtain rfl : k' = k := by simpa using hk
    rw [h]
    exact List.getElem?_set_self (hu k' (by rw [PackedSet.mem_iff, hun]; simp))
  · rw [hun] at hk
    simp at hk

end slots

namespace SeqStorage

/-- The topics of the element at index `i`, looked up through its topic indexes. -/
def topicsAt (s : SeqStorage) (i : ℕ) : Option (PubsubTopic × ContentTopic) := do
  let p ← s.pubsubTopicIndexes[i]?
  let c ← s.contentTopicIndexes[i]?
  let pubsub ← s.pubsubTopics[p]?
  let content ← s.contentTopics[c]?
  return (pubsub, content)

/-- Every index and every unused slot lies inside its topic list. -/
structure SlotsInRange (s : SeqStorage) : Prop where
  pubsub : ∀ k ∈ s.pubsubTopicIndexes, k < s.pubsubTopics.length
  content : ∀ k ∈ s.contentTopicIndexes, k < s.contentTopics.length
  unusedPubsub : ∀ k ∈ s.unusedPubsubTopicSet, k < s.pubsubTopics.length
  unusedContent : ∀ k ∈ s.unusedContentTopicSet, k < s.contentTopics.length

variable {s : SeqStorage}

theorem slotsInRange_empty (partitionCount lengthThreshold : ℤ) :
    SlotsInRange { partitionCount := partitionCount, lengthThreshold := lengthThreshold } :=
  ⟨by simp, by simp, by simp, by simp⟩

/-- The fields of a storage after the insert of a new element. -/
theorem insert_of_notMem (h : s.WellFormed) {e : SyncID} (he : e ∉ s.elements) (p : PubsubTopic)
    (c : ContentTopic) :
    s.insert e p c =
      { s with
        elements := s.elements.insertIdx (lowerBound s.elements e) e
        pubsubTopics := (s.getPubsubTopicIndex p).2.1
        unusedPubsubTopicSet := (s.getPubsubTopicIndex p).2.2
        contentTopics := (s.getContentTopicIndex c).2.1
        unusedContentTopicSet := (s.getContentTopicIndex c).2.2
        pubsubTopicIndexes :=
          s.pubsubTopicIndexes.insertIdx (lowerBound s.elements e) (s.getPubsubTopicIndex p).1
        contentTopicIndexes :=
          s.contentTopicIndexes.insertIdx (lowerBound s.elements e)
            (s.getContentTopicIndex c).1 } := by
  rw [insert, insertAt, if_neg (fun hc => he ((getElem?_lowerBound h.sorted e).mp hc))]

theorem slots_insertIdx {topics topics' : List String} {indexes : List ℕ} {i k : ℕ}
    (hi : ∀ k ∈ indexes, k < topics.length) (hle : topics.length ≤ topics'.length)
    {topic : String} (hk : topics'[k]? = some topic) :
    ∀ j ∈ indexes.insertIdx i k, j < topics'.length := by
  intro j hj
  rcases List.eq_or_mem_of_mem_insertIdx hj with rfl | hj
  · exact (List.getElem?_eq_some_iff.mp hk).1
  · exact lt_of_lt_of_le (hi j hj) hle

theorem SlotsInRange.insert (hs : s.SlotsInRange) (h : s.WellFormed) (e : SyncID)
    (p : PubsubTopic) (c : ContentTopic) : (s.insert e p c).SlotsInRange := by
  by_cases he : e ∈ s.elements
  · rw [h.insert_of_mem he]
    exact hs
  · obtain ⟨hp1, hp2, hp3⟩ := getTopicIndex_spec hs.unusedPubsub p
    obtain ⟨hc1, hc2, hc3⟩ := getTopicIndex_spec hs.unusedContent c
    rw [insert_of_notMem h he]
    exact ⟨slots_insertIdx hs.pubsub hp2 hp1, slots_insertIdx hs.content hc2 hc1, hp3, hc3⟩

theorem SlotsInRange.remove (hs : s.SlotsInRange) (e : SyncID) : (s.remove e).SlotsInRange := by
  unfold SeqStorage.remove
  dsimp only
  split_ifs
  · exact ⟨fun k hk => hs.pubsub k (List.eraseIdx_subset hk),
      fun k hk => hs.content k (List.eraseIdx_subset hk), hs.unusedPubsub, hs.unusedContent⟩
  · exact hs

theorem lt_of_mem_unusedSlots {topics : List String} {indexes : List ℕ} {k : ℕ}
    (h : k ∈ unusedSlots topics indexes) : k < topics.length := by
  have hk := (PackedSet.mem_difference.mp h).1
  rwa [PackedSet.mem_toPackedSet, List.mem_range] at hk

theorem SlotsInRange.prune (hs : s.SlotsInRange) (t : ℤ) : (s.prune t).1.SlotsInRange := by
  unfold SeqStorage.prune
  split_ifs
  · exact hs
  · exact ⟨fun k hk => hs.pubsub k (List.mem_of_mem_drop hk),
      fun k hk => hs.content k (List.mem_of_mem_drop hk),
      fun k hk => lt_of_mem_unusedSlots hk, fun k hk => lt_of_mem_unusedSlots hk⟩

end SeqStorage

/-! ### What the storage is to remember -/

/-- The topics that each element was inserted with. -/
abbrev Attribution := SyncID → Option (PubsubTopic × ContentTopic)

namespace Attribution

/-- An element that is already there keeps its topics. -/
def insert (a : Attribution) (e : SyncID) (p : PubsubTopic) (c : ContentTopic) : Attribution :=
  fun x => if x = e ∧ a e = none then some (p, c) else a x

def remove (a : Attribution) (e : SyncID) : Attribution := fun x => if x = e then none else a x

def prune (a : Attribution) (t : ℤ) : Attribution := fun x => if x.time < t then none else a x

/-- The pubsub topic of `e` is one of `topics`, or pending; an empty list lists every topic. -/
def listed (a : Attribution) (topics : List PubsubTopic) (e : SyncID) : Bool :=
  topics.isEmpty ||
    match a e with
    | none => false
    | some (t, _) => decide (t ∈ topics) || decide (t = pendingPubsubTopic)

end Attribution

/-- The storage holds exactly the elements of `a`, and its topic indexes stand for their
topics. -/
structure SeqStorage.Attributed (s : SeqStorage) (a : Attribution) : Prop where
  mem : ∀ e, e ∈ s.elements ↔ a e ≠ none
  pubsub : topicNames s.pubsubTopics s.pubsubTopicIndexes =
    s.elements.map (fun e => (a e).map Prod.fst)
  content : topicNames s.contentTopics s.contentTopicIndexes =
    s.elements.map (fun e => (a e).map Prod.snd)

namespace SeqStorage

variable {s : SeqStorage} {a : Attribution}

/-- Inserting `e` overwrites a topic slot that is in use. -/
def OverwritesUsed (s : SeqStorage) (e : SyncID) (p : PubsubTopic) (c : ContentTopic) : Prop :=
  e ∉ s.elements ∧
    (OverwritesSlot s.pubsubTopics s.unusedPubsubTopicSet s.pubsubTopicIndexes p ∨
      OverwritesSlot s.contentTopics s.unusedContentTopicSet s.contentTopicIndexes c)

theorem attributed_empty (partitionCount lengthThreshold : ℤ) :
    Attributed { partitionCount := partitionCount, lengthThreshold := lengthThreshold }
      (fun _ => none) :=
  ⟨by simp, rfl, rfl⟩

/-- One topic column after an insert that overwrites nothing. -/
theorem topicNames_insertIdx {topics : List String} {unused : PackedSet ℕ} {indexes : List ℕ}
    {topic : String} (hi : ∀ k ∈ indexes, k < topics.length)
    (hu : ∀ k ∈ unused, k < topics.length)
    (hno : ¬ OverwritesSlot topics unused indexes topic) (i : ℕ) :
    topicNames (getTopicIndex topics unused topic).2.1
        (indexes.insertIdx i (getTopicIndex topics unused topic).1) =
      (topicNames topics indexes).insertIdx i (some topic) := by
  rw [← topicNames_getTopicIndex hi hno, topicNames, List.map_insertIdx,
    (getTopicIndex_spec hu topic).1]
  rfl

/-- The topics of the other elements do not change when `e` is added to the map. -/
theorem map_insertIdx_attribution (l : List SyncID) {e : SyncID} (he : e ∉ l) (hae : a e = none)
    (p : PubsubTopic) (c : ContentTopic) (f : PubsubTopic × ContentTopic → String) (i : ℕ) :
    (l.insertIdx i e).map (fun x => ((a.insert e p c) x).map f) =
      (l.map (fun x => (a x).map f)).insertIdx i (some (f (p, c))) := by
  rw [List.map_insertIdx]
  congr 1
  · refine List.map_congr_left ?_
    intro x hx
    have hxe : x ≠ e := fun h => he (h ▸ hx)
    simp [Attribution.insert, hxe]
  · simp [Attribution.insert, hae]

theorem Attributed.insert (ha : s.Attributed a) (hs : s.SlotsInRange) (h : s.WellFormed)
    {e : SyncID} {p : PubsubTopic} {c : ContentTopic} (hno : ¬ s.OverwritesUsed e p c) :
    (s.insert e p c).Attributed (a.insert e p c) := by
  by_cases he : e ∈ s.elements
  · have hsame : a.insert e p c = a := by
      funext x
      simp [Attribution.insert, (ha.mem e).mp he]
    rw [h.insert_of_mem he, hsame]
    exact ha
  · have hae : a e = none := by
      by_contra hne
      exact he ((ha.mem e).mpr hne)
    have hnop : ¬ OverwritesSlot s.pubsubTopics s.unusedPubsubTopicSet s.pubsubTopicIndexes p :=
      fun ho => hno ⟨he, Or.inl ho⟩
    have hnoc : ¬ OverwritesSlot s.contentTopics s.unusedContentTopicSet s.contentTopicIndexes c :=
      fun ho => hno ⟨he, Or.inr ho⟩
    refine ⟨?_, ?_, ?_⟩
    · intro x
      rw [h.mem_insert e p c, ha.mem x]
      by_cases hxe : x = e
      · simp [Attribution.insert, hxe, hae]
      · simp [Attribution.insert, hxe]
    · rw [insert_of_notMem h he]
      exact (topicNames_insertIdx hs.pubsub hs.unusedPubsub hnop _).trans
        (by rw [ha.pubsub, map_insertIdx_attribution _ he hae])
    · rw [insert_of_notMem h he]
      exact (topicNames_insertIdx hs.content hs.unusedContent hnoc _).trans
        (by rw [ha.content, map_insertIdx_attribution _ he hae])

/-- The topics of the elements that stay do not change when `e` is taken out of the map. -/
theorem eraseIdx_map_attribution (h : s.WellFormed) {e : SyncID} (he : e ∈ s.elements)
    (f : PubsubTopic × ContentTopic → String) :
    (s.elements.map (fun x => (a x).map f)).eraseIdx (lowerBound s.elements e) =
      (s.elements.erase e).map (fun x => ((a.remove e) x).map f) := by
  rw [List.eraseIdx_map, eraseIdx_lowerBound h.sorted he]
  refine List.map_congr_left ?_
  intro x hx
  have hxe : x ≠ e := (h.nodup.mem_erase_iff.mp hx).1
  simp [Attribution.remove, hxe]

theorem Attributed.remove (ha : s.Attributed a) (h : s.WellFormed) (e : SyncID) :
    (s.remove e).Attributed (a.remove e) := by
  by_cases he : e ∈ s.elements
  · refine ⟨?_, ?_, ?_⟩
    · intro x
      rw [h.mem_remove e, ha.mem x]
      by_cases hxe : x = e <;> simp [Attribution.remove, hxe]
    · rw [h.remove_eq he]
      dsimp only
      rw [← eraseIdx_map_attribution h he, ← ha.pubsub, topicNames, topicNames, List.eraseIdx_map]
    · rw [h.remove_eq he]
      dsimp only
      rw [← eraseIdx_map_attribution h he, ← ha.content, topicNames, topicNames, List.eraseIdx_map]
  · have hae : a e = none := by
      by_contra hne
      exact he ((ha.mem e).mpr hne)
    have hsame : a.remove e = a := by
      funext x
      by_cases hxe : x = e
      · simp [Attribution.remove, hxe, hae]
      · simp [Attribution.remove, hxe]
    rw [h.remove_of_notMem he, hsame]
    exact ha

theorem Attributed.prune (ha : s.Attributed a) (h : s.WellFormed) (t : ℤ) :
    (s.prune t).1.Attributed (a.prune t) := by
  have hmem : ∀ e, e ∈ (s.prune t).1.elements ↔ (a.prune t) e ≠ none := by
    intro e
    rw [h.mem_prune t, ha.mem e]
    by_cases het : e.time < t
    · simp [Attribution.prune, het]
    · simp [Attribution.prune, het, not_lt.mp het]
  have hmap : ∀ (f : PubsubTopic × ContentTopic → String),
      (s.prune t).1.elements.map (fun x => ((a.prune t) x).map f) =
        (s.prune t).1.elements.map (fun x => (a x).map f) := by
    intro f
    refine List.map_congr_left ?_
    intro x hx
    have hxt : ¬ x.time < t := not_lt.mpr ((h.mem_prune t).mp hx).2
    simp [Attribution.prune, hxt]
  refine ⟨hmem, ?_, ?_⟩
  all_goals
    rw [hmap]
    unfold SeqStorage.prune
    split_ifs
  · exact ha.pubsub
  · dsimp only
    rw [topicNames, List.map_drop, List.map_drop, ← ha.pubsub, topicNames]
  · exact ha.content
  · dsimp only
    rw [topicNames, List.map_drop, List.map_drop, ← ha.content, topicNames]

/-! ### What the storage answers -/

/-- The pubsub topic of every row is the one it was inserted with. -/
theorem Attributed.lookup_row (ha : s.Attributed a) {row : SyncID × ℕ × ℕ} (hrow : row ∈ s.rows) :
    s.pubsubTopics[row.2.1]? = (a row.1).map Prod.fst := by
  obtain ⟨i, hi⟩ := List.mem_iff_getElem?.mp hrow
  obtain ⟨he, hpc⟩ := List.getElem?_zip_eq_some.mp hi
  obtain ⟨hp, _⟩ := List.getElem?_zip_eq_some.mp hpc
  have hnames := congrArg (fun l => l[i]?) ha.pubsub
  simp only [topicNames, List.getElem?_map, he, hp, Option.map_some] at hnames
  exact Option.some.inj hnames

theorem Attributed.topicsAt_eq (ha : s.Attributed a) (h : s.WellFormed) {i : ℕ} {e : SyncID}
    (he : s.elements[i]? = some e) : s.topicsAt i = a e := by
  have hlt : i < s.elements.length := (List.getElem?_eq_some_iff.mp he).1
  obtain ⟨p, hp⟩ : ∃ p, s.pubsubTopicIndexes[i]? = some p :=
    ⟨_, List.getElem?_eq_getElem (by rw [h.pubsub_aligned]; exact hlt)⟩
  obtain ⟨c, hc⟩ : ∃ c, s.contentTopicIndexes[i]? = some c :=
    ⟨_, List.getElem?_eq_getElem (by rw [h.content_aligned]; exact hlt)⟩
  have hpn := congrArg (fun l => l[i]?) ha.pubsub
  have hcn := congrArg (fun l => l[i]?) ha.content
  simp only [topicNames, List.getElem?_map, he, hp, hc, Option.map_some] at hpn hcn
  have hsome := (ha.mem e).mp (List.mem_of_getElem? he)
  obtain ⟨⟨pt, ct⟩, hae⟩ := Option.ne_none_iff_exists'.mp hsome
  rw [hae] at hpn hcn ⊢
  simp only [topicsAt, hp, hc, Option.some.inj hpn, Option.some.inj hcn, Option.bind_eq_bind,
    Option.bind_some, Option.map_some]
  rfl

/-- The elements that a request compares are those whose topic is listed. -/
theorem Attributed.visible_eq_filter (ha : s.Attributed a) (h : s.WellFormed)
    (topics : List PubsubTopic) (r : Slice SyncID) :
    s.visible (s.pubsubScope topics) ∅ r =
      s.elements.filter (fun e => inBounds r e && a.listed topics e) := by
  have hrows : s.rows.filter (passes (s.pubsubScope topics) ∅) =
      s.rows.filter (fun row => a.listed topics row.1) := by
    refine List.filter_congr ?_
    intro row hrow
    rw [Bool.eq_iff_iff, passes_pubsubScope, ha.lookup_row hrow, Attribution.listed,
      Bool.or_eq_true, List.isEmpty_iff]
    refine or_congr_right ?_
    cases a row.1 with
    | none => simp
    | some tc => simp
  have hfst : (s.rows.filter (fun row => a.listed topics row.1)).map (·.1) =
      s.elements.filter (a.listed topics) := by
    conv_rhs => rw [← h.rows_map_fst]
    rw [List.filter_map]
    rfl
  rw [visible, hrows, hfst, List.filter_filter]

/-- A topic column read off at every element. -/
theorem topicNames_eq_map {topics : List String} {indexes : List ℕ} {elements : List SyncID}
    {name : SyncID → Option String} (hlen : indexes.length = elements.length)
    (h : ∀ (i : ℕ) (e : SyncID), elements[i]? = some e → ∃ k topic,
      indexes[i]? = some k ∧ topics[k]? = some topic ∧ name e = some topic) :
    topicNames topics indexes = elements.map name := by
  refine List.ext_getElem? ?_
  intro i
  rw [topicNames, List.getElem?_map, List.getElem?_map]
  cases he : elements[i]? with
  | none =>
      rw [List.getElem?_eq_none_iff, ← hlen, ← List.getElem?_eq_none_iff] at he
      rw [he]
      rfl
  | some e =>
      obtain ⟨k, topic, hk, htopic, hname⟩ := h i e he
      simp [hk, htopic, hname]

/-- Looking every element up is reading off both topic columns. -/
theorem attributed_of_topicsAt (h : s.WellFormed) (hmem : ∀ e, e ∈ s.elements ↔ a e ≠ none)
    (ht : ∀ (i : ℕ) (e : SyncID), s.elements[i]? = some e → s.topicsAt i = a e) :
    s.Attributed a := by
  have hlook : ∀ (i : ℕ) (e : SyncID), s.elements[i]? = some e → ∃ p c pt ct,
      s.pubsubTopicIndexes[i]? = some p ∧ s.contentTopicIndexes[i]? = some c ∧
        s.pubsubTopics[p]? = some pt ∧ s.contentTopics[c]? = some ct ∧ a e = some (pt, ct) := by
    intro i e he
    have hti := ht i e he
    obtain ⟨⟨pt, ct⟩, hae⟩ :=
      Option.ne_none_iff_exists'.mp ((hmem e).mp (List.mem_of_getElem? he))
    rw [hae] at hti
    simp only [topicsAt, Option.bind_eq_bind, Option.bind_eq_some_iff] at hti
    obtain ⟨p, hp, c, hc, pt', hpt, ct', hct, heq⟩ := hti
    obtain ⟨rfl, rfl⟩ := Prod.mk.inj (Option.some.inj heq)
    exact ⟨p, c, pt', ct', hp, hc, hpt, hct, hae⟩
  refine ⟨hmem, topicNames_eq_map h.pubsub_aligned ?_, topicNames_eq_map h.content_aligned ?_⟩
  · intro i e he
    obtain ⟨p, c, pt, ct, hp, _, hpt, _, hae⟩ := hlook i e he
    exact ⟨p, pt, hp, hpt, by rw [hae]; rfl⟩
  · intro i e he
    obtain ⟨p, c, pt, ct, _, hc, _, hct, hae⟩ := hlook i e he
    exact ⟨c, ct, hc, hct, by rw [hae]; rfl⟩

/-- Renaming a slot in use cannot be right: the elements that point to it kept their topics. -/
theorem topicNames_ne_of_overwritesSlot {topics : List String} {unused : PackedSet ℕ}
    {indexes : List ℕ} {topic : String} (hu : ∀ k ∈ unused, k < topics.length)
    (hov : OverwritesSlot topics unused indexes topic) (i : ℕ) :
    topicNames (getTopicIndex topics unused topic).2.1
        (indexes.insertIdx i (getTopicIndex topics unused topic).1) ≠
      (topicNames topics indexes).insertIdx i (some topic) := by
  intro heq
  rw [topicNames, List.map_insertIdx] at heq
  have hall := congrArg (fun l => l.eraseIdx i) heq
  simp only [List.eraseIdx_insertIdx_self] at hall
  obtain ⟨j, k, hj, hnew, hold⟩ := exists_renamed_of_overwritesSlot hu hov
  have hjth := congrArg (fun l => l[j]?) hall
  simp only [topicNames, List.getElem?_map, hj, Option.map_some, hnew] at hjth
  exact hold (Option.some.inj hjth).symm

theorem Attributed.not_insert (ha : s.Attributed a) (hs : s.SlotsInRange) (h : s.WellFormed)
    {e : SyncID} {p : PubsubTopic} {c : ContentTopic} (hov : s.OverwritesUsed e p c) :
    ¬ (s.insert e p c).Attributed (a.insert e p c) := by
  obtain ⟨he, hov⟩ := hov
  have hae : a e = none := by
    by_contra hne
    exact he ((ha.mem e).mpr hne)
  intro ha'
  have hp := ha'.pubsub
  have hc := ha'.content
  rw [insert_of_notMem h he] at hp hc
  rcases hov with hov | hov
  · refine topicNames_ne_of_overwritesSlot hs.unusedPubsub hov (lowerBound s.elements e) ?_
    rw [ha.pubsub, ← map_insertIdx_attribution _ he hae p c]
    exact hp
  · refine topicNames_ne_of_overwritesSlot hs.unusedContent hov (lowerBound s.elements e) ?_
    rw [ha.content, ← map_insertIdx_attribution _ he hae p c]
    exact hc

theorem Attributed.computeFingerprint_eq (ha : s.Attributed a) (h : s.WellFormed)
    (r : Slice SyncID) (topics : List PubsubTopic) :
    s.computeFingerprint r topics [] =
      xorAll ((s.elements.filter (fun e => inBounds r e && a.listed topics e)).map SyncID.hash) := by
  rw [← ha.visible_eq_filter h topics r, ← h.computeFingerprintFromSlice_eq]
  rfl

end SeqStorage

/-! ### Attribution along a run -/

/-- The operations on a storage. -/
inductive StorageOp where
  | insert (e : SyncID) (p : PubsubTopic) (c : ContentTopic)
  | remove (e : SyncID)
  | prune (t : ℤ)

def SeqStorage.apply (s : SeqStorage) : StorageOp → SeqStorage
  | .insert e p c => s.insert e p c
  | .remove e => s.remove e
  | .prune t => (s.prune t).1

def Attribution.apply (a : Attribution) : StorageOp → Attribution
  | .insert e p c => a.insert e p c
  | .remove e => a.remove e
  | .prune t => a.prune t

/-- The storage after the operations, from an empty one. -/
def storageAfter (partitionCount lengthThreshold : ℤ) (ops : List StorageOp) : SeqStorage :=
  Lib.run SeqStorage.apply
    { partitionCount := partitionCount, lengthThreshold := lengthThreshold } ops

/-- The topics with which the elements present after the operations were inserted. -/
def attributionAfter (ops : List StorageOp) : Attribution :=
  Lib.run Attribution.apply (fun _ => none) ops

/-- The topics looked up through the indexes are those of the map, and so is what a fingerprint
covers, for all bounds `a ≤ b`. -/
structure AttributionHolds (s : SeqStorage) (a : Attribution) : Prop where
  topics : ∀ (i : ℕ) (e : SyncID), s.elements[i]? = some e → a e ≠ none ∧ s.topicsAt i = a e
  fingerprint : ∀ (r : Slice SyncID) (topics : List PubsubTopic), r.a ≤ r.b →
    s.computeFingerprint r topics [] =
      xorAll ((s.elements.filter (fun e => inBounds r e && a.listed topics e)).map SyncID.hash)

/-- The operation overwrites a topic slot that is in use. -/
def SeqStorage.OpOverwritesUsed (s : SeqStorage) : StorageOp → Prop
  | .insert e p c => s.OverwritesUsed e p c
  | .remove _ => False
  | .prune _ => False

/-- What holds of the storage after any operations, whatever happens to the topics. -/
structure SeqStorage.Sound (s : SeqStorage) (a : Attribution) : Prop where
  wellFormed : s.WellFormed
  slots : s.SlotsInRange
  mem : ∀ e, e ∈ s.elements ↔ a e ≠ none

theorem SeqStorage.Sound.insert {s : SeqStorage} {a : Attribution} (h : s.Sound a) (e : SyncID)
    (p : PubsubTopic) (c : ContentTopic) : (s.insert e p c).Sound (a.insert e p c) := by
  refine ⟨h.wellFormed.insert e p c, h.slots.insert h.wellFormed e p c, ?_⟩
  intro x
  rw [h.wellFormed.mem_insert e p c]
  by_cases hxe : x = e
  · subst hxe
    by_cases hae : a x = none <;> simp [Attribution.insert, hae]
  · simp [Attribution.insert, hxe, h.mem x]

theorem SeqStorage.Sound.remove {s : SeqStorage} {a : Attribution} (h : s.Sound a) (e : SyncID) :
    (s.remove e).Sound (a.remove e) := by
  refine ⟨h.wellFormed.remove e, h.slots.remove e, ?_⟩
  intro x
  rw [h.wellFormed.mem_remove e, h.mem x]
  by_cases hxe : x = e <;> simp [Attribution.remove, hxe]

theorem SeqStorage.Sound.prune {s : SeqStorage} {a : Attribution} (h : s.Sound a) (t : ℤ) :
    (s.prune t).1.Sound (a.prune t) := by
  refine ⟨h.wellFormed.prune t, h.slots.prune t, ?_⟩
  intro x
  rw [h.wellFormed.mem_prune t, h.mem x]
  by_cases hxt : x.time < t
  · simp [Attribution.prune, hxt]
  · simp [Attribution.prune, hxt, not_lt.mp hxt]

theorem SeqStorage.Sound.apply {s : SeqStorage} {a : Attribution} (h : s.Sound a)
    (op : StorageOp) : (s.apply op).Sound (a.apply op) := by
  cases op with
  | insert e p c => exact h.insert e p c
  | remove e => exact h.remove e
  | prune t => exact h.prune t

theorem sound_storageAfter (partitionCount lengthThreshold : ℤ) (ops : List StorageOp) :
    (storageAfter partitionCount lengthThreshold ops).Sound (attributionAfter ops) := by
  induction ops using List.reverseRecOn with
  | nil =>
      exact ⟨SeqStorage.wellFormed_empty _ _, SeqStorage.slotsInRange_empty _ _,
        (SeqStorage.attributed_empty partitionCount lengthThreshold).mem⟩
  | append_singleton ops op ih =>
      rw [storageAfter, attributionAfter, Lib.run_concat, Lib.run_concat]
      exact ih.apply op

theorem SeqStorage.Sound.holds_iff {s : SeqStorage} {a : Attribution} (h : s.Sound a) :
    AttributionHolds s a ↔ s.Attributed a := by
  constructor
  · intro hh
    exact SeqStorage.attributed_of_topicsAt h.wellFormed h.mem (fun i e he => (hh.topics i e he).2)
  · intro ha
    refine ⟨?_, ?_⟩
    · intro i e he
      exact ⟨(h.mem e).mp (List.mem_of_getElem? he), ha.topicsAt_eq h.wellFormed he⟩
    · intro r topics _
      exact ha.computeFingerprint_eq h.wellFormed r topics

theorem SeqStorage.Attributed.apply {s : SeqStorage} {a : Attribution} (ha : s.Attributed a)
    (h : s.Sound a) {op : StorageOp} (hno : ¬ s.OpOverwritesUsed op) :
    (s.apply op).Attributed (a.apply op) := by
  cases op with
  | insert e p c => exact ha.insert h.slots h.wellFormed hno
  | remove e => exact ha.remove h.wellFormed e
  | prune t => exact ha.prune h.wellFormed t

theorem SeqStorage.Attributed.not_apply {s : SeqStorage} {a : Attribution} (ha : s.Attributed a)
    (h : s.Sound a) {op : StorageOp} (hov : s.OpOverwritesUsed op) :
    ¬ (s.apply op).Attributed (a.apply op) := by
  cases op with
  | insert e p c => exact ha.not_insert h.slots h.wellFormed hov
  | remove e => exact hov.elim
  | prune t => exact hov.elim

/-- **Attribution along a run.**  The storage attributes every topic correctly in every state of a
run exactly when no insert of the run overwrites a topic slot in use. -/
theorem attributionHolds_iff (partitionCount lengthThreshold : ℤ) (ops : List StorageOp) :
    (∀ pre, pre <+: ops →
      AttributionHolds (storageAfter partitionCount lengthThreshold pre) (attributionAfter pre)) ↔
    Lib.AllSteps
      (fun pre op => ¬ (storageAfter partitionCount lengthThreshold pre).OpOverwritesUsed op)
      ops := by
  have hsound := sound_storageAfter partitionCount lengthThreshold
  have hnext : ∀ pre op, storageAfter partitionCount lengthThreshold (pre ++ [op]) =
      (storageAfter partitionCount lengthThreshold pre).apply op := fun pre op => Lib.run_concat _ _ _ _
  have hanext : ∀ pre op, attributionAfter (pre ++ [op]) = (attributionAfter pre).apply op :=
    fun pre op => Lib.run_concat _ _ _ _
  refine Lib.along_iff_allSteps ?_ ?_ ?_ ops
  · exact ((hsound []).holds_iff).mpr (SeqStorage.attributed_empty _ _)
  · intro pre op hpre hgood
    have ha := ((hsound pre).holds_iff).mp (hpre pre (List.prefix_refl _))
    refine ((hsound (pre ++ [op])).holds_iff).mpr ?_
    rw [hnext, hanext]
    exact ha.apply (hsound pre) hgood
  · intro pre op hpre hbad hholds
    have ha := ((hsound pre).holds_iff).mp (hpre pre (List.prefix_refl _))
    have ha' := ((hsound (pre ++ [op])).holds_iff).mp hholds
    rw [hnext, hanext] at ha'
    exact ha.not_apply (hsound pre) (not_not.mp hbad) ha'

/-- `prune` marks the slot of `"A"` unused, `"A"` comes back to it, and `"B"` takes it over. -/
def recycledSlotRun : List StorageOp :=
  [.insert (SyncID.atTime 1) "A" "c", .prune 2, .insert (SyncID.atTime 3) "A" "c",
    .insert (SyncID.atTime 4) "B" "c"]

/-- The element of time `3` was inserted under `"A"` and is looked up under `"B"`. -/
theorem recycledSlotRun_misattributes :
    (storageAfter 8 100 recycledSlotRun).elements[0]? = some (SyncID.atTime 3) ∧
      attributionAfter recycledSlotRun (SyncID.atTime 3) = some ("A", "c") ∧
      (storageAfter 8 100 recycledSlotRun).topicsAt 0 = some ("B", "c") ∧
      ¬ AttributionHolds (storageAfter 8 100 recycledSlotRun)
        (attributionAfter recycledSlotRun) := by
  have he : (storageAfter 8 100 recycledSlotRun).elements[0]? = some (SyncID.atTime 3) := by decide
  have ha : attributionAfter recycledSlotRun (SyncID.atTime 3) = some ("A", "c") := by decide
  have ht : (storageAfter 8 100 recycledSlotRun).topicsAt 0 = some ("B", "c") := by decide
  refine ⟨he, ha, ht, ?_⟩
  intro hholds
  have heq := (hholds.topics 0 _ he).2
  rw [ha, ht] at heq
  exact absurd heq (by decide)

end LogosDelivery.StoreSync
