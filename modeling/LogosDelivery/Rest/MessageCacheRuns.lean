import LogosDelivery.Rest.KeptMessages

/-! # Runs of the message cache

Each call of `MessageCache` that comes back does to `kept` what `Spec` says, so a run of calls is a run of
`Kept`.  A call does not come back when a deletion is given an index behind the last message.  That
happens in two places.  `addMessage` looks for the oldest message among those below `int64.high`, and
`getMessages` with `clear` goes through the index backwards, which is in descending order of the
messages only as long as no unsubscription took entries out of the index. -/

namespace LogosDelivery.Rest

open Lib
open Archive (IncomingMessage Timestamp)
open StoreSync (PubsubTopic ContentTopic)
open MessageCache (Entry Answer)

namespace MessageCache

variable {c c' : MessageCache} {topic : String} {call : Call} {answer : Answer} {i k m : ℕ}

/-- What a call does, and its answer. -/
def exec (c : MessageCache) : Call → Option (MessageCache × Answer)
  | .pubsubSubscribe pubsubTopic => some (c.pubsubSubscribe pubsubTopic, .ok [])
  | .contentSubscribe contentTopic => some (c.contentSubscribe contentTopic, .ok [])
  | .pubsubUnsubscribe pubsubTopic => (c.pubsubUnsubscribe pubsubTopic).map fun c => (c, .ok [])
  | .contentUnsubscribe contentTopic => (c.contentUnsubscribe contentTopic).map fun c => (c, .ok [])
  | .reset => some (c.reset, .ok [])
  | .addMessage pubsubTopic msg => (c.addMessage pubsubTopic msg).map fun c => (c, .ok [])
  | .getMessages pubsubTopic clear => c.getMessages pubsubTopic clear
  | .getAutoMessages contentTopic clear => c.getAutoMessages contentTopic clear

/-- The cache without its places. -/
def kept (c : MessageCache) : Kept :=
  ⟨c.pubsub.topics.toFinset, c.content.topics.toFinset, ↑c.entries⟩

theorem entries_congr {pubsub content : TopicIndex} {capacity : ℤ}
    (hpubsub : ∀ i, pubsub.topicOf i = c.pubsub.topicOf i)
    (hcontent : ∀ i, content.topicOf i = c.content.topicOf i) :
    entries ⟨pubsub, content, c.messages, capacity⟩ = c.entries := by
  refine List.ext_getElem? fun i => ?_
  rw [getElem?_entries, getElem?_entries]
  dsimp only
  rw [hpubsub, hcontent]

/-! ### Subscriptions -/

theorem entries_pubsubSubscribe (h : c.WellFormed) :
    (c.pubsubSubscribe topic).entries = c.entries :=
  entries_congr (fun _ => TopicIndex.topicOf_subscribe h.pubsub) fun _ => rfl

theorem entries_contentSubscribe (h : c.WellFormed) :
    (c.contentSubscribe topic).entries = c.entries :=
  entries_congr (fun _ => rfl) fun _ => TopicIndex.topicOf_subscribe h.content

/-- Dropping a pubsub topic, before the messages without a topic are removed. -/
theorem entries_drop_pubsub (h : c.WellFormed) (hi : c.pubsub.topics[i]? = some topic) :
    entries { c with pubsub := (c.pubsub.unsubscribe i).1 } =
      c.entries.map (Entry.offPubsub topic) := by
  refine List.ext_getElem? fun k => ?_
  rw [getElem?_entries, List.getElem?_map, getElem?_entries, Option.map_map]
  dsimp only
  rw [TopicIndex.topicOf_unsubscribe h.pubsub hi]
  rfl

theorem entries_drop_content (h : c.WellFormed) (hi : c.content.topics[i]? = some topic) :
    entries { c with content := (c.content.unsubscribe i).1 } =
      c.entries.map (Entry.offContent topic) := by
  refine List.ext_getElem? fun k => ?_
  rw [getElem?_entries, List.getElem?_map, getElem?_entries, Option.map_map]
  dsimp only
  rw [TopicIndex.topicOf_unsubscribe h.content hi]
  rfl

/-- The messages of the dropped entries are looked at; those that no topic wants any more go. -/
theorem removeUnlessIn_linked {dropped : MessageCache} {other : MessageCache → TopicIndex}
    {test : Entry → Bool} {msgIndices : List ℕ} (hdropped : dropped.WellFormed)
    (htest : ∀ c m, WellFormed c → (other c).indexes m = c.entries[m]?.any test)
    (hnodup : msgIndices.Nodup) (hlt : ∀ k ∈ msgIndices, k < dropped.messages.length)
    (hall : ∀ k e, dropped.entries[k]? = some e → e.linked = false → k ∈ msgIndices)
    (hsame : ∀ k ∈ msgIndices, ∀ e, dropped.entries[k]? = some e → test e = e.linked) :
    ∃ c', removeUnlessIn other dropped msgIndices = some c' ∧ c'.WellFormed ∧
      dropped.SameTopics c' ∧ c'.entries.Perm (dropped.entries.filter Entry.linked) := by
  have hmem : ∀ k, k ∈ descending msgIndices ↔ k ∈ msgIndices :=
    fun k => (descending_perm msgIndices).mem_iff
  obtain ⟨l', hl', hperm⟩ := delUnless_spec test Entry.linked (l := dropped.entries)
    (pairwise_descending hnodup)
    (fun k hk => by
      rw [length_entries]
      exact hlt k ((hmem k).mp hk))
    (fun k e he hunlinked => (hmem k).mpr (hall k e he hunlinked))
    (fun k hk e he => hsame k ((hmem k).mp hk) e he)
  obtain ⟨hmap, hkeeps⟩ := removeUnlessIn_spec htest hdropped msgIndices
  rw [hl'] at hmap
  obtain ⟨c', hc', rfl⟩ := Option.map_eq_some_iff.mp hmap
  obtain ⟨hwf, htopics⟩ := hkeeps c' hc'
  exact ⟨c', hc', hwf, htopics, hperm⟩

theorem entries_pubsub {e : Entry} (he : c.entries[k]? = some e) : e.pubsub = c.pubsub.topicOf k := by
  rw [getElem?_entries] at he
  obtain ⟨msg, _, rfl⟩ := Option.map_eq_some_iff.mp he
  rfl

theorem entries_content {e : Entry} (he : c.entries[k]? = some e) :
    e.content = c.content.topicOf k := by
  rw [getElem?_entries] at he
  obtain ⟨msg, _, rfl⟩ := Option.map_eq_some_iff.mp he
  rfl

/-- An unsubscription, where `t` is the index of its kind and `on` reads the topic in it. -/
theorem unsubscribe_spec {t : TopicIndex} (dropped : MessageCache) (other : MessageCache → TopicIndex)
    (on : Entry → Option String) (off : Entry → Entry) (test : Entry → Bool)
    (hlinked : ∀ e ∈ c.entries, e.linked = true) (ht : t.WellFormed c.messages.length)
    (hi : t.topics[i]? = some topic) (hon : ∀ k e, c.entries[k]? = some e → on e = t.topicOf k)
    (hdropped : dropped.WellFormed) (hdrop : dropped.entries = c.entries.map off)
    (htest : ∀ c m, WellFormed c → (other c).indexes m = c.entries[m]?.any test)
    (hother : ∀ e, on e ≠ some topic → off e = e)
    (hsame : ∀ e, on e = some topic → test (off e) = (off e).linked) :
    ∃ c', removeUnlessIn other dropped (t.unsubscribe i).2 = some c' ∧ c'.WellFormed ∧
      dropped.SameTopics c' ∧ c'.entries.Perm ((c.entries.map off).filter Entry.linked) := by
  have hmem : ∀ k, k ∈ (t.unsubscribe i).2 ↔ t.topicOf k = some topic := fun k => by
    rw [TopicIndex.unsubscribe_messages, List.mem_reverse, TopicIndex.mem_messagesOn ht hi]
  have hnodup : (t.unsubscribe i).2.Nodup := by
    rw [TopicIndex.unsubscribe_messages, List.nodup_reverse]
    exact TopicIndex.nodup_messagesOn ht
  have hlen : dropped.messages.length = c.messages.length := by
    rw [← length_entries, hdrop, List.length_map, length_entries]
  have hbefore : ∀ (k : ℕ) (e : Entry), dropped.entries[k]? = some e →
      ∃ e₀ : Entry, c.entries[k]? = some e₀ ∧ off e₀ = e := by
    intro k e he
    rw [hdrop, List.getElem?_map] at he
    exact Option.map_eq_some_iff.mp he
  rw [← hdrop]
  refine removeUnlessIn_linked hdropped htest hnodup (fun k hk => ?_) (fun k e he hunlinked => ?_)
    (fun k hk e he => ?_)
  · rw [hlen]
    exact ht.lt_of_onTopic ((TopicIndex.topicOf_eq_some ht).mp ((hmem k).mp hk))
  · -- only an entry on the topic can have lost its last link
    obtain ⟨e₀, he₀, rfl⟩ := hbefore k e he
    rw [hmem k, ← hon k e₀ he₀]
    by_contra hne
    rw [hother e₀ hne, hlinked e₀ (List.mem_of_getElem? he₀)] at hunlinked
    cases hunlinked
  · obtain ⟨e₀, he₀, rfl⟩ := hbefore k e he
    exact hsame e₀ ((hon k e₀ he₀).trans ((hmem k).mp hk))

/-- Without an entry on the topic nothing is dropped. -/
theorem map_off_filter {off : Entry → Entry} (hlinked : ∀ e ∈ c.entries, e.linked = true)
    (hoff : ∀ e ∈ c.entries, off e = e) :
    (c.entries.map off).filter Entry.linked = c.entries := by
  rw [List.map_congr_left hoff, List.map_id', List.filter_eq_self.mpr hlinked]

theorem pubsubUnsubscribe_spec (topic : PubsubTopic) (h : c.WellFormed) (hlinked : ∀ e ∈ c.entries, e.linked = true) :
    ∃ c', c.pubsubUnsubscribe topic = some c' ∧ c'.WellFormed ∧ c'.capacity = c.capacity ∧
      c'.pubsub.topics.toFinset = c.pubsub.topics.toFinset.erase topic ∧
      c'.content.topics = c.content.topics ∧
      c'.entries.Perm ((c.entries.map (Entry.offPubsub topic)).filter Entry.linked) := by
  unfold pubsubUnsubscribe
  cases hsearch : c.pubsub.search topic with
  | none =>
      have hnot := TopicIndex.search_eq_none.mp hsearch
      refine ⟨c, rfl, h, rfl, ?_, rfl, List.Perm.of_eq (map_off_filter hlinked fun e he => ?_).symm⟩
      · rw [Finset.erase_eq_of_notMem fun hmem => hnot (List.mem_toFinset.mp hmem)]
      · obtain ⟨k, hk⟩ := List.mem_iff_getElem?.mp he
        refine Entry.offPubsub_of_ne fun hon => hnot ?_
        rw [entries_pubsub hk, TopicIndex.topicOf_eq_some h.pubsub] at hon
        exact hon.mem_topics
  | some i =>
      have hi := TopicIndex.getElem?_of_search hsearch
      obtain ⟨c', hc', hwf, htopics, hperm⟩ := unsubscribe_spec
        { c with pubsub := (c.pubsub.unsubscribe i).1 } content Entry.pubsub (Entry.offPubsub topic)
        (fun e => e.content.isSome) hlinked h.pubsub hi
        (fun k e he => entries_pubsub he) ⟨h.pubsub.unsubscribe hi, h.content⟩
        (entries_drop_pubsub h hi) (fun c m hc => indexes_content hc)
        (fun e hne => Entry.offPubsub_of_ne hne)
        (fun e hon => by
          rw [Entry.offPubsub_of_eq hon]
          rfl)
      refine ⟨c', hc', hwf, htopics.2.2, ?_, htopics.2.1, hperm⟩
      rw [htopics.1]
      exact TopicIndex.topics_unsubscribe h.pubsub hi

theorem contentUnsubscribe_spec (topic : ContentTopic) (h : c.WellFormed) (hlinked : ∀ e ∈ c.entries, e.linked = true) :
    ∃ c', c.contentUnsubscribe topic = some c' ∧ c'.WellFormed ∧ c'.capacity = c.capacity ∧
      c'.pubsub.topics = c.pubsub.topics ∧
      c'.content.topics.toFinset = c.content.topics.toFinset.erase topic ∧
      c'.entries.Perm ((c.entries.map (Entry.offContent topic)).filter Entry.linked) := by
  unfold contentUnsubscribe
  cases hsearch : c.content.search topic with
  | none =>
      have hnot := TopicIndex.search_eq_none.mp hsearch
      refine ⟨c, rfl, h, rfl, rfl, ?_, List.Perm.of_eq (map_off_filter hlinked fun e he => ?_).symm⟩
      · rw [Finset.erase_eq_of_notMem fun hmem => hnot (List.mem_toFinset.mp hmem)]
      · obtain ⟨k, hk⟩ := List.mem_iff_getElem?.mp he
        refine Entry.offContent_of_ne fun hon => hnot ?_
        rw [entries_content hk, TopicIndex.topicOf_eq_some h.content] at hon
        exact hon.mem_topics
  | some i =>
      have hi := TopicIndex.getElem?_of_search hsearch
      obtain ⟨c', hc', hwf, htopics, hperm⟩ := unsubscribe_spec
        { c with content := (c.content.unsubscribe i).1 } pubsub Entry.content
        (Entry.offContent topic) (fun e => e.pubsub.isSome) hlinked h.content hi
        (fun k e he => entries_content he) ⟨h.pubsub, h.content.unsubscribe hi⟩
        (entries_drop_content h hi) (fun c m hc => indexes_pubsub hc)
        (fun e hne => Entry.offContent_of_ne hne)
        (fun e hon => by
          rw [Entry.offContent_of_eq hon]
          exact (Bool.or_false _).symm)
      refine ⟨c', hc', hwf, htopics.2.2, htopics.1, ?_, hperm⟩
      rw [htopics.2.1]
      exact TopicIndex.topics_unsubscribe h.content hi

/-! ### Adding a message -/

theorem oldestFrom_spec (messages : List (IncomingMessage × ℕ)) :
    ∀ (oldestTime : Timestamp) (oldestMsg : Option ℕ),
      oldestFrom messages oldestTime oldestMsg = oldestMsg ∧
          (∀ p ∈ messages, oldestTime ≤ p.1.timestamp) ∨
        ∃ p ∈ messages, oldestFrom messages oldestTime oldestMsg = some p.2 ∧
          p.1.timestamp < oldestTime ∧ ∀ q ∈ messages, p.1.timestamp ≤ q.1.timestamp := by
  induction messages with
  | nil => exact fun _ _ => Or.inl ⟨rfl, by simp⟩
  | cons p messages ih =>
      intro oldestTime oldestMsg
      rw [oldestFrom]
      split
      · rename_i hlt
        refine Or.inr ?_
        rcases ih p.1.timestamp (some p.2) with ⟨heq, hle⟩ | ⟨q, hq, heq, hqp, hle⟩
        · refine ⟨p, List.mem_cons_self, heq, hlt, fun r hr => ?_⟩
          rcases List.mem_cons.mp hr with rfl | hr
          · exact le_rfl
          · exact hle r hr
        · refine ⟨q, List.mem_cons_of_mem p hq, heq, hqp.trans hlt, fun r hr => ?_⟩
          rcases List.mem_cons.mp hr with rfl | hr
          · exact hqp.le
          · exact hle r hr
      · rename_i hnot
        rcases ih oldestTime oldestMsg with ⟨heq, hle⟩ | ⟨q, hq, heq, hlt, hle⟩
        · refine Or.inl ⟨heq, fun r hr => ?_⟩
          rcases List.mem_cons.mp hr with rfl | hr
          · exact not_lt.mp hnot
          · exact hle r hr
        · refine Or.inr ⟨q, List.mem_cons_of_mem p hq, heq, hlt, fun r hr => ?_⟩
          rcases List.mem_cons.mp hr with rfl | hr
          · exact hlt.le.trans (not_lt.mp hnot)
          · exact hle r hr

/-- There is no oldest message where no timestamp is below `int64.high`. -/
theorem oldest_spec (messages : List IncomingMessage) :
    oldest messages = none ∧ (∀ msg ∈ messages, int64High ≤ msg.timestamp) ∨
      ∃ k msg, oldest messages = some k ∧ messages[k]? = some msg ∧ msg.timestamp < int64High ∧
        ∀ other ∈ messages, msg.timestamp ≤ other.timestamp := by
  have hall : ∀ msg ∈ messages, ∃ p ∈ messages.zipIdx.reverse, p.1 = msg := by
    intro msg hmsg
    obtain ⟨k, hk⟩ := List.mem_iff_getElem?.mp hmsg
    exact ⟨(msg, k), List.mem_reverse.mpr (List.mem_zipIdx_iff_getElem?.mpr hk), rfl⟩
  rcases oldestFrom_spec messages.zipIdx.reverse int64High none with ⟨heq, hle⟩ | ⟨p, hp, heq, hlt, hle⟩
  · refine Or.inl ⟨heq, fun msg hmsg => ?_⟩
    obtain ⟨p, hp, rfl⟩ := hall msg hmsg
    exact hle p hp
  · refine Or.inr ⟨p.2, p.1, heq, ?_, hlt, fun msg hmsg => ?_⟩
    · exact List.mem_zipIdx_iff_getElem?.mp (List.mem_reverse.mp hp)
    · obtain ⟨q, hq, rfl⟩ := hall msg hmsg
      exact hle q hq

/-- The cache is full and every message is dated at the end of time. -/
def NoOldest (c : MessageCache) : Prop :=
  c.capacity ≤ c.messages.length ∧ ∀ msg ∈ c.messages, int64High ≤ msg.timestamp

theorem makeSpace_spec (h : c.WellFormed) :
    c.makeSpace = none ∧ c.NoOldest ∨
      ∃ c', c.makeSpace = some c' ∧ ¬ c.NoOldest ∧ c'.WellFormed ∧ c.SameTopics c' ∧
        Kept.MakesSpace c.capacity ↑c.entries ↑c'.entries := by
  unfold makeSpace Kept.MakesSpace
  rw [Multiset.coe_card, length_entries]
  by_cases hfull : c.capacity ≤ c.messages.length
  · simp only [if_pos hfull]
    rcases oldest_spec c.messages with ⟨hnone, hle⟩ | ⟨k, msg, hsome, hk, hlt, hle⟩
    · exact Or.inl ⟨hnone ▸ rfl, hfull, hle⟩
    · obtain ⟨hklt, _⟩ := List.getElem?_eq_some_iff.mp hk
      have hentry := getElem?_entries c k
      rw [hk, Option.map_some] at hentry
      refine Or.inr ⟨c.removed k, ?_, ?_, h.removed hklt, ⟨rfl, rfl, rfl⟩, ?_⟩
      · rw [hsome, Option.bind_some, removeMessage_eq, if_pos hklt]
      · exact fun ⟨_, hlate⟩ => absurd hlt (not_lt.mpr (hlate msg (List.mem_of_getElem? hk)))
      · refine ⟨_, Multiset.mem_coe.mpr (List.mem_of_getElem? hentry), fun e he => ?_, ?_⟩
        · refine hle e.msg ?_
          rw [← map_msg_entries c]
          exact List.mem_map_of_mem (Multiset.mem_coe.mp he)
        · rw [entries_removed h hklt, Multiset.coe_erase, Multiset.coe_eq_coe]
          refine List.Perm.cons_inv ((perm_swapDel hentry).trans ?_)
          exact List.perm_cons_erase (List.mem_of_getElem? hentry)
  · simp only [if_neg hfull]
    exact Or.inr ⟨c, rfl, fun hno => hfull hno.1, h, SameTopics.refl c, rfl⟩

theorem append_spec {pubsubIdx contentIdx : ℕ} (topic : PubsubTopic) (msg : IncomingMessage) (h : c.WellFormed)
    (hpubsub : c.pubsub.topics[pubsubIdx]? = some topic)
    (hcontent : c.content.topics[contentIdx]? = some msg.contentTopic) :
    (c.append pubsubIdx contentIdx msg).WellFormed ∧
      (c.append pubsubIdx contentIdx msg).entries =
        c.entries ++ [⟨msg, some topic, some msg.contentTopic⟩] := by
  refine ⟨⟨?_, ?_⟩, List.ext_getElem? fun k => ?_⟩
  · unfold append
    dsimp only
    rw [List.length_append]
    exact h.pubsub.link hpubsub
  · unfold append
    dsimp only
    rw [List.length_append]
    exact h.content.link hcontent
  · unfold append
    rw [getElem?_entries]
    dsimp only
    rw [TopicIndex.topicOf_link h.pubsub hpubsub, TopicIndex.topicOf_link h.content hcontent]
    rcases Nat.lt_trichotomy k c.messages.length with hk | rfl | hk
    · rw [List.getElem?_append_left hk, List.getElem?_append_left (by simpa using hk), if_neg hk.ne,
        if_neg hk.ne, getElem?_entries]
    · rw [List.getElem?_concat_length, if_pos rfl, if_pos rfl, ← length_entries,
        List.getElem?_concat_length]
      rfl
    · rw [List.getElem?_eq_none (by simpa using hk), List.getElem?_eq_none (by simpa using hk)]
      rfl

theorem insert_spec (topic : PubsubTopic) (msg : IncomingMessage) (h : c.WellFormed) :
    c.insert topic msg = none ∧ c.NoOldest ∨
      ∃ c', c.insert topic msg = some c' ∧ ¬ c.NoOldest ∧ c'.WellFormed ∧ c'.capacity = c.capacity ∧
        c'.kept.pubsubTopics = Insert.insert topic c.kept.pubsubTopics ∧
        c'.kept.contentTopics = Insert.insert msg.contentTopic c.kept.contentTopics ∧
        ∃ others, Kept.MakesSpace c.capacity c.kept.entries others ∧
          c'.kept.entries = ⟨msg, some topic, some msg.contentTopic⟩ ::ₘ others := by
  unfold insert
  dsimp only
  rw [TopicIndex.place_eq, TopicIndex.place_eq]
  have hboth : WellFormed { c with
      pubsub := c.pubsub.subscribe topic
      content := c.content.subscribe msg.contentTopic } :=
    ⟨h.pubsub.subscribe topic, h.content.subscribe msg.contentTopic⟩
  have hentries : entries { c with
      pubsub := c.pubsub.subscribe topic
      content := c.content.subscribe msg.contentTopic } = c.entries :=
    entries_congr (fun _ => TopicIndex.topicOf_subscribe h.pubsub)
      fun _ => TopicIndex.topicOf_subscribe h.content
  rcases makeSpace_spec hboth with ⟨hnone, hno⟩ | ⟨c₁, hsome, hno, hwf, htopics, hspace⟩
  · exact Or.inl ⟨congrArg (Option.map _) hnone, hno⟩
  · obtain ⟨hwf', hentries'⟩ := append_spec topic msg hwf
      (htopics.1 ▸ TopicIndex.getElem?_place) (htopics.2.1 ▸ TopicIndex.getElem?_place)
    refine Or.inr ⟨_, congrArg (Option.map _) hsome, hno, hwf', htopics.2.2, ?_, ?_, ↑c₁.entries, ?_, ?_⟩
    · exact (congrArg List.toFinset htopics.1).trans TopicIndex.topics_subscribe
    · exact (congrArg List.toFinset htopics.2.1).trans TopicIndex.topics_subscribe
    · rw [hentries] at hspace
      exact hspace
    · refine (congrArg Multiset.ofList hentries').trans ?_
      rw [Multiset.cons_coe, Multiset.coe_eq_coe]
      exact List.perm_append_singleton _ _

/-- The message is new and one of its topics is wanted. -/
def Takes (c : MessageCache) (pubsubTopic : PubsubTopic) (msg : IncomingMessage) : Prop :=
  msg ∉ c.messages ∧ (pubsubTopic ∈ c.pubsub.topics ∨ msg.contentTopic ∈ c.content.topics)

theorem addMessage_spec (topic : PubsubTopic) (msg : IncomingMessage) (h : c.WellFormed) :
    c.addMessage topic msg = none ∧ c.Takes topic msg ∧ c.NoOldest ∨
      ∃ c', c.addMessage topic msg = some c' ∧ ¬ (c.Takes topic msg ∧ c.NoOldest) ∧ c'.WellFormed ∧
        c'.capacity = c.capacity ∧ Kept.Adds c.capacity topic msg c.kept c'.kept := by
  have hmsgs : msg ∈ c.kept.entries.map Entry.msg ↔ msg ∈ c.messages := by
    unfold kept
    rw [Multiset.map_coe, map_msg_entries, Multiset.mem_coe]
  have htopics : topic ∉ c.kept.pubsubTopics ∧ msg.contentTopic ∉ c.kept.contentTopics ↔
      (c.pubsub.search topic).isNone && (c.content.search msg.contentTopic).isNone := by
    unfold kept
    rw [List.mem_toFinset, List.mem_toFinset, Bool.and_eq_true, Option.isNone_iff_eq_none,
      Option.isNone_iff_eq_none, TopicIndex.search_eq_none, TopicIndex.search_eq_none]
  have htakes : c.Takes topic msg ↔ ¬ (msg ∈ c.kept.entries.map Entry.msg ∨
      topic ∉ c.kept.pubsubTopics ∧ msg.contentTopic ∉ c.kept.contentTopics) := by
    rw [hmsgs]
    unfold Takes kept
    rw [List.mem_toFinset, List.mem_toFinset]
    tauto
  unfold addMessage Kept.Adds
  by_cases hmem : msg ∈ c.messages
  · rw [if_pos hmem]
    refine Or.inr ⟨c, rfl, fun ⟨⟨hnew, _⟩, _⟩ => hnew hmem, h, rfl, ?_⟩
    rw [if_pos (Or.inl (hmsgs.mpr hmem))]
  · rw [if_neg hmem]
    by_cases hnone : (c.pubsub.search topic).isNone && (c.content.search msg.contentTopic).isNone
    · rw [if_pos hnone]
      have hold := htopics.mpr hnone
      refine Or.inr ⟨c, rfl, fun ⟨htake, _⟩ => htakes.mp htake (Or.inr hold), h, rfl, ?_⟩
      rw [if_pos (Or.inr hold)]
    · rw [if_neg hnone]
      have hnew : ¬ (msg ∈ c.kept.entries.map Entry.msg ∨
          topic ∉ c.kept.pubsubTopics ∧ msg.contentTopic ∉ c.kept.contentTopics) := by
        rw [hmsgs, htopics, not_or]
        exact ⟨hmem, hnone⟩
      simp only [if_neg hnew]
      rcases insert_spec topic msg h with
        ⟨hcrash, hno⟩ | ⟨c', hc', hno, hwf, hcapacity, hinsert⟩
      · exact Or.inl ⟨hcrash, htakes.mpr hnew, hno⟩
      · exact Or.inr ⟨c', hc', fun hboth => hno hboth.2, hwf, hcapacity, hinsert⟩

/-! ### Reading messages -/

/-- The places of the entries on a topic, in the order of its index. -/
structure Reading (c : MessageCache) (on : Entry → Bool) (msgIndices : List ℕ) : Prop where
  nodup : msgIndices.Nodup
  mem_iff : ∀ k : ℕ, k ∈ msgIndices ↔ ∃ e : Entry, c.entries[k]? = some e ∧ on e = true

variable {on : Entry → Bool} {msgIndices : List ℕ}

theorem reading_pubsub (h : c.WellFormed) (hi : c.pubsub.topics[i]? = some topic) :
    c.Reading (fun e => decide (e.pubsub = some topic)) (c.pubsub.messagesOn i) where
  nodup := TopicIndex.nodup_messagesOn h.pubsub
  mem_iff := by
    intro k
    rw [TopicIndex.mem_messagesOn h.pubsub hi]
    constructor
    · intro hon
      have hlt : k < c.entries.length := by
        rw [length_entries]
        exact h.pubsub.lt_of_onTopic ((TopicIndex.topicOf_eq_some h.pubsub).mp hon)
      have hget := List.getElem?_eq_getElem hlt
      exact ⟨_, hget, decide_eq_true ((entries_pubsub hget).trans hon)⟩
    · rintro ⟨e, he, hon⟩
      exact (entries_pubsub he).symm.trans (of_decide_eq_true hon)

theorem reading_content (h : c.WellFormed) (hi : c.content.topics[i]? = some topic) :
    c.Reading (fun e => decide (e.content = some topic)) (c.content.messagesOn i) where
  nodup := TopicIndex.nodup_messagesOn h.content
  mem_iff := by
    intro k
    rw [TopicIndex.mem_messagesOn h.content hi]
    constructor
    · intro hon
      have hlt : k < c.entries.length := by
        rw [length_entries]
        exact h.content.lt_of_onTopic ((TopicIndex.topicOf_eq_some h.content).mp hon)
      have hget := List.getElem?_eq_getElem hlt
      exact ⟨_, hget, decide_eq_true ((entries_content hget).trans hon)⟩
    · rintro ⟨e, he, hon⟩
      exact (entries_content he).symm.trans (of_decide_eq_true hon)

theorem Reading.of_mem (hr : c.Reading on msgIndices) (hk : k ∈ msgIndices) :
    k < c.messages.length := by
  obtain ⟨e, he, _⟩ := (hr.mem_iff k).mp hk
  rw [← length_entries]
  exact (List.getElem?_eq_some_iff.mp he).1

theorem Reading.messagesAt (hr : c.Reading on msgIndices) : ∃ messages,
    c.messagesAt msgIndices = some messages ∧
      (messages : Multiset IncomingMessage) =
        (c.kept.entries.filter fun e => on e = true).map Entry.msg := by
  obtain ⟨messages, hread, hperm⟩ := mapM_getElem? Entry.msg hr.nodup hr.mem_iff
  rw [map_msg_entries] at hread
  refine ⟨messages, hread, ?_⟩
  unfold kept
  rw [Multiset.filter_coe, Multiset.map_coe, Multiset.coe_eq_coe]
  simpa using hperm

/-- Removing the messages on a topic, in some order. -/
theorem Reading.removeAll (hr : c.Reading on msgIndices) (h : c.WellFormed) {order : List ℕ}
    (horder : order.Perm msgIndices) :
    c.removeAll order = none ∧ ¬ WithinReach c.messages.length order ∨
      ∃ c', c.removeAll order = some c' ∧ WithinReach c.messages.length order ∧ c'.WellFormed ∧
        c'.capacity = c.capacity ∧
        c'.kept = { c.kept with entries := c.kept.entries.filter fun e => on e = false } := by
  obtain ⟨hmap, hkeeps⟩ := removeAll_spec h order
  have hreach := delAll_isSome_iff order c.entries
  rw [length_entries] at hreach
  cases hdel : delAll c.entries order with
  | none =>
      rw [hdel, Option.map_eq_none_iff] at hmap
      rw [hdel] at hreach
      exact Or.inl ⟨hmap, fun hw => by simpa using hreach.mpr hw⟩
  | some entries' =>
      have hperm := perm_delAll (horder.nodup_iff.mpr hr.nodup) hdel
      rw [hdel] at hmap hreach
      obtain ⟨c', hc', rfl⟩ := Option.map_eq_some_iff.mp hmap
      obtain ⟨hwf, htopics⟩ := hkeeps c' hc'
      refine Or.inr ⟨c', hc', hreach.mp rfl, hwf, htopics.2.2, ?_⟩
      have hfilter : without c.entries order = c.entries.filter (fun e => !on e) := by
        refine without_eq_filter (fun e => !on e) fun k e he => ?_
        rw [horder.mem_iff, hr.mem_iff k, he]
        simp
      rw [hfilter] at hperm
      unfold kept
      rw [htopics.1, htopics.2.1]
      congr 1
      rw [Multiset.filter_coe, Multiset.coe_eq_coe]
      simpa using hperm

theorem Reading.fetch (hr : c.Reading on msgIndices) (h : c.WellFormed) {removal : List ℕ}
    (hremoval : removal.Perm msgIndices) (clear : Bool) :
    c.fetch msgIndices removal clear = none ∧ clear = true ∧
        ¬ WithinReach c.messages.length removal ∨
      ∃ c' messages, c.fetch msgIndices removal clear = some (c', .ok messages) ∧
        ¬ (clear = true ∧ ¬ WithinReach c.messages.length removal) ∧ c'.WellFormed ∧
        c'.capacity = c.capacity ∧
        (messages : Multiset IncomingMessage) =
          (c.kept.entries.filter fun e => on e = true).map Entry.msg ∧
        c'.kept = { c.kept with
          entries := if clear then c.kept.entries.filter fun e => on e = false
            else c.kept.entries } := by
  obtain ⟨messages, hread, hmessages⟩ := hr.messagesAt
  unfold MessageCache.fetch
  rw [hread, Option.bind_some]
  cases clear with
  | false =>
      exact Or.inr ⟨c, messages, rfl, fun hno => Bool.noConfusion hno.1, h, rfl, hmessages, rfl⟩
  | true =>
      rcases hr.removeAll h hremoval with ⟨hnone, hout⟩ | ⟨c', hc', hin, hwf, hcapacity, hkept⟩
      · rw [if_pos rfl, hnone]
        exact Or.inl ⟨rfl, rfl, hout⟩
      · rw [if_pos rfl, hc']
        exact Or.inr ⟨c', messages, rfl, fun hno => hno.2 hin, hwf, hcapacity, hmessages, hkept⟩

/-- `getMessages` goes through the index backwards. -/
def LosesItsWay (c : MessageCache) (pubsubTopic : PubsubTopic) : Prop :=
  ∃ pubsubIdx, c.pubsub.search pubsubTopic = some pubsubIdx ∧
    ¬ WithinReach c.messages.length (c.pubsub.messagesOn pubsubIdx).reverse

theorem getMessages_spec (topic : PubsubTopic) (h : c.WellFormed) (clear : Bool) :
    c.getMessages topic clear = none ∧ clear = true ∧ c.LosesItsWay topic ∨
      ∃ c' answer, c.getMessages topic clear = some (c', answer) ∧
        ¬ (clear = true ∧ c.LosesItsWay topic) ∧ c'.WellFormed ∧ c'.capacity = c.capacity ∧
        Kept.Returns c.kept.pubsubTopics "not subscribed to any pubsub topics"
          "not subscribed to this pubsub topic" topic (fun e => decide (e.pubsub = some topic)) clear
          c.kept c'.kept answer := by
  unfold getMessages LosesItsWay
  split
  · rename_i hempty
    refine Or.inr ⟨c, _, rfl, ?_, h, rfl, Kept.returns_noTopics ?_⟩
    · rintro ⟨_, i, hsearch, _⟩
      have hlt := (List.getElem?_eq_some_iff.mp (TopicIndex.getElem?_of_search hsearch)).1
      omega
    · exact List.toFinset_eq_empty_iff _ |>.mpr (List.length_eq_zero_iff.mp hempty)
  · rename_i hsome
    cases hsearch : c.pubsub.search topic with
    | none =>
        refine Or.inr ⟨c, _, rfl, ?_, h, rfl, Kept.returns_notThis (fun hempty => hsome ?_) ?_⟩
        · rintro ⟨_, i, heq, _⟩
          cases heq
        · exact List.length_eq_zero_iff.mpr ((List.toFinset_eq_empty_iff _).mp hempty)
        · exact fun hmem => TopicIndex.search_eq_none.mp hsearch (List.mem_toFinset.mp hmem)
    | some i =>
        have hi := TopicIndex.getElem?_of_search hsearch
        simp only [Option.some.injEq, exists_eq_left']
        rcases (reading_pubsub h hi).fetch h (List.reverse_perm _) clear with
          hcrash | ⟨c', messages, hc', hno, hwf, hcapacity, hmessages, hkept⟩
        · exact Or.inl hcrash
        · refine Or.inr ⟨c', _, hc', hno, hwf, hcapacity, Kept.returns_found ?_ hmessages hkept⟩
          exact List.mem_toFinset.mpr (List.mem_of_getElem? hi)

/-- `getAutoMessages` removes in descending order, which never goes wrong. -/
theorem getAutoMessages_spec (topic : ContentTopic) (h : c.WellFormed) (clear : Bool) :
    ∃ c' answer, c.getAutoMessages topic clear = some (c', answer) ∧ c'.WellFormed ∧
      c'.capacity = c.capacity ∧
      Kept.Returns c.kept.contentTopics "not subscribed to any content topics"
        "not subscribed to this content topic" topic (fun e => decide (e.content = some topic)) clear
        c.kept c'.kept answer := by
  unfold getAutoMessages
  split
  · rename_i hempty
    refine ⟨c, _, rfl, h, rfl, Kept.returns_noTopics ?_⟩
    exact (List.toFinset_eq_empty_iff _).mpr (List.length_eq_zero_iff.mp hempty)
  · rename_i hsome
    cases hsearch : c.content.search topic with
    | none =>
        refine ⟨c, _, rfl, h, rfl, Kept.returns_notThis (fun hempty => hsome ?_) ?_⟩
        · exact List.length_eq_zero_iff.mpr ((List.toFinset_eq_empty_iff _).mp hempty)
        · exact fun hmem => TopicIndex.search_eq_none.mp hsearch (List.mem_toFinset.mp hmem)
    | some i =>
        have hi := TopicIndex.getElem?_of_search hsearch
        have hr := reading_content h hi
        have hreach : WithinReach c.messages.length (descending (c.content.messagesOn i)) :=
          withinReach_of_descending
            (fun k hk => hr.of_mem ((descending_perm _).mem_iff.mp hk)) (pairwise_descending hr.nodup)
        rcases hr.fetch h (descending_perm _) clear with
          ⟨_, _, hout⟩ | ⟨c', messages, hc', _, hwf, hcapacity, hmessages, hkept⟩
        · exact absurd hreach hout
        · refine ⟨c', _, hc', hwf, hcapacity, Kept.returns_found ?_ hmessages hkept⟩
          exact List.mem_toFinset.mpr (List.mem_of_getElem? hi)

/-! ### Runs -/

/-- The calls that do not come back. -/
def Crashes (c : MessageCache) : Call → Prop
  | .addMessage pubsubTopic msg => c.Takes pubsubTopic msg ∧ c.NoOldest
  | .getMessages pubsubTopic clear => clear = true ∧ c.LosesItsWay pubsubTopic
  | _ => False

theorem exec_spec (h : c.WellFormed) (hlinked : ∀ e ∈ c.entries, e.linked = true) (call : Call) :
    c.exec call = none ∧ c.Crashes call ∨
      ∃ c' answer, c.exec call = some (c', answer) ∧ ¬ c.Crashes call ∧ c'.WellFormed ∧
        c'.capacity = c.capacity ∧ Kept.Spec c.capacity c.kept call c'.kept answer := by
  cases call with
  | pubsubSubscribe topic =>
      refine Or.inr ⟨_, _, rfl, id, ⟨h.pubsub.subscribe topic, h.content⟩, rfl, ?_, rfl⟩
      unfold kept
      rw [entries_pubsubSubscribe h]
      exact congrArg (fun topics => Kept.mk topics _ _) TopicIndex.topics_subscribe
  | contentSubscribe topic =>
      refine Or.inr ⟨_, _, rfl, id, ⟨h.pubsub, h.content.subscribe topic⟩, rfl, ?_, rfl⟩
      unfold kept
      rw [entries_contentSubscribe h]
      exact congrArg (fun topics => Kept.mk _ topics _) TopicIndex.topics_subscribe
  | pubsubUnsubscribe topic =>
      obtain ⟨c', hc', hwf, hcapacity, hpubsub, hcontent, hperm⟩ :=
        pubsubUnsubscribe_spec topic h hlinked
      refine Or.inr ⟨c', _, congrArg (Option.map _) hc', id, hwf, hcapacity, ?_, rfl⟩
      unfold kept
      rw [hpubsub, hcontent, Multiset.map_coe, Multiset.filter_coe, Multiset.coe_eq_coe.mpr hperm]
      simp
  | contentUnsubscribe topic =>
      obtain ⟨c', hc', hwf, hcapacity, hpubsub, hcontent, hperm⟩ :=
        contentUnsubscribe_spec topic h hlinked
      refine Or.inr ⟨c', _, congrArg (Option.map _) hc', id, hwf, hcapacity, ?_, rfl⟩
      unfold kept
      rw [hpubsub, hcontent, Multiset.map_coe, Multiset.filter_coe, Multiset.coe_eq_coe.mpr hperm]
      simp
  | reset =>
      refine Or.inr ⟨_, _, rfl, id, ⟨⟨?_, ?_, ?_⟩, ⟨?_, ?_, ?_⟩⟩, rfl, rfl, rfl⟩ <;> simp [reset]
  | addMessage topic msg =>
      rcases addMessage_spec topic msg h with
        ⟨hnone, hcrash⟩ | ⟨c', hc', hno, hwf, hcapacity, hadds⟩
      · exact Or.inl ⟨congrArg (Option.map _) hnone, hcrash⟩
      · exact Or.inr ⟨c', _, congrArg (Option.map _) hc', hno, hwf, hcapacity, hadds, rfl⟩
  | getMessages topic clear => exact getMessages_spec topic h clear
  | getAutoMessages topic clear =>
      obtain ⟨c', answer, hspec⟩ := getAutoMessages_spec topic h clear
      exact Or.inr ⟨c', answer, hspec.1, id, hspec.2⟩

/-- The calls, one after the other, with their answers. -/
def execAll (c : MessageCache) (calls : List Call) : Option (MessageCache × List (Call × Answer)) :=
  calls.foldlM (fun s call => (s.1.exec call).map fun r => (r.1, s.2 ++ [(call, r.2)])) (c, [])

variable {calls : List Call} {history : List (Call × Answer)} {capacity : ℤ}

theorem execAll_concat (h : c.execAll (calls ++ [call]) = some (c', history)) :
    ∃ before past answer, c.execAll calls = some (before, past) ∧
      before.exec call = some (c', answer) ∧ history = past ++ [(call, answer)] := by
  unfold execAll at h
  rw [List.foldlM_append] at h
  obtain ⟨⟨before, past⟩, hbefore, hlast⟩ := Option.bind_eq_some_iff.mp h
  rw [List.foldlM_cons] at hlast
  obtain ⟨⟨after, past'⟩, hstep, heq⟩ := Option.bind_eq_some_iff.mp hlast
  obtain ⟨⟨after', answer⟩, hexec, hpair⟩ := Option.map_eq_some_iff.mp hstep
  cases heq
  cases hpair
  exact ⟨before, past, answer, hbefore, hexec, rfl⟩

theorem run_start (capacity : ℤ) :
    (init capacity).WellFormed ∧ (init capacity).capacity = capacity ∧
      Kept.Run capacity [] (init capacity).kept := by
  refine ⟨⟨⟨?_, ?_, ?_⟩, ⟨?_, ?_, ?_⟩⟩, rfl, Kept.Run.start⟩ <;> simp [init]

/-- A run of calls is a run of what is kept. -/
theorem run_kept (hrun : (init capacity).execAll calls = some (c, history)) :
    c.WellFormed ∧ c.capacity = capacity ∧ Kept.Run capacity history c.kept := by
  induction calls using List.reverseRecOn generalizing c history with
  | nil =>
      cases hrun
      exact run_start capacity
  | append_singleton calls call ih =>
      obtain ⟨before, past, answer, hbefore, hexec, rfl⟩ := execAll_concat hrun
      obtain ⟨hwf, hcapacity, hkept⟩ := ih hbefore
      have hlinked : ∀ e ∈ before.entries, e.linked = true := hkept.sound.linked
      rcases exec_spec hwf hlinked call with
        ⟨hnone, _⟩ | ⟨c', answer', hsome, _, hwf', hcapacity', hspec⟩
      · rw [hnone] at hexec
        cases hexec
      · rw [hsome] at hexec
        cases hexec
        exact ⟨hwf', hcapacity'.trans hcapacity, hkept.step (hcapacity ▸ hspec)⟩

/-- A call of a run does not come back in just the cases of `Crashes`. -/
theorem exec_eq_none_iff (hrun : (init capacity).execAll calls = some (c, history)) (call : Call) :
    c.exec call = none ↔ c.Crashes call := by
  obtain ⟨hwf, _, hkept⟩ := run_kept hrun
  rcases exec_spec hwf hkept.sound.linked call with ⟨hnone, hcrash⟩ | ⟨c', answer, hsome, hno, _⟩
  · exact iff_of_true hnone hcrash
  · exact iff_of_false (by simp [hsome]) hno

/-! ### Runs without an unsubscription -/

/-- The index has the messages in order. -/
def InStep (c : MessageCache) : Prop :=
  c.pubsub.index.map Prod.snd = List.range c.messages.length

theorem inStep_removeMessage {t : TopicIndex} {n : ℕ} (hk : k < n)
    (h : t.index.map Prod.snd = List.range n) :
    (t.removeMessage k (n - 1)).index.map Prod.snd = List.range (n - 1) := by
  have hsnd : ∀ (j : ℕ) (link : ℕ × ℕ), t.index[j]? = some link → link.2 = j := by
    intro j link hj
    have hget : (t.index.map Prod.snd)[j]? = some link.2 := by
      rw [List.getElem?_map, hj, Option.map_some]
    rw [h] at hget
    obtain ⟨hjn, heq⟩ := List.getElem?_eq_some_iff.mp hget
    rw [← heq, List.getElem_range]
  have hlen : t.index.length = n := by
    have hl := congrArg List.length h
    rwa [List.length_map, List.length_range] at hl
  have hk' := List.getElem?_eq_getElem (hlen ▸ hk : k < t.index.length)
  have hsweep := sweep_one (fun link : ℕ × ℕ => (link.1, if link.2 = n - 1 then k else link.2))
    (f := fun link : ℕ × ℕ => (renumber k (n - 1) link.2).map fun mId => (link.1, mId)) hk'
    (by
      rw [hsnd k _ hk', renumber_eq_none.mpr rfl]
      rfl)
    (fun j link hj hne => by
      have hjk : link.2 ≠ k := (hsnd j link hj).symm ▸ hne
      unfold renumber
      rw [if_neg hjk]
      split <;> rfl)
  unfold TopicIndex.removeMessage
  dsimp only
  rw [hsweep, map_swapDel, List.map_map]
  have hmap : (t.index.map (Prod.snd ∘ fun link : ℕ × ℕ =>
      (link.1, if link.2 = n - 1 then k else link.2))) =
      (List.range n).map (fun m => if m = n - 1 then k else m) := by
    rw [← h, List.map_map]
    rfl
  rw [hmap]
  refine List.ext_getElem? fun j => ?_
  rw [getElem?_swapDel (by simpa using hk), List.length_map, List.length_range]
  by_cases hj : j < n - 1
  · rw [if_pos hj, List.getElem?_map, List.getElem?_range (by split <;> omega), Option.map_some,
      List.getElem?_range hj]
    congr 1
    split_ifs <;> omega
  · rw [if_neg hj, List.getElem?_eq_none (by simpa using hj)]

theorem InStep.removed {idx : ℕ} (h : c.InStep) (hidx : idx < c.messages.length) :
    (c.removed idx).InStep := by
  unfold InStep MessageCache.removed
  rw [length_swapDel]
  exact inStep_removeMessage hidx h

theorem InStep.removeMessage {idx : ℕ} (h : c.InStep) (hstep : c.removeMessage idx = some c') :
    c'.InStep := by
  rw [removeMessage_eq] at hstep
  split at hstep
  · rename_i hidx
    cases hstep
    exact h.removed hidx
  · cases hstep

theorem InStep.removeAll {order : List ℕ} (h : c.InStep) (hall : c.removeAll order = some c') :
    c'.InStep :=
  (map_foldlM id InStep (fun _ _ _ => Option.map_id_apply) (fun _ _ _ hs hstep => hs.removeMessage hstep)
    order c h).2 c' hall

theorem InStep.removeUnlessIn {other : MessageCache → TopicIndex} {indices : List ℕ} (h : c.InStep)
    (hall : c.removeUnlessIn other indices = some c') : c'.InStep := by
  refine (map_foldlM id InStep (fun _ _ _ => Option.map_id_apply) (fun c₁ m c₂ hs hstep => ?_)
    (descending indices) c h).2 c' hall
  split at hstep
  · cases hstep
    exact hs
  · exact hs.removeMessage hstep

theorem InStep.fetch {indices removal : List ℕ} {clear : Bool} (h : c.InStep)
    (hfetch : c.fetch indices removal clear = some (c', answer)) : c'.InStep := by
  unfold MessageCache.fetch at hfetch
  obtain ⟨messages, _, hrest⟩ := Option.bind_eq_some_iff.mp hfetch
  obtain ⟨c₁, hclear, hpair⟩ := Option.map_eq_some_iff.mp hrest
  cases hpair
  split at hclear
  · exact h.removeAll hclear
  · cases hclear
    exact h

theorem index_subscribe (t : TopicIndex) (topic : String) : (t.subscribe topic).index = t.index := by
  rw [TopicIndex.subscribe_eq]
  split <;> rfl

theorem InStep.insert {msg : IncomingMessage} (h : c.InStep) (hinsert : c.insert topic msg = some c') :
    c'.InStep := by
  unfold MessageCache.insert at hinsert
  dsimp only at hinsert
  rw [TopicIndex.place_eq, TopicIndex.place_eq] at hinsert
  obtain ⟨c₁, hspace, rfl⟩ := Option.map_eq_some_iff.mp hinsert
  have hboth : InStep { c with
      pubsub := c.pubsub.subscribe topic
      content := c.content.subscribe msg.contentTopic } := by
    unfold InStep
    rw [index_subscribe]
    exact h
  have h₁ : c₁.InStep := by
    unfold makeSpace at hspace
    split at hspace
    · obtain ⟨k, _, hremove⟩ := Option.bind_eq_some_iff.mp hspace
      exact hboth.removeMessage hremove
    · cases hspace
      exact hboth
  unfold InStep append TopicIndex.link
  dsimp only
  rw [List.map_append, List.length_append, List.length_singleton, List.range_succ, h₁]
  rfl

/-- Only `pubsubUnsubscribe` takes entries out of the index and leaves their messages. -/
theorem InStep.exec (h : c.InStep) (hcall : ∀ topic, call ≠ .pubsubUnsubscribe topic)
    (hexec : c.exec call = some (c', answer)) : c'.InStep := by
  cases call with
  | pubsubSubscribe topic =>
      cases hexec
      unfold InStep pubsubSubscribe
      rw [index_subscribe]
      exact h
  | contentSubscribe topic =>
      cases hexec
      exact h
  | pubsubUnsubscribe topic => exact absurd rfl (hcall topic)
  | contentUnsubscribe topic =>
      obtain ⟨c₁, hc₁, heq⟩ := Option.map_eq_some_iff.mp hexec
      cases heq
      unfold contentUnsubscribe at hc₁
      split at hc₁
      · cases hc₁
        exact h
      · rename_i i _
        have hdropped : InStep { c with content := (c.content.unsubscribe i).1 } := h
        exact hdropped.removeUnlessIn hc₁
  | reset =>
      cases hexec
      rfl
  | addMessage topic msg =>
      obtain ⟨c₁, hc₁, heq⟩ := Option.map_eq_some_iff.mp hexec
      cases heq
      unfold addMessage at hc₁
      split at hc₁
      · cases hc₁
        exact h
      · split at hc₁
        · cases hc₁
          exact h
        · exact h.insert hc₁
  | getMessages topic clear =>
      have hget : c.getMessages topic clear = some (c', answer) := hexec
      unfold getMessages at hget
      split at hget
      · cases hget
        exact h
      · split at hget
        · cases hget
          exact h
        · exact h.fetch hget
  | getAutoMessages topic clear =>
      have hget : c.getAutoMessages topic clear = some (c', answer) := hexec
      unfold getAutoMessages at hget
      split at hget
      · cases hget
        exact h
      · split at hget
        · cases hget
          exact h
        · exact h.fetch hget

theorem inStep_run (hrun : (init capacity).execAll calls = some (c, history))
    (hcalls : ∀ topic, Call.pubsubUnsubscribe topic ∉ calls) : c.InStep := by
  induction calls using List.reverseRecOn generalizing c history with
  | nil =>
      cases hrun
      rfl
  | append_singleton calls call ih =>
      obtain ⟨before, past, answer, hbefore, hexec, rfl⟩ := execAll_concat hrun
      have hbefore' := ih hbefore fun topic hmem => hcalls topic (List.mem_append_left _ hmem)
      refine hbefore'.exec (fun topic heq => hcalls topic ?_) hexec
      exact List.mem_append_right _ (List.mem_singleton.mpr heq.symm)

/-- An index in step never leads behind the end. -/
theorem InStep.withinReach (h : c.InStep) (i : ℕ) :
    WithinReach c.messages.length (c.pubsub.messagesOn i).reverse := by
  have hsub : (c.pubsub.messagesOn i).Sublist (List.range c.messages.length) :=
    h ▸ List.filter_sublist.map Prod.snd
  refine withinReach_of_descending (fun k hk => ?_) ?_
  · exact List.mem_range.mp (hsub.subset (List.mem_reverse.mp hk))
  · exact List.pairwise_reverse.mpr (List.pairwise_lt_range.sublist hsub)

/-- Every run of the cache is a run of what it is for, and leads each entry of its indexes to a topic
and a message. -/
theorem messageCache_refines (capacity : ℤ) (calls : List Call)
    (hrun : (init capacity).execAll calls = some (c, history)) :
    c.WellFormed ∧ Kept.Run capacity history c.kept ∧ c.kept.Sound capacity := by
  obtain ⟨hwell, _, hkept⟩ := run_kept hrun
  exact ⟨hwell, hkept, hkept.sound⟩

def dated (timestamp : Timestamp) : IncomingMessage := ⟨⟨[], "c", [], 0, timestamp⟩, [], false⟩

/-- A cache of two messages is given three and read. -/
def threeMessages : List Call :=
  [.pubsubSubscribe "p", .addMessage "p" (dated 2), .addMessage "p" (dated 1), .addMessage "p" (dated 3),
    .addMessage "p" (dated 3), .contentUnsubscribe "c", .getMessages "p" true]

theorem messageCache_refines_three : ∃ c history,
    (init 2).execAll threeMessages = some (c, history) ∧
      history.getLast?.map Prod.snd = some (Except.ok [dated 2, dated 3]) ∧
      c.WellFormed ∧ Kept.Run 2 history c.kept ∧ c.kept.Sound 2 :=
  ⟨_, _, rfl, rfl, messageCache_refines 2 threeMessages rfl⟩

/-- A call of a run crashes in just two cases, and without an unsubscription from a pubsub topic
reading the messages never does. -/
theorem messageCache_crashes_iff (capacity : ℤ) (calls : List Call)
    (hrun : (init capacity).execAll calls = some (c, history)) (call : Call) :
    (c.exec call = none ↔ c.Crashes call) ∧
      ((∀ topic, Call.pubsubUnsubscribe topic ∉ calls) → c.exec call = none →
        ∃ topic msg, call = .addMessage topic msg ∧ c.Takes topic msg ∧ c.NoOldest) := by
  refine ⟨exec_eq_none_iff hrun call, fun hcalls hnone => ?_⟩
  have hcrash := (exec_eq_none_iff hrun call).mp hnone
  cases call with
  | addMessage topic msg => exact ⟨topic, msg, rfl, hcrash⟩
  | getMessages topic clear =>
      obtain ⟨_, i, _, hout⟩ := hcrash
      exact absurd ((inStep_run hrun hcalls).withinReach i) hout
  | _ => exact absurd hcrash id

/-- The messages of `q` are left out of order when `p` is given up. -/
def givenUp : List Call :=
  [.pubsubSubscribe "p", .pubsubSubscribe "q", .addMessage "p" (dated 0), .addMessage "q" (dated 1),
    .addMessage "q" (dated 2), .addMessage "q" (dated 3), .pubsubUnsubscribe "p"]

theorem getMessages_crashes_givenUp : ∃ c history,
    (init 50).execAll givenUp = some (c, history) ∧ c.exec (.getMessages "q" true) = none ∧
      c.LosesItsWay "q" :=
  ⟨_, _, rfl, rfl,
    ((messageCache_crashes_iff 50 givenUp rfl (.getMessages "q" true)).1.mp rfl).2⟩

end MessageCache

end LogosDelivery.Rest
