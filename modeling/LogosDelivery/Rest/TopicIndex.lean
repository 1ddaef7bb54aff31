import LogosDelivery.Lib.SwapDelete

/-! # Topics and the messages on them

A half of `MessageCache` (`src/rest/message_cache.nim`): the topics of one kind and an index that
links the place of a topic to the place of a message.  Both sequences are changed by deletions that
put the last element in the place of the deleted one, and each such deletion has to rename the last
place in the index.  `topicOf` reads the index the way the cache means it: the topic a message is on. -/

namespace LogosDelivery.Rest

open Lib

/-- The topics of one kind, and the index with entries `(topicIdx, msgIdx)`. -/
structure TopicIndex where
  topics : List String
  index : List (ℕ × ℕ)
deriving DecidableEq

namespace TopicIndex

variable {t : TopicIndex} {topic other : String} {n i k m : ℕ}

def search (t : TopicIndex) (topic : String) : Option ℕ :=
  t.topics.findIdx? (fun other => other == topic)

def subscribe (t : TopicIndex) (topic : String) : TopicIndex :=
  if (t.search topic).isNone then { t with topics := t.topics ++ [topic] } else t

/-- The place of a topic, which is added where it is not there. -/
def place (t : TopicIndex) (topic : String) : TopicIndex × ℕ :=
  match t.search topic with
  | some i => (t, i)
  | none => ({ t with topics := t.topics ++ [topic] }, t.topics.length)

def link (t : TopicIndex) (topicIdx msgIdx : ℕ) : TopicIndex :=
  { t with index := t.index ++ [(topicIdx, msgIdx)] }

/-- The message at `idx` is deleted and the one at `lastIndex` takes its place. -/
def removeMessage (t : TopicIndex) (idx lastIndex : ℕ) : TopicIndex :=
  { t with index := (sweep (fun link : ℕ × ℕ =>
      (renumber idx lastIndex link.2).map fun mId => (link.1, mId)) t.index).1 }

/-- The topic at `topicIdx` is deleted with its entries, and the last topic takes its place.  The
messages of the deleted entries come out in the order of the loop. -/
def unsubscribe (t : TopicIndex) (topicIdx : ℕ) : TopicIndex × List ℕ :=
  let lastIndex := t.topics.length - 1
  let swept := sweep (fun link : ℕ × ℕ =>
    (renumber topicIdx lastIndex link.1).map fun pId => (pId, link.2)) t.index
  ({ topics := swapDel t.topics topicIdx, index := swept.1 }, swept.2.map Prod.snd)

/-- The messages on the topic at `topicIdx`, in the order of the index. -/
def messagesOn (t : TopicIndex) (topicIdx : ℕ) : List ℕ :=
  (t.index.filter (fun link => link.1 = topicIdx)).map Prod.snd

/-- `anyIt(it.msgIdx == msgIdx)`. -/
def indexes (t : TopicIndex) (msgIdx : ℕ) : Bool := t.index.any (fun link => link.2 == msgIdx)

/-! ### The topic of a message -/

/-- The topic that a message is on. -/
def topicOf (t : TopicIndex) (msgIdx : ℕ) : Option String :=
  (t.index.find? (fun link => link.2 == msgIdx)).bind fun link => t.topics[link.1]?

/-- With `n` messages: no topic twice, no message twice, and no link to nowhere. -/
structure WellFormed (t : TopicIndex) (n : ℕ) : Prop where
  topics_nodup : t.topics.Nodup
  links_nodup : (t.index.map Prod.snd).Nodup
  link_lt : ∀ link ∈ t.index, link.1 < t.topics.length ∧ link.2 < n

/-- An entry of the index says so. -/
def OnTopic (t : TopicIndex) (m : ℕ) (topic : String) : Prop :=
  ∃ i, (i, m) ∈ t.index ∧ t.topics[i]? = some topic

/-- A message has one entry. -/
theorem WellFormed.eq_of_link (h : t.WellFormed n) (hi : (i, m) ∈ t.index) (hk : (k, m) ∈ t.index) :
    i = k := by
  have hinj := List.inj_on_of_nodup_map h.links_nodup hi hk rfl
  exact (Prod.mk.injEq ..).mp hinj |>.1

theorem topicOf_eq_some (h : t.WellFormed n) : t.topicOf m = some topic ↔ t.OnTopic m topic := by
  unfold topicOf OnTopic
  rw [Option.bind_eq_some_iff]
  constructor
  · rintro ⟨⟨i, m'⟩, hfind, htopic⟩
    obtain rfl : m' = m := by simpa using List.find?_some hfind
    exact ⟨i, List.mem_of_find?_eq_some hfind, htopic⟩
  · rintro ⟨i, hmem, htopic⟩
    have hsome : (t.index.find? (fun link => link.2 == m)).isSome :=
      List.find?_isSome.mpr ⟨(i, m), hmem, beq_self_eq_true m⟩
    obtain ⟨⟨k, m'⟩, hfind⟩ := Option.isSome_iff_exists.mp hsome
    obtain rfl : m' = m := by simpa using List.find?_some hfind
    obtain rfl := h.eq_of_link hmem (List.mem_of_find?_eq_some hfind)
    exact ⟨(i, m'), hfind, htopic⟩

/-- Every link leads to a topic. -/
theorem WellFormed.onTopic (h : t.WellFormed n) (hmem : (i, m) ∈ t.index) :
    ∃ topic, t.topics[i]? = some topic ∧ t.OnTopic m topic :=
  ⟨_, List.getElem?_eq_getElem (h.link_lt _ hmem).1, i, hmem,
    List.getElem?_eq_getElem (h.link_lt _ hmem).1⟩

theorem topicOf_isSome (h : t.WellFormed n) : (t.topicOf m).isSome ↔ ∃ i, (i, m) ∈ t.index := by
  rw [Option.isSome_iff_exists]
  constructor
  · rintro ⟨topic, htopic⟩
    obtain ⟨i, hmem, _⟩ := (topicOf_eq_some h).mp htopic
    exact ⟨i, hmem⟩
  · rintro ⟨i, hmem⟩
    obtain ⟨topic, _, hon⟩ := h.onTopic hmem
    exact ⟨topic, (topicOf_eq_some h).mpr hon⟩

theorem indexes_eq (h : t.WellFormed n) : t.indexes m = (t.topicOf m).isSome := by
  rw [Bool.eq_iff_iff, topicOf_isSome h, indexes, List.any_eq_true]
  constructor
  · rintro ⟨⟨i, m'⟩, hmem, heq⟩
    obtain rfl : m' = m := by simpa using heq
    exact ⟨i, hmem⟩
  · rintro ⟨i, hmem⟩
    exact ⟨(i, m), hmem, beq_self_eq_true m⟩

theorem WellFormed.lt_of_onTopic (h : t.WellFormed n) (hon : t.OnTopic m topic) : m < n := by
  obtain ⟨i, hmem, _⟩ := hon
  exact (h.link_lt _ hmem).2

theorem topicOf_of_le (h : t.WellFormed n) (hm : n ≤ m) : t.topicOf m = none := by
  rw [Option.eq_none_iff_forall_ne_some]
  intro topic htopic
  exact absurd (h.lt_of_onTopic ((topicOf_eq_some h).mp htopic)) (Nat.not_lt.mpr hm)

theorem OnTopic.mem_topics (hon : t.OnTopic m topic) : topic ∈ t.topics := by
  obtain ⟨i, _, htopic⟩ := hon
  exact List.mem_of_getElem? htopic

/-- The same entries say the same. -/
theorem topicOf_eq_of_onTopic {t' : TopicIndex} {n' : ℕ} (h : t.WellFormed n) (h' : t'.WellFormed n')
    (hiff : ∀ topic, t'.OnTopic k topic ↔ t.OnTopic m topic) : t'.topicOf k = t.topicOf m := by
  refine Option.ext fun topic => ?_
  rw [topicOf_eq_some h, topicOf_eq_some h']
  exact hiff topic

/-! ### The operations -/

theorem search_eq_none : t.search topic = none ↔ topic ∉ t.topics := by
  unfold search
  rw [List.findIdx?_eq_none_iff]
  constructor
  · intro h hmem
    simpa using h topic hmem
  · rintro h other hmem
    exact beq_eq_false_iff_ne.mpr (ne_of_mem_of_not_mem hmem h)

theorem getElem?_of_search (h : t.search topic = some i) : t.topics[i]? = some topic := by
  obtain ⟨hlt, heq, _⟩ := List.findIdx?_eq_some_iff_getElem.mp h
  rw [List.getElem?_eq_getElem hlt, beq_iff_eq.mp heq]

/-- What is on a topic stays on it when topics are added at the end. -/
theorem onTopic_append (h : t.WellFormed n) (more : List String) :
    OnTopic { t with topics := t.topics ++ more } m topic ↔ t.OnTopic m topic := by
  unfold OnTopic
  refine exists_congr fun i => and_congr_right fun hmem => ?_
  rw [List.getElem?_append_left (h.link_lt _ hmem).1]

theorem subscribe_eq (t : TopicIndex) (topic : String) :
    t.subscribe topic = if topic ∈ t.topics then t else { t with topics := t.topics ++ [topic] } := by
  unfold subscribe
  have hnone : (t.search topic).isNone ↔ topic ∉ t.topics := by
    rw [Option.isNone_iff_eq_none, search_eq_none]
  by_cases h : topic ∈ t.topics
  · rw [if_neg fun hn => hnone.mp hn h, if_pos h]
  · rw [if_pos (hnone.mpr h), if_neg h]

theorem WellFormed.subscribe (h : t.WellFormed n) (topic : String) :
    (t.subscribe topic).WellFormed n := by
  rw [subscribe_eq]
  split
  · exact h
  · rename_i hnot
    refine ⟨List.nodup_append.mpr ⟨h.topics_nodup, List.nodup_singleton topic, ?_⟩,
      h.links_nodup, fun link hmem => ?_⟩
    · rintro a ha b hb rfl
      exact hnot (List.mem_singleton.mp hb ▸ ha)
    · obtain ⟨hlt, hm⟩ := h.link_lt link hmem
      rw [List.length_append]
      exact ⟨by omega, hm⟩

theorem topicOf_subscribe (h : t.WellFormed n) : (t.subscribe topic).topicOf m = t.topicOf m := by
  refine topicOf_eq_of_onTopic h (h.subscribe topic) fun other => ?_
  rw [subscribe_eq]
  split
  · exact Iff.rfl
  · exact onTopic_append h [topic]

theorem topics_subscribe : (t.subscribe topic).topics.toFinset = insert topic t.topics.toFinset := by
  rw [subscribe_eq]
  split
  · rename_i hmem
    rw [Finset.insert_eq_self.mpr (List.mem_toFinset.mpr hmem)]
  · ext other
    simp

theorem place_eq (t : TopicIndex) (topic : String) : (t.place topic).1 = t.subscribe topic := by
  unfold place subscribe
  cases h : t.search topic with
  | none => rfl
  | some i => rfl

theorem getElem?_place : (t.subscribe topic).topics[(t.place topic).2]? = some topic := by
  unfold place subscribe
  cases h : t.search topic with
  | none => simp
  | some i =>
      rw [if_neg (by simp)]
      exact getElem?_of_search h

theorem onTopic_link : (t.link i n).OnTopic m topic ↔
    t.OnTopic m topic ∨ m = n ∧ t.topics[i]? = some topic := by
  unfold OnTopic link
  constructor
  · rintro ⟨k, hmem, htopic⟩
    rcases List.mem_append.mp hmem with hmem | hmem
    · exact Or.inl ⟨k, hmem, htopic⟩
    · obtain ⟨rfl, rfl⟩ := (Prod.mk.injEq ..).mp (List.mem_singleton.mp hmem)
      exact Or.inr ⟨rfl, htopic⟩
  · rintro (⟨k, hmem, htopic⟩ | ⟨rfl, htopic⟩)
    · exact ⟨k, List.mem_append_left _ hmem, htopic⟩
    · exact ⟨i, List.mem_append_right _ List.mem_cons_self, htopic⟩

theorem WellFormed.link (h : t.WellFormed n) (hi : t.topics[i]? = some topic) :
    (t.link i n).WellFormed (n + 1) := by
  obtain ⟨hlt, _⟩ := List.getElem?_eq_some_iff.mp hi
  refine ⟨h.topics_nodup, ?_, fun l hmem => ?_⟩
  · unfold TopicIndex.link
    rw [List.map_append]
    refine List.nodup_append.mpr ⟨h.links_nodup, List.nodup_singleton _, ?_⟩
    rintro m hm n' hn' rfl
    obtain ⟨l, hl, rfl⟩ := List.mem_map.mp hm
    have hbound := (h.link_lt l hl).2
    have heq : l.2 = n := List.mem_singleton.mp hn'
    omega
  · rcases List.mem_append.mp hmem with hmem | hmem
    · obtain ⟨hl, hm⟩ := h.link_lt l hmem
      exact ⟨hl, by omega⟩
    · rw [List.mem_singleton.mp hmem]
      exact ⟨hlt, Nat.lt_succ_self n⟩

/-- The new message is on the topic of its link, and the others are where they were. -/
theorem topicOf_link (h : t.WellFormed n) (hi : t.topics[i]? = some topic) :
    (t.link i n).topicOf m = if m = n then some topic else t.topicOf m := by
  have h' := h.link hi
  split
  · rename_i heq
    exact (topicOf_eq_some h').mpr (onTopic_link.mpr (Or.inr ⟨heq, hi⟩))
  · rename_i hne
    refine topicOf_eq_of_onTopic h h' fun other => ?_
    rw [onTopic_link]
    exact or_iff_left fun hand => hne hand.1

/-! ### Deletions -/

theorem mem_sweep {f : ℕ × ℕ → Option (ℕ × ℕ)} {index : List (ℕ × ℕ)} {link : ℕ × ℕ} :
    link ∈ (sweep f index).1 ↔ ∃ before ∈ index, f before = some link := by
  rw [(perm_sweep f index).mem_iff, List.mem_filterMap]

/-- A sweep that keeps different messages different. -/
theorem links_nodup_sweep {f : ℕ × ℕ → Option (ℕ × ℕ)} {index : List (ℕ × ℕ)}
    (hnodup : (index.map Prod.snd).Nodup)
    (hf : ∀ a b a' b', f a = some a' → f b = some b' → a'.2 = b'.2 → a.2 = b.2) :
    ((sweep f index).1.map Prod.snd).Nodup := by
  rw [((perm_sweep f index).map Prod.snd).nodup_iff, List.Nodup, List.pairwise_map,
    List.pairwise_filterMap]
  rw [List.Nodup, List.pairwise_map] at hnodup
  refine hnodup.imp fun hne a' ha' b' hb' heq => hne ?_
  exact hf _ _ a' b' ha' hb' heq

/-- The messages behind the removed one, under their new places. -/
theorem mem_removeMessage (h : t.WellFormed n) (hk : k < n) :
    (i, m) ∈ (t.removeMessage k (n - 1)).index ↔
      m < n - 1 ∧ (i, if m = k then n - 1 else m) ∈ t.index := by
  have hkn : k ≤ n - 1 := by omega
  unfold removeMessage
  rw [mem_sweep]
  constructor
  · rintro ⟨⟨i', m'⟩, hmem, heq⟩
    obtain ⟨m'', hm'', hpair⟩ := Option.map_eq_some_iff.mp heq
    obtain ⟨rfl, rfl⟩ := (Prod.mk.injEq ..).mp hpair
    have hm' := (h.link_lt _ hmem).2
    obtain ⟨hlt, hbefore⟩ := (renumber_eq_some hkn (by omega)).mp hm''
    exact ⟨hlt, hbefore ▸ hmem⟩
  · rintro ⟨hlt, hmem⟩
    refine ⟨_, hmem, Option.map_eq_some_iff.mpr ⟨m, ?_, rfl⟩⟩
    have hbound := (h.link_lt _ hmem).2
    exact (renumber_eq_some hkn (by omega)).mpr ⟨hlt, rfl⟩

theorem WellFormed.removeMessage (h : t.WellFormed n) (hk : k < n) :
    (t.removeMessage k (n - 1)).WellFormed (n - 1) where
  topics_nodup := h.topics_nodup
  links_nodup := by
    refine links_nodup_sweep h.links_nodup fun a b a' b' ha hb heq => ?_
    obtain ⟨m, hm, rfl⟩ := Option.map_eq_some_iff.mp ha
    obtain ⟨m', hm', rfl⟩ := Option.map_eq_some_iff.mp hb
    obtain rfl : m = m' := heq
    exact renumber_inj hm hm'
  link_lt := by
    rintro ⟨i, m⟩ hmem
    obtain ⟨hlt, hmem⟩ := (mem_removeMessage h hk).mp hmem
    exact ⟨(h.link_lt _ hmem).1, hlt⟩

theorem topicOf_removeMessage (h : t.WellFormed n) (hk : k < n) (hm : m < n - 1) :
    (t.removeMessage k (n - 1)).topicOf m = t.topicOf (if m = k then n - 1 else m) := by
  refine topicOf_eq_of_onTopic h (h.removeMessage hk) fun topic => ?_
  refine exists_congr fun i => and_congr_left fun _ => ?_
  rw [mem_removeMessage h hk, and_iff_right hm]

theorem mem_unsubscribe (h : t.WellFormed n) (hi : i < t.topics.length) :
    (k, m) ∈ (t.unsubscribe i).1.index ↔
      k < t.topics.length - 1 ∧ (if k = i then t.topics.length - 1 else k, m) ∈ t.index := by
  have hil : i ≤ t.topics.length - 1 := by omega
  unfold unsubscribe
  rw [mem_sweep]
  constructor
  · rintro ⟨⟨k', m'⟩, hmem, heq⟩
    obtain ⟨k'', hk'', hpair⟩ := Option.map_eq_some_iff.mp heq
    obtain ⟨rfl, rfl⟩ := (Prod.mk.injEq ..).mp hpair
    have hk' := (h.link_lt _ hmem).1
    obtain ⟨hlt, hbefore⟩ := (renumber_eq_some hil (by omega)).mp hk''
    exact ⟨hlt, hbefore ▸ hmem⟩
  · rintro ⟨hlt, hmem⟩
    refine ⟨_, hmem, Option.map_eq_some_iff.mpr ⟨k, ?_, rfl⟩⟩
    have hbound := (h.link_lt _ hmem).1
    exact (renumber_eq_some hil (by omega)).mpr ⟨hlt, rfl⟩

theorem perm_topics_unsubscribe (h : t.topics[i]? = some topic) :
    (t.unsubscribe i).1.topics.Perm (t.topics.erase topic) := by
  refine List.Perm.cons_inv (a := topic) ?_
  exact (perm_swapDel h).trans (List.perm_cons_erase (List.mem_of_getElem? h))

theorem WellFormed.unsubscribe (h : t.WellFormed n) (hi : t.topics[i]? = some topic) :
    (t.unsubscribe i).1.WellFormed n where
  topics_nodup := (perm_topics_unsubscribe hi).nodup_iff.mpr (h.topics_nodup.erase topic)
  links_nodup := by
    refine links_nodup_sweep h.links_nodup fun a b a' b' ha hb heq => ?_
    obtain ⟨k, _, rfl⟩ := Option.map_eq_some_iff.mp ha
    obtain ⟨k', _, rfl⟩ := Option.map_eq_some_iff.mp hb
    exact heq
  link_lt := by
    rintro ⟨k, m⟩ hmem
    obtain ⟨hlt, hmem⟩ := (mem_unsubscribe h (List.getElem?_eq_some_iff.mp hi).1).mp hmem
    refine ⟨?_, (h.link_lt _ hmem).2⟩
    unfold TopicIndex.unsubscribe
    rw [length_swapDel]
    exact hlt

/-- The entries that stay are those of the other topics. -/
theorem onTopic_unsubscribe (h : t.WellFormed n) (hi : t.topics[i]? = some topic) :
    (t.unsubscribe i).1.OnTopic m other ↔ t.OnTopic m other ∧ other ≠ topic := by
  obtain ⟨hlt, _⟩ := List.getElem?_eq_some_iff.mp hi
  have hget : ∀ k, (t.unsubscribe i).1.topics[k]? =
      if k < t.topics.length - 1 then t.topics[if k = i then t.topics.length - 1 else k]? else none :=
    fun k => getElem?_swapDel hlt
  unfold OnTopic
  constructor
  · rintro ⟨k, hmem, htopic⟩
    obtain ⟨hk, hmem⟩ := (mem_unsubscribe h hlt).mp hmem
    rw [hget, if_pos hk] at htopic
    refine ⟨⟨_, hmem, htopic⟩, ?_⟩
    rintro rfl
    have hsame := (List.getElem?_inj hlt h.topics_nodup).mp (hi.trans htopic.symm)
    split at hsame <;> omega
  · rintro ⟨⟨k, hmem, htopic⟩, hne⟩
    have hki : k ≠ i := by
      rintro rfl
      exact hne (Option.some.inj (htopic.symm.trans hi))
    have hk := (h.link_lt _ hmem).1
    by_cases hlast : k = t.topics.length - 1
    · refine ⟨i, (mem_unsubscribe h hlt).mpr ⟨by omega, ?_⟩, ?_⟩
      · rw [if_pos rfl, ← hlast]
        exact hmem
      · rw [hget, if_pos (by omega), if_pos rfl, ← hlast]
        exact htopic
    · refine ⟨k, (mem_unsubscribe h hlt).mpr ⟨by omega, ?_⟩, ?_⟩
      · rw [if_neg hki]
        exact hmem
      · rw [hget, if_pos (by omega), if_neg hki]
        exact htopic

theorem topicOf_unsubscribe (h : t.WellFormed n) (hi : t.topics[i]? = some topic) :
    (t.unsubscribe i).1.topicOf m = (t.topicOf m).filter (fun other => decide (other ≠ topic)) := by
  refine Option.ext fun other => ?_
  rw [topicOf_eq_some (h.unsubscribe hi), onTopic_unsubscribe h hi, Option.filter_eq_some_iff,
    topicOf_eq_some h, decide_eq_true_iff]

theorem topics_unsubscribe (h : t.WellFormed n) (hi : t.topics[i]? = some topic) :
    (t.unsubscribe i).1.topics.toFinset = t.topics.toFinset.erase topic := by
  ext other
  rw [List.mem_toFinset, (perm_topics_unsubscribe hi).mem_iff, h.topics_nodup.mem_erase_iff,
    Finset.mem_erase, List.mem_toFinset]

/-! ### The messages on a topic -/

theorem mem_messagesOn (h : t.WellFormed n) (hi : t.topics[i]? = some topic) :
    m ∈ t.messagesOn i ↔ t.topicOf m = some topic := by
  rw [topicOf_eq_some h]
  unfold messagesOn OnTopic
  constructor
  · intro hon
    obtain ⟨⟨k, m'⟩, hin, rfl⟩ := List.mem_map.mp hon
    obtain ⟨hlink, hk⟩ := List.mem_filter.mp hin
    obtain rfl : k = i := of_decide_eq_true hk
    exact ⟨k, hlink, hi⟩
  · rintro ⟨k, hmem, htopic⟩
    have hlt := (h.link_lt _ hmem).1
    obtain rfl := (List.getElem?_inj hlt h.topics_nodup).mp (htopic.trans hi.symm)
    exact List.mem_map.mpr ⟨_, List.mem_filter.mpr ⟨hmem, decide_eq_true rfl⟩, rfl⟩

theorem nodup_messagesOn (h : t.WellFormed n) : (t.messagesOn i).Nodup :=
  h.links_nodup.sublist (List.filter_sublist.map Prod.snd)

theorem unsubscribe_messages (t : TopicIndex) (i : ℕ) :
    (t.unsubscribe i).2 = (t.messagesOn i).reverse := by
  unfold unsubscribe messagesOn
  dsimp only
  rw [sweep_deleted, List.map_reverse]
  congr 2
  refine List.filter_congr fun link _ => ?_
  rw [Option.isNone_map, Bool.eq_iff_iff, Option.isNone_iff_eq_none, renumber_eq_none,
    decide_eq_true_iff]

end TopicIndex

end LogosDelivery.Rest
