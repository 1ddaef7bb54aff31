import LogosDelivery.Node.SubscriptionManager

/-! # The subscriptions of a relay node agree

Every operation on the subscriptions is a sequence of the four operations on one shard, each of
which keeps three things: the relay is subscribed to the shards that have an entry (`Meshed`),
every entry is wanted, and the events for a content topic alternate and tell whether it is there
(`Told`). -/

namespace LogosDelivery.Node

open Lib
open StoreSync (PubsubTopic ContentTopic)

variable {σ : Type} {G : GossipSub σ}

/-! ### The relay -/

namespace WakuRelay

/-- A topic of the mesh has the handler that the relay wrapped for it, and a validator. -/
structure Sound (G : GossipSub σ) (w : WakuRelay σ) : Prop where
  handlers : ∀ t, G.topics w.gossip t = (w.topicHandlers.lookup t).toList
  validated : ∀ t, t ∈ w.topicValidator ↔ t ∈ w.topicHandlers

variable {w : WakuRelay σ} {topic t : PubsubTopic}

theorem new_sound : Sound G (new G) where
  handlers t := by simp [new, G.topics_init]
  validated t := by simp [new]

theorem Sound.isSubscribed_iff (h : Sound G w) : w.isSubscribed G t = true ↔ t ∈ w.topicHandlers := by
  rw [isSubscribed, h.handlers, Table.mem_iff]
  cases w.topicHandlers.lookup t with
  | none => simp
  | some handler => simp

theorem Sound.subscribe (h : Sound G w) (hnot : w.isSubscribed G topic = false) :
    Sound G (w.subscribe G topic) where
  handlers t := by
    have hnone : w.topicHandlers.lookup topic = none := by
      rw [AList.lookup_eq_none, ← h.isSubscribed_iff, hnot]
      decide
    simp only [WakuRelay.subscribe]
    rw [G.topics_subscribe, Table.lookup_insert_eq, h.handlers, hnone]
    by_cases ht : t = topic
    · rw [if_pos ht, if_pos ht]
      rfl
    · rw [if_neg ht, if_neg ht, h.handlers]
  validated t := by
    simp only [WakuRelay.subscribe]
    rw [Finset.mem_insert, AList.mem_insert, h.validated]

theorem mem_subscribe : t ∈ (w.subscribe G topic).topicHandlers ↔ t = topic ∨ t ∈ w.topicHandlers :=
  AList.mem_insert w.topicHandlers

/-- A sound relay that is subscribed to the topic drops it from all its tables. -/
theorem Sound.unsubscribe (h : Sound G w) (hsub : w.isSubscribed G topic = true) :
    Sound G (w.unsubscribe G topic) ∧
      ∀ t, t ∈ (w.unsubscribe G topic).topicHandlers ↔ t ≠ topic ∧ t ∈ w.topicHandlers := by
  have hmem := h.isSubscribed_iff.mp hsub
  obtain ⟨handler, hhandler⟩ := Table.mem_iff.mp hmem
  have hvalid : ¬ topic ∉ w.topicValidator := fun hnot => hnot ((h.validated topic).mpr hmem)
  simp only [WakuRelay.unsubscribe, if_neg hvalid, hhandler]
  refine ⟨⟨?_, ?_⟩, fun t => AList.mem_erase⟩
  · intro t
    simp only
    rw [G.topics_unsubscribe, Table.lookup_erase_eq, h.handlers, hhandler]
    by_cases ht : t = topic
    · rw [if_pos ht, if_pos ht]
      simp
    · rw [if_neg ht, if_neg ht, h.handlers]
  · intro t
    rw [Finset.mem_erase, AList.mem_erase, h.validated]

end WakuRelay

/-! ### Events -/

/-- Whether the event is about the content topic on the shard, and which of the two it is. -/
def SubscriptionEvent.tells (shard : PubsubTopic) (contentTopic : ContentTopic) :
    SubscriptionEvent → Option Bool
  | .contentTopicSubscribed s t => if s = shard ∧ t = contentTopic then some true else none
  | .contentTopicUnsubscribed s t => if s = shard ∧ t = contentTopic then some false else none
  | _ => none

/-- The events about the content topic on the shard, `true` for a subscribed one. -/
def contentEvents (events : List SubscriptionEvent) (shard : PubsubTopic)
    (contentTopic : ContentTopic) : List Bool :=
  events.filterMap (SubscriptionEvent.tells shard contentTopic)

/-- The values alternate, starting with `true`. -/
def Alternates (bs : List Bool) : Prop := ∀ i b, bs[i]? = some b → b = decide (i % 2 = 0)

/-- The values alternate and the last of them is the given one (no value counts as `false`). -/
structure Told (bs : List Bool) (b : Bool) : Prop where
  alternates : Alternates bs
  parity : bs.length % 2 = 1 ↔ b = true

theorem told_nil : Told [] false where
  alternates i b h := by simp at h
  parity := by simp

theorem Told.concat {bs : List Bool} {b : Bool} (h : Told bs (!b)) : Told (bs ++ [b]) b := by
  have hb : b = decide (bs.length % 2 = 0) := by
    have hparity := h.parity
    cases b with
    | true =>
        simp only [Bool.not_true, Bool.false_eq_true, iff_false] at hparity
        rw [eq_comm, decide_eq_true_eq]
        omega
    | false =>
        simp only [Bool.not_false, iff_true] at hparity
        rw [eq_comm, decide_eq_false_iff_not]
        omega
  constructor
  · intro i b' hi
    rcases Nat.lt_trichotomy i bs.length with hlt | heq | hgt
    · rw [List.getElem?_append_left hlt] at hi
      exact h.alternates i b' hi
    · rw [heq, List.getElem?_concat_length, Option.some.injEq] at hi
      rw [← hi, heq]
      exact hb
    · rw [List.getElem?_eq_none (by simp; omega)] at hi
      cases hi
  · rw [List.length_append, List.length_singleton, hb, decide_eq_true_eq]
    omega

/-- The last value. -/
theorem Told.getLast? {bs : List Bool} {b : Bool} (h : Told bs b) :
    bs.getLast? = some true ↔ b = true := by
  rw [← h.parity, List.getLast?_eq_getElem?]
  constructor
  · intro hlast
    have heven := of_decide_eq_true (h.alternates _ _ hlast).symm
    have hpos : 0 < bs.length := by
      by_contra hzero
      rw [List.length_eq_zero_iff.mp (Nat.eq_zero_of_not_pos hzero)] at hlast
      cases hlast
    omega
  · intro hodd
    have hlt : bs.length - 1 < bs.length := by omega
    have hget := List.getElem?_eq_getElem hlt
    rw [hget, h.alternates _ _ hget, Option.some.injEq, decide_eq_true_eq]
    omega

namespace SubscriptionManager

/-! ### The invariant -/

/-- There is a relay, and it is subscribed to the shards of the set. -/
def Meshed (G : GossipSub σ) (relay : Option (WakuRelay σ)) (shards : PubsubTopic → Prop) : Prop :=
  ∃ w, relay = some w ∧ WakuRelay.Sound G w ∧ ∀ t, t ∈ w.topicHandlers ↔ shards t

/-- The relay is on the shards that have an entry, and every entry is wanted. -/
structure Joined (G : GossipSub σ) (m : SubscriptionManager σ) : Prop where
  mesh : Meshed G m.relay (fun shard => shard ∈ m.shards)
  wanted : ∀ shard entry, m.shards.lookup shard = some entry → entry.wanted = true

structure Consistent (G : GossipSub σ) (m : SubscriptionManager σ) : Prop extends Joined G m where
  told : ∀ shard topic,
    Told (contentEvents m.events shard topic) (m.isContentSubscribed shard topic)

theorem new_consistent : Consistent G (new (some (WakuRelay.new G))) where
  mesh := ⟨_, rfl, WakuRelay.new_sound, fun t => by simp [WakuRelay.new, new]⟩
  wanted shard entry h := by simp [new] at h
  told shard topic := by simpa [new, contentEvents, isContentSubscribed] using told_nil

variable {m : SubscriptionManager σ} {shard : PubsubTopic} {shards : PubsubTopic → Prop}

/-- After a relay subscribe the relay is subscribed to the shard too. -/
theorem Meshed.doRelaySubscribe (h : Meshed G m.relay shards) (shard : PubsubTopic) :
    Meshed G (m.doRelaySubscribe G shard).relay (fun t => t = shard ∨ shards t) := by
  obtain ⟨w, hw, hsound, hshards⟩ := h
  unfold SubscriptionManager.doRelaySubscribe
  rw [hw]
  simp only
  split_ifs with hsub
  · refine ⟨w, hw, hsound, fun t => ?_⟩
    rw [hshards]
    have hin := (hshards shard).mp (hsound.isSubscribed_iff.mp hsub)
    constructor
    · exact Or.inr
    · rintro (rfl | ht)
      · exact hin
      · exact ht
  · refine ⟨_, rfl, hsound.subscribe (Bool.eq_false_of_not_eq_true hsub), fun t => ?_⟩
    rw [WakuRelay.mem_subscribe, hshards]

/-- After a relay unsubscribe the relay is not subscribed to the shard. -/
theorem Meshed.doRelayUnsubscribe (h : Meshed G m.relay shards) (shard : PubsubTopic) :
    Meshed G (m.doRelayUnsubscribe G shard).relay (fun t => t ≠ shard ∧ shards t) := by
  obtain ⟨w, hw, hsound, hshards⟩ := h
  unfold SubscriptionManager.doRelayUnsubscribe
  rw [hw]
  simp only
  split_ifs with hsub
  · obtain ⟨hsound', hmem⟩ := hsound.unsubscribe hsub
    refine ⟨_, rfl, hsound', fun t => ?_⟩
    rw [hmem, hshards]
  · refine ⟨w, hw, hsound, fun t => ?_⟩
    rw [hshards]
    refine ⟨fun ht => ⟨?_, ht⟩, And.right⟩
    rintro rfl
    exact hsub (hsound.isSubscribed_iff.mpr ((hshards t).mpr ht))

/-! ### What the parts of the operations leave alone -/

@[simp] theorem doRelaySubscribe_shards : (m.doRelaySubscribe G shard).shards = m.shards := by
  unfold doRelaySubscribe
  cases m.relay with
  | none => rfl
  | some w =>
      simp only
      split_ifs <;> rfl

@[simp] theorem doRelayUnsubscribe_shards : (m.doRelayUnsubscribe G shard).shards = m.shards := by
  unfold doRelayUnsubscribe
  cases m.relay with
  | none => rfl
  | some w =>
      simp only
      split_ifs <;> rfl

theorem contentEvents_concat (events : List SubscriptionEvent) (event : SubscriptionEvent)
    (s : PubsubTopic) (t : ContentTopic) :
    contentEvents (events ++ [event]) s t = contentEvents events s t ++ (event.tells s t).toList := by
  rw [contentEvents, List.filterMap_append]
  cases h : event.tells s t with
  | none => simp [contentEvents, h]
  | some b => simp [contentEvents, h]

@[simp] theorem doRelaySubscribe_told (s : PubsubTopic) (t : ContentTopic) :
    contentEvents (m.doRelaySubscribe G shard).events s t = contentEvents m.events s t := by
  unfold doRelaySubscribe
  cases m.relay with
  | none => rfl
  | some w =>
      simp only
      split_ifs
      · rfl
      · simp [emit, contentEvents_concat, SubscriptionEvent.tells]

@[simp] theorem doRelayUnsubscribe_told (s : PubsubTopic) (t : ContentTopic) :
    contentEvents (m.doRelayUnsubscribe G shard).events s t = contentEvents m.events s t := by
  unfold doRelayUnsubscribe
  cases m.relay with
  | none => rfl
  | some w =>
      simp only
      split_ifs
      · simp [emit, contentEvents_concat, SubscriptionEvent.tells]
      · rfl

/-! ### Entries -/

variable {entry : ShardSubscription} {contentTopic : ContentTopic}

/-- With a wanted entry every entry is still wanted. -/
theorem Joined.wanted_setEntry (h : Joined G m) (hwanted : entry.wanted = true) {s : PubsubTopic}
    {e : ShardSubscription} (hlookup : (m.setEntry shard entry).shards.lookup s = some e) :
    e.wanted = true := by
  simp only [SubscriptionManager.setEntry, wakeup] at hlookup
  rw [Table.lookup_insert_eq] at hlookup
  by_cases hs : s = shard
  · rw [if_pos hs] at hlookup
    rw [← Option.some.inj hlookup]
    exact hwanted
  · rw [if_neg hs] at hlookup
    exact h.wanted s e hlookup

/-- A wanted entry is put and the relay subscribed. -/
theorem Joined.setEntry (h : Joined G m) (hwanted : entry.wanted = true) :
    Joined G ((m.setEntry shard entry).doRelaySubscribe G shard) where
  mesh := by
    obtain ⟨w, hw, hsound, hshards⟩ :=
      Meshed.doRelaySubscribe (m := m.setEntry shard entry) h.mesh shard
    refine ⟨w, hw, hsound, fun t => ?_⟩
    rw [hshards, doRelaySubscribe_shards]
    exact (AList.mem_insert _).symm
  wanted := by
    intro s e hlookup
    rw [doRelaySubscribe_shards] at hlookup
    exact h.wanted_setEntry hwanted hlookup

/-- The relay of a shard that has an entry is subscribed already. -/
theorem Joined.doRelaySubscribe (h : Joined G m) (hmem : shard ∈ m.shards) :
    Joined G (m.doRelaySubscribe G shard) where
  mesh := by
    obtain ⟨w, hw, hsound, hshards⟩ := h.mesh.doRelaySubscribe shard
    refine ⟨w, hw, hsound, fun t => ?_⟩
    rw [hshards, doRelaySubscribe_shards]
    refine ⟨?_, Or.inr⟩
    rintro (rfl | ht)
    · exact hmem
    · exact ht
  wanted := by
    intro s e hlookup
    rw [doRelaySubscribe_shards] at hlookup
    exact h.wanted s e hlookup

theorem Joined.reduceEntry (h : Joined G m) (hmem : shard ∈ m.shards) :
    Joined G (m.reduceEntry G shard entry) := by
  unfold SubscriptionManager.reduceEntry
  split_ifs with hwanted
  · refine ⟨?_, ?_⟩
    · obtain ⟨w, hw, hsound, hshards⟩ := h.mesh
      refine ⟨w, hw, hsound, fun t => ?_⟩
      rw [hshards]
      simp only [SubscriptionManager.setEntry, wakeup]
      rw [AList.mem_insert]
      refine ⟨Or.inr, ?_⟩
      rintro (rfl | ht)
      · exact hmem
      · exact ht
    · exact fun s e hlookup => h.wanted_setEntry hwanted hlookup
  · refine ⟨?_, ?_⟩
    · obtain ⟨w, hw, hsound, hshards⟩ := Meshed.doRelayUnsubscribe
        (m := { m with shards := m.shards.erase shard }.wakeup) h.mesh shard
      refine ⟨w, hw, hsound, fun t => ?_⟩
      rw [hshards, doRelayUnsubscribe_shards]
      exact AList.mem_erase.symm
    · intro s e hlookup
      rw [doRelayUnsubscribe_shards] at hlookup
      simp only [wakeup] at hlookup
      rw [Table.lookup_erase_eq] at hlookup
      split_ifs at hlookup
      exact h.wanted s e hlookup

theorem isContentSubscribed_of_lookup (h : m.shards.lookup shard = some entry) (t : ContentTopic) :
    m.isContentSubscribed shard t = decide (t ∈ entry.contentTopics) := by
  rw [isContentSubscribed, h]

theorem isContentSubscribed_of_none (h : m.shards.lookup shard = none) (t : ContentTopic) :
    m.isContentSubscribed shard t = false := by
  rw [isContentSubscribed, h]

/-- What is subscribed depends on the entries only. -/
theorem isContentSubscribed_congr {m' : SubscriptionManager σ} (h : m'.shards = m.shards)
    (s : PubsubTopic) (t : ContentTopic) :
    m'.isContentSubscribed s t = m.isContentSubscribed s t := by
  rw [isContentSubscribed, isContentSubscribed, h]

theorem isContentSubscribed_setEntry (s : PubsubTopic) (t : ContentTopic) :
    (m.setEntry shard entry).isContentSubscribed s t =
      if s = shard then decide (t ∈ entry.contentTopics) else m.isContentSubscribed s t := by
  have hlookup : (m.setEntry shard entry).shards.lookup s =
      if s = shard then some entry else m.shards.lookup s := Table.lookup_insert_eq _ _ _ _
  unfold isContentSubscribed
  rw [hlookup]
  by_cases hs : s = shard
  · rw [if_pos hs, if_pos hs]
  · rw [if_neg hs, if_neg hs]

/-- An entry that nothing wants has no content topics, so that its removal drops none. -/
theorem isContentSubscribed_reduceEntry (s : PubsubTopic) (t : ContentTopic) :
    (m.reduceEntry G shard entry).isContentSubscribed s t =
      if s = shard then decide (t ∈ entry.contentTopics) else m.isContentSubscribed s t := by
  unfold reduceEntry
  split_ifs with hwanted hs hs
  · rw [isContentSubscribed_setEntry, if_pos hs]
  · rw [isContentSubscribed_setEntry, if_neg hs]
  · have hempty : entry.contentTopics = ∅ := by
      rw [ShardSubscription.wanted, Bool.or_eq_true, not_or, decide_eq_true_eq] at hwanted
      exact Finset.card_eq_zero.mp (Nat.eq_zero_of_not_pos hwanted.1)
    rw [hs, hempty, isContentSubscribed_of_none]
    · simp
    · rw [doRelayUnsubscribe_shards]
      exact AList.lookup_erase shard m.shards
  · rw [isContentSubscribed, isContentSubscribed, doRelayUnsubscribe_shards]
    simp only [wakeup]
    rw [Table.lookup_erase_eq, if_neg hs]

@[simp] theorem reduceEntry_told (s : PubsubTopic) (t : ContentTopic) :
    contentEvents (m.reduceEntry G shard entry).events s t = contentEvents m.events s t := by
  unfold reduceEntry
  split_ifs
  · rfl
  · exact doRelayUnsubscribe_told s t

/-! ### Operations on one shard -/

theorem subscribeShard_content (s : PubsubTopic) (t : ContentTopic) :
    (m.subscribeShard G shard).1.isContentSubscribed s t = m.isContentSubscribed s t := by
  unfold subscribeShard
  rw [isContentSubscribed_congr doRelaySubscribe_shards]
  cases hlookup : m.shards.lookup shard with
  | some entry =>
      simp only
      split_ifs
      · rfl
      · rw [isContentSubscribed_setEntry]
        split_ifs with hs
        · rw [hs, isContentSubscribed_of_lookup hlookup]
        · rfl
  | none =>
      simp only
      rw [isContentSubscribed_setEntry]
      split_ifs with hs
      · rw [hs, isContentSubscribed_of_none hlookup]
        simp
      · rfl

theorem subscribeShard_told (s : PubsubTopic) (t : ContentTopic) :
    contentEvents (m.subscribeShard G shard).1.events s t = contentEvents m.events s t := by
  unfold subscribeShard
  rw [doRelaySubscribe_told]
  cases m.shards.lookup shard with
  | some entry =>
      simp only
      split_ifs <;> rfl
  | none => rfl

theorem Consistent.subscribeShard (h : Consistent G m) (shard : PubsubTopic) :
    Consistent G (m.subscribeShard G shard).1 where
  toJoined := by
    unfold SubscriptionManager.subscribeShard
    cases hlookup : m.shards.lookup shard with
    | some entry =>
        simp only
        split_ifs
        · exact h.toJoined.doRelaySubscribe (Table.mem_iff.mpr ⟨entry, hlookup⟩)
        · exact h.toJoined.setEntry (Bool.or_true _)
    | none => exact h.toJoined.setEntry (Bool.or_true _)
  told s t := by
    rw [subscribeShard_told, subscribeShard_content]
    exact h.told s t

theorem Consistent.unsubscribeShard (h : Consistent G m) (shard : PubsubTopic) :
    Consistent G (m.unsubscribeShard G shard).1 := by
  unfold SubscriptionManager.unsubscribeShard
  cases hlookup : m.shards.lookup shard with
  | none => exact h
  | some entry =>
      simp only
      split_ifs
      · refine ⟨h.toJoined.reduceEntry (Table.mem_iff.mpr ⟨entry, hlookup⟩), fun s t => ?_⟩
        rw [reduceEntry_told, isContentSubscribed_reduceEntry]
        split_ifs with hs
        · rw [← isContentSubscribed_of_lookup hlookup, hs]
          exact h.told shard t
        · exact h.told s t
      · exact h

theorem emit_content (event : SubscriptionEvent) (s : PubsubTopic) (t : ContentTopic) :
    (m.emit event).isContentSubscribed s t = m.isContentSubscribed s t := rfl

theorem Joined.emit (h : Joined G m) (event : SubscriptionEvent) : Joined G (m.emit event) :=
  ⟨h.mesh, h.wanted⟩

/-- What is subscribed after a content topic was subscribed on a shard. -/
theorem subscribe_content (s : PubsubTopic) (t : ContentTopic) :
    (m.subscribe G shard contentTopic).1.isContentSubscribed s t =
      if s = shard ∧ t = contentTopic then true else m.isContentSubscribed s t := by
  have hset {entry : ShardSubscription} {event : SubscriptionEvent} :
      (((m.setEntry shard entry).doRelaySubscribe G shard).emit event).isContentSubscribed s t =
        (m.setEntry shard entry).isContentSubscribed s t :=
    isContentSubscribed_congr doRelaySubscribe_shards s t
  unfold subscribe
  cases hlookup : m.shards.lookup shard with
  | some entry =>
      have hold := isContentSubscribed_of_lookup hlookup
      simp only
      split_ifs with hmem hst hst
      · rw [isContentSubscribed_congr doRelaySubscribe_shards, hst.1, hst.2, hold]
        exact decide_eq_true hmem
      · rw [isContentSubscribed_congr doRelaySubscribe_shards]
      · rw [hset, isContentSubscribed_setEntry, if_pos hst.1, hst.2]
        exact decide_eq_true (Finset.mem_insert_self _ _)
      · rw [hset, isContentSubscribed_setEntry]
        split_ifs with hs
        · have ht : t ≠ contentTopic := fun ht => hst ⟨hs, ht⟩
          rw [hs, hold]
          exact decide_eq_decide.mpr (Finset.mem_insert.trans (or_iff_right ht))
        · rfl
  | none =>
      have hold := isContentSubscribed_of_none hlookup
      simp only
      rw [hset, isContentSubscribed_setEntry]
      split_ifs with hs hst hst
      · exact decide_eq_true (Finset.mem_singleton.mpr hst.2)
      · rw [hs, hold]
        exact decide_eq_false (fun ht => hst ⟨hs, Finset.mem_singleton.mp ht⟩)
      · exact absurd hst.1 hs
      · rfl

/-- What is subscribed after a content topic was unsubscribed on a shard. -/
theorem unsubscribe_content (s : PubsubTopic) (t : ContentTopic) :
    (m.unsubscribe G shard contentTopic).1.isContentSubscribed s t =
      if s = shard ∧ t = contentTopic then false else m.isContentSubscribed s t := by
  unfold unsubscribe
  cases hlookup : m.shards.lookup shard with
  | some entry =>
      have hold := isContentSubscribed_of_lookup hlookup
      simp only
      split_ifs with hmem hst hst
      · rw [emit_content, isContentSubscribed_reduceEntry, if_pos hst.1, hst.2]
        exact decide_eq_false (Finset.notMem_erase _ _)
      · rw [emit_content, isContentSubscribed_reduceEntry]
        split_ifs with hs
        · have ht : t ≠ contentTopic := fun ht => hst ⟨hs, ht⟩
          rw [hs, hold]
          exact decide_eq_decide.mpr (Finset.mem_erase.trans (and_iff_right ht))
        · rfl
      · rw [hst.1, hst.2, hold]
        exact decide_eq_false hmem
      · rfl
  | none =>
      have hold := isContentSubscribed_of_none hlookup
      simp only
      split_ifs with hst
      · rw [hst.1, hold]
      · rfl

/-- An event that tells a change of one content topic on one shard keeps the events right. -/
theorem told_emit {m' : SubscriptionManager σ} {event : SubscriptionEvent} {b : Bool}
    (htold : ∀ s t, Told (contentEvents m.events s t) (m.isContentSubscribed s t))
    (hbefore : m.isContentSubscribed shard contentTopic = !b)
    (htells : ∀ s t, event.tells s t = if shard = s ∧ contentTopic = t then some b else none)
    (hevents : ∀ s t, contentEvents m'.events s t = contentEvents m.events s t)
    (hcontent : ∀ s t, (m'.emit event).isContentSubscribed s t =
      if s = shard ∧ t = contentTopic then b else m.isContentSubscribed s t)
    (s : PubsubTopic) (t : ContentTopic) :
    Told (contentEvents (m'.emit event).events s t) ((m'.emit event).isContentSubscribed s t) := by
  rw [hcontent, emit, contentEvents_concat, hevents, htells]
  by_cases hst : s = shard ∧ t = contentTopic
  · rw [if_pos ⟨hst.1.symm, hst.2.symm⟩, if_pos hst, hst.1, hst.2]
    exact Told.concat (hbefore ▸ htold shard contentTopic)
  · rw [if_neg (fun hst' => hst ⟨hst'.1.symm, hst'.2.symm⟩), if_neg hst, Option.toList_none,
      List.append_nil]
    exact htold s t

/-- The entry of a shard that just got a content topic is wanted. -/
theorem wanted_insert (topics : Finset ContentTopic) (direct : Bool) :
    ShardSubscription.wanted ⟨insert contentTopic topics, direct⟩ = true := by
  rw [ShardSubscription.wanted, Bool.or_eq_true, decide_eq_true_eq]
  exact Or.inl (Finset.card_pos.mpr (Finset.insert_nonempty _ _))

theorem Consistent.subscribe (h : Consistent G m) (shard : PubsubTopic)
    (contentTopic : ContentTopic) : Consistent G (m.subscribe G shard contentTopic).1 := by
  have hcontent : ∀ s t, (m.subscribe G shard contentTopic).1.isContentSubscribed s t =
      if s = shard ∧ t = contentTopic then true else m.isContentSubscribed s t := subscribe_content
  unfold SubscriptionManager.subscribe at hcontent ⊢
  cases hlookup : m.shards.lookup shard with
  | some entry =>
      simp only [hlookup] at hcontent ⊢
      by_cases hmem : contentTopic ∈ entry.contentTopics
      · simp only [if_pos hmem]
        refine ⟨h.toJoined.doRelaySubscribe (Table.mem_iff.mpr ⟨entry, hlookup⟩), fun s t => ?_⟩
        rw [doRelaySubscribe_told, isContentSubscribed_congr doRelaySubscribe_shards]
        exact h.told s t
      · simp only [if_neg hmem] at hcontent ⊢
        refine ⟨(h.toJoined.setEntry (wanted_insert _ _)).emit _, ?_⟩
        refine told_emit (b := true) h.told ?_ (fun _ _ => rfl) (fun s t => ?_) hcontent
        · rw [isContentSubscribed_of_lookup hlookup]
          exact decide_eq_false hmem
        · exact doRelaySubscribe_told s t
  | none =>
      simp only [hlookup] at hcontent ⊢
      refine ⟨(h.toJoined.setEntry (wanted_insert ∅ false)).emit _, ?_⟩
      refine told_emit (b := true) h.told ?_ (fun _ _ => rfl) (fun s t => ?_) hcontent
      · exact isContentSubscribed_of_none hlookup _
      · exact doRelaySubscribe_told s t

theorem Consistent.unsubscribe (h : Consistent G m) (shard : PubsubTopic)
    (contentTopic : ContentTopic) : Consistent G (m.unsubscribe G shard contentTopic).1 := by
  have hcontent : ∀ s t, (m.unsubscribe G shard contentTopic).1.isContentSubscribed s t =
      if s = shard ∧ t = contentTopic then false else m.isContentSubscribed s t :=
    unsubscribe_content
  unfold SubscriptionManager.unsubscribe at hcontent ⊢
  cases hlookup : m.shards.lookup shard with
  | some entry =>
      simp only [hlookup] at hcontent ⊢
      by_cases hmem : contentTopic ∈ entry.contentTopics
      · simp only [if_pos hmem] at hcontent ⊢
        refine ⟨(h.toJoined.reduceEntry (Table.mem_iff.mpr ⟨entry, hlookup⟩)).emit _, ?_⟩
        refine told_emit (b := false) h.told ?_ (fun _ _ => rfl) (fun s t => ?_) hcontent
        · rw [isContentSubscribed_of_lookup hlookup]
          exact decide_eq_true hmem
        · exact reduceEntry_told s t
      · simp only [if_neg hmem]
        exact h
  | none => exact h

/-! ### Operations on several shards -/

theorem Consistent.subscribeTargets (topic : ContentTopic) (targets : List PubsubTopic) :
    ∀ (added : List PubsubTopic) (m : SubscriptionManager σ), Consistent G m →
      Consistent G (m.subscribeTargets G topic targets added).1 := by
  have hdrop (added : List PubsubTopic) : ∀ m : SubscriptionManager σ, Consistent G m →
      Consistent G (added.foldl (fun m prev => (m.unsubscribe G prev topic).1) m) := by
    induction added with
    | nil => exact fun m h => h
    | cons prev added ih => exact fun m h => ih _ (h.unsubscribe prev topic)
  induction targets with
  | nil => exact fun added m h => h
  | cons target targets ih =>
      intro added m h
      have hnext := h.subscribe target topic
      unfold SubscriptionManager.subscribeTargets
      generalize m.subscribe G target topic = result at hnext
      obtain ⟨m', r⟩ := result
      cases r with
      | error e => exact hdrop added m' hnext
      | ok u => exact ih _ m' hnext

theorem Consistent.unsubscribeTargets (topic : ContentTopic) (targets : List PubsubTopic) :
    ∀ (firstError : Except String Unit) (m : SubscriptionManager σ), Consistent G m →
      Consistent G (m.unsubscribeTargets G topic targets firstError).1 := by
  induction targets with
  | nil => exact fun firstError m h => h
  | cons target targets ih =>
      intro firstError m h
      have hnext := h.unsubscribe target topic
      unfold SubscriptionManager.unsubscribeTargets
      generalize m.unsubscribe G target topic = result at hnext
      obtain ⟨m', r⟩ := result
      cases r <;> cases firstError <;> exact ih _ m' hnext

theorem Consistent.unsubscribeSnapshot (shard : PubsubTopic) (snapshot : List ContentTopic) :
    ∀ m : SubscriptionManager σ, Consistent G m →
      Consistent G (m.unsubscribeSnapshot G shard snapshot).1 := by
  induction snapshot with
  | nil => exact fun m h => h.unsubscribeShard shard
  | cons contentTopic snapshot ih =>
      intro m h
      have hnext := h.unsubscribe shard contentTopic
      unfold SubscriptionManager.unsubscribeSnapshot
      generalize m.unsubscribe G shard contentTopic = result at hnext
      obtain ⟨m', r⟩ := result
      cases r with
      | error e => exact hnext
      | ok u => exact ih m' hnext

theorem Consistent.subscribeShards (clusterId : UInt16) (shards : List UInt16) :
    ∀ m : SubscriptionManager σ, Consistent G m →
      Consistent G (m.subscribeShards G clusterId shards).1 := by
  induction shards with
  | nil => exact fun m h => h
  | cons shardId shards ih =>
      intro m h
      have hnext := h.subscribeShard (relayShard clusterId shardId)
      unfold SubscriptionManager.subscribeShards
      simp only
      generalize m.subscribeShard G (relayShard clusterId shardId) = result at hnext
      obtain ⟨m', r⟩ := result
      cases r with
      | error e => exact hnext
      | ok u => exact ih m' hnext

variable {conf : ShardingConf} {order : IterationOrder ContentTopic}

/-- Every operation keeps the subscriptions together. -/
theorem Consistent.perform (h : Consistent G m) (op : Op) :
    Consistent G (m.perform G conf order op).1 := by
  cases op with
  | subscribeShard shard => exact h.subscribeShard shard
  | unsubscribeShard shard => exact h.unsubscribeShard shard
  | subscribe shard contentTopic => exact h.subscribe shard contentTopic
  | unsubscribe shard contentTopic => exact h.unsubscribe shard contentTopic
  | subscribeTopic topic =>
      simp only [SubscriptionManager.perform, SubscriptionManager.subscribeTopic]
      cases getShardForContentTopic conf topic with
      | error e => exact h
      | ok shard => exact Consistent.subscribeTargets topic _ [] m h
  | unsubscribeTopic topic =>
      simp only [SubscriptionManager.perform, SubscriptionManager.unsubscribeTopic]
      cases getShardForContentTopic conf topic with
      | error e => exact h
      | ok shard => exact Consistent.unsubscribeTargets topic _ _ m h
  | unsubscribeAll shard =>
      simp only [SubscriptionManager.perform, SubscriptionManager.unsubscribeAll]
      cases m.shards.lookup shard with
      | none => exact Consistent.unsubscribeSnapshot shard [] m h
      | some sub => exact Consistent.unsubscribeSnapshot shard _ m h
  | subscribeConfiguredShards clusterId shards =>
      simp only [SubscriptionManager.perform, SubscriptionManager.subscribeConfiguredShards]
      split_ifs
      · exact h
      · exact Consistent.subscribeShards clusterId shards m h

/-! ### What a content-topic subscribe leaves -/

/-- A subscribe on one shard does not fail. -/
theorem subscribe_ok (m : SubscriptionManager σ) (shard : PubsubTopic)
    (contentTopic : ContentTopic) : (m.subscribe G shard contentTopic).2 = .ok () := by
  unfold subscribe
  cases m.shards.lookup shard with
  | none => rfl
  | some entry =>
      simp only
      split_ifs <;> rfl

/-- The loop over the target shards subscribes the topic on each of them. -/
theorem subscribeTargets_content (topic : ContentTopic) (targets : List PubsubTopic) :
    ∀ (added : List PubsubTopic) (m : SubscriptionManager σ) (s : PubsubTopic),
      s ∈ targets ∨ m.isContentSubscribed s topic = true →
      (m.subscribeTargets G topic targets added).1.isContentSubscribed s topic = true := by
  induction targets with
  | nil =>
      rintro added m s (hs | hs)
      · cases hs
      · exact hs
  | cons target targets ih =>
      intro added m s hs
      have hok : (m.subscribe G target topic).2 = .ok () := subscribe_ok m target topic
      have hcontent : (m.subscribe G target topic).1.isContentSubscribed s topic =
          if s = target ∧ topic = topic then true else m.isContentSubscribed s topic :=
        subscribe_content s topic
      unfold SubscriptionManager.subscribeTargets
      generalize m.subscribe G target topic = result at hok hcontent
      obtain ⟨m', r⟩ := result
      cases hok
      apply ih
      rw [hcontent]
      by_cases heq : s = target
      · exact Or.inr (if_pos ⟨heq, rfl⟩)
      · rw [if_neg (fun h => heq h.1)]
        exact hs.imp_left (fun hmem => (List.mem_cons.mp hmem).resolve_left heq)

/-- A subscribe of a content topic, by shard or by autosharding, that returns ok. -/
theorem perform_subscribed {op : Op} {s : PubsubTopic} {t : ContentTopic}
    (h : (s, t) ∈ subscribeTargetsOf conf op) :
    (m.perform G conf order op).1.isContentSubscribed s t = true := by
  cases op with
  | subscribe shard contentTopic =>
      simp only [subscribeTargetsOf, List.mem_singleton, Prod.mk.injEq] at h
      simp only [perform]
      rw [subscribe_content, if_pos h]
  | subscribeTopic topic =>
      simp only [subscribeTargetsOf] at h
      simp only [perform, subscribeTopic]
      cases hshard : getShardForContentTopic conf topic with
      | error e =>
          rw [hshard] at h
          cases h
      | ok shard =>
          rw [hshard] at h
          obtain ⟨target, htarget, heq⟩ := List.mem_map.mp h
          cases heq
          exact subscribeTargets_content _ _ [] m _ (Or.inl htarget)
  | _ => cases h

/-! ### Runs -/

variable (G) (conf) (order)

/-- A manager with a mounted relay, after the operations. -/
def after (ops : List Op) : SubscriptionManager σ :=
  run (fun m op => (m.perform G conf order op).1) (new (some (WakuRelay.new G))) ops

theorem after_consistent (ops : List Op) : Consistent G (after G conf order ops) := by
  induction ops using List.reverseRecOn with
  | nil => exact new_consistent
  | append_singleton ops op ih =>
      rw [after, run_concat]
      exact ih.perform op

/-- After any operations on a fresh manager with a mounted relay: the relay is subscribed to the
shards that have an entry, every entry has a content topic or a direct subscription, a next
subscribe of a content topic that returns ok subscribes it on every target shard, and the events
for a content topic on a shard alternate, the first a subscribed one, and the last tells whether
the topic is in the entry. -/
theorem subscriptions_after (ops : List Op) :
    let m := after G conf order ops
    (∀ shard, (∃ relay, m.relay = some relay ∧ relay.isSubscribed G shard = true) ↔
      shard ∈ m.shards) ∧
    (∀ shard entry, m.shards.lookup shard = some entry →
      entry.contentTopics ≠ ∅ ∨ entry.directShardSub = true) ∧
    (∀ op, (m.perform G conf order op).2 = .ok () → ∀ s t, (s, t) ∈ subscribeTargetsOf conf op →
      (m.perform G conf order op).1.isContentSubscribed s t = true) ∧
    (∀ shard topic, Alternates (contentEvents m.events shard topic) ∧
      ((contentEvents m.events shard topic).getLast? = some true ↔
        m.isContentSubscribed shard topic = true)) := by
  intro m
  have hm : Consistent G m := after_consistent G conf order ops
  refine ⟨?_, ?_, fun op _ s t h => perform_subscribed h, ?_⟩
  · intro shard
    obtain ⟨w, hw, hsound, hshards⟩ := hm.mesh
    have hshard : shard ∈ w.topicHandlers ↔ shard ∈ m.shards := hshards shard
    rw [← hshard, ← hsound.isSubscribed_iff]
    constructor
    · rintro ⟨w', hw', hsub⟩
      rw [hw, Option.some.injEq] at hw'
      rw [hw']
      exact hsub
    · exact fun hsub => ⟨w, hw, hsub⟩
  · intro shard entry hlookup
    have hwanted := hm.wanted shard entry hlookup
    rw [ShardSubscription.wanted, Bool.or_eq_true, decide_eq_true_eq] at hwanted
    exact hwanted.imp_left (fun hpos => (Finset.card_pos.mp hpos).ne_empty)
  · intro shard topic
    exact ⟨(hm.told shard topic).alternates, (hm.told shard topic).getLast?⟩

end SubscriptionManager

end LogosDelivery.Node
