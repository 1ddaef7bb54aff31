import LogosDelivery.StoreSync.Merge
import LogosDelivery.StoreSync.NodeRuns
import LogosDelivery.StoreSync.TopicAttribution

/-! # What a node is promised

A peer's item sets decide which elements a node tracks as promised.  An id is promised only if the
payload lists it at a place where the node does not find it: outside the bounds of its range, out of
scope, not stored at all, or after an element at or above it (`Unheld`, `unheld_of_mem_idsToRecv`).
The decoder rejects none of these.

`promiseAll_attributed` says what tracking does to the index: the promised elements that are not
stored yet are added under the pending topic, and no other topic changes unless the two pending
topics take over a slot in use. -/

namespace LogosDelivery.StoreSync

open Lib (PackedSet)

/-- The item sets of a payload with their ranges. -/
def itemSetRanges (ranges : List (Slice SyncID × RangeType)) (itemSets : List ItemSet) :
    List (Slice SyncID × ItemSet) :=
  ((ranges.filter (fun r => decide (r.2 = .itemSet))).map (·.1)).zip itemSets

/-! ### Which ids a round asks for -/

namespace SeqStorage

variable {s : SeqStorage} {ps cs : PackedSet ℤ}

/-- The ids to receive come from the item sets of the payload. -/
theorem processRanges_idsToRecv (input : RangesData) {x : SyncID} :
    ∀ (ranges : List (Slice SyncID × RangeType)) (i j : ℕ) (ex ex' : Exchange),
      s.processRanges ps cs input ranges i j ex = some ex' → x ∈ ex'.idsToRecv →
      x ∈ ex.idsToRecv ∨ ∃ r set, (r, set) ∈ itemSetRanges ranges (input.itemSets.drop j) ∧
        x ∈ s.recvs ps cs (r, .itemSet set)
  | [], i, j, ex, ex', h, hx => by
      obtain rfl := Option.some.inj h
      exact Or.inl hx
  | (r, .skip) :: ranges, i, j, ex, ex', h, hx => by
      have ih := processRanges_idsToRecv input ranges i j _ ex' h hx
      exact ih
  | (r, .fingerprint) :: ranges, i, j, ex, ex', h, hx => by
      obtain ⟨f, _, h⟩ := Option.bind_eq_some_iff.mp h
      have ih := processRanges_idsToRecv input ranges (i + 1) j _ ex' h hx
      exact ih
  | (r, .itemSet) :: ranges, i, j, ex, ex', h, hx => by
      obtain ⟨set, hset, h⟩ := Option.bind_eq_some_iff.mp h
      have hdrop : input.itemSets.drop j = set :: input.itemSets.drop (j + 1) := by
        obtain ⟨hj, rfl⟩ := List.getElem?_eq_some_iff.mp hset
        exact List.drop_eq_getElem_cons hj
      have hpairs : itemSetRanges ((r, .itemSet) :: ranges) (input.itemSets.drop j) =
          (r, set) :: itemSetRanges ranges (input.itemSets.drop (j + 1)) := by
        rw [hdrop]
        rfl
      rw [hpairs]
      rcases processRanges_idsToRecv input ranges i (j + 1) _ ex' h hx with hx | ⟨r', set', hmem, hx⟩
      · rw [processItemSetRange_eq] at hx
        rcases List.mem_append.mp hx with hx | hx
        · exact Or.inl hx
        · exact Or.inr ⟨r, set, List.mem_cons_self, hx⟩
      · exact Or.inr ⟨r', set', List.mem_cons_of_mem _ hmem, hx⟩

theorem processPayload_idsToRecv {input : RangesData} {ex : Exchange}
    (h : s.processPayload input = some ex) {x : SyncID} (hx : x ∈ ex.idsToRecv) :
    ∃ r set, (r, set) ∈ itemSetRanges input.ranges input.itemSets ∧
      x ∈ s.recvs (s.pubsubScope (input.shards.map (relayShardTopic input.cluster))) ∅
        (r, .itemSet set) := by
  obtain ⟨ex₀, hranges, h⟩ := Option.bind_eq_some_iff.mp h
  obtain rfl := Option.some.inj h
  rcases processRanges_idsToRecv input _ 0 0 {} ex₀ hranges hx with hx | hx
  · simp at hx
  · rwa [List.drop_zero] at hx

end SeqStorage

namespace SyncReconciliation

/-- The payload lists `x` where the node does not find it: outside the range or the scope, not
stored, or not above everything listed before it. -/
def Unheld (s : SyncReconciliation) (recvPayload : RangesData) (lowerBound : ℤ) (x : SyncID) : Prop :=
  ∃ p r set earlier later, s.preProcessPayload recvPayload lowerBound = some (some p) ∧
    (r, set) ∈ itemSetRanges p.ranges p.itemSets ∧ set.elements = earlier ++ x :: later ∧
    (x ∉ s.storage.visible (s.storage.pubsubScope (p.shards.map (relayShardTopic p.cluster))) ∅ r ∨
      ∃ y ∈ earlier, x ≤ y)

/-- Only ids that the node does not find where they are listed are promised. -/
theorem unheld_of_mem_idsToRecv {s : SyncReconciliation} (h : s.storage.WellFormed)
    {recvPayload : RangesData} {lowerBound : ℤ} {x : SyncID}
    (hx : x ∈ (s.exchange recvPayload lowerBound).idsToRecv) : s.Unheld recvPayload lowerBound x := by
  unfold exchange at hx
  cases hpre : s.preProcessPayload recvPayload lowerBound with
  | none => simp [hpre] at hx
  | some pre =>
      cases pre with
      | none => simp [hpre] at hx
      | some p =>
          rw [hpre] at hx
          dsimp only at hx
          cases hproc : s.storage.processPayload p with
          | none => simp [hproc] at hx
          | some ex =>
              rw [hproc, Option.getD_some] at hx
              obtain ⟨r, set, hmem, hx⟩ := SeqStorage.processPayload_idsToRecv hproc hx
              obtain ⟨earlier, later, hsplit, hcase⟩ :=
                SeqStorage.mergeLoop_idsToRecv (Nat.lt_succ_self _) (h.ownRows_sorted r) hx
              rw [h.passing_ownRows] at hcase
              exact ⟨p, r, set, earlier, later, hpre, hmem, hsplit, hcase⟩

end SyncReconciliation

/-! ### Tracking promises in the index -/

namespace SeqStorage

variable {s : SeqStorage} {a : Attribution}

/-- A topic that is in its list takes no slot. -/
theorem not_overwritesUsed_of_mem {p : PubsubTopic} {c : ContentTopic} (hp : p ∈ s.pubsubTopics)
    (hc : c ∈ s.contentTopics) (x : SyncID) : ¬ s.OverwritesUsed x p c := by
  rintro ⟨_, h | h⟩
  · exact h.1 hp
  · exact h.1 hc

/-- After an insert both topics are in their lists. -/
theorem Sound.topics_mem_insert (h : s.Sound a) {x : SyncID} (hx : x ∉ s.elements) (p : PubsubTopic)
    (c : ContentTopic) :
    p ∈ (s.insert x p c).pubsubTopics ∧ c ∈ (s.insert x p c).contentTopics := by
  rw [insert_of_notMem h.wellFormed hx]
  exact ⟨List.mem_of_getElem? (getTopicIndex_spec h.slots.unusedPubsub p).1,
    List.mem_of_getElem? (getTopicIndex_spec h.slots.unusedContent c).1⟩

/-- The promised elements come in under the pending topic; nothing else changes. -/
theorem promiseAll_attributed (ids : List SyncID) : ∀ {s : SeqStorage} {a : Attribution}, s.Sound a →
    s.Attributed a → (∀ x ∈ ids, ¬ s.OverwritesUsed x pendingPubsubTopic "") →
    ∃ a', (SyncReconciliation.promiseAll s ids).Sound a' ∧
      (SyncReconciliation.promiseAll s ids).Attributed a' ∧ (∀ x, a x ≠ none → a' x = a x) ∧
      ∀ x, a x = none → a' x ≠ none → a' x = some (pendingPubsubTopic, "") ∧ x ∈ ids := by
  induction ids with
  | nil =>
      intro s a hs ha _
      exact ⟨a, hs, ha, fun _ _ => rfl, fun x h h' => absurd h h'⟩
  | cons id ids ih =>
      intro s a hs ha hno
      have hno' : ∀ x ∈ ids, ¬ (s.insert id pendingPubsubTopic "").OverwritesUsed x
          pendingPubsubTopic "" := by
        intro x hx
        by_cases hid : id ∈ s.elements
        · rw [hs.wellFormed.insert_of_mem hid]
          exact hno x (List.mem_cons_of_mem _ hx)
        · obtain ⟨hp, hc⟩ := hs.topics_mem_insert hid pendingPubsubTopic ""
          exact not_overwritesUsed_of_mem hp hc x
      obtain ⟨a', hs', ha', hkeep, hnew⟩ := ih (hs.insert id _ _)
        (ha.insert hs.slots hs.wellFormed (hno id List.mem_cons_self)) hno'
      refine ⟨a', hs', ha', ?_, ?_⟩
      · intro x hx
        have hsame : a.insert id pendingPubsubTopic "" x = a x := by
          unfold Attribution.insert
          rw [if_neg]
          rintro ⟨rfl, hnone⟩
          exact hx hnone
        rw [← hsame]
        exact hkeep x (by rw [hsame]; exact hx)
      · intro x hx hx'
        by_cases hxid : x = id
        · subst hxid
          have hins : a.insert x pendingPubsubTopic "" x = some (pendingPubsubTopic, "") := by
            simp [Attribution.insert, hx]
          exact ⟨(hkeep x (by rw [hins]; simp)).trans hins, List.mem_cons_self⟩
        · have hins : a.insert id pendingPubsubTopic "" x = none := by
            simp [Attribution.insert, hxid, hx]
          obtain ⟨h1, h2⟩ := hnew x hins hx'
          exact ⟨h1, List.mem_cons_of_mem _ h2⟩

end SeqStorage

/-- The operation overwrites no topic slot in use, as far as the topics of its own elements go. -/
def SyncReconciliation.KeepsSlots (s : SyncReconciliation) : NodeOp → Prop
  | .messageIngress id p c =>
      ¬ (if id.hash ∈ s.pendingSet then s.storage.remove id else s.storage).OverwritesUsed id p c
  | .reconcileRound recvPayload lowerBound _ _ => ∀ x, s.Unheld recvPayload lowerBound x →
      ¬ s.storage.OverwritesUsed x pendingPubsubTopic ""
  | .expirePending _ => True
  | .prune _ => True

namespace SyncReconciliation

variable {s : SyncReconciliation} {a : Attribution}

/-- The topics in the index after an arrival. -/
theorem messageIngress_attributed (hs : s.storage.Sound a) (ha : s.storage.Attributed a)
    {id : SyncID} {p : PubsubTopic} {c : ContentTopic}
    (hslots : s.KeepsSlots (.messageIngress id p c)) :
    (s.messageIngress id p c).storage.Sound
        ((if id.hash ∈ s.pendingSet then a.remove id else a).insert id p c) ∧
      (s.messageIngress id p c).storage.Attributed
        ((if id.hash ∈ s.pendingSet then a.remove id else a).insert id p c) := by
  rw [messageIngress_storage]
  have hslots' : ¬ (if id.hash ∈ s.pendingSet then s.storage.remove id
    else s.storage).OverwritesUsed id p c := hslots
  split_ifs at hslots' ⊢ with hp
  · have hs' := hs.remove id
    exact ⟨hs'.insert id p c,
      (ha.remove hs.wellFormed id).insert hs'.slots hs'.wellFormed hslots'⟩
  · exact ⟨hs.insert id p c, ha.insert hs.slots hs.wellFormed hslots'⟩

end SyncReconciliation

end LogosDelivery.StoreSync
