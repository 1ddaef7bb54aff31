import LogosDelivery.Filter.Bookkeeping

/-! # The criteria of a filter peer are limited

`addSubscription` compares the criteria of a peer with `maxCriteriaPerPeer` when the peer is in the
first table; the criteria of a peer that is not there are counted from zero and not compared.  No
other operation raises a counter, so that the limit holds in every state of just those runs in which
no new peer is taken with more criteria than that (`criteriaCount_le_iff`). -/

namespace LogosDelivery.Filter

open Lib

variable {P : Type} [DecidableEq P]

namespace FilterSubscriptions

/-- No peer is counted with more criteria than allowed. -/
def WithinLimit (s : FilterSubscriptions P) : Prop :=
  ∀ p data, s.peersSubscribed.lookup p = some data → data.criteriaCount ≤ s.maxCriteriaPerPeer

/-- Every peer was there before, with as many criteria or more. -/
structure Shrinks (s s' : FilterSubscriptions P) : Prop where
  count : ∀ p data', s'.peersSubscribed.lookup p = some data' →
    ∃ data, s.peersSubscribed.lookup p = some data ∧ data'.criteriaCount ≤ data.criteriaCount
  limit : s'.maxCriteriaPerPeer = s.maxCriteriaPerPeer

variable {s s' s'' : FilterSubscriptions P} {now : ℤ} {peerId : P}

theorem WithinLimit.shrink (h : WithinLimit s) (hs : Shrinks s s') : WithinLimit s' := by
  intro p data' hlookup'
  obtain ⟨data, hlookup, hle⟩ := hs.count p data' hlookup'
  rw [hs.limit]
  exact hle.trans (h p data hlookup)

theorem Shrinks.refl (s : FilterSubscriptions P) : Shrinks s s :=
  ⟨fun _ data h => ⟨data, h, le_rfl⟩, rfl⟩

theorem Shrinks.trans (h : Shrinks s s') (h' : Shrinks s' s'') : Shrinks s s'' := by
  refine ⟨?_, h'.limit.trans h.limit⟩
  intro p data'' hlookup''
  obtain ⟨data', hlookup', hle'⟩ := h'.count p data'' hlookup''
  obtain ⟨data, hlookup, hle⟩ := h.count p data' hlookup'
  exact ⟨data, hlookup, hle'.trans hle⟩

theorem shrinks_removePeer (s : FilterSubscriptions P) (peerId : P) :
    Shrinks s (s.removePeer peerId) := by
  refine ⟨?_, rfl⟩
  intro p data hlookup
  rw [removePeer, Table.lookup_erase_eq] at hlookup
  split_ifs at hlookup
  exact ⟨data, hlookup, le_rfl⟩

theorem shrinks_removePeers (s : FilterSubscriptions P) (peerIds : List P) :
    Shrinks s (s.removePeers peerIds) := by
  induction peerIds generalizing s with
  | nil => exact Shrinks.refl s
  | cons p peerIds ih => exact (shrinks_removePeer s p).trans (ih (s.removePeer p))

theorem shrinks_cleanUp (s : FilterSubscriptions P) (now : ℤ) : Shrinks s (s.cleanUp now) :=
  ⟨fun _ data h => ⟨data, (lookup_keepRecent.mp h).1, le_rfl⟩, rfl⟩

theorem shrinks_refreshSubscription (s : FilterSubscriptions P) (now : ℤ) (peerId : P) :
    Shrinks s (s.refreshSubscription now peerId) := by
  unfold refreshSubscription
  cases hlookup : s.peersSubscribed.lookup peerId with
  | none => exact Shrinks.refl s
  | some data =>
      refine ⟨?_, rfl⟩
      intro p data' h
      rw [Table.lookup_insert_eq] at h
      split_ifs at h with hp
      · rw [← Option.some.inj h, hp]
        exact ⟨data, hlookup, le_rfl⟩
      · exact ⟨data', h, le_rfl⟩

theorem Consistent.shrinks_removeSubscription (hs : Consistent s) (now : ℤ) (peerId : P)
    (criteria : List FilterCriterion) :
    Shrinks s (s.removeSubscription now peerId criteria).1 := by
  unfold FilterSubscriptions.removeSubscription
  cases hlookup : s.peersSubscribed.lookup peerId with
  | none => exact Shrinks.refl s
  | some data =>
      have hstart : LoopCounted peerId (s.subscriptions, data.criteriaCount) :=
        hs.counted peerId data hlookup
      obtain ⟨-, hbound, -, -⟩ := foldl_removeCriterion criteria hstart
        (lt_of_le_of_lt (Nat.le_add_right _ _) (hs.count_lt hlookup)) hs.noneEmpty
      simp only
      generalize criteria.foldl (removeCriterion peerId) (s.subscriptions, data.criteriaCount) =
        acc at hbound ⊢
      have hupdate : Shrinks s { s with
          peersSubscribed := s.peersSubscribed.insert peerId ⟨now, acc.2⟩
          subscriptions := acc.1 } := by
        refine ⟨?_, rfl⟩
        intro p data' h
        rw [Table.lookup_insert_eq] at h
        split_ifs at h with hp
        · rw [← Option.some.inj h, hp]
          exact ⟨data, hlookup, hbound⟩
        · exact ⟨data', h, le_rfl⟩
      split_ifs
      · exact hupdate.trans (shrinks_removePeer _ peerId)
      · exact hupdate

/-! ### New criteria -/

variable {criteria : List FilterCriterion}

/-- The entry of the peer after the loop of `addSubscription` is the only one that changed. -/
theorem lookup_addCriteria (count : ℕ) (p : P) :
    (s.addCriteria now peerId count criteria).peersSubscribed.lookup p =
      if p = peerId then
        some ⟨now, (criteria.foldl (addCriterion peerId) (s.subscriptions, count)).2⟩
      else s.peersSubscribed.lookup p :=
  Table.lookup_insert_eq _ _ _ _

/-- A peer that is there stays within the limit. -/
theorem Consistent.within_known (hs : Consistent s) (h : WithinLimit s)
    (hlen : criteria.length ≤ maxContentTopicsPerRequest) (hknown : peerId ∈ s.peersSubscribed) :
    WithinLimit (s.addSubscription now peerId criteria).1 := by
  obtain ⟨data, hlookup⟩ := Table.mem_iff.mp hknown
  have hstart : LoopCounted peerId (s.subscriptions, data.criteriaCount) :=
    hs.counted peerId data hlookup
  have hlt : data.criteriaCount + criteria.length < 2 ^ 64 :=
    (Nat.add_le_add_left hlen _).trans_lt (hs.count_lt hlookup)
  rw [FilterSubscriptions.addSubscription, hlookup]
  dsimp only
  rw [uintAdd, Nat.mod_eq_of_lt hlt]
  split_ifs with hmax
  · exact h
  · obtain ⟨-, hbound, -, -⟩ := foldl_addCriterion criteria hstart hlt hs.noneEmpty
    intro p data' hlookup'
    rw [lookup_addCriteria] at hlookup'
    split_ifs at hlookup' with hp
    · rw [← Option.some.inj hlookup']
      exact hbound.trans (not_lt.mp hmax)
    · exact h p data' hlookup'

/-- A new peer is counted with all the criteria that it came with. -/
theorem Consistent.lookup_new (hs : Consistent s) (hnodup : criteria.Nodup)
    (hlen : criteria.length ≤ maxContentTopicsPerRequest) (hnew : peerId ∉ s.peersSubscribed)
    (hroom : s.peersSubscribed.len < s.maxPeers) (p : P) :
    (s.addSubscription now peerId criteria).1.peersSubscribed.lookup p =
      if p = peerId then some ⟨now, criteria.length⟩ else s.peersSubscribed.lookup p := by
  have hnone := hs.keysOf_eq_empty hnew
  have hstart : LoopCounted peerId (s.subscriptions, 0) := by
    rw [LoopCounted, hnone, Finset.card_empty]
  have hlt : 0 + criteria.length < 2 ^ 64 := by
    unfold maxContentTopicsPerRequest at hlen
    omega
  obtain ⟨hcounted, -, -, hrel⟩ := foldl_addCriterion criteria hstart hlt hs.noneEmpty
  have hkeys : (criteria.foldl (addCriterion peerId) (s.subscriptions, 0)).1.keysOf peerId =
      criteria.toFinset := by
    ext c
    have hnot : ¬ s.subscriptions.Related c peerId := fun h =>
      Finset.notMem_empty c (hnone ▸ Table.mem_keysOf.mpr h)
    rw [Table.mem_keysOf, hrel, List.mem_toFinset]
    tauto
  have hcount : (criteria.foldl (addCriterion peerId) (s.subscriptions, 0)).2 = criteria.length := by
    rw [hcounted, hkeys, List.toFinset_card_of_nodup hnodup]
  rw [FilterSubscriptions.addSubscription, AList.lookup_eq_none.mpr hnew]
  dsimp only
  rw [if_neg (not_le.mpr hroom), lookup_addCriteria, hcount]

theorem Consistent.within_new (hs : Consistent s) (h : WithinLimit s) (hnodup : criteria.Nodup)
    (hlen : criteria.length ≤ maxContentTopicsPerRequest) (hnew : peerId ∉ s.peersSubscribed) :
    WithinLimit (s.addSubscription now peerId criteria).1 ↔
      (s.peersSubscribed.len < s.maxPeers → criteria.length ≤ s.maxCriteriaPerPeer) := by
  by_cases hroom : s.peersSubscribed.len < s.maxPeers
  · have hlookup : ∀ p, (s.addSubscription now peerId criteria).1.peersSubscribed.lookup p = _ :=
      hs.lookup_new hnodup hlen hnew hroom
    have hlimit : (s.addSubscription now peerId criteria).1.maxCriteriaPerPeer =
        s.maxCriteriaPerPeer := by
      rw [FilterSubscriptions.addSubscription, AList.lookup_eq_none.mpr hnew]
      dsimp only
      rw [if_neg (not_le.mpr hroom)]
      rfl
    constructor
    · intro hwithin _
      have hpeer := hwithin peerId ⟨now, criteria.length⟩ ((hlookup peerId).trans (if_pos rfl))
      exact hlimit ▸ hpeer
    · intro hle p data hdata
      rw [hlimit]
      rw [hlookup] at hdata
      split_ifs at hdata with hp
      · rw [← Option.some.inj hdata]
        exact hle hroom
      · exact h p data hdata
  · have hsame : (s.addSubscription now peerId criteria).1 = s := by
      rw [FilterSubscriptions.addSubscription, AList.lookup_eq_none.mpr hnew]
      dsimp only
      rw [if_pos (not_lt.mp hroom)]
    rw [hsame]
    exact ⟨fun _ hlt => absurd hlt hroom, fun _ => h⟩

end FilterSubscriptions

/-! ### Runs -/

namespace WakuFilter

open FilterSubscriptions

/-- A request to subscribe that passes the checks of `subscribe`. -/
def Subscribes (request : FilterSubscribeRequest) : Prop :=
  request.filterSubscribeType = .subscribe ∧ request.pubsubTopic.getD "" ≠ "" ∧
    1 ≤ request.contentTopics.length ∧ request.contentTopics.length ≤ maxContentTopicsPerRequest

/-- A new peer for which there is room comes with no more criteria than a peer may have. -/
def Fits (s : FilterSubscriptions P) : Op P → Prop
  | .request _ peerId request =>
      Subscribes request → peerId ∉ s.peersSubscribed → s.peersSubscribed.len < s.maxPeers →
        request.contentTopics.dedup.length ≤ s.maxCriteriaPerPeer
  | .maintain _ _ => True

variable {order : IterationOrder FilterCriterion} {s : FilterSubscriptions P} {now : ℤ}
  {peerId : P}

/-- The criteria of a request, each once and as many as it has different content topics. -/
theorem filterCriteria_ok {pubsubTopic : Option StoreSync.PubsubTopic}
    {contentTopics : List StoreSync.ContentTopic} {criteria : List FilterCriterion}
    (h : filterCriteria order pubsubTopic contentTopics = .ok criteria) :
    (pubsubTopic.getD "" ≠ "" ∧ 1 ≤ contentTopics.length ∧
      contentTopics.length ≤ maxContentTopicsPerRequest) ∧
    criteria.Nodup ∧ criteria.length = contentTopics.dedup.length := by
  unfold filterCriteria at h
  split_ifs at h with hmissing hmax
  obtain ⟨htopic, hcontent⟩ := not_or.mp hmissing
  have hinj : Function.Injective (fun topic : StoreSync.ContentTopic =>
      ((pubsubTopic.getD "", topic) : FilterCriterion)) := fun _ _ heq => (Prod.mk.inj heq).2
  rw [← Except.ok.inj h]
  refine ⟨⟨htopic, by omega, by omega⟩, ?_, ?_⟩
  · exact (order.perm _).nodup_iff.mpr (List.nodup_dedup _)
  · rw [IterationOrder.ofSeq, (order.perm _).length_eq, List.dedup_map_of_injective hinj,
      List.length_map]

theorem filterCriteria_error {pubsubTopic : Option StoreSync.PubsubTopic}
    {contentTopics : List StoreSync.ContentTopic} {e : FilterSubscribeError}
    (h : filterCriteria order pubsubTopic contentTopics = .error e) :
    ¬ (pubsubTopic.getD "" ≠ "" ∧ 1 ≤ contentTopics.length ∧
      contentTopics.length ≤ maxContentTopicsPerRequest) := by
  unfold filterCriteria at h
  split_ifs at h with hmissing hmax
  · rintro ⟨htopic, hpos, -⟩
    rcases hmissing with hempty | hzero
    · exact htopic hempty
    · omega
  · rintro ⟨-, -, hle⟩
    omega

/-- No other request than one to subscribe takes a peer or counts criteria. -/
theorem shrinks_handleByType (hs : Consistent s) (now : ℤ) (peerId : P)
    {request : FilterSubscribeRequest} (hnot : ¬ Subscribes request) :
    Shrinks s (handleByType order s now peerId request).1 := by
  cases htype : request.filterSubscribeType with
  | subscriberPing =>
      simp only [handleByType, htype, pingSubscriber]
      split_ifs
      · exact Shrinks.refl s
      · exact shrinks_refreshSubscription s now peerId
  | unsubscribe =>
      simp only [handleByType, htype, unsubscribe]
      cases filterCriteria order request.pubsubTopic request.contentTopics with
      | error e => exact Shrinks.refl s
      | ok criteria => exact hs.shrinks_removeSubscription now peerId criteria
  | unsubscribeAll =>
      simp only [handleByType, htype, unsubscribeAll]
      split_ifs
      · exact Shrinks.refl s
      · exact (shrinks_removePeer s peerId).trans (shrinks_cleanUp _ now)
  | subscribe =>
      simp only [handleByType, htype, subscribe]
      cases hcriteria : filterCriteria order request.pubsubTopic request.contentTopics with
      | error e => exact Shrinks.refl s
      | ok criteria => exact absurd ⟨htype, (filterCriteria_ok hcriteria).1⟩ hnot

/-- A step keeps the limit exactly when the peer that it takes, if any, fits. -/
theorem within_step_iff (hs : Consistent s) (h : WithinLimit s) (op : Op P) :
    WithinLimit (step order s op) ↔ Fits s op := by
  cases op with
  | maintain now hasPeer =>
      refine iff_of_true (h.shrink ?_) trivial
      exact (shrinks_removePeers s _).trans (shrinks_cleanUp _ now)
  | request now peerId request =>
      change WithinLimit (handleByType order s now peerId request).1 ↔ _
      by_cases hsub : Subscribes request
      · cases hcriteria : filterCriteria order request.pubsubTopic request.contentTopics with
        | error e => exact absurd hsub.2 (filterCriteria_error hcriteria)
        | ok criteria =>
            obtain ⟨_, hnodup, hcount⟩ := filterCriteria_ok hcriteria
            have hlen := filterCriteria_length hcriteria
            have hafter : (handleByType order s now peerId request).1 =
                (s.addSubscription now peerId criteria).1 := by
              simp only [handleByType, hsub.1, subscribe, hcriteria]
            rw [hafter]
            by_cases hknown : peerId ∈ s.peersSubscribed
            · exact iff_of_true (hs.within_known h hlen hknown)
                (fun _ hnew => absurd hknown hnew)
            · rw [hs.within_new h hnodup hlen hknown, hcount]
              exact ⟨fun hfits _ _ => hfits, fun hfits => hfits hsub hknown⟩
      · exact iff_of_true (h.shrink (shrinks_handleByType hs now peerId hsub))
          (fun hsub' => absurd hsub' hsub)

variable (order) (timeout : ℤ) (maxPeers maxCriteria : UInt32)

/-- **The limit on the criteria of a peer.**  In every state of a run each peer is counted with at
most as many criteria as allowed, if and only if every peer that the run takes as a new one comes
with at most that many. -/
theorem criteriaCount_le_iff (ops : List (Op P)) :
    (∀ pre, pre <+: ops → ∀ p data,
      (after order timeout maxPeers maxCriteria pre).peersSubscribed.lookup p = some data →
        data.criteriaCount ≤ maxCriteria.toNat) ↔
      AllSteps (fun pre op => Fits (after order timeout maxPeers maxCriteria pre) op) ops := by
  have hwithin : ∀ pre : List (Op P), WithinLimit (after order timeout maxPeers maxCriteria pre) ↔
      ∀ p data, (after order timeout maxPeers maxCriteria pre).peersSubscribed.lookup p = some data →
        data.criteriaCount ≤ maxCriteria.toNat := by
    intro pre
    rw [WithinLimit, (after_limits order timeout maxPeers maxCriteria pre).2]
  have hstep : ∀ (pre : List (Op P)) op,
      WithinLimit (after order timeout maxPeers maxCriteria pre) →
      (WithinLimit (after order timeout maxPeers maxCriteria (pre ++ [op])) ↔
        Fits (after order timeout maxPeers maxCriteria pre) op) := by
    intro pre op h
    have hs := after_consistent order timeout maxPeers maxCriteria pre
    rw [after, run_concat]
    exact within_step_iff hs h op
  simp only [← hwithin]
  refine along_iff_allSteps ?_ ?_ ?_ ops
  · intro p data h
    simp [after, run, new] at h
  · exact fun pre op hpre hfits => (hstep pre op (hpre pre (List.prefix_refl _))).mpr hfits
  · exact fun pre op hpre hnot => mt (hstep pre op (hpre pre (List.prefix_refl _))).mp hnot

/-- A new peer with three criteria, where a peer may have two. -/
def threeTopics : Op ℕ :=
  .request 0 7 ⟨"1", .subscribe, some "/waku/2/rs/0/0", ["/a/1/x/p", "/a/1/y/p", "/a/1/z/p"]⟩

theorem threeTopics_accepted :
    ¬ ∀ p data, (after ⟨fun l => l, fun l => List.Perm.refl l⟩ 300 100 2
        [threeTopics]).peersSubscribed.lookup p = some data →
      data.criteriaCount ≤ (2 : UInt32).toNat := by
  intro h
  exact absurd (h 7 ⟨0, 3⟩ (by decide)) (by decide)

end WakuFilter

end LogosDelivery.Filter
