import LogosDelivery.Filter.Subscriptions

/-! # The two tables of a filter server agree

Each turn of the loops of `addSubscription` and `removeSubscription` adds one pair of a criterion
and a peer to the second table or takes one away, and moves the counter of the peer with it.  The
first table counts right (`Counted`) also between the removal of a peer and the `cleanUp` that
follows; after the `cleanUp`, as after every operation, the two tables agree (`Consistent`). -/

namespace LogosDelivery.Filter

open Lib

variable {P : Type} [DecidableEq P]

namespace FilterSubscriptions

/-! ### The loops -/

section Loops

variable {peerId q : P} {acc : Table FilterCriterion (Finset P) × ℕ} {c c' : FilterCriterion}

/-- No criterion has an empty set of peers. -/
def NoneEmpty (subscriptions : Table FilterCriterion (Finset P)) : Prop :=
  ∀ c peers, subscriptions.lookup c = some peers → peers ≠ ∅

theorem related_addCriterion :
    (addCriterion peerId acc c).1.Related c' q ↔ acc.1.Related c' q ∨ (c' = c ∧ q = peerId) := by
  unfold addCriterion
  by_cases hmem : peerId ∈ (acc.1.lookup c).getD ∅
  · rw [if_pos hmem]
    constructor
    · exact Or.inl
    · rintro (h | ⟨rfl, rfl⟩)
      · exact h
      · exact Table.related_iff_mem_getD.mpr hmem
  · rw [if_neg hmem, Table.related_insert]
    by_cases hc : c' = c
    · rw [if_pos hc, Finset.mem_insert, hc, Table.related_iff_mem_getD]
      tauto
    · rw [if_neg hc]
      tauto

theorem related_removeCriterion :
    (removeCriterion peerId acc c).1.Related c' q ↔
      acc.1.Related c' q ∧ ¬ (c' = c ∧ q = peerId) := by
  -- the criterion and the peer are not related where the code passes the criterion over
  have hpass (hnot : ¬ acc.1.Related c peerId) :
      acc.1.Related c' q ↔ acc.1.Related c' q ∧ ¬ (c' = c ∧ q = peerId) := by
    refine ⟨fun h => ⟨h, ?_⟩, And.left⟩
    rintro ⟨rfl, rfl⟩
    exact hnot h
  unfold removeCriterion
  cases hlookup : acc.1.lookup c with
  | none =>
      apply hpass
      rintro ⟨peers, hpeers, _⟩
      rw [hlookup] at hpeers
      cases hpeers
  | some peers =>
      by_cases hmem : peerId ∈ peers
      · have hrel : ∀ q, acc.1.Related c q ↔ q ∈ peers := by
          intro q
          rw [Table.related_iff_mem_getD, hlookup, Option.getD_some]
        have herased (h : (peers.erase peerId).card = 0) : ∀ q ∈ peers, q = peerId := by
          intro q hq
          by_contra hne
          exact Finset.notMem_empty q
            (Finset.card_eq_zero.mp h ▸ Finset.mem_erase.mpr ⟨hne, hq⟩)
        simp only [if_pos hmem]
        by_cases hcard : (peers.erase peerId).card = 0
        · rw [if_pos hcard, Table.related_erase]
          by_cases hc : c' = c
          · rw [hc, hrel]
            have := herased hcard q
            tauto
          · tauto
        · rw [if_neg hcard, Table.related_insert]
          by_cases hc : c' = c
          · rw [if_pos hc, Finset.mem_erase, hc, hrel]
            tauto
          · rw [if_neg hc]
            tauto
      · simp only [if_neg hmem]
        apply hpass
        rw [Table.related_iff_mem_getD, hlookup]
        exact hmem

theorem addCriterion_noneEmpty (h : NoneEmpty acc.1) :
    NoneEmpty (addCriterion peerId acc c).1 := by
  unfold addCriterion
  by_cases hmem : peerId ∈ (acc.1.lookup c).getD ∅
  · rw [if_pos hmem]
    exact h
  · rw [if_neg hmem]
    intro c' peers hpeers
    rw [Table.lookup_insert_eq] at hpeers
    by_cases hc : c' = c
    · rw [if_pos hc] at hpeers
      rw [← Option.some.inj hpeers]
      exact Finset.insert_ne_empty _ _
    · rw [if_neg hc] at hpeers
      exact h c' peers hpeers

theorem removeCriterion_noneEmpty (h : NoneEmpty acc.1) :
    NoneEmpty (removeCriterion peerId acc c).1 := by
  unfold removeCriterion
  cases hlookup : acc.1.lookup c with
  | none => exact h
  | some peers =>
      by_cases hmem : peerId ∈ peers
      · simp only [if_pos hmem]
        intro c' peers' hpeers'
        by_cases hcard : (peers.erase peerId).card = 0
        · rw [if_pos hcard, Table.lookup_erase_eq] at hpeers'
          by_cases hc : c' = c
          · rw [if_pos hc] at hpeers'
            cases hpeers'
          · rw [if_neg hc] at hpeers'
            exact h c' peers' hpeers'
        · rw [if_neg hcard, Table.lookup_insert_eq] at hpeers'
          by_cases hc : c' = c
          · rw [if_pos hc] at hpeers'
            rw [← Option.some.inj hpeers', ne_eq, ← Finset.card_eq_zero]
            exact hcard
          · rw [if_neg hc] at hpeers'
            exact h c' peers' hpeers'
      · simp only [if_neg hmem]
        exact h

/-- The counter of the loop is the number of criteria of the peer. -/
def LoopCounted (peerId : P) (acc : Table FilterCriterion (Finset P) × ℕ) : Prop :=
  acc.2 = (acc.1.keysOf peerId).card

theorem addCriterion_counted (h : LoopCounted peerId acc) (hlt : acc.2 + 1 < 2 ^ 64) :
    LoopCounted peerId (addCriterion peerId acc c) ∧ (addCriterion peerId acc c).2 ≤ acc.2 + 1 := by
  by_cases hrel : acc.1.Related c peerId
  · have hsame : addCriterion peerId acc c = acc := by
      rw [addCriterion, if_pos (Table.related_iff_mem_getD.mp hrel)]
    rw [hsame]
    exact ⟨h, Nat.le_succ _⟩
  · have hcount : (addCriterion peerId acc c).2 = acc.2 + 1 := by
      rw [addCriterion, if_neg (fun hmem => hrel (Table.related_iff_mem_getD.mpr hmem))]
      exact Nat.mod_eq_of_lt hlt
    have hkeys : (addCriterion peerId acc c).1.keysOf peerId = insert c (acc.1.keysOf peerId) := by
      ext c'
      rw [Finset.mem_insert, Table.mem_keysOf, Table.mem_keysOf, related_addCriterion]
      tauto
    have hnew : c ∉ acc.1.keysOf peerId := fun hmem => hrel (Table.mem_keysOf.mp hmem)
    refine ⟨?_, hcount.le⟩
    rw [LoopCounted, hcount, hkeys, Finset.card_insert_of_notMem hnew, h]

/-- Where a turn decreases the counter, the counter is not zero. -/
theorem removeCriterion_pos (h : LoopCounted peerId acc) (hrel : acc.1.Related c peerId) :
    0 < acc.2 := by
  rw [h]
  exact Finset.card_pos.mpr ⟨c, Table.mem_keysOf.mpr hrel⟩

theorem removeCriterion_counted (h : LoopCounted peerId acc) (hlt : acc.2 < 2 ^ 64) :
    LoopCounted peerId (removeCriterion peerId acc c) ∧
      (removeCriterion peerId acc c).2 ≤ acc.2 := by
  by_cases hrel : acc.1.Related c peerId
  · have hpos := removeCriterion_pos h hrel
    have hcount : (removeCriterion peerId acc c).2 = acc.2 - 1 := by
      obtain ⟨peers, hlookup, hmem⟩ := hrel
      simp only [removeCriterion, hlookup, if_pos hmem, uintSub]
      omega
    have hkeys : (removeCriterion peerId acc c).1.keysOf peerId = (acc.1.keysOf peerId).erase c := by
      ext c'
      rw [Finset.mem_erase, Table.mem_keysOf, Table.mem_keysOf, related_removeCriterion]
      tauto
    refine ⟨?_, ?_⟩
    · rw [LoopCounted, hcount, hkeys, Finset.card_erase_of_mem (Table.mem_keysOf.mpr hrel), h]
    · omega
  · have hsame : removeCriterion peerId acc c = acc := by
      unfold removeCriterion
      cases hlookup : acc.1.lookup c with
      | none => rfl
      | some peers =>
          rw [Table.related_iff_mem_getD, hlookup] at hrel
          simp only [if_neg (show peerId ∉ peers from hrel)]
    rw [hsame]
    exact ⟨h, le_rfl⟩

/-- The whole loop of `addSubscription`: the peer gains the criteria of the list, and no other peer
gains or loses one. -/
theorem foldl_addCriterion (criteria : List FilterCriterion) (hcount : LoopCounted peerId acc)
    (hlt : acc.2 + criteria.length < 2 ^ 64) (hempty : NoneEmpty acc.1) :
    LoopCounted peerId (criteria.foldl (addCriterion peerId) acc) ∧
      (criteria.foldl (addCriterion peerId) acc).2 ≤ acc.2 + criteria.length ∧
      NoneEmpty (criteria.foldl (addCriterion peerId) acc).1 ∧
      ∀ c q, (criteria.foldl (addCriterion peerId) acc).1.Related c q ↔
        acc.1.Related c q ∨ (c ∈ criteria ∧ q = peerId) := by
  induction criteria generalizing acc with
  | nil => exact ⟨hcount, Nat.le_add_right _ _, hempty, by simp⟩
  | cons c criteria ih =>
      rw [List.length_cons] at hlt
      obtain ⟨hcount', hle⟩ := addCriterion_counted (c := c) hcount (by omega)
      obtain ⟨hcounted, hbound, hnone, hrel⟩ :=
        ih hcount' (by omega) (addCriterion_noneEmpty hempty)
      rw [List.foldl_cons, List.length_cons]
      refine ⟨hcounted, by omega, hnone, ?_⟩
      intro c' q
      rw [hrel, related_addCriterion, List.mem_cons]
      tauto

/-- The whole loop of `removeSubscription`: the peer loses the criteria of the list. -/
theorem foldl_removeCriterion (criteria : List FilterCriterion) (hcount : LoopCounted peerId acc)
    (hlt : acc.2 < 2 ^ 64) (hempty : NoneEmpty acc.1) :
    LoopCounted peerId (criteria.foldl (removeCriterion peerId) acc) ∧
      (criteria.foldl (removeCriterion peerId) acc).2 ≤ acc.2 ∧
      NoneEmpty (criteria.foldl (removeCriterion peerId) acc).1 ∧
      ∀ c q, (criteria.foldl (removeCriterion peerId) acc).1.Related c q ↔
        acc.1.Related c q ∧ ¬ (c ∈ criteria ∧ q = peerId) := by
  induction criteria generalizing acc with
  | nil => exact ⟨hcount, le_rfl, hempty, by simp⟩
  | cons c criteria ih =>
      obtain ⟨hcount', hle⟩ := removeCriterion_counted (c := c) hcount hlt
      obtain ⟨hcounted, hbound, hnone, hrel⟩ :=
        ih hcount' (by omega) (removeCriterion_noneEmpty hempty)
      rw [List.foldl_cons]
      refine ⟨hcounted, by omega, hnone, ?_⟩
      intro c' q
      rw [hrel, related_removeCriterion, List.mem_cons]
      tauto

end Loops

/-! ### The invariant -/

/-- The first table counts the criteria of its peers in the second one, within the limits. -/
structure Counted (s : FilterSubscriptions P) : Prop where
  counted : ∀ p data, s.peersSubscribed.lookup p = some data →
    data.criteriaCount = (s.subscriptions.keysOf p).card
  count_le : ∀ p data, s.peersSubscribed.lookup p = some data →
    data.criteriaCount ≤ s.maxCriteriaPerPeer + maxContentTopicsPerRequest
  peers_le : s.peersSubscribed.len ≤ s.maxPeers
  limit_lt : s.maxCriteriaPerPeer < 2 ^ 32

/-- The two tables agree. -/
structure Consistent (s : FilterSubscriptions P) : Prop extends Counted s where
  listed : ∀ c p, s.subscriptions.Related c p → p ∈ s.peersSubscribed
  noneEmpty : NoneEmpty s.subscriptions

variable {s : FilterSubscriptions P} {now : ℤ} {peerId : P}

theorem new_consistent (timeout : ℤ) (maxPeers maxCriteria : UInt32) :
    Consistent (new timeout maxPeers maxCriteria : FilterSubscriptions P) where
  counted := by
    intro p data h
    simp [new] at h
  count_le := by
    intro p data h
    simp [new] at h
  peers_le := by simp [new, Table.len]
  limit_lt := maxCriteria.toNat_lt
  listed := by
    rintro c p ⟨peers, hpeers, _⟩
    simp [new] at hpeers
  noneEmpty := by
    intro c peers h
    simp [new] at h

theorem Counted.count_lt (hs : Counted s) {data : PeerData}
    (h : s.peersSubscribed.lookup peerId = some data) :
    data.criteriaCount + maxContentTopicsPerRequest < 2 ^ 64 := by
  have hle := hs.count_le peerId data h
  have hlt := hs.limit_lt
  unfold maxContentTopicsPerRequest at *
  omega

theorem Counted.removePeer (hs : Counted s) (peerId : P) : Counted (s.removePeer peerId) := by
  have hlookup : ∀ p data, (s.removePeer peerId).peersSubscribed.lookup p = some data →
      s.peersSubscribed.lookup p = some data := by
    intro p data h
    rw [FilterSubscriptions.removePeer, Table.lookup_erase_eq] at h
    split_ifs at h
    exact h
  exact
    { counted := fun p data h => hs.counted p data (hlookup p data h)
      count_le := fun p data h => hs.count_le p data (hlookup p data h)
      peers_le := (Table.len_le_of_subset (fun p hp => (AList.mem_erase.mp hp).2)).trans hs.peers_le
      limit_lt := hs.limit_lt }

theorem Counted.removePeers (hs : Counted s) (peerIds : List P) :
    Counted (s.removePeers peerIds) := by
  induction peerIds generalizing s with
  | nil => exact hs
  | cons p peerIds ih => exact ih (hs.removePeer p)

theorem isSubscribed_iff {p : P} : s.isSubscribed now p = true ↔
    ∃ data, s.peersSubscribed.lookup p = some data ∧
      now - data.lastSeen ≤ s.subscriptionTimeout := by
  unfold isSubscribed
  cases s.peersSubscribed.lookup p with
  | none => simp
  | some data => simp

theorem lookup_keepRecent {p : P} {data : PeerData} :
    (s.keepRecent now).peersSubscribed.lookup p = some data ↔
      s.peersSubscribed.lookup p = some data ∧ now - data.lastSeen ≤ s.subscriptionTimeout := by
  rw [keepRecent, Table.lookup_keepIf, Option.filter_eq_some_iff, decide_eq_true_eq]

/-- After the first part of `cleanUp` the peers of the first table are those seen recently. -/
theorem mem_keepRecent {p : P} :
    p ∈ (s.keepRecent now).peersSubscribed ↔ (s.keepRecent now).isSubscribed now p = true := by
  rw [Table.mem_iff, isSubscribed_iff]
  constructor
  · rintro ⟨data, hdata⟩
    exact ⟨data, hdata, (lookup_keepRecent.mp hdata).2⟩
  · rintro ⟨data, hdata, _⟩
    exact ⟨data, hdata⟩

/-- What the second part of `cleanUp` leaves of the second table. -/
theorem related_keepListed {c : FilterCriterion} {p : P} :
    (s.keepListed now).subscriptions.Related c p ↔
      s.subscriptions.Related c p ∧ s.isSubscribed now p = true := by
  constructor
  · rintro ⟨peers, hlookup, hp⟩
    simp only [keepListed, Table.lookup_keepIf, Table.lookup_mapValues, Option.filter_eq_some_iff,
      Option.map_eq_some_iff] at hlookup
    obtain ⟨⟨before, hbefore, rfl⟩, -⟩ := hlookup
    obtain ⟨hp, hsub⟩ := Finset.mem_filter.mp hp
    exact ⟨⟨before, hbefore, hp⟩, hsub⟩
  · rintro ⟨⟨before, hbefore, hp⟩, hsub⟩
    have hfilter : p ∈ before.filter (fun p => s.isSubscribed now p = true) :=
      Finset.mem_filter.mpr ⟨hp, hsub⟩
    refine ⟨_, ?_, hfilter⟩
    simp only [keepListed, Table.lookup_keepIf, Table.lookup_mapValues, hbefore, Option.map_some]
    exact Option.filter_some_pos (decide_eq_true (Finset.card_pos.mpr ⟨p, hfilter⟩))

theorem keepListed_noneEmpty : NoneEmpty (s.keepListed now).subscriptions := by
  intro c peers hlookup
  simp only [keepListed, Table.lookup_keepIf, Option.filter_eq_some_iff] at hlookup
  exact Finset.card_pos.mp (of_decide_eq_true hlookup.2) |>.ne_empty

theorem Counted.keepRecent (hs : Counted s) (now : ℤ) : Counted (s.keepRecent now) := by
  have hlookup : ∀ p data, (s.keepRecent now).peersSubscribed.lookup p = some data →
      s.peersSubscribed.lookup p = some data := fun p data h => (lookup_keepRecent.mp h).1
  refine
    { counted := fun p data h => hs.counted p data (hlookup p data h)
      count_le := fun p data h => hs.count_le p data (hlookup p data h)
      peers_le := (Table.len_le_of_subset ?_).trans hs.peers_le
      limit_lt := hs.limit_lt }
  intro p hp
  obtain ⟨data, hdata⟩ := Table.mem_iff.mp hp
  exact Table.mem_iff.mpr ⟨data, hlookup p data hdata⟩

/-- A `cleanUp` brings the two tables together. -/
theorem Counted.cleanUp (hs : Counted s) (now : ℤ) : Consistent (s.cleanUp now) := by
  have hrecent := hs.keepRecent now
  have hsame {p : P} (hp : p ∈ (s.keepRecent now).peersSubscribed) :
      (s.cleanUp now).subscriptions.keysOf p = (s.keepRecent now).subscriptions.keysOf p := by
    ext c
    rw [Table.mem_keysOf, Table.mem_keysOf, FilterSubscriptions.cleanUp, related_keepListed]
    exact and_iff_left (mem_keepRecent.mp hp)
  exact
    { counted := fun p data h => by
        rw [hsame (Table.mem_iff.mpr ⟨data, h⟩)]
        exact hrecent.counted p data h
      count_le := hrecent.count_le
      peers_le := hrecent.peers_le
      limit_lt := hrecent.limit_lt
      listed := fun c p h => mem_keepRecent.mpr (related_keepListed.mp h).2
      noneEmpty := keepListed_noneEmpty }

/-! ### The operations keep the invariant -/

/-- Only the entry of one peer differs, and the criteria of no other. -/
theorem Consistent.update (hs : Consistent s) {s' : FilterSubscriptions P} (data : PeerData)
    (hpeers : s'.peersSubscribed = s.peersSubscribed.insert peerId data)
    (hothers : ∀ c q, q ≠ peerId →
      (s'.subscriptions.Related c q ↔ s.subscriptions.Related c q))
    (hcount : data.criteriaCount = (s'.subscriptions.keysOf peerId).card)
    (hle : data.criteriaCount ≤ s.maxCriteriaPerPeer + maxContentTopicsPerRequest)
    (hmax : s'.maxCriteriaPerPeer = s.maxCriteriaPerPeer)
    (hlen : s'.peersSubscribed.len ≤ s'.maxPeers) (hempty : NoneEmpty s'.subscriptions) :
    Consistent s' := by
  have hkeys {q : P} (hq : q ≠ peerId) :
      s'.subscriptions.keysOf q = s.subscriptions.keysOf q := by
    ext c
    rw [Table.mem_keysOf, Table.mem_keysOf, hothers c q hq]
  have hlookup (q : P) := hpeers ▸ Table.lookup_insert_eq s.peersSubscribed peerId q data
  refine
    { counted := ?_
      count_le := ?_
      peers_le := hlen
      limit_lt := hmax ▸ hs.limit_lt
      listed := ?_
      noneEmpty := hempty }
  · intro q data' h
    rw [hlookup] at h
    by_cases hq : q = peerId
    · rw [if_pos hq] at h
      rw [← Option.some.inj h, hq, hcount]
    · rw [if_neg hq] at h
      rw [hkeys hq]
      exact hs.counted q data' h
  · intro q data' h
    rw [hlookup] at h
    rw [hmax]
    by_cases hq : q = peerId
    · rw [if_pos hq] at h
      rw [← Option.some.inj h]
      exact hle
    · rw [if_neg hq] at h
      exact hs.count_le q data' h
  · intro c q hrel
    rw [hpeers, AList.mem_insert]
    by_cases hq : q = peerId
    · exact Or.inl hq
    · exact Or.inr (hs.listed c q ((hothers c q hq).mp hrel))

theorem Consistent.refreshSubscription (hs : Consistent s) (now : ℤ) (peerId : P) :
    Consistent (s.refreshSubscription now peerId) := by
  unfold FilterSubscriptions.refreshSubscription
  cases hlookup : s.peersSubscribed.lookup peerId with
  | none => exact hs
  | some data =>
      have hmem : peerId ∈ s.peersSubscribed := Table.mem_iff.mpr ⟨data, hlookup⟩
      refine hs.update { data with lastSeen := now } rfl (fun _ _ _ => Iff.rfl)
        (hs.counted peerId data hlookup) (hs.count_le peerId data hlookup) rfl ?_ hs.noneEmpty
      exact (Table.len_insert_of_mem hmem _).trans_le hs.peers_le

/-- The loop of `addSubscription` from a counter that is right and within the limit. -/
theorem Consistent.addCriteria (hs : Consistent s) {count : ℕ} {criteria : List FilterCriterion}
    (hcount : count = (s.subscriptions.keysOf peerId).card)
    (hle : count + criteria.length ≤ s.maxCriteriaPerPeer + maxContentTopicsPerRequest)
    (hlen : Table.len (s.peersSubscribed.insert peerId ⟨now, 0⟩) ≤ s.maxPeers) :
    Consistent (s.addCriteria now peerId count criteria) := by
  have hlt : count + criteria.length < 2 ^ 64 := by
    have := hs.limit_lt
    unfold maxContentTopicsPerRequest at hle
    omega
  have hstart : LoopCounted peerId (s.subscriptions, count) := hcount
  obtain ⟨hcounted, hbound, hempty, hrel⟩ := foldl_addCriterion criteria hstart hlt hs.noneEmpty
  refine hs.update ⟨now, _⟩ rfl ?_ hcounted (hbound.trans hle) rfl ?_ hempty
  · intro c q hq
    exact (hrel c q).trans (or_iff_left (fun h => hq h.2))
  · simp only [Table.len, FilterSubscriptions.addCriteria, AList.keys_insert] at hlen ⊢
    exact hlen

/-- A peer that the first table does not have has no criteria. -/
theorem Consistent.keysOf_eq_empty (hs : Consistent s) (h : peerId ∉ s.peersSubscribed) :
    s.subscriptions.keysOf peerId = ∅ := by
  rw [Finset.eq_empty_iff_forall_notMem]
  intro c hc
  exact h (hs.listed c peerId (Table.mem_keysOf.mp hc))

theorem Consistent.addSubscription (hs : Consistent s) {criteria : List FilterCriterion}
    (hlen : criteria.length ≤ maxContentTopicsPerRequest) :
    Consistent (s.addSubscription now peerId criteria).1 := by
  unfold FilterSubscriptions.addSubscription
  cases hlookup : s.peersSubscribed.lookup peerId with
  | some data =>
      have hcount := hs.counted peerId data hlookup
      have hlt := hs.count_lt hlookup
      have hmem : peerId ∈ s.peersSubscribed := Table.mem_iff.mpr ⟨data, hlookup⟩
      simp only
      split_ifs with hmax
      · exact hs
      · refine hs.addCriteria hcount ?_ ((Table.len_insert_of_mem hmem _).trans_le hs.peers_le)
        rw [uintAdd, Nat.mod_eq_of_lt (by omega)] at hmax
        omega
  | none =>
      have hmem : peerId ∉ s.peersSubscribed := AList.lookup_eq_none.mp hlookup
      simp only
      split_ifs with hmax
      · exact hs
      · refine hs.addCriteria ?_ (by omega) ?_
        · rw [hs.keysOf_eq_empty hmem, Finset.card_empty]
        · rw [Table.len_insert_of_notMem hmem]
          omega

/-- A peer without criteria may leave the first table. -/
theorem Consistent.removeIdle (hs : Consistent s)
    (hidle : s.subscriptions.keysOf peerId = ∅) : Consistent (s.removePeer peerId) where
  toCounted := hs.toCounted.removePeer peerId
  listed := by
    intro c q hrel
    refine AList.mem_erase.mpr ⟨?_, hs.listed c q hrel⟩
    rintro rfl
    exact Finset.notMem_empty c (hidle ▸ Table.mem_keysOf.mpr hrel)
  noneEmpty := hs.noneEmpty

theorem Consistent.removeSubscription (hs : Consistent s) (now : ℤ) (peerId : P)
    (criteria : List FilterCriterion) :
    Consistent (s.removeSubscription now peerId criteria).1 := by
  unfold FilterSubscriptions.removeSubscription
  cases hlookup : s.peersSubscribed.lookup peerId with
  | none => exact hs
  | some data =>
      have hmem : peerId ∈ s.peersSubscribed := Table.mem_iff.mpr ⟨data, hlookup⟩
      have hlt := hs.count_lt hlookup
      have hstart : LoopCounted peerId (s.subscriptions, data.criteriaCount) :=
        hs.counted peerId data hlookup
      obtain ⟨hcounted, hbound, hempty, hrel⟩ := foldl_removeCriterion criteria hstart
        (lt_of_le_of_lt (Nat.le_add_right _ _) hlt) hs.noneEmpty
      simp only
      generalize criteria.foldl (removeCriterion peerId) (s.subscriptions, data.criteriaCount) =
        acc at hcounted hbound hempty hrel ⊢
      have hupdate : Consistent { s with
          peersSubscribed := s.peersSubscribed.insert peerId ⟨now, acc.2⟩
          subscriptions := acc.1 } :=
        hs.update _ rfl (fun c q hq => (hrel c q).trans (and_iff_left (fun h => hq h.2))) hcounted
          (hbound.trans (hs.count_le peerId data hlookup)) rfl
          ((Table.len_insert_of_mem hmem _).trans_le hs.peers_le) hempty
      split_ifs with hzero
      · refine hupdate.removeIdle (Finset.card_eq_zero.mp ?_)
        exact hcounted.symm.trans hzero
      · exact hupdate

/-- A refused `addSubscription` changes nothing. -/
theorem addSubscription_error {criteria : List FilterCriterion} {e : String}
    (h : (s.addSubscription now peerId criteria).2 = .error e) :
    (s.addSubscription now peerId criteria).1 = s := by
  unfold addSubscription at h ⊢
  cases hlookup : s.peersSubscribed.lookup peerId with
  | some data =>
      simp only [hlookup] at h ⊢
      split_ifs at h ⊢
      rfl
  | none =>
      simp only [hlookup] at h ⊢
      split_ifs at h ⊢
      rfl

/-- A refused `removeSubscription` changes nothing. -/
theorem removeSubscription_error {criteria : List FilterCriterion} {e : String}
    (h : (s.removeSubscription now peerId criteria).2 = .error e) :
    (s.removeSubscription now peerId criteria).1 = s := by
  unfold removeSubscription at h ⊢
  cases hlookup : s.peersSubscribed.lookup peerId with
  | some data =>
      rw [hlookup] at h
      cases h
  | none => rfl

end FilterSubscriptions

/-! ### Requests -/

namespace WakuFilter

open FilterSubscriptions

variable {order : IterationOrder FilterCriterion} {s : FilterSubscriptions P} {now : ℤ}
  {peerId : P}

/-- The criteria that pass the checks are not more than a request may have. -/
theorem filterCriteria_length {pubsubTopic : Option StoreSync.PubsubTopic}
    {contentTopics : List StoreSync.ContentTopic} {criteria : List FilterCriterion}
    (h : filterCriteria order pubsubTopic contentTopics = .ok criteria) :
    criteria.length ≤ maxContentTopicsPerRequest := by
  unfold filterCriteria at h
  split_ifs at h with hmissing hmax
  rw [← Except.ok.inj h]
  refine (order.length_ofSeq_le _).trans ?_
  rw [List.length_map]
  omega

/-- Every request keeps the tables together. -/
theorem handleByType_consistent (hs : Consistent s) (request : FilterSubscribeRequest) :
    Consistent (handleByType order s now peerId request).1 := by
  unfold handleByType
  cases request.filterSubscribeType with
  | subscriberPing =>
      simp only [pingSubscriber]
      split_ifs
      · exact hs
      · exact hs.refreshSubscription now peerId
  | subscribe =>
      simp only [subscribe]
      cases hcriteria : filterCriteria order request.pubsubTopic request.contentTopics with
      | error e => exact hs
      | ok criteria => exact hs.addSubscription (filterCriteria_length hcriteria)
  | unsubscribe =>
      simp only [unsubscribe]
      cases filterCriteria order request.pubsubTopic request.contentTopics with
      | error e => exact hs
      | ok criteria => exact hs.removeSubscription now peerId criteria
  | unsubscribeAll =>
      simp only [unsubscribeAll]
      split_ifs
      · exact hs
      · exact (hs.toCounted.removePeer peerId).cleanUp now

/-- A refused request changes nothing. -/
theorem handleByType_error {request : FilterSubscribeRequest} {e : FilterSubscribeError}
    (h : (handleByType order s now peerId request).2 = .error e) :
    (handleByType order s now peerId request).1 = s := by
  unfold handleByType at h ⊢
  cases htype : request.filterSubscribeType with
  | subscriberPing =>
      simp only [htype, pingSubscriber] at h ⊢
      split_ifs at h ⊢
      rfl
  | subscribe =>
      simp only [htype, subscribe] at h ⊢
      cases hcriteria : filterCriteria order request.pubsubTopic request.contentTopics with
      | error e => rfl
      | ok criteria =>
          simp only [hcriteria] at h
          cases hadd : (s.addSubscription now peerId criteria).2 with
          | error e => exact addSubscription_error hadd
          | ok u =>
              rw [hadd] at h
              cases h
  | unsubscribe =>
      simp only [htype, unsubscribe] at h ⊢
      cases hcriteria : filterCriteria order request.pubsubTopic request.contentTopics with
      | error e => rfl
      | ok criteria =>
          simp only [hcriteria] at h
          cases hremove : (s.removeSubscription now peerId criteria).2 with
          | error e => exact removeSubscription_error hremove
          | ok u =>
              rw [hremove] at h
              cases h
  | unsubscribeAll =>
      simp only [htype, unsubscribeAll] at h ⊢
      split_ifs at h ⊢
      rfl

/-- A response that is not `200` is a refusal, and the request changed nothing. -/
theorem handleSubscribeRequest_refused {request : FilterSubscribeRequest}
    (h : (handleSubscribeRequest order s now peerId request).2.statusCode ≠ 200) :
    (handleSubscribeRequest order s now peerId request).1 = s := by
  unfold handleSubscribeRequest at h ⊢
  cases hresult : (handleByType order s now peerId request).2 with
  | ok u =>
      simp only [hresult] at h
      exact absurd rfl h
  | error e => exact handleByType_error hresult

theorem removePeers_limits (s : FilterSubscriptions P) (peerIds : List P) :
    (s.removePeers peerIds).maxPeers = s.maxPeers ∧
      (s.removePeers peerIds).maxCriteriaPerPeer = s.maxCriteriaPerPeer := by
  induction peerIds generalizing s with
  | nil => exact ⟨rfl, rfl⟩
  | cons p peerIds ih => exact ih (s.removePeer p)

/-- No operation changes the limits on the number of peers and on the criteria of a peer. -/
theorem step_limits (op : Op P) : (step order s op).maxPeers = s.maxPeers ∧
    (step order s op).maxCriteriaPerPeer = s.maxCriteriaPerPeer := by
  cases op with
  | request now peerId request =>
      simp only [step, handleSubscribeRequest, handleByType]
      cases request.filterSubscribeType with
      | subscriberPing =>
          simp only [pingSubscriber, refreshSubscription]
          split_ifs
          · exact ⟨rfl, rfl⟩
          · cases s.peersSubscribed.lookup peerId <;> exact ⟨rfl, rfl⟩
      | subscribe =>
          simp only [subscribe]
          cases filterCriteria order request.pubsubTopic request.contentTopics with
          | error e => exact ⟨rfl, rfl⟩
          | ok criteria =>
              simp only [addSubscription]
              cases s.peersSubscribed.lookup peerId with
              | none => simp only; split_ifs <;> exact ⟨rfl, rfl⟩
              | some data => simp only; split_ifs <;> exact ⟨rfl, rfl⟩
      | unsubscribe =>
          simp only [unsubscribe]
          cases filterCriteria order request.pubsubTopic request.contentTopics with
          | error e => exact ⟨rfl, rfl⟩
          | ok criteria =>
              simp only [removeSubscription]
              cases s.peersSubscribed.lookup peerId with
              | none => exact ⟨rfl, rfl⟩
              | some data => simp only; split_ifs <;> exact ⟨rfl, rfl⟩
      | unsubscribeAll =>
          simp only [unsubscribeAll]
          split_ifs <;> exact ⟨rfl, rfl⟩
  | maintain now hasPeer => exact removePeers_limits s _

theorem step_consistent (hs : Consistent s) (op : Op P) : Consistent (step order s op) := by
  cases op with
  | request now peerId request => exact handleByType_consistent hs request
  | maintain now hasPeer => exact (hs.toCounted.removePeers _).cleanUp now

/-! ### Runs -/

variable (order) (timeout : ℤ) (maxPeers maxCriteria : UInt32)

/-- The subscriptions of a server after the operations. -/
def after (ops : List (Op P)) : FilterSubscriptions P :=
  run (step order) (new timeout maxPeers maxCriteria) ops

theorem after_consistent (ops : List (Op P)) :
    Consistent (after order timeout maxPeers maxCriteria ops) := by
  induction ops using List.reverseRecOn with
  | nil => exact new_consistent timeout maxPeers maxCriteria
  | append_singleton ops op ih =>
      rw [after, run_concat]
      exact step_consistent ih op

theorem after_limits (ops : List (Op P)) :
    (after order timeout maxPeers maxCriteria ops).maxPeers = maxPeers.toNat ∧
      (after order timeout maxPeers maxCriteria ops).maxCriteriaPerPeer = maxCriteria.toNat := by
  induction ops using List.reverseRecOn with
  | nil => exact ⟨rfl, rfl⟩
  | append_singleton ops op ih =>
      rw [after, run_concat]
      exact ⟨(step_limits op).1.trans ih.1, (step_limits op).2.trans ih.2⟩

/-- After any requests and rounds of maintenance, at whatever times: each peer is counted with as
many criteria as list it, the peers of the criteria are known and every criterion has one, there
are not more peers than allowed, no loop of an `UNSUBSCRIBE` decreases a counter that is zero, and
a request that is refused leaves both tables as they are. -/
theorem bookkeeping_after (ops : List (Op P)) :
    let s := after order timeout maxPeers maxCriteria ops
    (∀ p data, s.peersSubscribed.lookup p = some data →
      data.criteriaCount = (s.subscriptions.keysOf p).card) ∧
    (∀ c peers, s.subscriptions.lookup c = some peers →
      peers ≠ ∅ ∧ ∀ p ∈ peers, p ∈ s.peersSubscribed) ∧
    s.peersSubscribed.len ≤ maxPeers.toNat ∧
    (∀ p data, s.peersSubscribed.lookup p = some data → ∀ (done : List FilterCriterion) c,
      let acc := done.foldl (removeCriterion p) (s.subscriptions, data.criteriaCount)
      acc.1.Related c p → 0 < acc.2) ∧
    (∀ now p request, (handleSubscribeRequest order s now p request).2.statusCode ≠ 200 →
      (handleSubscribeRequest order s now p request).1 = s) := by
  intro s
  have hs : Consistent s := after_consistent order timeout maxPeers maxCriteria ops
  have hmax : s.maxPeers = maxPeers.toNat :=
    (after_limits order timeout maxPeers maxCriteria ops).1
  refine ⟨hs.counted, ?_, hmax ▸ hs.peers_le, ?_, fun now p request => handleSubscribeRequest_refused⟩
  · intro c peers hlookup
    exact ⟨hs.noneEmpty c peers hlookup, fun p hp => hs.listed c p ⟨peers, hlookup, hp⟩⟩
  · intro p data hlookup done c acc hrel
    have hlt := hs.count_lt hlookup
    have hstart : LoopCounted p (s.subscriptions, data.criteriaCount) := hs.counted p data hlookup
    have hloop := foldl_removeCriterion done hstart
      (lt_of_le_of_lt (Nat.le_add_right _ _) hlt) hs.noneEmpty
    exact removeCriterion_pos hloop.1 hrel

end WakuFilter

end LogosDelivery.Filter
