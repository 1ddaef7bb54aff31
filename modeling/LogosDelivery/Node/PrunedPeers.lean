import LogosDelivery.Node.PeerStorePruning

/-! # The peers that a pruning drops

The three passes fill one set from one row of peers (`prunePeerStore_eq`): those with failed
attempts, the disconnected ones without shards, the disconnected ones of each shard.  The first of
these are neither checked to be disconnected nor to be in the address book, and a peer whose record
has an empty list of shards is in no row (`prunesRight_iff`). -/

namespace LogosDelivery.Node

open Lib
open Discovery (EnrRecord EnrLibrary)

variable {PeerId Key PublicKey Field : Type} {E : EnrLibrary Key PublicKey Field}
  {store : PeerStore PeerId PublicKey Field}

/-! ### The table of the shards -/

theorem getD_lookup_addToShard (peer : PeerId) (t : Table UInt16 (List PeerId))
    (shard shard' : UInt16) :
    ((addToShard peer t shard).lookup shard').getD [] =
      (t.lookup shard').getD [] ++ if shard = shard' then [peer] else [] := by
  rw [addToShard, Table.lookup_insert_eq]
  by_cases h : shard' = shard
  · rw [if_pos h, if_pos h.symm, h]
    rfl
  · rw [if_neg h, if_neg (Ne.symm h), List.append_nil]

theorem getD_lookup_foldl_addToShard (peer : PeerId) (shardIds : List UInt16)
    (t : Table UInt16 (List PeerId)) (shard : UInt16) :
    ((shardIds.foldl (addToShard peer) t).lookup shard).getD [] =
      (t.lookup shard).getD [] ++ List.replicate (shardIds.count shard) peer := by
  induction shardIds generalizing t with
  | nil => exact (List.append_nil _).symm
  | cons id shardIds ih =>
      rw [List.foldl_cons, ih, getD_lookup_addToShard, List.append_assoc, List.count_cons]
      by_cases h : id = shard
      · simp [h, List.replicate_succ]
      · simp [h]

/-- Every shard of the table has a peer. -/
def NoneEmpty (t : Table UInt16 (List PeerId)) : Prop :=
  ∀ shard peers, t.lookup shard = some peers → peers ≠ []

theorem noneEmpty_empty : NoneEmpty (∅ : Table UInt16 (List PeerId)) := by
  intro shard peers h
  cases h

theorem NoneEmpty.foldl_addToShard {t : Table UInt16 (List PeerId)} (h : NoneEmpty t)
    (peer : PeerId) (shardIds : List UInt16) : NoneEmpty (shardIds.foldl (addToShard peer) t) := by
  induction shardIds generalizing t with
  | nil => exact h
  | cons id shardIds ih =>
      refine ih (fun shard peers hlookup => ?_)
      rw [addToShard, Table.lookup_insert_eq] at hlookup
      split_ifs at hlookup
      · cases hlookup
        simp
      · exact h shard peers hlookup

/-- There are at least as many entries in the lists as there are shards. -/
theorem avg_eq_one {entries : List (UInt16 × List PeerId)} (hne : entries ≠ [])
    (h : ∀ entry ∈ entries, entry.2 ≠ []) :
    min 1 ((entries.map (fun it => it.2.length)).sum / max 1 entries.length) = 1 := by
  have hpos : 0 < entries.length := List.length_pos_of_ne_nil hne
  have htotal : entries.length ≤ (entries.map (fun it => it.2.length)).sum := by
    have hcard := List.length_le_sum_of_one_le (entries.map (fun it => it.2.length)) (by
      intro n hn
      obtain ⟨entry, hentry, rfl⟩ := List.mem_map.mp hn
      exact List.length_pos_of_ne_nil (h entry hentry))
    rwa [List.length_map] at hcard
  have hdiv : 1 ≤ (entries.map (fun it => it.2.length)).sum / max 1 entries.length := by
    rw [Nat.one_le_div_iff (by omega)]
    omega
  omega

variable [DecidableEq PeerId]

/-! ### The first pass -/

/-- The peers of the entries with enough failed attempts. -/
def failedIn (maxFailedAttempts : ℤ) (entries : List (PeerId × ℤ)) : List PeerId :=
  (entries.filter (fun it => decide (maxFailedAttempts ≤ it.2))).map Prod.fst

theorem pruneFailed_eq (maxFailedAttempts : ℤ) (pruningCount : ℕ) (entries : List (PeerId × ℤ))
    (peersToPrune : Finset PeerId) :
    pruneFailed maxFailedAttempts pruningCount entries peersToPrune =
      fill pruningCount (failedIn maxFailedAttempts entries) peersToPrune := by
  induction entries generalizing peersToPrune with
  | nil => rfl
  | cons entry entries ih =>
      obtain ⟨peerId, count⟩ := entry
      by_cases hcount : count < maxFailedAttempts
      · have hskip : failedIn maxFailedAttempts ((peerId, count) :: entries) =
            failedIn maxFailedAttempts entries := by
          simp [failedIn, not_le.mpr hcount]
        rw [pruneFailed, if_pos hcount, ih, hskip]
      · have htake : failedIn maxFailedAttempts ((peerId, count) :: entries) =
            peerId :: failedIn maxFailedAttempts entries := by
          simp [failedIn, not_lt.mp hcount]
        rw [pruneFailed, if_neg hcount, htake, fill, ih]

/-! ### The disconnected peers -/

/-- A peer stands in the list of a shard as often as the shard stands in its record. -/
def inShard (E : EnrLibrary Key PublicKey Field) (store : PeerStore PeerId PublicKey Field)
    (peers : List PeerId) (shard : UInt16) : List PeerId :=
  peers.flatMap (fun peer => List.replicate (((shardIdsOf E store peer).getD []).count shard) peer)

variable (E store) in
/-- What is split off a list of peers. -/
theorem foldl_splitPeer (peers : List PeerId) (split : ShardSplit PeerId)
    (h : NoneEmpty split.peersByShard) :
    (peers.foldl (splitPeer E store) split).shardlessPeers =
        split.shardlessPeers ++ peers.filter (fun peer => (shardIdsOf E store peer).isNone) ∧
      (∀ shard, ((peers.foldl (splitPeer E store) split).peersByShard.lookup shard).getD [] =
        (split.peersByShard.lookup shard).getD [] ++ inShard E store peers shard) ∧
      NoneEmpty (peers.foldl (splitPeer E store) split).peersByShard := by
  induction peers generalizing split with
  | nil => exact ⟨(List.append_nil _).symm, fun _ => (List.append_nil _).symm, h⟩
  | cons peer peers ih =>
      rw [List.foldl_cons]
      cases hids : shardIdsOf E store peer with
      | none =>
          have hsplit : splitPeer E store split peer =
              { split with shardlessPeers := split.shardlessPeers ++ [peer] } := by
            simp only [splitPeer, hids]
          obtain ⟨hless, hlists, hnone⟩ := ih (splitPeer E store split peer) (by rw [hsplit]; exact h)
          refine ⟨?_, ?_, hnone⟩
          · rw [hless, hsplit]
            simp [hids]
          · intro shard
            rw [hlists, hsplit]
            simp [inShard, hids]
      | some shardIds =>
          have hsplit : splitPeer E store split peer =
              { split with peersByShard := shardIds.foldl (addToShard peer) split.peersByShard } := by
            simp only [splitPeer, hids]
          obtain ⟨hless, hlists, hnone⟩ := ih (splitPeer E store split peer)
            (by rw [hsplit]; exact h.foldl_addToShard peer shardIds)
          refine ⟨?_, ?_, hnone⟩
          · rw [hless, hsplit]
            simp [hids]
          · intro shard
            rw [hlists, hsplit, getD_lookup_foldl_addToShard]
            simp [inShard, hids]

/-! ### The last pass -/

theorem pruneShards_eq (pruningCount : ℕ) (entries : List (UInt16 × List PeerId))
    (peersToPrune : Finset PeerId) (h : ∀ entry ∈ entries, entry.2 ≠ []) :
    pruneShards pruningCount 1 entries peersToPrune =
      some (fill pruningCount (entries.flatMap Prod.snd) peersToPrune) := by
  induction entries generalizing peersToPrune with
  | nil => rfl
  | cons entry entries ih =>
      obtain ⟨shard, peers⟩ := entry
      have hpos : 0 < peers.length :=
        List.length_pos_of_ne_nil (h (shard, peers) List.mem_cons_self)
      have hslice : sliceTo peers (peers.length - 1) = some peers := by
        rw [sliceTo, if_pos (by omega), List.take_of_length_le (by omega)]
      simp only [pruneShards, hslice]
      rw [ih _ (fun entry hentry => h entry (List.mem_cons_of_mem _ hentry)), List.flatMap_cons,
        fill_append]

/-! ### The row of peers -/

variable (E store)

section Rows

variable (maxFailedAttempts : ℤ) (orders : PruneOrders PeerId)

def failedRow : List PeerId :=
  failedIn maxFailedAttempts (store.numberFailedConnBook.pairs orders.failed)

/-- The disconnected peers in the order of the shuffle. -/
def notConnectedRow : List PeerId :=
  orders.shuffle.visit (store.getDisconnectedPeers orders.allKeys)

def shardlessRow : List PeerId :=
  (notConnectedRow store orders).filter (fun peer => (shardIdsOf E store peer).isNone)

/-- The peers by shard. -/
def shardTable : Table UInt16 (List PeerId) :=
  ((notConnectedRow store orders).foldl (splitPeer E store) ⟨[], ∅⟩).peersByShard

def shardedRow : List PeerId := ((shardTable E store orders).pairs orders.byShard).flatMap Prod.snd

def pruningCount : ℕ := ((store.addressBook.card : ℤ) - store.capacity).toNat

/-- The peers that are pruned when the store is over capacity. -/
def prunedPeers : Finset PeerId :=
  fill (pruningCount store) (failedRow store maxFailedAttempts orders ++
    (shardlessRow E store orders ++ shardedRow E store orders)) ∅

end Rows

variable {E store} {maxFailedAttempts : ℤ} {orders : PruneOrders PeerId}

variable (E store orders) in
theorem shardTable_spec :
    ((notConnectedRow store orders).foldl (splitPeer E store) ⟨[], ∅⟩).shardlessPeers =
        shardlessRow E store orders ∧
      (∀ shard, ((shardTable E store orders).lookup shard).getD [] =
        inShard E store (notConnectedRow store orders) shard) ∧
      NoneEmpty (shardTable E store orders) := by
  obtain ⟨hless, hlists, hnone⟩ := foldl_splitPeer E store
    (notConnectedRow store orders) ⟨[], ∅⟩ noneEmpty_empty
  exact ⟨hless, hlists, hnone⟩

theorem prunePeerStore_eq (hover : store.capacity < store.addressBook.card) :
    prunePeerStore E orders maxFailedAttempts store =
      some ((orders.peersToPrune.toSeq (prunedPeers E store maxFailedAttempts orders)).foldl
        PeerStore.delete store) := by
  obtain ⟨hless, _, hnone⟩ := shardTable_spec E store orders
  have hentries : ∀ entry ∈ (shardTable E store orders).pairs orders.byShard, entry.2 ≠ [] := by
    rintro ⟨shard, peers⟩ hentry
    exact hnone shard peers (Table.mem_pairs.mp hentry)
  have hshards : ∀ peersToPrune, pruneShards (pruningCount store)
      (min 1 ((((shardTable E store orders).pairs orders.byShard).map
        (fun it => it.2.length)).sum / max 1 (shardTable E store orders).len))
      ((shardTable E store orders).pairs orders.byShard) peersToPrune =
        some (fill (pruningCount store) (shardedRow E store orders) peersToPrune) := by
    intro peersToPrune
    by_cases hempty : (shardTable E store orders).pairs orders.byShard = []
    · simp only [shardedRow, hempty]
      rfl
    · rw [← Table.length_pairs (shardTable E store orders) orders.byShard,
        avg_eq_one hempty hentries, pruneShards_eq _ _ _ hentries, shardedRow]
  have hfill : prunedPeers E store maxFailedAttempts orders =
      fill (pruningCount store) (shardedRow E store orders)
        (fill (pruningCount store)
          ((notConnectedRow store orders).foldl (splitPeer E store) ⟨[], ∅⟩).shardlessPeers
          (pruneFailed maxFailedAttempts (pruningCount store)
            (store.numberFailedConnBook.pairs orders.failed) ∅)) := by
    rw [hless, pruneFailed_eq, prunedPeers, fill_append, fill_append]
    rfl
  have hrun := hshards (fill (pruningCount store)
    ((notConnectedRow store orders).foldl (splitPeer E store) ⟨[], ∅⟩).shardlessPeers
    (pruneFailed maxFailedAttempts (pruningCount store)
      (store.numberFailedConnBook.pairs orders.failed) ∅))
  rw [← hfill] at hrun
  simp only [shardTable, notConnectedRow, pruningCount] at hrun
  rw [prunePeerStore, if_neg (not_le.mpr hover)]
  simp only [hrun]

/-! ### Who is in the row -/

section Sets

variable (E store) (maxFailedAttempts)

/-- The peers with enough failed attempts. -/
def failedPeers : Finset PeerId :=
  store.numberFailedConnBook.keys.toFinset.filter (fun peer =>
    (store.numberFailedConnBook.lookup peer).any (fun count => decide (maxFailedAttempts ≤ count)))

def disconnectedPeers : Finset PeerId :=
  store.allKeys.filter (fun peer => store.connectedness peer ≠ .connected)

/-- The disconnected peers of which no shards are known. -/
def shardlessPeers : Finset PeerId :=
  (disconnectedPeers store).filter (fun peer => (shardIdsOf E store peer).isNone)

/-- The disconnected peers with a shard. -/
def shardedPeers : Finset PeerId :=
  (disconnectedPeers store).filter (fun peer => (shardIdsOf E store peer).getD [] ≠ [])

end Sets

variable {peer : PeerId}

theorem mem_failedPeers : peer ∈ failedPeers store maxFailedAttempts ↔
    ∃ count, store.numberFailedConnBook.lookup peer = some count ∧ maxFailedAttempts ≤ count := by
  rw [failedPeers, Finset.mem_filter, List.mem_toFinset, Option.any_eq_true]
  constructor
  · rintro ⟨_, count, hlookup, hcount⟩
    exact ⟨count, hlookup, of_decide_eq_true hcount⟩
  · rintro ⟨count, hlookup, hcount⟩
    exact ⟨AList.mem_keys.mp (Table.mem_iff.mpr ⟨count, hlookup⟩), count, hlookup,
      decide_eq_true hcount⟩

theorem mem_failedRow : peer ∈ failedRow store maxFailedAttempts orders ↔
    peer ∈ failedPeers store maxFailedAttempts := by
  rw [mem_failedPeers, failedRow, failedIn, List.mem_map]
  constructor
  · rintro ⟨⟨peer, count⟩, hentry, rfl⟩
    obtain ⟨hentry, hcount⟩ := List.mem_filter.mp hentry
    exact ⟨count, Table.mem_pairs.mp hentry, of_decide_eq_true hcount⟩
  · rintro ⟨count, hlookup, hcount⟩
    exact ⟨(peer, count), List.mem_filter.mpr ⟨Table.mem_pairs.mpr hlookup,
      decide_eq_true hcount⟩, rfl⟩

theorem mem_notConnectedRow : peer ∈ notConnectedRow store orders ↔
    peer ∈ disconnectedPeers store := by
  rw [notConnectedRow, (orders.shuffle.perm _).mem_iff, PeerStore.getDisconnectedPeers,
    List.mem_filter, orders.allKeys.mem_toSeq, decide_eq_true_eq, disconnectedPeers,
    Finset.mem_filter]

theorem mem_shardlessRow : peer ∈ shardlessRow E store orders ↔ peer ∈ shardlessPeers E store := by
  rw [shardlessRow, List.mem_filter, mem_notConnectedRow, shardlessPeers, Finset.mem_filter]

theorem mem_inShard {peers : List PeerId} {shard : UInt16} : peer ∈ inShard E store peers shard ↔
    peer ∈ peers ∧ shard ∈ (shardIdsOf E store peer).getD [] := by
  rw [inShard, List.mem_flatMap]
  constructor
  · rintro ⟨peer', hpeer', hrep⟩
    obtain ⟨hcount, rfl⟩ := List.mem_replicate.mp hrep
    exact ⟨hpeer', List.count_pos_iff.mp (Nat.pos_of_ne_zero hcount)⟩
  · rintro ⟨hpeer, hshard⟩
    exact ⟨peer, hpeer, List.mem_replicate.mpr ⟨(List.count_pos_iff.mpr hshard).ne', rfl⟩⟩

theorem mem_shardedRow : peer ∈ shardedRow E store orders ↔ peer ∈ shardedPeers E store := by
  obtain ⟨_, hlists, _⟩ := shardTable_spec E store orders
  have hrow : peer ∈ shardedRow E store orders ↔
      ∃ shard, peer ∈ ((shardTable E store orders).lookup shard).getD [] := by
    rw [shardedRow, List.mem_flatMap]
    constructor
    · rintro ⟨⟨shard, peers⟩, hentry, hpeer⟩
      exact ⟨shard, by rw [Table.mem_pairs.mp hentry]; exact hpeer⟩
    · rintro ⟨shard, hpeer⟩
      cases hlookup : (shardTable E store orders).lookup shard with
      | none => simp [hlookup] at hpeer
      | some peers =>
          rw [hlookup] at hpeer
          exact ⟨(shard, peers), Table.mem_pairs.mpr hlookup, hpeer⟩
  simp only [hrow, hlists, mem_inShard, mem_notConnectedRow]
  rw [shardedPeers, Finset.mem_filter]
  constructor
  · rintro ⟨shard, hpeer, hshard⟩
    exact ⟨hpeer, List.ne_nil_of_mem hshard⟩
  · rintro ⟨hpeer, hne⟩
    obtain ⟨shard, hshard⟩ := List.exists_mem_of_ne_nil _ hne
    exact ⟨shard, hpeer, hshard⟩

theorem toFinset_failedRow :
    (failedRow store maxFailedAttempts orders).toFinset = failedPeers store maxFailedAttempts := by
  ext peer
  rw [List.mem_toFinset, mem_failedRow]

theorem toFinset_shardlessRow :
    (shardlessRow E store orders).toFinset = shardlessPeers E store := by
  ext peer
  rw [List.mem_toFinset, mem_shardlessRow]

theorem toFinset_shardedRow : (shardedRow E store orders).toFinset = shardedPeers E store := by
  ext peer
  rw [List.mem_toFinset, mem_shardedRow]

/-! ### Orders with a peer in front -/

/-- The tables enumerate one peer and one shard first. -/
noncomputable def PruneOrders.startWith (peer : PeerId) (shard : UInt16) : PruneOrders PeerId where
  failed := (SetOrder.any PeerId).startWith peer
  allKeys := (SetOrder.any PeerId).startWith peer
  shuffle := ⟨id, fun _ => List.Perm.refl _⟩
  byShard := (SetOrder.any UInt16).startWith shard
  peersToPrune := SetOrder.any PeerId

theorem failedRow_startWith (h : peer ∈ failedPeers store maxFailedAttempts) (shard : UInt16) :
    ∃ rest, failedRow store maxFailedAttempts (PruneOrders.startWith peer shard) = peer :: rest := by
  obtain ⟨count, hlookup, hcount⟩ := mem_failedPeers.mp h
  have hkey : peer ∈ store.numberFailedConnBook.keys.toFinset :=
    (Finset.mem_filter.mp h).1
  rw [failedRow, Table.pairs, PruneOrders.startWith]
  simp only
  rw [SetOrder.toSeq_startWith _ hkey, List.filterMap_cons, hlookup, Option.map_some, failedIn,
    List.filter_cons, if_pos (decide_eq_true hcount), List.map_cons]
  exact ⟨_, rfl⟩

theorem notConnectedRow_startWith (h : peer ∈ disconnectedPeers store) (shard : UInt16) :
    ∃ rest, notConnectedRow store (PruneOrders.startWith peer shard) = peer :: rest := by
  obtain ⟨hkey, hconn⟩ := Finset.mem_filter.mp h
  rw [notConnectedRow, PeerStore.getDisconnectedPeers, PruneOrders.startWith]
  simp only [id]
  rw [SetOrder.toSeq_startWith _ hkey, List.filter_cons, if_pos (decide_eq_true hconn)]
  exact ⟨_, rfl⟩

theorem shardlessRow_startWith (h : peer ∈ shardlessPeers E store) (shard : UInt16) :
    ∃ rest, shardlessRow E store (PruneOrders.startWith peer shard) = peer :: rest := by
  obtain ⟨hdisconnected, hless⟩ := Finset.mem_filter.mp h
  obtain ⟨rest, hrow⟩ := notConnectedRow_startWith hdisconnected shard
  rw [shardlessRow, hrow, List.filter_cons, if_pos hless]
  exact ⟨_, rfl⟩

theorem shardedRow_startWith (h : peer ∈ disconnectedPeers store) {shard : UInt16}
    (hshard : shard ∈ (shardIdsOf E store peer).getD []) :
    ∃ rest, shardedRow E store (PruneOrders.startWith peer shard) = peer :: rest := by
  obtain ⟨rest, hrow⟩ := notConnectedRow_startWith h shard
  obtain ⟨_, hlists, _⟩ := shardTable_spec E store (PruneOrders.startWith peer shard)
  obtain ⟨n, hcount⟩ : ∃ n, ((shardIdsOf E store peer).getD []).count shard = n + 1 :=
    Nat.exists_eq_succ_of_ne_zero (List.count_pos_iff.mpr hshard).ne'
  have hlist := hlists shard
  rw [hrow, inShard, List.flatMap_cons, hcount, List.replicate_succ, List.cons_append] at hlist
  cases hlookup : (shardTable E store (PruneOrders.startWith peer shard)).lookup shard with
  | none =>
      rw [hlookup] at hlist
      cases hlist
  | some peers =>
      rw [hlookup, Option.getD_some] at hlist
      have hkey : shard ∈
          (shardTable E store (PruneOrders.startWith peer shard)).keys.toFinset :=
        List.mem_toFinset.mpr (AList.mem_keys.mp (Table.mem_iff.mpr ⟨peers, hlookup⟩))
      have hfirst := SetOrder.toSeq_startWith (SetOrder.any UInt16) hkey
      rw [shardedRow, Table.pairs]
      show ∃ rest, (List.filterMap _ (((SetOrder.any UInt16).startWith shard).toSeq _)).flatMap _ =
        peer :: rest
      rw [hfirst, List.filterMap_cons, hlookup, Option.map_some, List.flatMap_cons, hlist,
        List.cons_append]
      exact ⟨_, rfl⟩

/-! ### Which peers are pruned -/

section Choices

/-- The peers of a row are pruned in some order, while there is room. -/
theorem exists_pruned_failed (hcount : 0 < pruningCount store)
    (h : peer ∈ failedPeers store maxFailedAttempts) :
    ∃ orders, peer ∈ prunedPeers E store maxFailedAttempts orders := by
  obtain ⟨rest, hrow⟩ := failedRow_startWith h 0
  refine ⟨PruneOrders.startWith peer 0, ?_⟩
  rw [prunedPeers, hrow, List.cons_append]
  exact mem_fill_of_room (l := []) (by simpa using hcount)

theorem exists_pruned_shardless
    (hcount : (failedPeers store maxFailedAttempts).card < pruningCount store)
    (h : peer ∈ shardlessPeers E store) :
    ∃ orders, peer ∈ prunedPeers E store maxFailedAttempts orders := by
  obtain ⟨rest, hrow⟩ := shardlessRow_startWith h 0
  refine ⟨PruneOrders.startWith peer 0, ?_⟩
  rw [prunedPeers, hrow, List.cons_append]
  refine mem_fill_of_room ?_
  rwa [Finset.empty_union, toFinset_failedRow]

theorem exists_pruned_sharded
    (hcount : (failedPeers store maxFailedAttempts ∪ shardlessPeers E store).card <
      pruningCount store)
    (h : peer ∈ shardedPeers E store) :
    ∃ orders, peer ∈ prunedPeers E store maxFailedAttempts orders := by
  obtain ⟨hdisconnected, hne⟩ := Finset.mem_filter.mp h
  obtain ⟨shard, hshard⟩ := List.exists_mem_of_ne_nil _ hne
  obtain ⟨rest, hrow⟩ := shardedRow_startWith hdisconnected hshard
  refine ⟨PruneOrders.startWith peer shard, ?_⟩
  rw [prunedPeers, hrow, ← List.append_assoc]
  refine mem_fill_of_room ?_
  rwa [Finset.empty_union, List.toFinset_append, toFinset_failedRow, toFinset_shardlessRow]

end Choices

/-! ### Deleted peers -/

section Deleting

variable (store)

/-- The peers that some book has. -/
def PeerStore.known : Finset PeerId :=
  store.allKeys ∪ store.connectionBook.keys.toFinset ∪ store.numberFailedConnBook.keys.toFinset ∪
    store.enrBook.keys.toFinset

theorem known_delete (peerId : PeerId) : (store.delete peerId).known = store.known.erase peerId := by
  have hkeys : ∀ {α : Type} (t : Table PeerId α),
      (t.erase peerId).keys.toFinset = t.keys.toFinset.erase peerId := by
    intro α t
    ext peer
    rw [Finset.mem_erase, List.mem_toFinset, List.mem_toFinset, ← AList.mem_keys, ← AList.mem_keys,
      AList.mem_erase]
  simp only [PeerStore.known, PeerStore.allKeys, PeerStore.delete, hkeys, Finset.erase_union_distrib]

theorem known_foldl_delete (peers : List PeerId) :
    (peers.foldl PeerStore.delete store).known = store.known \ peers.toFinset := by
  induction peers generalizing store with
  | nil => exact (Finset.sdiff_empty).symm
  | cons peer peers ih =>
      rw [List.foldl_cons, ih, known_delete, List.toFinset_cons]
      ext it
      simp only [Finset.mem_sdiff, Finset.mem_erase, Finset.mem_insert, not_or]
      tauto

theorem addressBook_foldl_delete (peers : List PeerId) :
    (peers.foldl PeerStore.delete store).addressBook = store.addressBook \ peers.toFinset := by
  induction peers generalizing store with
  | nil => exact (Finset.sdiff_empty).symm
  | cons peer peers ih =>
      rw [List.foldl_cons, ih, List.toFinset_cons]
      ext it
      simp only [PeerStore.delete, Finset.mem_sdiff, Finset.mem_erase, Finset.mem_insert, not_or]
      tauto

end Deleting

theorem prunedPeers_subset : prunedPeers E store maxFailedAttempts orders ⊆
    failedPeers store maxFailedAttempts ∪ (shardlessPeers E store ∪ shardedPeers E store) := by
  intro peer hpeer
  have hrow := mem_of_mem_fill hpeer
  rw [List.mem_append, List.mem_append, mem_failedRow, mem_shardlessRow, mem_shardedRow] at hrow
  simpa only [Finset.mem_union] using hrow

theorem known_of_disconnected (h : peer ∈ disconnectedPeers store) : peer ∈ store.known := by
  have hkey := (Finset.mem_filter.mp h).1
  simp only [PeerStore.known, Finset.mem_union]
  exact Or.inl (Or.inl (Or.inl hkey))

theorem prunedPeers_subset_known :
    prunedPeers E store maxFailedAttempts orders ⊆ store.known := by
  intro peer hpeer
  rcases Finset.mem_union.mp (prunedPeers_subset hpeer) with hfailed | hother
  · have hkey := (Finset.mem_filter.mp hfailed).1
    simp only [PeerStore.known, Finset.mem_union]
    exact Or.inl (Or.inr hkey)
  · rcases Finset.mem_union.mp hother with h | h
    · exact known_of_disconnected (Finset.mem_filter.mp h).1
    · exact known_of_disconnected (Finset.mem_filter.mp h).1

theorem card_prunedPeers_le :
    (prunedPeers E store maxFailedAttempts orders).card ≤ pruningCount store :=
  card_fill_le (by simp)

/-! ### The right peers -/

variable (store) in
/-- What a pruning is to do, from the peers that are in the books before and after. -/
structure PrunesRight (store' : PeerStore PeerId PublicKey Field) : Prop where
  deletes_le : ((store.known \ store'.known).card : ℤ) ≤
    max 0 (store.addressBook.card - store.capacity)
  disconnected : ∀ peer ∈ store.known \ store'.known, store.connectedness peer ≠ .connected
  within : (store.addressBook.card : ℤ) ≤ store.capacity → store' = store
  fits : (store.addressBook.card : ℤ) - store.capacity ≤
      (store.addressBook.filter (fun peer => store.connectedness peer ≠ .connected)).card →
    (store'.addressBook.card : ℤ) ≤ store.capacity

/-- Over capacity, in terms of the pruned peers. -/
theorem prunesRight_over (hover : store.capacity < store.addressBook.card)
    {pruned : Finset PeerId} (hknown : pruned ⊆ store.known)
    (hcard : pruned.card ≤ pruningCount store) {peers : List PeerId}
    (hpeers : peers.toFinset = pruned) :
    PrunesRight store (peers.foldl PeerStore.delete store) ↔
      (∀ peer ∈ pruned, store.connectedness peer ≠ .connected) ∧
        (pruningCount store ≤
            (store.addressBook.filter (fun peer => store.connectedness peer ≠ .connected)).card →
          pruned ⊆ store.addressBook ∧ pruned.card = pruningCount store) := by
  have hgone : store.known \ (peers.foldl PeerStore.delete store).known = pruned := by
    rw [known_foldl_delete, hpeers, Finset.sdiff_sdiff_eq_self hknown]
  have hcount : ((pruningCount store : ℕ) : ℤ) = store.addressBook.card - store.capacity :=
    Int.toNat_of_nonneg (by omega)
  have hleft : (peers.foldl PeerStore.delete store).addressBook = store.addressBook \ pruned := by
    rw [addressBook_foldl_delete, hpeers]
  have hsplit := Finset.card_sdiff_add_card_inter store.addressBook pruned
  have hinter : (store.addressBook ∩ pruned).card ≤ pruned.card :=
    Finset.card_le_card Finset.inter_subset_right
  constructor
  · intro h
    refine ⟨hgone ▸ h.disconnected, ?_⟩
    intro henough
    have hfits := h.fits (by omega)
    rw [hleft] at hfits
    have hfull : (store.addressBook ∩ pruned).card = pruned.card := by omega
    refine ⟨?_, by omega⟩
    rw [← Finset.eq_of_subset_of_card_le Finset.inter_subset_right hfull.ge]
    exact Finset.inter_subset_left
  · rintro ⟨hdisconnected, hfits⟩
    refine ⟨?_, hgone.symm ▸ hdisconnected, fun hle => absurd hle (not_le.mpr hover), ?_⟩
    · rw [hgone, ← hcount]
      exact le_max_of_le_right (by exact_mod_cast hcard)
    · intro henough
      obtain ⟨hsubset, hfull⟩ := hfits (by omega)
      rw [Finset.inter_eq_right.mpr hsubset] at hsplit
      rw [hleft]
      omega

/-! ### When they are the right ones -/

section Condition

variable (E store) (maxFailedAttempts)

/-- The rows one after the other, as far as they are needed, have peers of the address book, and in
the end there are enough. -/
def RowsSuffice : Prop :=
  failedPeers store maxFailedAttempts ⊆ store.addressBook ∧
    (pruningCount store ≤ (failedPeers store maxFailedAttempts).card ∨
      shardlessPeers E store ⊆ store.addressBook ∧
        (pruningCount store ≤
            (failedPeers store maxFailedAttempts ∪ shardlessPeers E store).card ∨
          shardedPeers E store ⊆ store.addressBook ∧
            pruningCount store ≤ (failedPeers store maxFailedAttempts ∪
              (shardlessPeers E store ∪ shardedPeers E store)).card))

/-- The store is within capacity, or no peer with failed attempts is connected and the rows suffice
where the address book has enough disconnected peers. -/
def CanPrune : Prop :=
  (store.addressBook.card : ℤ) ≤ store.capacity ∨
    (∀ peer ∈ failedPeers store maxFailedAttempts, store.connectedness peer ≠ .connected) ∧
      (pruningCount store ≤
          (store.addressBook.filter (fun peer => store.connectedness peer ≠ .connected)).card →
        RowsSuffice E store maxFailedAttempts)

end Condition

/-- The peers come from the first rows when these suffice. -/
theorem prunedPeers_of_enough {row rest : List PeerId} {peers : Finset PeerId}
    (hrow : failedRow store maxFailedAttempts orders ++
      (shardlessRow E store orders ++ shardedRow E store orders) = row ++ rest)
    (hpeers : row.toFinset = peers) (henough : pruningCount store ≤ peers.card)
    (hbook : peers ⊆ store.addressBook) :
    prunedPeers E store maxFailedAttempts orders ⊆ store.addressBook ∧
      (prunedPeers E store maxFailedAttempts orders).card = pruningCount store := by
  have hrows : pruningCount store ≤ (∅ ∪ row.toFinset).card := by
    rwa [Finset.empty_union, hpeers]
  have hpruned : prunedPeers E store maxFailedAttempts orders = fill (pruningCount store) row ∅ := by
    rw [prunedPeers, hrow, fill_append_of_enough (by simp) hrows]
  rw [hpruned]
  refine ⟨?_, card_fill_of_enough (by simp) hrows⟩
  intro peer hpeer
  exact hbook (hpeers ▸ List.mem_toFinset.mpr (mem_of_mem_fill hpeer))

theorem RowsSuffice.prunedPeers (h : RowsSuffice E store maxFailedAttempts)
    (orders : PruneOrders PeerId) :
    prunedPeers E store maxFailedAttempts orders ⊆ store.addressBook ∧
      (Node.prunedPeers E store maxFailedAttempts orders).card = pruningCount store := by
  obtain ⟨hfailed, henough | ⟨hless, henough | ⟨hsharded, henough⟩⟩⟩ := h
  · exact prunedPeers_of_enough rfl toFinset_failedRow henough hfailed
  · refine prunedPeers_of_enough (List.append_assoc _ _ _).symm ?_ henough
      (Finset.union_subset hfailed hless)
    rw [List.toFinset_append, toFinset_failedRow, toFinset_shardlessRow]
  · refine prunedPeers_of_enough (List.append_nil _).symm ?_ henough
      (Finset.union_subset hfailed (Finset.union_subset hless hsharded))
    rw [List.toFinset_append, List.toFinset_append, toFinset_failedRow, toFinset_shardlessRow,
      toFinset_shardedRow]

/-- Some order takes a peer from each row that is needed. -/
theorem rowsSuffice_of_prunedPeers (hcount : 0 < pruningCount store)
    (h : ∀ orders, prunedPeers E store maxFailedAttempts orders ⊆ store.addressBook ∧
      (prunedPeers E store maxFailedAttempts orders).card = pruningCount store)
    (orders : PruneOrders PeerId) : RowsSuffice E store maxFailedAttempts := by
  refine ⟨?_, ?_⟩
  · intro peer hpeer
    obtain ⟨orders, hpruned⟩ := exists_pruned_failed (E := E) hcount hpeer
    exact (h orders).1 hpruned
  by_cases hfailed : pruningCount store ≤ (failedPeers store maxFailedAttempts).card
  · exact Or.inl hfailed
  refine Or.inr ⟨?_, ?_⟩
  · intro peer hpeer
    obtain ⟨orders, hpruned⟩ := exists_pruned_shardless (not_le.mp hfailed) hpeer
    exact (h orders).1 hpruned
  by_cases hless : pruningCount store ≤
      (failedPeers store maxFailedAttempts ∪ shardlessPeers E store).card
  · exact Or.inl hless
  refine Or.inr ⟨?_, ?_⟩
  · intro peer hpeer
    obtain ⟨orders, hpruned⟩ := exists_pruned_sharded (not_le.mp hless) hpeer
    exact (h orders).1 hpruned
  · rw [← (h orders).2]
    exact Finset.card_le_card prunedPeers_subset

theorem prunesRight_within (h : (store.addressBook.card : ℤ) ≤ store.capacity) :
    prunePeerStore E orders maxFailedAttempts store = some store ∧ PrunesRight store store := by
  refine ⟨if_pos h, ?_, ?_, fun _ => rfl, fun _ => h⟩
  · rw [Finset.sdiff_self, Finset.card_empty]
    exact le_max_left _ _
  · intro peer hpeer
    rw [Finset.sdiff_self] at hpeer
    cases hpeer

/-- Over capacity, what the call does in one order. -/
theorem prunesRight_orders (hover : store.capacity < store.addressBook.card)
    (orders : PruneOrders PeerId) :
    (∃ store', prunePeerStore E orders maxFailedAttempts store = some store' ∧
        PrunesRight store store') ↔
      (∀ peer ∈ prunedPeers E store maxFailedAttempts orders,
          store.connectedness peer ≠ .connected) ∧
        (pruningCount store ≤
            (store.addressBook.filter (fun peer => store.connectedness peer ≠ .connected)).card →
          prunedPeers E store maxFailedAttempts orders ⊆ store.addressBook ∧
            (prunedPeers E store maxFailedAttempts orders).card = pruningCount store) := by
  have hpeers : (orders.peersToPrune.toSeq
      (prunedPeers E store maxFailedAttempts orders)).toFinset =
        prunedPeers E store maxFailedAttempts orders := by
    ext peer
    rw [List.mem_toFinset, orders.peersToPrune.mem_toSeq]
  rw [← prunesRight_over hover prunedPeers_subset_known card_prunedPeers_le hpeers,
    prunePeerStore_eq hover]
  simp only [Option.some.injEq, exists_eq_left']

theorem disconnected_of_mem_prunedPeers
    (hfailed : ∀ peer ∈ failedPeers store maxFailedAttempts, store.connectedness peer ≠ .connected)
    (h : peer ∈ prunedPeers E store maxFailedAttempts orders) :
    store.connectedness peer ≠ .connected := by
  rcases Finset.mem_union.mp (prunedPeers_subset h) with h | h
  · exact hfailed peer h
  · have hdisconnected : peer ∈ disconnectedPeers store := by
      rcases Finset.mem_union.mp h with h | h
      · exact (Finset.mem_filter.mp h).1
      · exact (Finset.mem_filter.mp h).1
    exact (Finset.mem_filter.mp hdisconnected).2

theorem prunesRight_iff (E : EnrLibrary Key PublicKey Field)
    (store : PeerStore PeerId PublicKey Field) (maxFailedAttempts : ℤ) :
    (∀ orders, ∃ store', prunePeerStore E orders maxFailedAttempts store = some store' ∧
      PrunesRight store store') ↔ CanPrune E store maxFailedAttempts := by
  rcases le_or_gt (store.addressBook.card : ℤ) store.capacity with hwithin | hover
  · exact ⟨fun _ => Or.inl hwithin, fun _ orders => ⟨store, prunesRight_within hwithin⟩⟩
  have hcount : 0 < pruningCount store := by
    rw [pruningCount]
    omega
  simp only [prunesRight_orders hover]
  constructor
  · intro h
    refine Or.inr ⟨?_, ?_⟩
    · intro peer hpeer
      obtain ⟨orders, hpruned⟩ := exists_pruned_failed (E := E) hcount hpeer
      exact (h orders).1 peer hpruned
    · intro henough
      have hany : PruneOrders PeerId :=
        ⟨SetOrder.any _, SetOrder.any _, ⟨id, fun _ => List.Perm.refl _⟩, SetOrder.any _,
          SetOrder.any _⟩
      exact rowsSuffice_of_prunedPeers hcount (fun orders => (h orders).2 henough) hany
  · rintro (hle | ⟨hfailed, hrows⟩) orders
    · exact absurd hle (not_le.mpr hover)
    · exact ⟨fun peer hpeer => disconnected_of_mem_prunedPeers hfailed hpeer,
        fun henough => (hrows henough).prunedPeers orders⟩

/-- Two peers in the address book and room for one.  The first peer failed five times to answer and
then connected by itself. -/
def connectedAgain : PeerStore ℕ Unit Discovery.RlpField where
  lastSeenOutboundBook := ∅
  addressBook := {1, 2}
  protoBook := ∅
  keyBook := ∅
  shardBook := ∅
  connectionBook := (∅ : Table ℕ Connectedness).insert 1 .connected
  numberFailedConnBook := (∅ : Table ℕ ℤ).insert 1 5
  enrBook := ∅
  capacity := 1

/-- The connected peer is dropped. -/
theorem connectedAgain_pruned :
    ¬ ∀ orders, ∃ store', prunePeerStore Discovery.rlpLibrary orders 5 connectedAgain =
      some store' ∧ PrunesRight connectedAgain store' := by
  intro h
  have hfailed : (1 : ℕ) ∈ failedPeers connectedAgain 5 :=
    mem_failedPeers.mpr ⟨5, by decide, le_rfl⟩
  obtain ⟨orders, hpruned⟩ := exists_pruned_failed (E := Discovery.rlpLibrary) (by decide) hfailed
  have hright := (prunesRight_orders (by decide) orders).mp (h orders)
  exact hright.1 1 hpruned (by decide)

end LogosDelivery.Node
