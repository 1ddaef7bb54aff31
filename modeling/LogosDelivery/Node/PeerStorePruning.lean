import LogosDelivery.Discovery.AddressUpdates
import LogosDelivery.Lib.Fill
import LogosDelivery.Lib.Table

/-! # Pruning the peer store

`prunePeerStore` of `peer_manager.nim` and what it uses of `waku_peer_store.nim`.  Of a book that is
only asked for its keys the store has the keys. -/

namespace LogosDelivery.Node

open Lib
open Discovery (EnrRecord EnrLibrary toTyped)

/-! ### The store -/

inductive Connectedness where
  | notConnected
  | cannotConnect
  | canConnect
  | connected
deriving DecidableEq

structure PeerStore (PeerId PublicKey Field : Type) where
  lastSeenOutboundBook : Finset PeerId
  addressBook : Finset PeerId
  protoBook : Finset PeerId
  keyBook : Finset PeerId
  shardBook : Finset PeerId
  connectionBook : Table PeerId Connectedness
  numberFailedConnBook : Table PeerId ℤ
  enrBook : Table PeerId (EnrRecord PublicKey Field)
  capacity : ℤ

/-- The orders of the loops over hash tables and hash sets, and the shuffle. -/
structure PruneOrders (PeerId : Type) where
  failed : SetOrder PeerId
  allKeys : SetOrder PeerId
  shuffle : IterationOrder PeerId
  byShard : SetOrder UInt16
  peersToPrune : SetOrder PeerId

section Pruning

variable {PeerId Key PublicKey Field : Type} [DecidableEq PeerId]

namespace PeerStore

variable (store : PeerStore PeerId PublicKey Field)

def delete (peerId : PeerId) : PeerStore PeerId PublicKey Field :=
  { store with
    lastSeenOutboundBook := store.lastSeenOutboundBook.erase peerId
    addressBook := store.addressBook.erase peerId
    protoBook := store.protoBook.erase peerId
    keyBook := store.keyBook.erase peerId
    shardBook := store.shardBook.erase peerId
    connectionBook := store.connectionBook.erase peerId
    numberFailedConnBook := store.numberFailedConnBook.erase peerId
    enrBook := store.enrBook.erase peerId }

def allKeys : Finset PeerId :=
  store.lastSeenOutboundBook ∪ store.addressBook ∪ store.protoBook ∪ store.keyBook ∪ store.shardBook

/-- `getPeer(peerId).connectedness`. -/
def connectedness (peerId : PeerId) : Connectedness :=
  (store.connectionBook.lookup peerId).getD .notConnected

def getDisconnectedPeers (order : SetOrder PeerId) : List PeerId :=
  (order.toSeq store.allKeys).filter (fun it => decide (store.connectedness it ≠ .connected))

end PeerStore

variable (E : EnrLibrary Key PublicKey Field)

/-- The fields of a record that are byte sequences. -/
def fieldsOf (record : EnrRecord PublicKey Field) : Discovery.Record :=
  fun field => (record.tryGet field).bind E.readBytes

/-- The shards in the peer's record, if it has a record that can be read with shards. -/
def shardIdsOf (store : PeerStore PeerId PublicKey Field) (peer : PeerId) : Option (List UInt16) :=
  match store.enrBook.lookup peer with
  | none => none
  | some record =>
      match toTyped E record with
      | .error _ => none
      | .ok () =>
          match (fieldsOf E record).relaySharding with
          | none => none
          | some rs => some rs.shardIds

/-! ### The passes -/

/-- The first pass, over the entries of `NumberFailedConnBook`. -/
def pruneFailed (maxFailedAttempts : ℤ) (pruningCount : ℕ) :
    List (PeerId × ℤ) → Finset PeerId → Finset PeerId
  | [], peersToPrune => peersToPrune
  | (peerId, count) :: entries, peersToPrune =>
      if count < maxFailedAttempts then
        pruneFailed maxFailedAttempts pruningCount entries peersToPrune
      else if pruningCount ≤ peersToPrune.card then peersToPrune
      else pruneFailed maxFailedAttempts pruningCount entries (insert peerId peersToPrune)

/-- The peers without shards, and the peers of each shard. -/
structure ShardSplit (PeerId : Type) where
  shardlessPeers : List PeerId
  peersByShard : Table UInt16 (List PeerId)

/-- `peersByShard.mgetOrPut(shard, @[]).add(peer)`. -/
def addToShard (peer : PeerId) (peersByShard : Table UInt16 (List PeerId)) (shard : UInt16) :
    Table UInt16 (List PeerId) :=
  peersByShard.insert shard ((peersByShard.lookup shard).getD [] ++ [peer])

def splitPeer (store : PeerStore PeerId PublicKey Field) (split : ShardSplit PeerId)
    (peer : PeerId) : ShardSplit PeerId :=
  match shardIdsOf E store peer with
  | none => { split with shardlessPeers := split.shardlessPeers ++ [peer] }
  | some shardIds =>
      { split with peersByShard := shardIds.foldl (addToShard peer) split.peersByShard }

/-- The slice `peers[0 .. count]`, if it is within the sequence. -/
def sliceTo (peers : List PeerId) (count : ℕ) : Option (List PeerId) :=
  if count < peers.length then some (peers.take (count + 1)) else none

/-- The last pass, over the entries of `peersByShard`. -/
def pruneShards (pruningCount avg : ℕ) :
    List (UInt16 × List PeerId) → Finset PeerId → Option (Finset PeerId)
  | [], peersToPrune => some peersToPrune
  | (_, peers) :: entries, peersToPrune =>
      let count := peers.length - avg
      match sliceTo peers count with
      | none => none
      | some slice => pruneShards pruningCount avg entries (fill pruningCount slice peersToPrune)

/-- The store after the call; there is none when a slice is out of bounds. -/
def prunePeerStore (orders : PruneOrders PeerId) (maxFailedAttempts : ℤ)
    (store : PeerStore PeerId PublicKey Field) : Option (PeerStore PeerId PublicKey Field) :=
  let numPeers : ℤ := store.addressBook.card
  if numPeers ≤ store.capacity then some store
  else
    -- a difference of at least one
    let pruningCount := (numPeers - store.capacity).toNat
    let peersToPrune := pruneFailed maxFailedAttempts pruningCount
      (store.numberFailedConnBook.pairs orders.failed) ∅
    let notConnected := orders.shuffle.visit (store.getDisconnectedPeers orders.allKeys)
    let split := notConnected.foldl (splitPeer E store) ⟨[], ∅⟩
    let peersToPrune := fill pruningCount split.shardlessPeers peersToPrune
    let entries := split.peersByShard.pairs orders.byShard
    let total := (entries.map (fun it => it.2.length)).sum
    let avg := min 1 (total / max 1 split.peersByShard.len)
    match pruneShards pruningCount avg entries peersToPrune with
    | none => none
    | some peersToPrune =>
        some ((orders.peersToPrune.toSeq peersToPrune).foldl PeerStore.delete store)

end Pruning

end LogosDelivery.Node
