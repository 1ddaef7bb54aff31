import LogosDelivery.StoreSync.Payload

/-! # The reconciliation node

`waku_store_sync/reconciliation.nim`: the state of a `SyncReconciliation` and the operations that
change it.  A node keeps the sync index, the set of promised elements that have not arrived with a
queue of their deadlines, and, for each of them, the peers that asked for it in the meantime.

Hash sets are `Finset`s, or a `HashSet` where the code walks through the members; the deferral
table is an `AList`.  `Moment.now()` is an argument.  Metrics, logging, connections and
the archive are left out: no operation below reads them. -/

namespace LogosDelivery.StoreSync

abbrev PeerId := String

/-- The members of a hash set, each once, in the order in which they came in. -/
abbrev HashSet (α : Type) := List α

namespace HashSet

variable {α : Type} [DecidableEq α]

def incl (s : HashSet α) (k : α) : HashSet α := if k ∈ s then s else s ++ [k]

theorem mem_incl {s : HashSet α} {k x : α} : x ∈ incl s k ↔ x ∈ s ∨ x = k := by
  unfold incl
  split_ifs with hk
  · constructor
    · exact Or.inl
    · rintro (h | rfl)
      · exact h
      · exact hk
  · simp

end HashSet

structure SyncReconciliation where
  cluster : UInt16
  /-- Empty means all shards. -/
  shards : List UInt16
  storage : SeqStorage
  remoteNeedsTx : List (PeerId × WakuMessageHash) := []
  /-- The capacity of `remoteNeedsTx`; `0` means no limit. -/
  remoteNeedsTxMaxsize : ℕ := 0
  pendingTimeout : ℤ
  /-- Hashes of the elements a peer promised, until they arrive or their deadline passes. -/
  pendingSet : Finset WakuMessageHash := ∅
  /-- The promised ids with their deadlines, in order. -/
  pendingQueue : List (SyncID × ℤ) := []
  /-- Peers that asked for a pending element. -/
  deferredTx : AList (fun _ : WakuMessageHash => HashSet PeerId) := ∅

/-- The fields of a message that `messageIngress` reads. -/
structure WakuMessage where
  contentTopic : ContentTopic
  timestamp : ℤ
  ephemeral : Bool

namespace SyncReconciliation

/-- A full queue drops the transfer. -/
def queueTransfer (self : SyncReconciliation) (peer : PeerId) (hash : WakuMessageHash) :
    SyncReconciliation :=
  if self.remoteNeedsTxMaxsize = 0 ∨ self.remoteNeedsTx.length < self.remoteNeedsTxMaxsize then
    { self with remoteNeedsTx := self.remoteNeedsTx ++ [(peer, hash)] }
  else self

/-- A pending element has no real topic, so an arrival replaces it; the peers that asked for it get
it now. -/
def insertConfirmed (self : SyncReconciliation) (id : SyncID) (pubsubTopic : PubsubTopic)
    (contentTopic : ContentTopic) : SyncReconciliation :=
  let self :=
    if id.hash ∈ self.pendingSet then
      let peers := (self.deferredTx.lookup id.hash).getD []
      peers.foldl (fun self peer => self.queueTransfer peer id.hash)
        { self with
          pendingSet := self.pendingSet.erase id.hash
          storage := self.storage.remove id
          deferredTx := self.deferredTx.erase id.hash }
    else self
  { self with storage := self.storage.insert id pubsubTopic contentTopic }

/-- The loop of `expirePending`: `queue` is what is left of the pending queue. -/
def expireLoop (now : ℤ) : List (SyncID × ℤ) → SyncReconciliation → SyncReconciliation
  | [], self => { self with pendingQueue := [] }
  | (id, deadline) :: queue, self =>
      if now < deadline then { self with pendingQueue := (id, deadline) :: queue }
      else if id.hash ∉ self.pendingSet then expireLoop now queue self
      else
        expireLoop now queue
          { self with
            pendingSet := self.pendingSet.erase id.hash
            deferredTx := self.deferredTx.erase id.hash
            storage := self.storage.remove id }

/-- Drops the promised elements that did not arrive by their deadline. -/
def expirePending (self : SyncReconciliation) (now : ℤ) : SyncReconciliation :=
  expireLoop now self.pendingQueue self

def messageIngress (self : SyncReconciliation) (id : SyncID) (pubsubTopic : PubsubTopic)
    (contentTopic : ContentTopic) : SyncReconciliation :=
  self.insertConfirmed id pubsubTopic contentTopic

/-- The ingress of a message whose hash is known.  An ephemeral message is not stored. -/
def messageIngressWithHash (self : SyncReconciliation) (msgHash : WakuMessageHash)
    (pubsubTopic : PubsubTopic) (msg : WakuMessage) : SyncReconciliation :=
  if msg.ephemeral then self
  else self.insertConfirmed ⟨msg.timestamp, msgHash⟩ pubsubTopic msg.contentTopic

/-! ### The pre-processing of a payload -/

/-- The loop of `preProcessPayload` over the ranges, which drops the fingerprints and the item sets
of the ranges that end before `lowerBound` and clips the first one that does not.  `none` is the
`IndexDefect` of a payload with too few fingerprints or item sets. -/
def preProcessRanges (lowerBound : ℤ) : List (Slice SyncID × RangeType) → List Fingerprint →
    List ItemSet → Option (List (Slice SyncID × RangeType) × List Fingerprint × List ItemSet)
  | [], fingerprints, itemSets => some ([], fingerprints, itemSets)
  | (bounds, .skip) :: rest, fingerprints, itemSets => do
      let (ranges, fingerprints, itemSets) ← preProcessRanges lowerBound rest fingerprints itemSets
      return ((bounds, .skip) :: ranges, fingerprints, itemSets)
  | (bounds, .fingerprint) :: rest, fingerprints, itemSets =>
      let split := SyncID.atTime lowerBound
      if cmp split bounds.b ≠ -1 then
        match fingerprints with
        | [] => none
        | _ :: fingerprints => do
            let (ranges, fingerprints, itemSets) ←
              preProcessRanges lowerBound rest fingerprints itemSets
            return ((bounds, .skip) :: ranges, fingerprints, itemSets)
      else if bounds.a.time < lowerBound then
        some ((⟨bounds.a, split⟩, .skip) :: (⟨split, bounds.b⟩, .fingerprint) :: rest,
          fingerprints, itemSets)
      else some ((bounds, .fingerprint) :: rest, fingerprints, itemSets)
  | (bounds, .itemSet) :: rest, fingerprints, itemSets =>
      let split := SyncID.atTime lowerBound
      if cmp split bounds.b ≠ -1 then
        match itemSets with
        | [] => none
        | _ :: itemSets => do
            let (ranges, fingerprints, itemSets) ←
              preProcessRanges lowerBound rest fingerprints itemSets
            return ((bounds, .skip) :: ranges, fingerprints, itemSets)
      else if bounds.a.time < lowerBound then
        match itemSets with
        | [] => none
        | set :: itemSets =>
            some ((⟨bounds.a, split⟩, .skip) :: (⟨split, bounds.b⟩, .itemSet) :: rest, fingerprints,
              { set with elements := set.elements.filter (fun x => decide (cmp x split ≠ -1)) } ::
                itemSets)
      else some ((bounds, .itemSet) :: rest, fingerprints, itemSets)

/-- The shards a payload is processed with: always the smallest scope possible.  `none` when the
two sides share no shard. -/
def scopeShards (self : SyncReconciliation) (shards : List UInt16) : Option (List UInt16) :=
  if 0 < shards.length ∧ 0 < self.shards.length then
    let shardIntersection := self.shards.filter (fun s => decide (s ∈ shards))
    if shardIntersection.length < 1 then none else some shardIntersection
  else if 0 < self.shards.length then some self.shards
  else some shards

/-- Checks the received payload for cluster, shards and time mismatch.  The outer `none` is an
`IndexDefect`, the inner one a payload that is out of scope. -/
def preProcessPayload (self : SyncReconciliation) (payload : RangesData) (lowerBound : ℤ) :
    Option (Option RangesData) :=
  if payload.cluster ≠ self.cluster then some none
  else
    match self.scopeShards payload.shards with
    | none => some none
    | some shards => do
        let (ranges, fingerprints, itemSets) ←
          preProcessRanges lowerBound payload.ranges payload.fingerprints payload.itemSets
        return some { payload with
          shards := shards, ranges := ranges, fingerprints := fingerprints, itemSets := itemSets }

end SyncReconciliation

/-- A payload with no range left to reconcile ends the session. -/
def RangesData.isFinished (payload : RangesData) : Bool :=
  payload.ranges.length == 0 || payload.ranges.all (fun r => decide (r.2 = .skip))

namespace SyncReconciliation

/-! ### A round -/

/-- Promised elements count as present from here on. -/
def trackPromised (self : SyncReconciliation) (now : ℤ) (idsToRecv : List SyncID) :
    SyncReconciliation :=
  let deadline := now + self.pendingTimeout
  idsToRecv.foldl
    (fun self id =>
      { self with
        storage := self.storage.insert id pendingPubsubTopic ""
        pendingSet := insert id.hash self.pendingSet
        pendingQueue := self.pendingQueue ++ [(id, deadline)] }) self

/-- One hash of `scheduleTransfers`; the flag says whether it was queued now. -/
def scheduleTransfer (self : SyncReconciliation) (peerId : PeerId) (hash : WakuMessageHash) :
    SyncReconciliation × Bool :=
  if hash ∈ self.pendingSet then
    ({ self with
      deferredTx := self.deferredTx.insert hash
        (((self.deferredTx.lookup hash).getD []).incl peerId) }, false)
  else (self.queueTransfer peerId hash, true)

/-- Queues the hashes for `peerId`; a pending one is deferred until it arrives.  Returns the number
of hashes queued now. -/
def scheduleTransfers (self : SyncReconciliation) (peerId : PeerId)
    (hashToSend : List WakuMessageHash) : SyncReconciliation × ℕ :=
  hashToSend.foldl
    (fun acc hash =>
      let next := acc.1.scheduleTransfer peerId hash
      (next.1, if next.2 then acc.2 + 1 else acc.2)) (self, 0)

/-- One round: the new state, the reply and the number of differences found. -/
def reconcileRound (self : SyncReconciliation) (recvPayload : RangesData) (lowerBound : ℤ)
    (peerId : PeerId) (now : ℤ) : Option (SyncReconciliation × RangesData × ℕ) := do
  match ← self.preProcessPayload recvPayload lowerBound with
  | none => return (self, { cluster := self.cluster, shards := self.shards }, 0)
  | some payload =>
      let ex ← self.storage.processPayload payload
      let tracked := self.trackPromised now ex.idsToRecv
      let scheduled := tracked.scheduleTransfers peerId ex.hashToSend
      return (scheduled.1, { ex.output with cluster := self.cluster, shards := payload.shards },
        ex.idsToRecv.length + scheduled.2)

/-- The periodic prune of the sync index. -/
def prune (self : SyncReconciliation) (timestamp : ℤ) : SyncReconciliation :=
  { self with storage := (self.storage.prune timestamp).1 }

end SyncReconciliation

end LogosDelivery.StoreSync
