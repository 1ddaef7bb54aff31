import LogosDelivery.Lib.Bisect
import LogosDelivery.Lib.PackedSet
import LogosDelivery.StoreSync.RangeProcessing

/-! # The sequence storage of the sync index

`waku_store_sync/storage/seq_storage.nim`, definition by definition.  A `SeqStorage` keeps its
elements sorted in one sequence and, beside it, two sequences of topic indexes of the same length;
the indexes point into the two topic lists.  A topic list never shrinks: `prune` records the slots
that no element points to any more in a packed set, and a later insert of an unknown topic takes
the one that the iteration of the set gives first.

`findIdxBounds` returns the half-open index range `lower ..< upper`; the rows of the three parallel
sequences are read through `rows`. -/

namespace LogosDelivery.StoreSync

open Lib (PackedSet)

/-! ### The storage -/

structure SeqStorage where
  elements : List SyncID := []
  pubsubTopicIndexes : List ℕ := []
  contentTopicIndexes : List ℕ := []
  pubsubTopics : List PubsubTopic := []
  contentTopics : List ContentTopic := []
  unusedPubsubTopicSet : PackedSet ℕ := ∅
  unusedContentTopicSet : PackedSet ℕ := ∅
  /-- Number of parts a range is split into. -/
  partitionCount : ℤ := 8
  /-- Number of elements in a range up to which item sets replace fingerprints. -/
  lengthThreshold : ℤ := 100

/-- `lowerBound(elements, key, cmp)`: the first index not below `key`. -/
def lowerBound (a : List SyncID) (key : SyncID) : ℕ := Lib.bisect a (fun x => decide (cmp x key < 0))

/-- `upperBound(elements, key, cmp)`: the first index above `key`. -/
def upperBound (a : List SyncID) (key : SyncID) : ℕ := Lib.bisect a (fun x => decide (cmp x key ≤ 0))

/-- The index of a topic: its slot when it is known, else the first unused slot, which it then
takes over, else a new slot. -/
def getTopicIndex (topics : List String) (unused : PackedSet ℕ) (topic : String) :
    ℕ × List String × PackedSet ℕ :=
  match topics.findIdx? (· == topic) with
  | some i => (i, topics, unused)
  | none =>
      match unused.items with
      | unusedIdx :: _ => (unusedIdx, topics.set unusedIdx topic, unused.excl unusedIdx)
      | [] => (topics.length, topics ++ [topic], unused)

namespace SeqStorage

def getPubsubTopicIndex (self : SeqStorage) (pubsubTopic : PubsubTopic) :
    ℕ × List PubsubTopic × PackedSet ℕ :=
  getTopicIndex self.pubsubTopics self.unusedPubsubTopicSet pubsubTopic

def getContentTopicIndex (self : SeqStorage) (contentTopic : ContentTopic) :
    ℕ × List ContentTopic × PackedSet ℕ :=
  getTopicIndex self.contentTopics self.unusedContentTopicSet contentTopic

/-- Inserts at `idx`; an element that is already there is ignored. -/
def insertAt (self : SeqStorage) (idx : ℕ) (element : SyncID) (pubsubTopic : PubsubTopic)
    (contentTopic : ContentTopic) : SeqStorage :=
  if self.elements[idx]? = some element then self
  else
    let pubsub := self.getPubsubTopicIndex pubsubTopic
    let content := self.getContentTopicIndex contentTopic
    { self with
      elements := self.elements.insertIdx idx element
      pubsubTopics := pubsub.2.1
      unusedPubsubTopicSet := pubsub.2.2
      contentTopics := content.2.1
      unusedContentTopicSet := content.2.2
      pubsubTopicIndexes := self.pubsubTopicIndexes.insertIdx idx pubsub.1
      contentTopicIndexes := self.contentTopicIndexes.insertIdx idx content.1 }

def insert (self : SeqStorage) (element : SyncID) (pubsubTopic : PubsubTopic)
    (contentTopic : ContentTopic) : SeqStorage :=
  self.insertAt (lowerBound self.elements element) element pubsubTopic contentTopic

/-- Removing an absent element is a no-op.  The topic slots are left as they are. -/
def remove (self : SeqStorage) (element : SyncID) : SeqStorage :=
  let idx := lowerBound self.elements element
  if self.elements[idx]? = some element then
    { self with
      elements := self.elements.eraseIdx idx
      pubsubTopicIndexes := self.pubsubTopicIndexes.eraseIdx idx
      contentTopicIndexes := self.contentTopicIndexes.eraseIdx idx }
  else self

/-- The slots of a topic list that no index points to. -/
def unusedSlots (topics : List String) (indexes : List ℕ) : PackedSet ℕ :=
  (PackedSet.toPackedSet (List.range topics.length)).difference (PackedSet.toPackedSet indexes)

/-- Removes the elements before `timestamp`, and returns their number. -/
def prune (self : SeqStorage) (timestamp : ℤ) : SeqStorage × ℕ :=
  if self.elements.length = 0 then (self, 0)
  else
    let idx := lowerBound self.elements (SyncID.atTime timestamp)
    let pubsubTopicIndexes := self.pubsubTopicIndexes.drop idx
    let contentTopicIndexes := self.contentTopicIndexes.drop idx
    ({ self with
        elements := self.elements.drop idx
        pubsubTopicIndexes := pubsubTopicIndexes
        contentTopicIndexes := contentTopicIndexes
        unusedContentTopicSet := unusedSlots self.contentTopics contentTopicIndexes
        unusedPubsubTopicSet := unusedSlots self.pubsubTopics pubsubTopicIndexes }, idx)

/-! ### Reading a range -/

/-- The elements with their two topic indexes. -/
def rows (self : SeqStorage) : List (SyncID × ℕ × ℕ) :=
  self.elements.zip (self.pubsubTopicIndexes.zip self.contentTopicIndexes)

/-- The rows of the index range `slice.1 ..< slice.2`. -/
def rowsIn (self : SeqStorage) (slice : ℕ × ℕ) : List (SyncID × ℕ × ℕ) :=
  (self.rows.take slice.2).drop slice.1

/-- A row passes the two topic sets; an empty set lets everything pass. -/
def passes (pubsubTopicSet contentTopicSet : PackedSet ℤ) (row : SyncID × ℕ × ℕ) : Bool :=
  !(decide (0 < pubsubTopicSet.len) && decide ((row.2.1 : ℤ) ∉ pubsubTopicSet)) &&
    !(decide (0 < contentTopicSet.len) && decide ((row.2.2 : ℤ) ∉ contentTopicSet))

/-- The index range of the elements within the bounds. -/
def findIdxBounds (self : SeqStorage) (slice : Slice SyncID) : Option (ℕ × ℕ) :=
  let lower := lowerBound self.elements slice.a
  let upper := upperBound self.elements slice.b
  if upper < 1 then none
  else if self.elements.length ≤ lower then none
  else some (lower, upper)

/-- The `xor` of the hashes of a slice of the storage. -/
def computeFingerprintFromSlice (self : SeqStorage) (sliceOpt : Option (ℕ × ℕ))
    (pubsubTopicSet contentTopicSet : PackedSet ℤ) : Fingerprint :=
  match sliceOpt with
  | none => emptyFingerprint
  | some idxSlice =>
      (self.rowsIn idxSlice).foldl
        (fun fingerprint row =>
          if passes pubsubTopicSet contentTopicSet row then fingerprint.xor row.1.hash
          else fingerprint)
        emptyFingerprint

/-- The local indexes of `topics` in a topic list. -/
def topicIndexes (localTopics topics : List String) (scope : PackedSet ℤ) : PackedSet ℤ :=
  topics.foldl
    (fun scope inputTopic =>
      localTopics.zipIdx.foldl
        (fun scope slot => if inputTopic = slot.1 then scope.incl (slot.2 : ℤ) else scope) scope)
    scope

/-- The local indexes of `pubsubTopics`, and of the pending topic.  An empty set means every
topic, so a request whose topics are all unknown gets the index `-1`, which no element has. -/
def pubsubScope (self : SeqStorage) (pubsubTopics : List PubsubTopic) : PackedSet ℤ :=
  let scope := topicIndexes self.pubsubTopics pubsubTopics ∅
  let scope :=
    if 0 < pubsubTopics.length ∧ scope.len = 0 then scope.incl (-1) else scope
  if 0 < pubsubTopics.length then topicIndexes self.pubsubTopics [pendingPubsubTopic] scope
  else scope

def computeFingerprint (self : SeqStorage) (bounds : Slice SyncID)
    (pubsubTopics : List PubsubTopic) (contentTopics : List ContentTopic) : Fingerprint :=
  self.computeFingerprintFromSlice (self.findIdxBounds bounds) (self.pubsubScope pubsubTopics)
    (topicIndexes self.contentTopics contentTopics ∅)

def getFilteredElements (self : SeqStorage) (slice : ℕ × ℕ)
    (pubsubTopicSet contentTopicSet : PackedSet ℤ) : List SyncID :=
  ((self.rowsIn slice).filter (passes pubsubTopicSet contentTopicSet)).map (·.1)

end SeqStorage

/-! ### Answering a payload -/

namespace RangesData

def addSkip (output : RangesData) (bounds : Slice SyncID) : RangesData :=
  { output with ranges := output.ranges ++ [(bounds, .skip)] }

def addFingerprint (output : RangesData) (bounds : Slice SyncID) (fingerprint : Fingerprint) :
    RangesData :=
  { output with
    ranges := output.ranges ++ [(bounds, .fingerprint)]
    fingerprints := output.fingerprints ++ [fingerprint] }

def addItemSet (output : RangesData) (bounds : Slice SyncID) (state : ItemSet) : RangesData :=
  { output with
    ranges := output.ranges ++ [(bounds, .itemSet)]
    itemSets := output.itemSets ++ [state] }

end RangesData

/-- What answering a payload accumulates: the hashes the peer lacks, the ids missing here and the
ranges to send back. -/
structure Exchange where
  hashToSend : List WakuMessageHash := []
  idsToRecv : List SyncID := []
  output : RangesData := {}

namespace SeqStorage

/-- One partition of a fingerprint range that does not match. -/
def processPartition (self : SeqStorage) (pubsubTopicSet contentTopicSet : PackedSet ℤ)
    (output : RangesData) (partitionBounds : Slice SyncID) : RangesData :=
  match self.findIdxBounds partitionBounds with
  | none => output.addItemSet partitionBounds { elements := [], reconciled := true }
  | some slice =>
      if ((slice.2 - slice.1 : ℕ) : ℤ) ≤ self.lengthThreshold then
        output.addItemSet partitionBounds
          { elements := self.getFilteredElements slice pubsubTopicSet contentTopicSet
            reconciled := false }
      else
        output.addFingerprint partitionBounds
          (self.computeFingerprintFromSlice (some slice) pubsubTopicSet contentTopicSet)

/-- Compares fingerprints and partitions a range that differs. -/
def processFingerprintRange (self : SeqStorage) (inputBounds : Slice SyncID)
    (pubsubTopicSet contentTopicSet : PackedSet ℤ) (inputFingerprint : Fingerprint)
    (output : RangesData) : RangesData :=
  let idxSlice := self.findIdxBounds inputBounds
  let ourFingerprint :=
    self.computeFingerprintFromSlice idxSlice pubsubTopicSet contentTopicSet
  if ourFingerprint = inputFingerprint then output.addSkip inputBounds
  else
    match idxSlice with
    | none => output.addItemSet inputBounds { elements := [], reconciled := true }
    | some slice =>
        if ((slice.2 - slice.1 : ℕ) : ℤ) ≤ self.lengthThreshold then
          output.addItemSet inputBounds
            { elements := self.getFilteredElements slice pubsubTopicSet contentTopicSet
              reconciled := false }
        else
          (equalPartitioning inputBounds self.partitionCount).foldl
            (self.processPartition pubsubTopicSet contentTopicSet) output

/-- The merge of `processItemSetRange`: `theirs` are the listed elements from index `i` on, `ours`
the local rows from index `j` on.  Each round advances one of the two. -/
def mergeLoop (pubsubTopicSet contentTopicSet : PackedSet ℤ) :
    ℕ → List SyncID → List (SyncID × ℕ × ℕ) → Exchange → Exchange
  | 0, _, _, ex => ex
  | _ + 1, theirs, [], ex => { ex with idsToRecv := ex.idsToRecv ++ theirs }
  | fuel + 1, theirs, our :: ours, ex =>
      if passes pubsubTopicSet contentTopicSet our = false then
        mergeLoop pubsubTopicSet contentTopicSet fuel theirs ours ex
      else
        match theirs with
        | [] =>
            mergeLoop pubsubTopicSet contentTopicSet fuel [] ours
              { ex with hashToSend := ex.hashToSend ++ [our.1.hash] }
        | theirElement :: rest =>
            if cmp theirElement our.1 = -1 then
              mergeLoop pubsubTopicSet contentTopicSet fuel rest (our :: ours)
                { ex with idsToRecv := ex.idsToRecv ++ [theirElement] }
            else if cmp theirElement our.1 = 1 then
              mergeLoop pubsubTopicSet contentTopicSet fuel (theirElement :: rest) ours
                { ex with hashToSend := ex.hashToSend ++ [our.1.hash] }
            else mergeLoop pubsubTopicSet contentTopicSet fuel rest ours ex

/-- Compares item sets and outputs the differences. -/
def processItemSetRange (self : SeqStorage) (inputBounds : Slice SyncID)
    (pubsubTopicSet contentTopicSet : PackedSet ℤ) (inputItemSet : ItemSet) (ex : Exchange) :
    Exchange :=
  match self.findIdxBounds inputBounds with
  | none =>
      let ex := { ex with idsToRecv := ex.idsToRecv ++ inputItemSet.elements }
      if inputItemSet.reconciled = false then
        { ex with
          output := ex.output.addItemSet inputBounds { elements := [], reconciled := true } }
      else { ex with output := ex.output.addSkip inputBounds }
  | some slice =>
      let ours := self.rowsIn slice
      let ex := mergeLoop pubsubTopicSet contentTopicSet
        (inputItemSet.elements.length + ours.length + 1) inputItemSet.elements ours ex
      if inputItemSet.reconciled = false then
        { ex with
          output := ex.output.addItemSet inputBounds
            { elements := self.getFilteredElements slice pubsubTopicSet contentTopicSet
              reconciled := true } }
      else { ex with output := ex.output.addSkip inputBounds }

/-- The loop of `processPayload` over the input ranges; `i` and `j` count the fingerprints and the
item sets read so far.  `none` is the `IndexDefect` of a payload with too few of them. -/
def processRanges (self : SeqStorage) (pubsubTopicSet contentTopicSet : PackedSet ℤ)
    (input : RangesData) : List (Slice SyncID × RangeType) → ℕ → ℕ → Exchange → Option Exchange
  | [], _, _, ex => some ex
  | (bounds, .skip) :: rest, i, j, ex =>
      self.processRanges pubsubTopicSet contentTopicSet input rest i j
        { ex with output := ex.output.addSkip bounds }
  | (bounds, .fingerprint) :: rest, i, j, ex => do
      let fingerprint ← input.fingerprints[i]?
      self.processRanges pubsubTopicSet contentTopicSet input rest (i + 1) j
        { ex with
          output := self.processFingerprintRange bounds pubsubTopicSet contentTopicSet fingerprint
            ex.output }
  | (bounds, .itemSet) :: rest, i, j, ex => do
      let itemSet ← input.itemSets[j]?
      self.processRanges pubsubTopicSet contentTopicSet input rest i (j + 1)
        (self.processItemSetRange bounds pubsubTopicSet contentTopicSet itemSet ex)

/-- Merges consecutive skip ranges, from the last index down to `0`; the flag says whether every
range seen so far was a skip. -/
def mergeSkipsLoop : ℕ → List (Slice SyncID × RangeType) → Bool →
    List (Slice SyncID × RangeType) × Bool
  | 0, ranges, allSkip => (ranges, allSkip)
  | i + 1, ranges, allSkip =>
      match ranges[i]? with
      | none => (ranges, allSkip)
      | some currRange =>
          let allSkip := allSkip && decide (currRange.2 = .skip)
          match i with
          | 0 => (ranges, allSkip)
          | k + 1 =>
              match ranges[k]? with
              | none => (ranges, allSkip)
              | some prevRange =>
                  if currRange.2 ≠ .skip ∨ prevRange.2 ≠ .skip then
                    mergeSkipsLoop (k + 1) ranges allSkip
                  else
                    mergeSkipsLoop (k + 1)
                      ((ranges.eraseIdx (k + 1)).set k
                        (⟨prevRange.1.a, currRange.1.b⟩, .skip)) allSkip

/-- Compares the peer's ranges with the local index and returns the ranges to send back, with the
hashes the peer lacks and the ids missing here. -/
def processPayload (self : SeqStorage) (input : RangesData) : Option Exchange := do
  let pubsubTopicSet := self.pubsubScope (input.shards.map (relayShardTopic input.cluster))
  let ex ← self.processRanges pubsubTopicSet ∅ input input.ranges 0 0 {}
  let merged := mergeSkipsLoop ex.output.ranges.length ex.output.ranges true
  let output := if merged.2 then {} else { ex.output with ranges := merged.1 }
  return { ex with output := output }

end SeqStorage

end LogosDelivery.StoreSync
