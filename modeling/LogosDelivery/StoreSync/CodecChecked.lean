import LogosDelivery.Lib.Reader
import LogosDelivery.StoreSync.Codec

/-! # The decoder with its run time checks

`waku_store_sync/codec.nim` once more, now with what the language checks at run time: the bounds of
an index or a slice, the length of a new sequence, the range of a conversion, the overflow of an
addition.  A check that fails is a `Defect`.  Each function notes the varints it reads, with the
bytes that they are read from.

`Codec` has the same functions without checks and notes. -/

namespace LogosDelivery.StoreSync

open LogosDelivery.Lib (VarintCodec Reader ReadFailure)

inductive Defect where
  | index
  | range
  | overflow
deriving DecidableEq

/-- What a varint stands for. -/
inductive VarintField where
  | cluster
  | shardCount
  | shard
  | timeDifference
  | itemSetLength
  | timestamp
deriving DecidableEq

/-- A varint that is read, and the bytes it is read from. -/
structure VarintRead where
  field : VarintField
  slice : List Byte
deriving DecidableEq

abbrev Decoder (α : Type) := Reader Defect VarintRead α

namespace Checked

open LogosDelivery.Lib.Reader (here advance refuse crash giveUp note nested)

/-! ### What the language checks -/

variable (L : VarintCodec) (buffer : List Byte)

/-- `buffer[a ..< b]`. -/
def sliceOf (a b : ℕ) : Decoder (List Byte) :=
  if b < a then crash .range
  else if a < b ∧ buffer.length < b then crash .index
  else pure ((buffer.drop a).take (b - a))

/-- `buffer[i]`. -/
def byteAt (i : ℕ) : Decoder Byte :=
  match buffer[i]? with
  | none => crash .index
  | some byte => pure byte

/-- `uint64.fromBytes(slice, Leb128)`. -/
def fromBytes (field : VarintField) (slice : List Byte) : Decoder (ℕ × ℕ) := do
  note ⟨field, slice⟩
  return L.fromBytes slice

/-- `int64(val)` of an unsigned number. -/
def toInt64 (val : ℕ) : Decoder ℕ := if 2 ^ 63 ≤ val then crash .range else pure val

/-- The value of an `int64` operation. -/
def checkInt64 (val : ℤ) : Decoder ℤ :=
  if val < -2 ^ 63 ∨ 2 ^ 63 ≤ val then crash .overflow else pure val

/-- `for i, bytes in slice: hash[i] = bytes`. -/
def setBytes (hash : Fingerprint) (slice : List Byte) : Decoder Fingerprint :=
  if HashLen < slice.length then crash .index else pure (hash.setBytes slice)

/-- `RangeType(val)`. -/
def toRangeType (val : Byte) : Decoder RangeType :=
  if val = 0 then pure .skip
  else if val = 1 then pure .fingerprint
  else if val = 2 then pure .itemSet
  else crash .range

/-! ### The readers -/

def getItemSetLength : Decoder ℕ := here fun idx => do
  let slice ← sliceOf buffer idx (min (idx + VarIntLen) buffer.length)
  let (val, len) ← fromBytes L .itemSetLength slice
  advance len
  toInt64 val

def getFingerprint : Decoder Fingerprint := here fun idx =>
  if buffer.length < idx + HashLen then refuse "Cannot decode fingerprint"
  else do
    let slice ← sliceOf buffer idx (idx + HashLen)
    advance HashLen
    setBytes emptyFingerprint slice

def getRangeType : Decoder RangeType := here fun idx =>
  if buffer.length ≤ idx then refuse "Cannot decode range type"
  else do
    let val ← byteAt buffer idx
    if 2 < val then refuse "Cannot decode range type"
    else do
      let rangeType ← toRangeType val
      advance 1
      return rangeType

def updateHash (hash : WakuMessageHash) : Decoder WakuMessageHash := here fun idx =>
  if buffer.length ≤ idx then refuse "Cannot decode hash prefix length"
  else do
    let same ← byteAt buffer idx
    if 32 < same.val then refuse "Cannot decode hash prefix: length above 32"
    else if buffer.length < idx + 1 + same.val then
      refuse "Cannot decode hash prefix: payload shorter than its length"
    else do
      let slice ← sliceOf buffer (idx + 1) (idx + 1 + same.val)
      advance (1 + same.val)
      setBytes hash slice

def getTimeDiff : Decoder ℤ := here fun idx => do
  let slice ← sliceOf buffer idx (min (idx + VarIntLen) buffer.length)
  let (val, len) ← fromBytes L .timeDifference slice
  advance len
  let time ← toInt64 val
  return time

def getTimestamp : Decoder ℤ := here fun idx =>
  if buffer.length < idx + VarIntLen then refuse "Cannot decode timestamp"
  else do
    let slice ← sliceOf buffer idx (idx + VarIntLen)
    let (val, len) ← fromBytes L .timestamp slice
    advance len
    let time ← toInt64 val
    return time

def getHash : Decoder WakuMessageHash := here fun idx =>
  if buffer.length < idx + HashLen then refuse "Cannot decode hash"
  else do
    let slice ← sliceOf buffer idx (idx + HashLen)
    advance HashLen
    setBytes emptyFingerprint slice

def getReconciled : Decoder Bool := here fun idx =>
  if buffer.length ≤ idx then refuse "Cannot decode reconciled"
  else do
    let val ← byteAt buffer idx
    if 1 < val then refuse "Cannot decode reconciled"
    else do
      advance 1
      return val = 1

def getVarint (field : VarintField) : Decoder (Option ℕ) := here fun idx =>
  if buffer.length ≤ idx then return none
  else do
    let slice ← sliceOf buffer idx (min (idx + VarIntLen) buffer.length)
    let (val, len) ← fromBytes L field slice
    if len = 0 then return none
    else do
      advance len
      return some val

def getCluster : Decoder UInt16 := do
  match ← getVarint L buffer .cluster with
  | none => refuse "Cannot decode cluster"
  | some cluster =>
      if 65535 < cluster then refuse "Cannot decode cluster" else return UInt16.ofNat cluster

/-- The shards from number `i` on, `n` of them. -/
def getShardsLoop : ℕ → ℕ → List UInt16 → Decoder (List UInt16)
  | 0, _, shards => return shards
  | n + 1, i, shards => do
      match ← getVarint L buffer .shard with
      | none => refuse ("Cannot decode shard. Shard index: " ++ toString i)
      | some shard =>
          if 65535 < shard then refuse ("Cannot decode shard. Shard index: " ++ toString i)
          else getShardsLoop n (i + 1) (shards ++ [UInt16.ofNat shard])

def getShards : Decoder (List UInt16) := do
  match ← getVarint L buffer .shardCount with
  | none => refuse "Cannot decode shard count"
  | some count =>
      here fun idx =>
        -- `uint64(buffer.len - idx)`
        let left :=
          if buffer.length < idx then 2 ^ 64 - (idx - buffer.length) else buffer.length - idx
        if min left 65536 < count then refuse "Cannot decode shard count"
        else do
          let count ← toInt64 count
          getShardsLoop L buffer count 0 []

/-- The loop over the elements of an item set, `n` of them to come. -/
def decodeElements : ℕ → ℤ → List SyncID → Decoder (List SyncID)
  | 0, _, elements => return elements
  | n + 1, lastTime, elements => do
      let timeDiff ← getTimestamp L buffer
      let room ← checkInt64 (maxTimestamp - lastTime)
      if room < timeDiff then refuse "Cannot decode timestamp"
      else do
        let time ← checkInt64 (lastTime + timeDiff)
        let hash ← getHash buffer
        decodeElements n time (elements ++ [⟨time, hash⟩])

/-- An item set at the front of the buffer. -/
def deltaDecodeItemSet (setLength : ℕ) : Decoder ItemSet := do
  let elements ← decodeElements L buffer setLength 0 []
  let reconciled ← getReconciled buffer
  return { elements := elements, reconciled := reconciled }

def getItemSet (itemSetLength : ℕ) : Decoder ItemSet := here fun idx => do
  let slice ← sliceOf buffer idx buffer.length
  let (itemSet, count) ← nested (deltaDecodeItemSet L slice itemSetLength)
  advance count
  return itemSet

def getUpperHash (timeDiff : ℤ) : Decoder WakuMessageHash :=
  if timeDiff = 0 then updateHash buffer emptyFingerprint else return emptyFingerprint

/-- The content of a range, added to the payload. -/
def getBody (bounds : Slice SyncID) (rangeType : RangeType) (payload : RangesData) :
    Decoder RangesData :=
  let payload := { payload with ranges := payload.ranges ++ [(bounds, rangeType)] }
  match rangeType with
  | .skip => return payload
  | .fingerprint => do
      let fingerprint ← getFingerprint buffer
      return { payload with fingerprints := payload.fingerprints ++ [fingerprint] }
  | .itemSet => do
      let itemSetLength ← getItemSetLength L buffer
      let itemSet ← getItemSet L buffer itemSetLength
      return { payload with itemSets := payload.itemSets ++ [itemSet] }

/-- The loop over the ranges, for at most `fuel` rounds. -/
def decodeRanges : ℕ → SyncID → RangesData → Decoder RangesData
  | 0, _, _ => giveUp
  | fuel + 1, lastBound, payload => here fun idx =>
      if buffer.length ≤ idx then return payload
      else do
        let timeDiff ← getTimeDiff L buffer
        let room ← checkInt64 (maxTimestamp - lastBound.time)
        if room < timeDiff then refuse "Cannot decode time difference"
        else do
          let hash ← getUpperHash buffer timeDiff
          let time ← checkInt64 (lastBound.time + timeDiff)
          let upperRangeBound : SyncID := ⟨time, hash⟩
          if cmp lastBound upperRangeBound ≠ -1 then
            refuse "Range upper bound is not above its lower bound"
          else do
            let rangeType ← getRangeType buffer
            let payload ← getBody L buffer ⟨lastBound, upperRangeBound⟩ rangeType payload
            decodeRanges fuel upperRangeBound payload

/-- Cluster, shards and ranges. -/
def decodePayload : Decoder RangesData := do
  let cluster ← getCluster L buffer
  let shards ← getShards L buffer
  decodeRanges L buffer (buffer.length + 1) SyncID.zero { cluster := cluster, shards := shards }

/-- The payload in a buffer, and the varints that are read for it. -/
def deltaDecode : Except (ReadFailure Defect) (RangesData × List VarintRead) :=
  if buffer.length = 0 then .ok ({}, [])
  else
    match decodePayload L buffer 0 with
    | .error e => .error e
    | .ok (payload, _, reads) => .ok (payload, reads)

end Checked

end LogosDelivery.StoreSync
