import LogosDelivery.Lib.Leb128
import LogosDelivery.StoreSync.RangeProcessing

/-! # The wire format of a payload

`waku_store_sync/codec.nim`.  The upper bounds of the ranges are written as differences: the time
as a varint difference to the bound before, and, only when that is zero, the first bytes of the
hash up to the first one that differs from the hash before.  The lower bounds are not written.

The varint codec is a parameter; the code reads a varint from at most `VarIntLen` bytes.  Readers
take an index into the buffer and return the next one.  A missing fingerprint or item set is an
`IndexDefect` of the encoder, here `none`. -/

namespace LogosDelivery.StoreSync

open LogosDelivery.Lib (VarintCodec)

def HashLen : ℕ := 32
def VarIntLen : ℕ := 9

/-- `high(Timestamp)`. -/
def maxTimestamp : ℤ := 2 ^ 63 - 1

/-- The `SyncID` at which the first range of a payload starts. -/
def SyncID.zero : SyncID := ⟨0, emptyFingerprint⟩

/-- `uint64(a) - uint64(b)`. -/
def timeDifference (a b : ℤ) : ℕ := ((a - b) % 2 ^ 64).toNat

/-- Writes a slice over the front of an array. -/
def Fingerprint.setBytes (h : Fingerprint) (slice : List Byte) : Fingerprint :=
  ⟨(slice ++ h.1.drop slice.length).take 32, by
    have := h.2
    rw [List.length_take, List.length_append, List.length_drop]
    omega⟩

def RangeType.toByte : RangeType → Byte
  | .skip => 0
  | .fingerprint => 1
  | .itemSet => 2

/-! ### Encoding -/

variable (L : VarintCodec)

/-- The elements of an item set, the first one relative to time `lastTime`. -/
def encodeElements (lastTime : ℤ) : List SyncID → List Byte
  | [] => []
  | id :: rest =>
      L.toBytes (timeDifference id.time lastTime) ++ id.hash.1 ++ encodeElements id.time rest

def ItemSet.deltaEncode (itemSet : ItemSet) : List Byte :=
  encodeElements L 0 itemSet.elements ++ [if itemSet.reconciled then 1 else 0]

/-- The number of bytes up to and including the first one that differs. -/
def sameBytes : List Byte → List Byte → ℕ
  | byte1 :: rest1, byte2 :: rest2 =>
      if byte1 ≠ byte2 then 1 else sameBytes rest1 rest2 + 1
  | _, _ => 0

/-- A bound relative to the one before. -/
def encodeUpperBound (bound last : SyncID) : List Byte :=
  let timeDiff := timeDifference bound.time last.time
  let same := sameBytes last.hash.1 bound.hash.1
  L.toBytes timeDiff ++
    if timeDiff = 0 then Fin.ofNat 256 same :: bound.hash.1.take same else []

/-- The ranges from `last` on; `i` and `j` count the fingerprints and item sets written. -/
def encodeRanges (value : RangesData) (last : SyncID) :
    List (Slice SyncID × RangeType) → ℕ → ℕ → Option (List Byte)
  | [], _, _ => some []
  | (bound, .skip) :: rest, i, j => do
      let more ← encodeRanges value bound.b rest i j
      return encodeUpperBound L bound.b last ++ RangeType.toByte .skip :: more
  | (bound, .fingerprint) :: rest, i, j => do
      let fingerprint ← value.fingerprints[i]?
      let more ← encodeRanges value bound.b rest (i + 1) j
      return encodeUpperBound L bound.b last ++ RangeType.toByte .fingerprint ::
        (fingerprint.1 ++ more)
  | (bound, .itemSet) :: rest, i, j => do
      let itemSet ← value.itemSets[j]?
      let more ← encodeRanges value bound.b rest i (j + 1)
      return encodeUpperBound L bound.b last ++ RangeType.toByte .itemSet ::
        (L.toBytes itemSet.elements.length ++ itemSet.deltaEncode L ++ more)

/-- Cluster and shards. -/
def encodeHeader (value : RangesData) : List Byte :=
  L.toBytes value.cluster.toNat ++ L.toBytes value.shards.length ++
    value.shards.flatMap (fun shard => L.toBytes shard.toNat)

/-- An empty payload is the header alone.  A first range that starts above `SyncID` zero is preceded
by a skip range up to its lower bound. -/
def RangesData.deltaEncode (value : RangesData) : Option (List Byte) :=
  match value.ranges with
  | [] => some (encodeHeader L value)
  | (first, _) :: _ =>
      if first.a ≠ SyncID.zero then do
        let ranges ← encodeRanges L value first.a value.ranges 0 0
        return encodeHeader L value ++
          (encodeUpperBound L first.a SyncID.zero ++ RangeType.toByte .skip :: ranges)
      else do
        let ranges ← encodeRanges L value SyncID.zero value.ranges 0 0
        return encodeHeader L value ++ ranges

/-! ### Decoding -/

/-- The bytes a varint is read from. -/
def varintSlice (idx : ℕ) (buffer : List Byte) : List Byte := (buffer.drop idx).take VarIntLen

def getItemSetLength (idx : ℕ) (buffer : List Byte) : ℕ × ℕ :=
  let (val, len) := L.fromBytes (varintSlice idx buffer)
  (val, idx + len)

def getFingerprint (idx : ℕ) (buffer : List Byte) : Except String (Fingerprint × ℕ) :=
  if buffer.length < idx + HashLen then .error "Cannot decode fingerprint"
  else .ok (emptyFingerprint.setBytes ((buffer.drop idx).take HashLen), idx + HashLen)

def getRangeType (idx : ℕ) (buffer : List Byte) : Except String (RangeType × ℕ) :=
  match buffer[idx]? with
  | none => .error "Cannot decode range type"
  | some val =>
      if val = 0 then .ok (.skip, idx + 1)
      else if val = 1 then .ok (.fingerprint, idx + 1)
      else if val = 2 then .ok (.itemSet, idx + 1)
      else .error "Cannot decode range type"

def updateHash (idx : ℕ) (buffer : List Byte) (hash : WakuMessageHash) :
    Except String (WakuMessageHash × ℕ) :=
  match buffer[idx]? with
  | none => .error "Cannot decode hash prefix length"
  | some same =>
      if 32 < same.val then .error "Cannot decode hash prefix: length above 32"
      else if buffer.length < idx + 1 + same.val then
        .error "Cannot decode hash prefix: payload shorter than its length"
      else .ok (hash.setBytes ((buffer.drop (idx + 1)).take same.val), idx + 1 + same.val)

def getTimeDiff (idx : ℕ) (buffer : List Byte) : ℤ × ℕ :=
  let (val, len) := L.fromBytes (varintSlice idx buffer)
  (val, idx + len)

def getTimestamp (idx : ℕ) (buffer : List Byte) : Except String (ℤ × ℕ) :=
  if buffer.length < idx + VarIntLen then .error "Cannot decode timestamp"
  else
    let (val, len) := L.fromBytes (varintSlice idx buffer)
    .ok (val, idx + len)

def getHash (idx : ℕ) (buffer : List Byte) : Except String (WakuMessageHash × ℕ) :=
  if buffer.length < idx + HashLen then .error "Cannot decode hash"
  else .ok (emptyFingerprint.setBytes ((buffer.drop idx).take HashLen), idx + HashLen)

def getReconciled (idx : ℕ) (buffer : List Byte) : Except String (Bool × ℕ) :=
  match buffer[idx]? with
  | none => .error "Cannot decode reconciled"
  | some val =>
      if val = 0 then .ok (false, idx + 1)
      else if val = 1 then .ok (true, idx + 1)
      else .error "Cannot decode reconciled"

/-- A header ends right after its last varint, so fewer than `VarIntLen` bytes left is no error. -/
def getVarint (idx : ℕ) (buffer : List Byte) : Option (ℕ × ℕ) :=
  if buffer.length ≤ idx then none
  else
    let (val, len) := L.fromBytes (varintSlice idx buffer)
    if len = 0 then none else some (val, idx + len)

def getCluster (idx : ℕ) (buffer : List Byte) : Except String (UInt16 × ℕ) :=
  match getVarint L idx buffer with
  | none => .error "Cannot decode cluster"
  | some (cluster, idx) =>
      if 65535 < cluster then .error "Cannot decode cluster" else .ok (UInt16.ofNat cluster, idx)

/-- The shards from number `i` on, `n` of them. -/
def getShardsLoop (buffer : List Byte) : ℕ → ℕ → ℕ → List UInt16 → Except String (List UInt16 × ℕ)
  | 0, _, idx, shards => .ok (shards, idx)
  | n + 1, i, idx, shards =>
      match getVarint L idx buffer with
      | none => .error ("Cannot decode shard. Shard index: " ++ toString i)
      | some (shard, idx) =>
          if 65535 < shard then .error ("Cannot decode shard. Shard index: " ++ toString i)
          else getShardsLoop buffer n (i + 1) idx (shards ++ [UInt16.ofNat shard])

/-- Every shard takes at least one byte, and there are at most 65536 distinct ones. -/
def getShards (idx : ℕ) (buffer : List Byte) : Except String (List UInt16 × ℕ) :=
  match getVarint L idx buffer with
  | none => .error "Cannot decode shard count"
  | some (count, idx) =>
      if min (buffer.length - idx) 65536 < count then .error "Cannot decode shard count"
      else getShardsLoop L buffer count 0 idx []

/-- The loop over the elements of an item set, `n` of them. -/
def decodeElements (buffer : List Byte) : ℕ → ℕ → ℤ → List SyncID →
    Except String (List SyncID × ℕ)
  | 0, idx, _, elements => .ok (elements, idx)
  | n + 1, idx, lastTime, elements => do
      let (timeDiff, idx) ← getTimestamp L idx buffer
      if maxTimestamp - lastTime < timeDiff then .error "Cannot decode timestamp"
      else
        let (hash, idx) ← getHash idx buffer
        decodeElements buffer n idx (lastTime + timeDiff) (elements ++ [⟨lastTime + timeDiff, hash⟩])

/-- An item set at the front of a buffer, and the number of bytes it takes. -/
def ItemSet.deltaDecode (buffer : List Byte) (setLength : ℕ) : Except String (ItemSet × ℕ) := do
  let (elements, idx) ← decodeElements L buffer setLength 0 0 []
  let (reconciled, idx) ← getReconciled idx buffer
  return ({ elements := elements, reconciled := reconciled }, idx)

def getItemSet (idx : ℕ) (buffer : List Byte) (itemSetLength : ℕ) :
    Except String (ItemSet × ℕ) := do
  let (itemSet, count) ← ItemSet.deltaDecode L (buffer.drop idx) itemSetLength
  return (itemSet, idx + count)

/-- The hash of an upper bound: nothing of it is written when the time goes up. -/
def getUpperHash (idx : ℕ) (buffer : List Byte) (timeDiff : ℤ) :
    Except String (WakuMessageHash × ℕ) :=
  if timeDiff = 0 then updateHash idx buffer emptyFingerprint else .ok (emptyFingerprint, idx)

/-- The content of a range, added to the payload. -/
def getBody (idx : ℕ) (buffer : List Byte) (bounds : Slice SyncID) (rangeType : RangeType)
    (payload : RangesData) : Except String (RangesData × ℕ) :=
  let payload := { payload with ranges := payload.ranges ++ [(bounds, rangeType)] }
  match rangeType with
  | .skip => .ok (payload, idx)
  | .fingerprint => do
      let (fingerprint, idx) ← getFingerprint idx buffer
      return ({ payload with fingerprints := payload.fingerprints ++ [fingerprint] }, idx)
  | .itemSet => do
      let (itemSetLength, idx) := getItemSetLength L idx buffer
      let (itemSet, idx) ← getItemSet L idx buffer itemSetLength
      return ({ payload with itemSets := payload.itemSets ++ [itemSet] }, idx)

/-- The loop over the ranges.  Every round reads a byte or more, so `fuel` rounds are enough when
fewer than `fuel` bytes are left. -/
def decodeRanges (buffer : List Byte) : ℕ → ℕ → SyncID → RangesData → Except String RangesData
  | 0, _, _, _ => .error "out of fuel"
  | fuel + 1, idx, lastBound, payload =>
      if buffer.length ≤ idx then .ok payload
      else do
        let (timeDiff, idx) := getTimeDiff L idx buffer
        if maxTimestamp - lastBound.time < timeDiff then .error "Cannot decode time difference"
        else
          let (hash, idx) ← getUpperHash idx buffer timeDiff
          let upperRangeBound : SyncID := ⟨lastBound.time + timeDiff, hash⟩
          if cmp lastBound upperRangeBound ≠ -1 then
            .error "Range upper bound is not above its lower bound"
          else
            let (rangeType, idx) ← getRangeType idx buffer
            let (payload, idx) ←
              getBody L idx buffer ⟨lastBound, upperRangeBound⟩ rangeType payload
            decodeRanges buffer fuel idx upperRangeBound payload

def RangesData.deltaDecode (buffer : List Byte) : Except String RangesData :=
  if buffer.length = 0 then .ok {}
  else do
    let (cluster, idx) ← getCluster L 0 buffer
    let (shards, idx) ← getShards L idx buffer
    decodeRanges L buffer (buffer.length + 1) idx SyncID.zero { cluster := cluster, shards := shards }

end LogosDelivery.StoreSync
