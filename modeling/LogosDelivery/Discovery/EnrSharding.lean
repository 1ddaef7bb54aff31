import LogosDelivery.Lib.ByteOrder
import LogosDelivery.Lib.Runs
import LogosDelivery.Lib.Table
import LogosDelivery.StoreSync.Common

/-! # The shards in the node's record

`waku_enr/sharding.nim` and the updates of `waku_discv5.nim`.  A record holds the shards of a node in
one of two fields, as a list of indices below 64 shards and as a bit vector from there on; an update
writes one of them and leaves the other as it is, and the list is read first.

The library behind the record is a parameter: how it reads a decimal number (`decode`), and whether
it refuses an updated record (`refuses`, with the cause). -/

namespace LogosDelivery.Discovery

open Lib
open StoreSync (Byte PubsubTopic)

/-! ### Relay shards -/

def MaxShardIndex : UInt16 := 1023

def ShardingIndicesListEnrField : String := "rs"
def ShardingIndicesListMaxLength : ℕ := 64
def ShardingBitVectorEnrField : String := "rsv"

structure RelayShard where
  clusterId : UInt16
  shardId : UInt16
deriving DecidableEq

structure RelayShards where
  clusterId : UInt16
  shardIds : List UInt16
deriving DecidableEq

/-- The first occurrences. -/
def deduplicate (ids : List UInt16) : List UInt16 := ids.reverse.dedup.reverse

def RelayShards.init (clusterId : UInt16) (shardIds : List UInt16) : Except String RelayShards :=
  if shardIds.any (fun it => decide (it > MaxShardIndex)) then .error "invalid shard"
  else if shardIds.length < 1 then .error "invalid shard count"
  else .ok ⟨clusterId, deduplicate shardIds⟩

inductive ParsingError where
  | invalidFormat (cause : String)
  | missingPart (part : String)

def ParsingError.text : ParsingError → String
  | .invalidFormat cause => "invalid format: " ++ cause
  | .missingPart part => "missing part: " ++ part

def StaticShardingPubsubTopicPrefix : String := "/waku/2/rs"

section Topics

variable (decode : List Char → Except String UInt16)

def parseStaticSharding (topic : PubsubTopic) : Except ParsingError RelayShard :=
  if ¬ StaticShardingPubsubTopicPrefix.toList <+: topic.toList then
    .error (.invalidFormat ("must start with " ++ StaticShardingPubsubTopicPrefix))
  else
    -- a topic that is only the prefix raises a defect here, see `Topics.PubsubTopic`
    match (topic.toList.drop 11).splitOn '/' with
    | [clusterPart, shardPart] =>
        if clusterPart.length = 0 then .error (.missingPart "cluster_id")
        else
          match decode clusterPart with
          | .error e => .error (.invalidFormat e)
          | .ok clusterId =>
              if shardPart.length = 0 then .error (.missingPart "shard_number")
              else
                match decode shardPart with
                | .error e => .error (.invalidFormat e)
                | .ok shardId => .ok ⟨clusterId, shardId⟩
    | _ => .error (.invalidFormat "invalid topic structure")

/-- The topics parsed, or the first error. -/
def parseTopics : List PubsubTopic → Except String (List RelayShard)
  | [] => .ok []
  | topic :: topics =>
      match parseStaticSharding decode topic with
      | .error e => .error ("failed to parse topic: " ++ e.text)
      | .ok shard =>
          match parseTopics topics with
          | .error e => .error e
          | .ok shards => .ok (shard :: shards)

def topicsToRelayShards (topics : List PubsubTopic) : Except String (Option RelayShards) :=
  match parseTopics decode topics with
  | .error e => .error e
  | .ok [] => .ok none
  | .ok (first :: shards) =>
      if (first :: shards).any (fun it => decide (it.clusterId ≠ first.clusterId)) then
        .error "use shards with the same cluster Id."
      else (RelayShards.init first.clusterId ((first :: shards).map RelayShard.shardId)).map some

end Topics

/-! ### The two forms -/

def toBytesBE (x : UInt16) : List Byte := bigEndian 2 x.toNat

def fromBytesBE (bytes : List Byte) : UInt16 :=
  UInt16.ofNat (bytes.foldl (fun v b => 256 * v + b.val) 0)

def RelayShards.toIndicesList (rs : RelayShards) : Except String (List Byte) :=
  if rs.shardIds.length > 255 then .error "shards list too long"
  else .ok (toBytesBE rs.clusterId ++ Fin.ofNat 256 rs.shardIds.length ::
    rs.shardIds.flatMap toBytesBE)

def fromIndicesList (buf : List Byte) : Except String RelayShards :=
  if buf.length < 3 then
    .error ("insufficient data: expected at least 3 bytes, got " ++ toString buf.length ++ " bytes")
  else
    let clusterId := fromBytesBE (buf.take 2)
    let length := (buf.getD 2 0).val
    if buf.length ≠ 3 + 2 * length then
      .error ("invalid data: `length` field is " ++ toString length ++ " but " ++
        toString buf.length ++ " bytes were provided")
    else .ok ⟨clusterId,
      (List.range length).map (fun i => fromBytesBE ((buf.drop (3 + 2 * i)).take 2))⟩

def setBit (b : Byte) (i : ℕ) : Byte := Fin.ofNat 256 (b.val ||| 2 ^ i)

def testBit (b : Byte) (i : ℕ) : Bool := b.val.testBit i

def RelayShards.toBitVector (rs : RelayShards) : List Byte :=
  toBytesBE rs.clusterId ++ rs.shardIds.foldl
    (fun vec shardId => vec.modify (shardId.toNat / 8) (fun b => setBit b (shardId.toNat % 8)))
    (List.replicate 128 0)

def fromBitVector (buf : List Byte) : Except String RelayShards :=
  if buf.length ≠ 130 then .error "invalid data: expected 130 bytes"
  else .ok ⟨fromBytesBE (buf.take 2),
    (List.range 128).flatMap (fun i =>
      ((List.range 8).filter (fun j => testBit (buf.getD (2 + i) 0) j)).map
        (fun j => UInt16.ofNat (j + 8 * i)))⟩

/-! ### Records -/

/-- The key-value pairs of a record. -/
abbrev Record := String → Option (List Byte)

def Record.addFieldPair (record : Record) (field : String) (value : List Byte) : Record :=
  Function.update record field (some value)

def withWakuRelaySharding (record : Record) (rs : RelayShards) : Except String Record :=
  if rs.shardIds.length ≥ ShardingIndicesListMaxLength then
    .ok (record.addFieldPair ShardingBitVectorEnrField rs.toBitVector)
  else rs.toIndicesList.map (fun value => record.addFieldPair ShardingIndicesListEnrField value)

def Record.relayShardingIndicesList (record : Record) : Option RelayShards :=
  (record ShardingIndicesListEnrField).bind (fun field => (fromIndicesList field).toOption)

def Record.relayShardingBitVector (record : Record) : Option RelayShards :=
  (record ShardingBitVectorEnrField).bind (fun field => (fromBitVector field).toOption)

def Record.relaySharding (record : Record) : Option RelayShards :=
  match record.relayShardingIndicesList with
  | some indexList => some indexList
  | none => record.relayShardingBitVector

/-! ### Updates -/

/-- The field to write, and its value. -/
def RelayShards.field (rs : RelayShards) : Except String (String × List Byte) :=
  if rs.shardIds.length ≥ ShardingIndicesListMaxLength then
    .ok (ShardingBitVectorEnrField, rs.toBitVector)
  else
    match rs.toIndicesList with
    | .error e => .error ("ENR update failed toIndicesList: " ++ e)
    | .ok list => .ok (ShardingIndicesListEnrField, list)

section Updates

variable (decode : List Char → Except String UInt16) (refuses : Record → Option String)
  (order : IterationOrder UInt16)

/-- The shards after an update, if there is anything to write. -/
def resultShard (current : Option RelayShards) (newShard : RelayShards) (add : Bool) :
    Except String (Option RelayShards) :=
  match current, add with
  | some currentShard, true =>
      if currentShard.clusterId ≠ newShard.clusterId then
        .error "ENR update failed: clusterId id mismatch in add"
      else
        match RelayShards.init currentShard.clusterId
            (currentShard.shardIds ++ newShard.shardIds) with
        | .error e => .error ("ENR update failed RelayShards.init in add: " ++ e)
        | .ok shards => .ok (some shards)
  | some currentShard, false =>
      if currentShard.clusterId ≠ newShard.clusterId then
        .error "ENR update failed: clusterId id mismatch in not add"
      else
        let indices := order.ofSeq
          (currentShard.shardIds.filter (fun id => decide (id ∉ newShard.shardIds)))
        if indices.length = 0 then .error "ENR update failed: cannot remove all shards"
        else
          match RelayShards.init currentShard.clusterId indices with
          | .error e => .error ("ENR update failed RelayShards.init in not add: " ++ e)
          | .ok shards => .ok (some shards)
  | none, true => .ok (some newShard)
  | none, false => .ok none

/-- `updateRecord` with one pair. -/
def updateRecord (record : Record) (field : String) (value : List Byte) :
    Record × Except String Unit :=
  match refuses (record.addFieldPair field value) with
  | none => (record.addFieldPair field value, .ok ())
  | some e => (record, .error ("ENR update failed updateRecord: " ++ e))

/-- The end of `updateENRShards`. -/
def writeShards (record : Record) (shards : RelayShards) : Record × Except String Unit :=
  match shards.field with
  | .error e => (record, .error e)
  | .ok (field, value) => updateRecord refuses record field value

def updateENRShards (record : Record) (newTopics : List PubsubTopic) (add : Bool) :
    Record × Except String Unit :=
  match topicsToRelayShards decode newTopics with
  | .error e => (record, .error ("ENR update failed topicsToRelayShards: " ++ e))
  | .ok none => (record, .ok ())
  | .ok (some newShard) =>
      match resultShard order record.relaySharding newShard add with
      | .error e => (record, .error e)
      | .ok none => (record, .ok ())
      | .ok (some shards) => writeShards refuses record shards

/-- The arguments of `updateShards`. -/
structure Update where
  topics : List PubsubTopic
  add : Bool

/-- The record after a sequence of `updateShards`. -/
def recordAfter (record : Record) (updates : List Update) : Record :=
  run (fun record u => (updateENRShards decode refuses order record u.topics u.add).1) record updates

end Updates

end LogosDelivery.Discovery
