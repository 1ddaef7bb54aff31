import LogosDelivery.Discovery.ShardUpdates

/-! # The shards that a node announces are the shards that are read

`withWakuRelaySharding` on a builder without fields, and `relaySharding` on the record.  The field
is a list of indices or a bit vector by the number of shards; the list is read back as it is, the
bit vector as the increasing list of the same shards (`relaySharding_roundTrip`). -/

namespace LogosDelivery.Discovery

open Lib
open StoreSync (Byte)

/-- `RelayShards.init` of one shard. -/
def RelayShards.initShard (clusterId shardId : UInt16) : Except String RelayShards :=
  if shardId > MaxShardIndex then .error "invalid shard Id" else .ok ⟨clusterId, [shardId]⟩

/-- The shards that one of the `RelayShards.init` makes of the arguments. -/
inductive RelayShards.FromInit (clusterId : UInt16) : List UInt16 → RelayShards → Prop
  | shard {shardId : UInt16} {rs : RelayShards} (h : initShard clusterId shardId = .ok rs) :
      FromInit clusterId [shardId] rs
  | list {shardIds : List UInt16} {rs : RelayShards} (h : init clusterId shardIds = .ok rs) :
      FromInit clusterId shardIds rs

/-- The fields of a fresh builder. -/
def EnrBuilder.fresh : Record := fun _ => none

theorem le_of_not_gt_maxShardIndex {id : UInt16} (h : ¬ id > MaxShardIndex) : id.toNat ≤ 1023 := by
  have hle := UInt16.not_lt.mp h
  exact UInt16.le_iff_toNat_le.mp hle

/-- What the shards of an `init` are. -/
theorem RelayShards.FromInit.spec {clusterId : UInt16} {shardIds : List UInt16} {rs : RelayShards}
    (h : RelayShards.FromInit clusterId shardIds rs) :
    rs.clusterId = clusterId ∧ (∀ id, id ∈ rs.shardIds ↔ id ∈ shardIds) ∧
      ∀ id ∈ rs.shardIds, id.toNat ≤ 1023 := by
  cases h with
  | shard h =>
      unfold initShard at h
      split_ifs at h with hgt
      cases h
      refine ⟨rfl, fun _ => Iff.rfl, ?_⟩
      intro id hid
      rw [List.mem_singleton.mp hid]
      exact le_of_not_gt_maxShardIndex hgt
  | list h =>
      unfold RelayShards.init at h
      split_ifs at h with hgt hlen
      cases h
      refine ⟨rfl, fun _ => mem_deduplicate, ?_⟩
      intro id hid
      refine le_of_not_gt_maxShardIndex (fun hid' => hgt ?_)
      exact List.any_eq_true.mpr ⟨id, mem_deduplicate.mp hid, decide_eq_true hid'⟩

/-! ### The bit vector -/

/-- Whatever the bytes are, a bit vector is read from its lowest bit to its highest. -/
theorem fromBitVector_increasing {buf : List Byte} {rs : RelayShards}
    (h : fromBitVector buf = .ok rs) : rs.shardIds.Pairwise (· < ·) := by
  unfold fromBitVector at h
  split_ifs at h
  cases h
  have hlt : ∀ {i i' j j' : ℕ}, i < 128 → i' < 128 → j < 8 → j' < 8 → j + 8 * i < j' + 8 * i' →
      UInt16.ofNat (j + 8 * i) < UInt16.ofNat (j' + 8 * i') := by
    intro i i' j j' hi hi' hj hj' hless
    rw [UInt16.lt_iff_toNat_lt, UInt16.toNat_ofNat_of_lt' (by simp only [UInt16.size]; omega),
      UInt16.toNat_ofNat_of_lt' (by simp only [UInt16.size]; omega)]
    exact hless
  rw [List.pairwise_flatMap]
  constructor
  · intro i hi
    rw [List.pairwise_map]
    refine (List.pairwise_lt_range.filter _).imp_of_mem ?_
    intro j j' hj hj' hless
    have hi := List.mem_range.mp hi
    have hj := List.mem_range.mp (List.mem_of_mem_filter hj)
    have hj' := List.mem_range.mp (List.mem_of_mem_filter hj')
    exact hlt hi hi hj hj' (by omega)
  · refine List.pairwise_lt_range.imp_of_mem ?_
    intro i i' hi hi' hless id hid id' hid'
    obtain ⟨j, hj, rfl⟩ := List.mem_map.mp hid
    obtain ⟨j', hj', rfl⟩ := List.mem_map.mp hid'
    have hi := List.mem_range.mp hi
    have hi' := List.mem_range.mp hi'
    have hj := List.mem_range.mp (List.mem_of_mem_filter hj)
    have hj' := List.mem_range.mp (List.mem_of_mem_filter hj')
    exact hlt hi hi' hj hj' (by omega)

theorem read_writtenVector {cluster : UInt16} {ids read : List UInt16}
    (h : fromBitVector (RelayShards.toBitVector ⟨cluster, ids⟩) = .ok ⟨cluster, read⟩) :
    (EnrBuilder.fresh.addFieldPair ShardingBitVectorEnrField
      (RelayShards.toBitVector ⟨cluster, ids⟩)).relaySharding = some ⟨cluster, read⟩ := by
  have hlist : (EnrBuilder.fresh.addFieldPair ShardingBitVectorEnrField
      (RelayShards.toBitVector ⟨cluster, ids⟩)).relayShardingIndicesList = none := by
    rw [Record.relayShardingIndicesList, Record.addFieldPair, Function.update_of_ne fields_ne]
    rfl
  rw [Record.relaySharding, hlist]
  dsimp only
  rw [Record.relayShardingBitVector, Record.addFieldPair, Function.update_self, Option.bind_some, h]
  rfl

/-- **Shards survive the record.**  The one field that is added to a fresh builder is read back as
the same cluster and the same shards, in whichever of the two forms they are; the list of indices is
never too long for its length byte where it is chosen, and the bit vector of any shards is read as
an increasing list. -/
theorem relaySharding_roundTrip (clusterId : UInt16) (shardIds : List UInt16) (rs : RelayShards)
    (h : RelayShards.FromInit clusterId shardIds rs) :
    (∃ field value read,
      withWakuRelaySharding EnrBuilder.fresh rs = .ok (EnrBuilder.fresh.addFieldPair field value) ∧
      (EnrBuilder.fresh.addFieldPair field value).relaySharding = some ⟨clusterId, read⟩ ∧
      ∀ id, id ∈ read ↔ id ∈ shardIds) ∧
    (rs.shardIds.length < ShardingIndicesListMaxLength → ∃ bytes, rs.toIndicesList = .ok bytes) ∧
    ∃ read, fromBitVector rs.toBitVector = .ok ⟨clusterId, read⟩ ∧
      (∀ id, id ∈ read ↔ id ∈ shardIds) ∧ read.Pairwise (· < ·) := by
  obtain ⟨hcluster, hmem, hle⟩ := h.spec
  obtain ⟨cluster, ids⟩ := rs
  dsimp only at hcluster hmem hle
  subst hcluster
  obtain ⟨read, hvector, hread⟩ := fromBitVector_toBitVector cluster hle
  have hsame : ∀ id, id ∈ read ↔ id ∈ shardIds := fun id => (hread id).trans (hmem id)
  refine ⟨?_, ?_, read, hvector, hsame, fromBitVector_increasing hvector⟩
  · rcases field_eq ⟨cluster, ids⟩ with ⟨hlen, -⟩ | ⟨hlen, bytes, hbytes, -⟩
    · refine ⟨ShardingBitVectorEnrField, RelayShards.toBitVector ⟨cluster, ids⟩, read, ?_,
        read_writtenVector hvector, hsame⟩
      rw [withWakuRelaySharding, if_pos hlen]
    · refine ⟨ShardingIndicesListEnrField, bytes, ids, ?_, read_writtenList hbytes, hmem⟩
      rw [withWakuRelaySharding, if_neg (not_le.mpr hlen), hbytes]
      rfl
  · intro hlen
    rcases field_eq ⟨cluster, ids⟩ with ⟨hlong, -⟩ | ⟨-, bytes, hbytes, -⟩
    · exact absurd hlen (not_lt.mpr hlong)
    · exact ⟨bytes, hbytes⟩

/-- Three shards, one of them given twice. -/
theorem relaySharding_threeShards :
    RelayShards.FromInit 16 [7, 1023, 0, 7] ⟨16, [7, 1023, 0]⟩ ∧
    (∃ field value read,
      withWakuRelaySharding EnrBuilder.fresh ⟨16, [7, 1023, 0]⟩ =
        .ok (EnrBuilder.fresh.addFieldPair field value) ∧
      (EnrBuilder.fresh.addFieldPair field value).relaySharding = some ⟨16, read⟩ ∧
      ∀ id, id ∈ read ↔ id ∈ [7, 1023, 0, 7]) ∧
    (([7, 1023, 0] : List UInt16).length < ShardingIndicesListMaxLength →
      ∃ bytes, RelayShards.toIndicesList ⟨16, [7, 1023, 0]⟩ = .ok bytes) ∧
    ∃ read, fromBitVector (RelayShards.toBitVector ⟨16, [7, 1023, 0]⟩) = .ok ⟨16, read⟩ ∧
      (∀ id, id ∈ read ↔ id ∈ [7, 1023, 0, 7]) ∧ read.Pairwise (· < ·) := by
  have hinit : RelayShards.FromInit 16 [7, 1023, 0, 7] ⟨16, [7, 1023, 0]⟩ := .list (by decide)
  exact ⟨hinit, relaySharding_roundTrip 16 [7, 1023, 0, 7] ⟨16, [7, 1023, 0]⟩ hinit⟩

end LogosDelivery.Discovery
