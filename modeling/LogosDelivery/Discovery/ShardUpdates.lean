import LogosDelivery.Discovery.EnrSharding

/-! # Whether the record follows the shard subscriptions

Both forms of the shards read back what was written (`fromIndicesList_toIndicesList`,
`fromBitVector_toBitVector`).  A call of `updateShards` changes the shards that are read from the
record as it says, or reports an error and changes nothing, except when it lets a list of indices
grow to 64 shards: the bit vector is written beside the list then, and the list is still read first
(`updateShards_iff`). -/

namespace LogosDelivery.Discovery

open Lib
open StoreSync (Byte PubsubTopic)

variable {cluster : UInt16} {ids : List UInt16} {id : UInt16}

/-! ### Round trips -/

theorem mem_deduplicate : id ∈ deduplicate ids ↔ id ∈ ids := by
  rw [deduplicate, List.mem_reverse, List.mem_dedup, List.mem_reverse]

theorem nodup_deduplicate (ids : List UInt16) : (deduplicate ids).Nodup :=
  List.nodup_reverse.mpr (List.nodup_dedup _)

theorem length_deduplicate_le (ids : List UInt16) : (deduplicate ids).length ≤ ids.length := by
  have hle := (List.dedup_sublist ids.reverse).length_le
  rw [List.length_reverse] at hle
  rw [deduplicate, List.length_reverse]
  exact hle

theorem deduplicate_of_nodup (h : ids.Nodup) : deduplicate ids = ids := by
  rw [deduplicate, (List.nodup_reverse.mpr h).dedup, List.reverse_reverse]

theorem length_toBytesBE (x : UInt16) : (toBytesBE x).length = 2 := length_bigEndian 2 _

theorem fromBytesBE_toBytesBE (x : UInt16) : fromBytesBE (toBytesBE x) = x := by
  have hlt : x.toNat < 256 ^ 2 := x.toNat_lt
  have hvalue : (toBytesBE x).foldl (fun v b => 256 * v + b.val) 0 = x.toNat := by
    rw [toBytesBE, foldl_bigEndian, Nat.mod_eq_of_lt hlt, Nat.zero_mul, Nat.zero_add]
  rw [fromBytesBE, hvalue, UInt16.ofNat_toNat]

theorem fromIndicesList_toIndicesList {rs : RelayShards} {bytes : List Byte}
    (h : rs.toIndicesList = .ok bytes) : fromIndicesList bytes = .ok rs := by
  unfold RelayShards.toIndicesList at h
  split_ifs at h with hlen
  cases h
  have hlength : (Fin.ofNat 256 rs.shardIds.length).val = rs.shardIds.length :=
    Nat.mod_eq_of_lt (by omega)
  have hcluster := length_toBytesBE rs.clusterId
  have htotal : (rs.shardIds.flatMap toBytesBE).length = 2 * rs.shardIds.length :=
    length_flatMap_of_length length_toBytesBE rs.shardIds
  have hget : (toBytesBE rs.clusterId ++ Fin.ofNat 256 rs.shardIds.length ::
      rs.shardIds.flatMap toBytesBE).getD 2 0 = Fin.ofNat 256 rs.shardIds.length := by
    rw [List.getD_append_right _ _ _ _ hcluster.le, hcluster]
    rfl
  have hbuf : (toBytesBE rs.clusterId ++ Fin.ofNat 256 rs.shardIds.length ::
      rs.shardIds.flatMap toBytesBE).length = 3 + 2 * rs.shardIds.length := by
    rw [List.length_append, List.length_cons, hcluster, htotal]
    omega
  unfold fromIndicesList
  rw [if_neg (by omega)]
  dsimp only
  rw [hget, hlength, if_neg (not_not.mpr hbuf)]
  have hids : (List.range rs.shardIds.length).map (fun i => fromBytesBE
      (((toBytesBE rs.clusterId ++ Fin.ofNat 256 rs.shardIds.length ::
        rs.shardIds.flatMap toBytesBE).drop (3 + 2 * i)).take 2)) = rs.shardIds := by
    refine List.ext_getElem (by simp) (fun i hi hi' => ?_)
    have hdrop : 3 + 2 * i = (toBytesBE rs.clusterId).length + (2 * i + 1) := by omega
    rw [List.getElem_map, List.getElem_range, hdrop, List.drop_length_add_append, List.drop_succ_cons,
      take_drop_flatMap length_toBytesBE rs.shardIds i hi', fromBytesBE_toBytesBE]
  rw [hids, ← hcluster, List.take_left, fromBytesBE_toBytesBE]

/-! ### Bit vectors -/

theorem testBit_setBit {i j : ℕ} (hi : i < 8) (b : Byte) :
    testBit (setBit b i) j = (testBit b j || decide (i = j)) := by
  have hb := b.isLt
  have hlt : b.val ||| 2 ^ i < 2 ^ 8 :=
    Nat.or_lt_two_pow hb (Nat.pow_lt_pow_right (by omega) hi)
  have hval : (setBit b i).val = b.val ||| 2 ^ i := Nat.mod_eq_of_lt hlt
  rw [testBit, testBit, hval, Nat.testBit_or, Nat.testBit_two_pow]

/-- The bits that are set in the vector, from any vector on. -/
theorem testBit_foldl (ids : List UInt16) (vec : List Byte) (i j : ℕ) (hi : i < vec.length)
    (hj : j < 8) :
    testBit ((ids.foldl (fun vec shardId =>
      vec.modify (shardId.toNat / 8) (fun b => setBit b (shardId.toNat % 8))) vec).getD i 0) j =
      (testBit (vec.getD i 0) j || decide (∃ id ∈ ids, id.toNat = j + 8 * i)) := by
  induction ids generalizing vec with
  | nil => simp
  | cons id ids ih =>
      have hlen : (vec.modify (id.toNat / 8) (fun b => setBit b (id.toNat % 8))).length =
          vec.length := List.length_modify ..
      rw [List.foldl_cons, ih _ (by omega)]
      have hbit : testBit ((vec.modify (id.toNat / 8) (fun b => setBit b (id.toNat % 8))).getD i 0) j =
          (testBit (vec.getD i 0) j || decide (id.toNat = j + 8 * i)) := by
        rw [List.getD_eq_getElem _ _ (by omega), List.getD_eq_getElem _ _ hi, List.getElem_modify]
        by_cases hbyte : id.toNat / 8 = i
        · rw [if_pos hbyte, testBit_setBit (Nat.mod_lt _ (by omega))]
          congr 1
          refine decide_eq_decide.mpr ?_
          omega
        · rw [if_neg hbyte, decide_eq_false (by omega), Bool.or_false]
      rw [hbit, Bool.or_assoc]
      congr 1
      simp

theorem length_foldl_modify (ids : List UInt16) (vec : List Byte) :
    (ids.foldl (fun vec shardId =>
      vec.modify (shardId.toNat / 8) (fun b => setBit b (shardId.toNat % 8))) vec).length =
      vec.length := by
  induction ids generalizing vec with
  | nil => rfl
  | cons id ids ih => rw [List.foldl_cons, ih, List.length_modify]

/-- The bit vector is read as a list with the same shards. -/
theorem fromBitVector_toBitVector (cluster : UInt16) {ids : List UInt16}
    (hids : ∀ id ∈ ids, id.toNat ≤ 1023) :
    ∃ read, fromBitVector (RelayShards.toBitVector ⟨cluster, ids⟩) = .ok ⟨cluster, read⟩ ∧
      ∀ id, id ∈ read ↔ id ∈ ids := by
  have hcluster := length_toBytesBE cluster
  have hlength : (RelayShards.toBitVector ⟨cluster, ids⟩).length = 130 := by
    rw [RelayShards.toBitVector, List.length_append, length_foldl_modify, List.length_replicate,
      hcluster]
  have htake : (RelayShards.toBitVector ⟨cluster, ids⟩).take 2 = toBytesBE cluster := by
    rw [RelayShards.toBitVector, ← hcluster, List.take_left]
  have hbit : ∀ i < 128, ∀ j < 8,
      (testBit ((RelayShards.toBitVector ⟨cluster, ids⟩).getD (2 + i) 0) j = true ↔
        ∃ id ∈ ids, id.toNat = j + 8 * i) := by
    intro i hi j hj
    have hindex : 2 + i - (toBytesBE cluster).length = i := by omega
    have hstart : (toBytesBE cluster).length ≤ 2 + i := by omega
    have hzeros : (List.replicate 128 (0 : Byte)).getD i 0 = 0 := by
      rw [List.getD_eq_getElem _ _ (by simpa using hi), List.getElem_replicate]
    rw [RelayShards.toBitVector, List.getD_append_right _ _ _ _ hstart, hindex,
      testBit_foldl ids _ i j (by simpa using hi) hj, hzeros]
    have hzero : testBit 0 j = false := Nat.zero_testBit j
    rw [hzero, Bool.false_or, decide_eq_true_eq]
  unfold fromBitVector
  rw [if_neg (not_not.mpr hlength), htake, fromBytesBE_toBytesBE]
  refine ⟨_, rfl, fun id => ?_⟩
  simp only [List.mem_flatMap, List.mem_map, List.mem_filter, List.mem_range]
  constructor
  · rintro ⟨i, hi, j, ⟨hj, hset⟩, rfl⟩
    obtain ⟨id, hid, hvalue⟩ := (hbit i hi j hj).mp hset
    rw [← hvalue, UInt16.ofNat_toNat]
    exact hid
  · intro hid
    have hle := hids id hid
    refine ⟨id.toNat / 8, by omega, id.toNat % 8, ⟨Nat.mod_lt _ (by omega), ?_⟩, ?_⟩
    · exact (hbit _ (by omega) _ (Nat.mod_lt _ (by omega))).mpr ⟨id, hid, by omega⟩
    · rw [Nat.mod_add_div, UInt16.ofNat_toNat]

/-! ### What a record holds -/

/-- The shards that are read from a record. -/
def shardsOf (record : Record) : Finset UInt16 :=
  match record.relaySharding with
  | none => ∅
  | some rs => rs.shardIds.toFinset

/-- Both fields hold shards of the cluster, in their forms, and the list holds less than 64. -/
structure Sound (cluster : UInt16) (record : Record) : Prop where
  list : ∀ bytes, record ShardingIndicesListEnrField = some bytes → ∃ ids : List UInt16,
    ids.length < ShardingIndicesListMaxLength ∧ (∀ id ∈ ids, id.toNat ≤ 1023) ∧
    RelayShards.toIndicesList ⟨cluster, ids⟩ = .ok bytes
  vector : ∀ bytes, record ShardingBitVectorEnrField = some bytes → ∃ ids : List UInt16,
    (∀ id ∈ ids, id.toNat ≤ 1023) ∧ bytes = RelayShards.toBitVector ⟨cluster, ids⟩

/-- A record without a list, read. -/
theorem Sound.read_vector {record : Record} (h : Sound cluster record)
    (hlist : record ShardingIndicesListEnrField = none) :
    (record ShardingBitVectorEnrField = none ∧ record.relaySharding = none) ∨
      ∃ ids, record.relaySharding = some ⟨cluster, ids⟩ ∧ ∀ id ∈ ids, id.toNat ≤ 1023 := by
  have hnone : record.relayShardingIndicesList = none := by
    rw [Record.relayShardingIndicesList, hlist]
    rfl
  unfold Record.relaySharding
  rw [hnone]
  dsimp only
  unfold Record.relayShardingBitVector
  cases hvector : record ShardingBitVectorEnrField with
  | none => exact Or.inl ⟨rfl, rfl⟩
  | some bytes =>
      obtain ⟨ids, hids, rfl⟩ := h.vector bytes hvector
      obtain ⟨read, hread, hmem⟩ := fromBitVector_toBitVector cluster hids
      refine Or.inr ⟨read, ?_, fun id hid => hids id ((hmem id).mp hid)⟩
      rw [Option.bind_some, hread]
      rfl

/-- A record with a list, read. -/
theorem Sound.read_list {record : Record} (h : Sound cluster record)
    (hlist : (record ShardingIndicesListEnrField).isSome = true) :
    ∃ ids, record.relaySharding = some ⟨cluster, ids⟩ ∧ (∀ id ∈ ids, id.toNat ≤ 1023) ∧
      ids.length < ShardingIndicesListMaxLength := by
  obtain ⟨bytes, hbytes⟩ := Option.isSome_iff_exists.mp hlist
  obtain ⟨ids, hlen, hids, hform⟩ := h.list bytes hbytes
  refine ⟨ids, ?_, hids, hlen⟩
  have hread : record.relayShardingIndicesList = some ⟨cluster, ids⟩ := by
    rw [Record.relayShardingIndicesList, hbytes, Option.bind_some,
      fromIndicesList_toIndicesList hform]
    rfl
  rw [Record.relaySharding, hread]

/-- What is read, if anything. -/
theorem Sound.read {record : Record} (h : Sound cluster record) {rs : RelayShards}
    (hrs : record.relaySharding = some rs) :
    rs.clusterId = cluster ∧ ∀ id ∈ rs.shardIds, id.toNat ≤ 1023 := by
  cases hlist : (record ShardingIndicesListEnrField).isSome with
  | true =>
      obtain ⟨ids, hread, hids, -⟩ := h.read_list hlist
      rw [hrs, Option.some.injEq] at hread
      subst hread
      exact ⟨rfl, hids⟩
  | false =>
      rcases h.read_vector (Option.isNone_iff_eq_none.mp (by simpa using hlist)) with
        ⟨-, hnone⟩ | ⟨ids, hread, hids⟩
      · rw [hrs] at hnone
        cases hnone
      · rw [hrs, Option.some.injEq] at hread
        subst hread
        exact ⟨rfl, hids⟩

/-- What is written. -/
theorem field_eq (rs : RelayShards) :
    (ShardingIndicesListMaxLength ≤ rs.shardIds.length ∧
      rs.field = .ok (ShardingBitVectorEnrField, rs.toBitVector)) ∨
    (rs.shardIds.length < ShardingIndicesListMaxLength ∧ ∃ bytes, rs.toIndicesList = .ok bytes ∧
      rs.field = .ok (ShardingIndicesListEnrField, bytes)) := by
  unfold RelayShards.field
  by_cases hlen : rs.shardIds.length ≥ ShardingIndicesListMaxLength
  · rw [if_pos hlen]
    exact Or.inl ⟨hlen, rfl⟩
  · have hshort : ¬ rs.shardIds.length > 255 := by
      unfold ShardingIndicesListMaxLength at hlen
      omega
    refine Or.inr ⟨not_le.mp hlen, ?_⟩
    rw [if_neg hlen]
    unfold RelayShards.toIndicesList
    rw [if_neg hshort]
    exact ⟨_, rfl, rfl⟩

theorem fields_ne : ShardingIndicesListEnrField ≠ ShardingBitVectorEnrField := by decide

/-- A list that was written is read. -/
theorem read_writtenList {record : Record} {rs : RelayShards} {bytes : List Byte}
    (h : rs.toIndicesList = .ok bytes) :
    (record.addFieldPair ShardingIndicesListEnrField bytes).relaySharding = some rs := by
  have hread : (record.addFieldPair ShardingIndicesListEnrField bytes).relayShardingIndicesList =
      some rs := by
    rw [Record.relayShardingIndicesList, Record.addFieldPair, Function.update_self,
      Option.bind_some, fromIndicesList_toIndicesList h]
    rfl
  rw [Record.relaySharding, hread]

/-- A bit vector that was written is read if there is no list. -/
theorem shardsOf_writtenVector {record : Record}
    (hlist : record ShardingIndicesListEnrField = none) (hids : ∀ id ∈ ids, id.toNat ≤ 1023) :
    shardsOf (record.addFieldPair ShardingBitVectorEnrField
      (RelayShards.toBitVector ⟨cluster, ids⟩)) = ids.toFinset := by
  obtain ⟨read, hread, hmem⟩ := fromBitVector_toBitVector cluster hids
  have hnone : (record.addFieldPair ShardingBitVectorEnrField
      (RelayShards.toBitVector ⟨cluster, ids⟩)).relayShardingIndicesList = none := by
    rw [Record.relayShardingIndicesList, Record.addFieldPair, Function.update_of_ne fields_ne, hlist]
    rfl
  have hvector : (record.addFieldPair ShardingBitVectorEnrField
      (RelayShards.toBitVector ⟨cluster, ids⟩)).relaySharding = some ⟨cluster, read⟩ := by
    rw [Record.relaySharding, hnone]
    dsimp only
    rw [Record.relayShardingBitVector, Record.addFieldPair, Function.update_self, Option.bind_some,
      hread]
    rfl
  rw [shardsOf, hvector]
  ext id
  rw [List.mem_toFinset, List.mem_toFinset, hmem]

/-- A list hides the bit vector. -/
theorem shardsOf_hiddenVector {record : Record} (h : Sound cluster record)
    (hlist : (record ShardingIndicesListEnrField).isSome = true) (bytes : List Byte) :
    shardsOf (record.addFieldPair ShardingBitVectorEnrField bytes) = shardsOf record := by
  obtain ⟨list, hbytes⟩ := Option.isSome_iff_exists.mp hlist
  obtain ⟨ids, -, -, hform⟩ := h.list list hbytes
  have hread : ∀ record' : Record, record' ShardingIndicesListEnrField = some list →
      record'.relaySharding = some ⟨cluster, ids⟩ := by
    intro record' hrecord
    have hindices : record'.relayShardingIndicesList = some ⟨cluster, ids⟩ := by
      rw [Record.relayShardingIndicesList, hrecord, Option.bind_some,
        fromIndicesList_toIndicesList hform]
      rfl
    rw [Record.relaySharding, hindices]
  rw [shardsOf, shardsOf, hread record hbytes, hread _ ?_]
  rw [Record.addFieldPair, Function.update_of_ne fields_ne, hbytes]

/-! ### Writing -/

section Updates

variable {decode : List Char → Except String UInt16} {refuses : Record → Option String}
  {order : IterationOrder UInt16} {record : Record}

/-- The error is a refusal of the record by `updateRecord`. -/
def RefusedRecord (refuses : Record → Option String) (e : String) : Prop :=
  ∃ record' cause, refuses record' = some cause ∧ e = "ENR update failed updateRecord: " ++ cause

theorem updateRecord_error {field : String} {value : List Byte} {e : String}
    (h : (updateRecord refuses record field value).2 = .error e) :
    (updateRecord refuses record field value).1 = record ∧ RefusedRecord refuses e := by
  unfold updateRecord at h ⊢
  cases hrefuses : refuses (record.addFieldPair field value) with
  | none =>
      rw [hrefuses] at h
      cases h
  | some cause =>
      rw [hrefuses] at h
      cases h
      exact ⟨rfl, _, cause, hrefuses, rfl⟩

theorem updateRecord_ok {field : String} {value : List Byte} :
    (updateRecord refuses record field value).2 = .ok () ↔
      refuses (record.addFieldPair field value) = none := by
  unfold updateRecord
  cases refuses (record.addFieldPair field value) <;> simp

theorem updateRecord_written {field : String} {value : List Byte}
    (h : (updateRecord refuses record field value).2 = .ok ()) :
    (updateRecord refuses record field value).1 = record.addFieldPair field value := by
  rw [updateRecord, updateRecord_ok.mp h]

theorem writeShards_vector (refuses : Record → Option String) (record : Record) (rs : RelayShards)
    (hlen : ShardingIndicesListMaxLength ≤ rs.shardIds.length) :
    writeShards refuses record rs =
      updateRecord refuses record ShardingBitVectorEnrField rs.toBitVector := by
  rcases field_eq rs with ⟨-, hfield⟩ | ⟨hshort, -⟩
  · rw [writeShards, hfield]
  · omega

theorem writeShards_list (refuses : Record → Option String) (record : Record) (rs : RelayShards)
    (hlen : rs.shardIds.length < ShardingIndicesListMaxLength) :
    ∃ bytes, rs.toIndicesList = .ok bytes ∧
      writeShards refuses record rs =
        updateRecord refuses record ShardingIndicesListEnrField bytes := by
  rcases field_eq rs with ⟨hlong, -⟩ | ⟨-, bytes, hbytes, hfield⟩
  · omega
  · exact ⟨bytes, hbytes, by rw [writeShards, hfield]⟩

theorem writeShards_error {rs : RelayShards} {e : String}
    (h : (writeShards refuses record rs).2 = .error e) :
    (writeShards refuses record rs).1 = record ∧ RefusedRecord refuses e := by
  rcases Nat.lt_or_ge rs.shardIds.length ShardingIndicesListMaxLength with hlen | hlen
  · obtain ⟨bytes, -, hwrite⟩ := writeShards_list refuses record rs hlen
    rw [hwrite] at h ⊢
    exact updateRecord_error h
  · rw [writeShards_vector refuses record rs hlen] at h ⊢
    exact updateRecord_error h

/-- What was written is read, unless a list hides it. -/
theorem writeShards_read (hids : ∀ id ∈ ids, id.toNat ≤ 1023)
    (hvisible : ShardingIndicesListMaxLength ≤ ids.length →
      record ShardingIndicesListEnrField = none)
    (h : (writeShards refuses record ⟨cluster, ids⟩).2 = .ok ()) :
    shardsOf (writeShards refuses record ⟨cluster, ids⟩).1 = ids.toFinset := by
  rcases Nat.lt_or_ge ids.length ShardingIndicesListMaxLength with hlen | hlen
  · obtain ⟨bytes, hbytes, hwrite⟩ :=
      writeShards_list refuses record ⟨cluster, ids⟩ hlen
    rw [hwrite] at h ⊢
    rw [updateRecord_written h, shardsOf, read_writtenList hbytes]
  · rw [writeShards_vector refuses record ⟨cluster, ids⟩ hlen] at h ⊢
    rw [updateRecord_written h]
    exact shardsOf_writtenVector (hvisible hlen) hids

theorem Sound.writeShards (h : Sound cluster record) (hids : ∀ id ∈ ids, id.toNat ≤ 1023) :
    Sound cluster (writeShards refuses record ⟨cluster, ids⟩).1 := by
  cases hresult : (Discovery.writeShards refuses record ⟨cluster, ids⟩).2 with
  | error e =>
      rw [(writeShards_error hresult).1]
      exact h
  | ok _ =>
      rcases Nat.lt_or_ge ids.length ShardingIndicesListMaxLength with hlen | hlen
      · obtain ⟨bytes, hbytes, hwrite⟩ :=
          writeShards_list refuses record ⟨cluster, ids⟩ hlen
        rw [hwrite] at hresult ⊢
        rw [updateRecord_written hresult]
        constructor
        · intro bytes' hbytes'
          rw [Record.addFieldPair, Function.update_self, Option.some.injEq] at hbytes'
          subst hbytes'
          exact ⟨ids, hlen, hids, hbytes⟩
        · intro bytes' hbytes'
          rw [Record.addFieldPair, Function.update_of_ne fields_ne.symm] at hbytes'
          exact h.vector bytes' hbytes'
      · rw [writeShards_vector refuses record ⟨cluster, ids⟩ hlen] at hresult ⊢
        rw [updateRecord_written hresult]
        constructor
        · intro bytes' hbytes'
          rw [Record.addFieldPair, Function.update_of_ne fields_ne] at hbytes'
          exact h.list bytes' hbytes'
        · intro bytes' hbytes'
          rw [Record.addFieldPair, Function.update_self, Option.some.injEq] at hbytes'
          exact ⟨ids, hids, hbytes'.symm⟩

/-! ### Topics -/

/-- Static sharding topics of the cluster, with shard ids up to 1023. -/
def InCluster (decode : List Char → Except String UInt16) (cluster : UInt16)
    (topics : List PubsubTopic) : Prop :=
  ∀ topic ∈ topics, ∃ id : UInt16, id.toNat ≤ 1023 ∧
    parseStaticSharding decode topic = .ok ⟨cluster, id⟩

/-- The shards of the topics. -/
def idsOf (decode : List Char → Except String UInt16) (topics : List PubsubTopic) : List UInt16 :=
  topics.filterMap (fun topic =>
    (parseStaticSharding decode topic).toOption.map RelayShard.shardId)

theorem le_of_inCluster {topics : List PubsubTopic} (h : InCluster decode cluster topics) :
    ∀ id ∈ idsOf decode topics, id.toNat ≤ 1023 := by
  intro id hid
  obtain ⟨topic, htopic, hsome⟩ := List.mem_filterMap.mp hid
  obtain ⟨id', hle, hparse⟩ := h topic htopic
  rw [hparse] at hsome
  cases hsome
  exact hle

theorem parseTopics_eq {topics : List PubsubTopic} (h : InCluster decode cluster topics) :
    parseTopics decode topics = .ok ((idsOf decode topics).map (fun id => ⟨cluster, id⟩)) := by
  induction topics with
  | nil => rfl
  | cons topic topics ih =>
      obtain ⟨id, -, hparse⟩ := h topic List.mem_cons_self
      have hrest := ih (fun t ht => h t (List.mem_cons_of_mem _ ht))
      have hids : idsOf decode (topic :: topics) = id :: idsOf decode topics := by
        rw [idsOf, List.filterMap_cons, hparse]
        rfl
      rw [parseTopics, hparse]
      dsimp only
      rw [hrest, hids]
      rfl

theorem init_eq (cluster : UInt16) (hne : ids ≠ []) (hids : ∀ id ∈ ids, id.toNat ≤ 1023) :
    RelayShards.init cluster ids = .ok ⟨cluster, deduplicate ids⟩ := by
  have hrange : ids.any (fun it => decide (it > MaxShardIndex)) = false := by
    refine List.any_eq_false.mpr (fun id hid hgt => ?_)
    have hlt := UInt16.lt_iff_toNat_lt.mp (of_decide_eq_true hgt)
    have hle := hids id hid
    have hmax : MaxShardIndex.toNat = 1023 := rfl
    omega
  have hlen := List.length_pos_iff.mpr hne
  unfold RelayShards.init
  rw [hrange, if_neg Bool.false_ne_true, if_neg (by omega)]

theorem topicsToRelayShards_eq {topics : List PubsubTopic} (h : InCluster decode cluster topics) :
    topicsToRelayShards decode topics = .ok (if idsOf decode topics = [] then none
      else some ⟨cluster, deduplicate (idsOf decode topics)⟩) := by
  unfold topicsToRelayShards
  rw [parseTopics_eq h]
  have hids := le_of_inCluster h
  cases hcases : idsOf decode topics with
  | nil => rfl
  | cons id ids =>
      rw [hcases] at hids
      have hsame : ((id :: ids).map (fun id => (⟨cluster, id⟩ : RelayShard))).any
          (fun it => decide (it.clusterId ≠ cluster)) = false := by
        simp
      have hmap : ((id :: ids).map (fun id => (⟨cluster, id⟩ : RelayShard))).map
          RelayShard.shardId = id :: ids := by
        simp [Function.comp_def]
      rw [List.map_cons] at hsame hmap ⊢
      dsimp only
      rw [hsame, if_neg Bool.false_ne_true, hmap, init_eq cluster (List.cons_ne_nil _ _) hids,
        if_neg (List.cons_ne_nil _ _)]
      rfl

/-! ### One call -/

variable (decode refuses order)

/-- A call that returns ok changes the shards as it says; a call that returns an error leaves the
record as it is, and is refused by the record or removes all shards. -/
structure Follows (record : Record) (u : Update) : Prop where
  ok : (updateENRShards decode refuses order record u.topics u.add).2 = .ok () →
    shardsOf (updateENRShards decode refuses order record u.topics u.add).1 =
      if u.add then shardsOf record ∪ (idsOf decode u.topics).toFinset
      else shardsOf record \ (idsOf decode u.topics).toFinset
  error : ∀ e, (updateENRShards decode refuses order record u.topics u.add).2 = .error e →
    (updateENRShards decode refuses order record u.topics u.add).1 = record ∧
      (RefusedRecord refuses e ∨
        (u.add = false ∧ shardsOf record ⊆ (idsOf decode u.topics).toFinset))

/-- The shards of the record and of an addition, in the order in which they are written. -/
def grown (record : Record) (u : Update) : List UInt16 :=
  deduplicate ((record.relaySharding.map RelayShards.shardIds).getD [] ++
    deduplicate (idsOf decode u.topics))

/-- The call lets the shards of a record that has them as a list grow to 64, and the record takes
the bit vector. -/
structure Outgrows (cluster : UInt16) (record : Record) (u : Update) : Prop where
  add : u.add = true
  list : (record ShardingIndicesListEnrField).isSome = true
  long : ShardingIndicesListMaxLength ≤ (grown decode record u).length
  taken : refuses (record.addFieldPair ShardingBitVectorEnrField
    (RelayShards.toBitVector ⟨cluster, grown decode record u⟩)) = none

variable {decode refuses order}

theorem Follows.of_write {u : Update} (hids : ∀ id ∈ ids, id.toNat ≤ 1023)
    (hwrite : updateENRShards decode refuses order record u.topics u.add =
      writeShards refuses record ⟨cluster, ids⟩)
    (hset : ids.toFinset = if u.add then shardsOf record ∪ (idsOf decode u.topics).toFinset
      else shardsOf record \ (idsOf decode u.topics).toFinset)
    (hvisible : ShardingIndicesListMaxLength ≤ ids.length →
      record ShardingIndicesListEnrField = none) :
    Follows decode refuses order record u where
  ok h := by
    rw [hwrite] at h ⊢
    rw [writeShards_read hids hvisible h, hset]
  error e h := by
    rw [hwrite] at h ⊢
    obtain ⟨hsame, hrefused⟩ := writeShards_error h
    exact ⟨hsame, Or.inl hrefused⟩

/-- A call without a write. -/
theorem Follows.of_same {u : Update}
    (hsame : updateENRShards decode refuses order record u.topics u.add = (record, .ok ()))
    (hset : shardsOf record = if u.add then shardsOf record ∪ (idsOf decode u.topics).toFinset
      else shardsOf record \ (idsOf decode u.topics).toFinset) :
    Follows decode refuses order record u where
  ok _ := by
    rw [hsame]
    exact hset
  error e h := by
    rw [hsame] at h
    cases h

/-! ### Additions -/

theorem shardsOf_eq (record : Record) :
    shardsOf record = ((record.relaySharding.map RelayShards.shardIds).getD []).toFinset := by
  rw [shardsOf]
  cases record.relaySharding <;> rfl

theorem le_of_grown (h : Sound cluster record) {u : Update}
    (hcluster : InCluster decode cluster u.topics) :
    ∀ id ∈ grown decode record u, id.toNat ≤ 1023 := by
  intro id hid
  rcases List.mem_append.mp (mem_deduplicate.mp hid) with hid | hid
  · cases hread : record.relaySharding with
    | none =>
        rw [hread] at hid
        cases hid
    | some rs =>
        rw [hread] at hid
        exact (h.read hread).2 id hid
  · exact le_of_inCluster hcluster id (mem_deduplicate.mp hid)

/-- An addition writes the grown shards, whether there are shards in the record or not. -/
theorem add_write (h : Sound cluster record) {u : Update} (hadd : u.add = true)
    (hcluster : InCluster decode cluster u.topics) (hne : idsOf decode u.topics ≠ []) :
    updateENRShards decode refuses order record u.topics u.add =
      writeShards refuses record ⟨cluster, grown decode record u⟩ := by
  have hids := le_of_inCluster hcluster
  unfold updateENRShards
  rw [topicsToRelayShards_eq hcluster, if_neg hne, hadd]
  dsimp only
  cases hread : record.relaySharding with
  | none =>
      rw [grown, hread]
      dsimp only [resultShard, Option.map_none, Option.getD_none]
      rw [List.nil_append, deduplicate_of_nodup (nodup_deduplicate _)]
  | some rs =>
      obtain ⟨rfl, hrs⟩ := h.read hread
      have hne' : rs.shardIds ++ deduplicate (idsOf decode u.topics) ≠ [] := by
        obtain ⟨id, hid⟩ := List.exists_mem_of_ne_nil _ hne
        exact List.ne_nil_of_mem (List.mem_append_right _ (mem_deduplicate.mpr hid))
      have hrange : ∀ id ∈ rs.shardIds ++ deduplicate (idsOf decode u.topics),
          id.toNat ≤ 1023 := by
        intro id hid
        rcases List.mem_append.mp hid with hid | hid
        · exact hrs id hid
        · exact hids id (mem_deduplicate.mp hid)
      dsimp only [resultShard]
      rw [if_neg (not_not.mpr rfl), init_eq _ hne' hrange, grown, hread]
      rfl

theorem add_follows_iff (h : Sound cluster record) {u : Update} (hadd : u.add = true)
    (hcluster : InCluster decode cluster u.topics) (hne : idsOf decode u.topics ≠ []) :
    Follows decode refuses order record u ↔ ¬ Outgrows decode refuses cluster record u := by
  have hset : (grown decode record u).toFinset =
      if u.add then shardsOf record ∪ (idsOf decode u.topics).toFinset
      else shardsOf record \ (idsOf decode u.topics).toFinset := by
    rw [hadd, if_pos rfl, shardsOf_eq]
    ext id
    simp only [grown, List.mem_toFinset, mem_deduplicate, List.mem_append, Finset.mem_union]
  have hwrite : updateENRShards decode refuses order record u.topics u.add =
      writeShards refuses record ⟨cluster, grown decode record u⟩ := add_write h hadd hcluster hne
  constructor
  · rintro hfollows ⟨-, hlist, hlong, htaken⟩
    have hvector := writeShards_vector refuses record ⟨cluster, grown decode record u⟩ hlong
    have hok := updateRecord_ok.mpr htaken
    have hread := hfollows.ok (by rw [hwrite, hvector, hok])
    rw [← hset, hwrite, hvector, updateRecord_written hok, shardsOf_hiddenVector h hlist] at hread
    -- the list that is read has less than 64 shards
    obtain ⟨ids, hids, -, hshort⟩ := h.read_list hlist
    have hcard : (grown decode record u).toFinset.card = (grown decode record u).length :=
      List.toFinset_card_of_nodup (nodup_deduplicate _)
    have hle := List.toFinset_card_le ids
    rw [← hread, shardsOf, hids] at hcard
    dsimp only at hcard
    omega
  · intro hnot
    by_cases hhidden : (record ShardingIndicesListEnrField).isSome = true ∧
        ShardingIndicesListMaxLength ≤ (grown decode record u).length
    · have hvector := writeShards_vector refuses record ⟨cluster, grown decode record u⟩ hhidden.2
      refine ⟨fun hok => ?_, fun e he => ?_⟩
      · rw [hwrite, hvector] at hok
        exact absurd ⟨hadd, hhidden.1, hhidden.2, updateRecord_ok.mp hok⟩ hnot
      · rw [hwrite] at he ⊢
        obtain ⟨hsame, hrefused⟩ := writeShards_error he
        exact ⟨hsame, Or.inl hrefused⟩
    · refine Follows.of_write (le_of_grown h hcluster) hwrite hset (fun hlong => ?_)
      by_contra hsome
      exact hhidden ⟨Option.isSome_iff_ne_none.mpr hsome, hlong⟩

/-! ### Removals -/

/-- What a removal leaves of the shards, in the order of the hash set. -/
def leftOf (decode : List Char → Except String UInt16) (order : IterationOrder UInt16)
    (rs : RelayShards) (u : Update) : List UInt16 :=
  order.ofSeq (rs.shardIds.filter
    (fun id => decide (id ∉ deduplicate (idsOf decode u.topics))))

theorem mem_leftOf {rs : RelayShards} {u : Update} :
    id ∈ leftOf decode order rs u ↔ id ∈ rs.shardIds ∧ id ∉ idsOf decode u.topics := by
  rw [leftOf, IterationOrder.mem_ofSeq, List.mem_filter, decide_eq_true_eq, mem_deduplicate]

/-- A removal from a record without shards. -/
theorem remove_none {u : Update} (hadd : u.add = false)
    (hcluster : InCluster decode cluster u.topics) (hread : record.relaySharding = none) :
    updateENRShards decode refuses order record u.topics u.add = (record, .ok ()) := by
  unfold updateENRShards
  rw [topicsToRelayShards_eq hcluster, hread, hadd]
  split_ifs <;> rfl

theorem remove_write (refuses : Record → Option String) (order : IterationOrder UInt16)
    {rs : RelayShards} (hrs : ∀ id ∈ rs.shardIds, id.toNat ≤ 1023) {u : Update}
    (hadd : u.add = false) (hcluster : InCluster decode rs.clusterId u.topics)
    (hne : idsOf decode u.topics ≠ []) (hread : record.relaySharding = some rs) :
    updateENRShards decode refuses order record u.topics u.add =
      if (leftOf decode order rs u).length = 0 then
        (record, .error "ENR update failed: cannot remove all shards")
      else writeShards refuses record ⟨rs.clusterId, deduplicate (leftOf decode order rs u)⟩ := by
  unfold updateENRShards
  rw [topicsToRelayShards_eq hcluster, if_neg hne, hread, hadd]
  dsimp only [resultShard]
  rw [if_neg (not_not.mpr rfl)]
  by_cases hnil : (leftOf decode order rs u).length = 0
  · rw [if_pos hnil]
    unfold leftOf at hnil
    rw [if_pos hnil]
  · have hindices : leftOf decode order rs u ≠ [] := fun heq => hnil (by rw [heq]; rfl)
    have hinit := init_eq rs.clusterId hindices
      (fun id hid => hrs id (mem_leftOf.mp hid).1)
    rw [if_neg hnil]
    unfold leftOf at hnil hinit ⊢
    rw [if_neg hnil, hinit]

theorem remove_follows (h : Sound cluster record) {u : Update} (hadd : u.add = false)
    (hcluster : InCluster decode cluster u.topics) (hne : idsOf decode u.topics ≠ []) :
    Follows decode refuses order record u := by
  cases hread : record.relaySharding with
  | none =>
      have hnone : shardsOf record = ∅ := by rw [shardsOf, hread]
      refine Follows.of_same (remove_none hadd hcluster hread) ?_
      rw [hadd, if_neg Bool.false_ne_true, hnone, Finset.empty_sdiff]
  | some rs =>
      obtain ⟨rfl, hrs⟩ := h.read hread
      have hshards : shardsOf record = rs.shardIds.toFinset := by rw [shardsOf, hread]
      have hupdate := remove_write refuses order hrs hadd hcluster hne hread
      by_cases hnil : (leftOf decode order rs u).length = 0
      · rw [if_pos hnil] at hupdate
        refine ⟨fun hok => ?_, fun e he => ?_⟩
        · rw [hupdate] at hok
          cases hok
        · refine ⟨by rw [hupdate], Or.inr ⟨hadd, fun id hid => ?_⟩⟩
          rw [hshards, List.mem_toFinset] at hid
          rw [List.mem_toFinset]
          by_contra hnot
          have hleft : id ∈ leftOf decode order rs u := mem_leftOf.mpr ⟨hid, hnot⟩
          rw [List.length_eq_zero_iff.mp hnil] at hleft
          cases hleft
      · rw [if_neg hnil] at hupdate
        refine Follows.of_write
          (fun id hid => hrs id (mem_leftOf.mp (mem_deduplicate.mp hid)).1) hupdate ?_
          (fun hlong => ?_)
        · rw [hadd, if_neg Bool.false_ne_true, hshards]
          ext id
          simp only [List.mem_toFinset, mem_deduplicate, mem_leftOf, Finset.mem_sdiff]
        · -- a list would have had less than 64 shards before the removal
          by_contra hsome
          obtain ⟨ids, hids, -, hshort⟩ := h.read_list (Option.isSome_iff_ne_none.mpr hsome)
          rw [hread, Option.some.injEq] at hids
          have hsame : rs.shardIds = ids := congrArg RelayShards.shardIds hids
          have hle := (length_deduplicate_le (leftOf decode order rs u)).trans
            (order.length_ofSeq_le _)
          have hfilter := List.length_filter_le
            (fun id => decide (id ∉ deduplicate (idsOf decode u.topics))) rs.shardIds
          rw [hsame] at hle hfilter
          omega

/-! ### Any call -/

theorem follows_iff (h : Sound cluster record) {u : Update}
    (hcluster : InCluster decode cluster u.topics) :
    Follows decode refuses order record u ↔ ¬ Outgrows decode refuses cluster record u := by
  by_cases hne : idsOf decode u.topics = []
  · have hsame : updateENRShards decode refuses order record u.topics u.add = (record, .ok ()) := by
      unfold updateENRShards
      rw [topicsToRelayShards_eq hcluster, if_pos hne]
    have hfollows : Follows decode refuses order record u := by
      refine Follows.of_same hsame ?_
      rw [hne]
      split_ifs <;> simp
    refine iff_of_true hfollows ?_
    rintro ⟨-, hlist, hlong, -⟩
    obtain ⟨ids, hids, -, hshort⟩ := h.read_list hlist
    have hle := length_deduplicate_le (ids ++ [])
    rw [grown, hids, hne] at hlong
    have hnil : deduplicate [] = [] := rfl
    rw [Option.map_some, Option.getD_some, hnil] at hlong
    rw [List.append_nil] at hle hlong
    exact absurd (hlong.trans hle) (not_le.mpr hshort)
  · cases hadd : u.add with
    | true => exact add_follows_iff h hadd hcluster hne
    | false =>
        refine iff_of_true (remove_follows h hadd hcluster hne) ?_
        rintro ⟨hadd', -, -, -⟩
        rw [hadd] at hadd'
        cases hadd'

theorem Sound.update (h : Sound cluster record) {u : Update}
    (hcluster : InCluster decode cluster u.topics) :
    Sound cluster (updateENRShards decode refuses order record u.topics u.add).1 := by
  by_cases hne : idsOf decode u.topics = []
  · unfold updateENRShards
    rw [topicsToRelayShards_eq hcluster, if_pos hne]
    exact h
  · cases hadd : u.add with
    | true =>
        rw [← hadd, add_write h hadd hcluster hne]
        exact h.writeShards (le_of_grown h hcluster)
    | false =>
        rw [← hadd]
        cases hread : record.relaySharding with
        | none =>
            rw [remove_none hadd hcluster hread]
            exact h
        | some rs =>
            obtain ⟨rfl, hrs⟩ := h.read hread
            rw [remove_write refuses order hrs hadd hcluster hne hread]
            split_ifs
            · exact h
            · exact h.writeShards
                (fun id hid => hrs id (mem_leftOf.mp (mem_deduplicate.mp hid)).1)

/-! ### Runs -/

/-- A record that was built without shards, or with some of the cluster. -/
def Built (cluster : UInt16) (record : Record) : Prop :=
  ∃ base : Record, base ShardingIndicesListEnrField = none ∧
    base ShardingBitVectorEnrField = none ∧
    (record = base ∨ ∃ ids : List UInt16, (∀ id ∈ ids, id.toNat ≤ 1023) ∧
      withWakuRelaySharding base ⟨cluster, ids⟩ = .ok record)

theorem Built.sound (h : Built cluster record) : Sound cluster record := by
  obtain ⟨base, hlist, hvector, hbuilt⟩ := h
  have hbase : Sound cluster base := by
    refine ⟨fun bytes hbytes => ?_, fun bytes hbytes => ?_⟩
    · rw [hlist] at hbytes
      cases hbytes
    · rw [hvector] at hbytes
      cases hbytes
  rcases hbuilt with rfl | ⟨ids, hids, hwith⟩
  · exact hbase
  · -- the builder writes the same field as an update
    have hwrite : (Discovery.writeShards (fun _ => none) base ⟨cluster, ids⟩).1 = record := by
      rcases field_eq ⟨cluster, ids⟩ with ⟨hlen, hfield⟩ | ⟨hlen, bytes, hbytes, hfield⟩
      · rw [withWakuRelaySharding, if_pos hlen] at hwith
        cases hwith
        rw [Discovery.writeShards, hfield]
        rfl
      · rw [withWakuRelaySharding, if_neg (not_le.mpr hlen), hbytes] at hwith
        cases hwith
        rw [Discovery.writeShards, hfield]
        rfl
    rw [← hwrite]
    exact hbase.writeShards hids

theorem recordAfter_sound (h : Built cluster record) (updates : List Update)
    (hcluster : ∀ u ∈ updates, InCluster decode cluster u.topics) :
    Sound cluster (recordAfter decode refuses order record updates) := by
  induction updates using List.reverseRecOn with
  | nil => exact h.sound
  | append_singleton updates u ih =>
      rw [recordAfter, run_concat]
      exact (ih (fun u' hu' => hcluster u' (List.mem_append_left _ hu'))).update
        (hcluster u (List.mem_append_right _ (List.mem_singleton_self u)))

/-- After any calls, a further one does what it says, or is refused for the record or for the removal
of all shards and changes nothing, exactly if it does not let a list grow to 64 shards in a record
that takes the bit vector. -/
theorem updateShards_iff (decode : List Char → Except String UInt16)
    (refuses : Record → Option String) (order : IterationOrder UInt16) (cluster : UInt16)
    (record : Record) (updates : List Update) (u : Update) (hbuilt : Built cluster record)
    (hcluster : ∀ u' ∈ updates ++ [u], InCluster decode cluster u'.topics) :
    Follows decode refuses order (recordAfter decode refuses order record updates) u ↔
      ¬ Outgrows decode refuses cluster (recordAfter decode refuses order record updates) u :=
  follows_iff (recordAfter_sound hbuilt updates
    (fun u' hu' => hcluster u' (List.mem_append_left _ hu')))
    (hcluster u (List.mem_append_right _ (List.mem_singleton_self u)))

/-! ### Concrete records -/

/-- The number of a text of decimal digits. -/
def decimal (s : List Char) : Except String UInt16 :=
  .ok (UInt16.ofNat (s.foldl (fun v c => 10 * v + (c.toNat - '0'.toNat)) 0))

def sameOrder : IterationOrder UInt16 := ⟨fun l => l, fun l => List.Perm.refl l⟩

/-- A record built with two shards, after an addition and a removal. -/
theorem updateShards_afterTwo :
    let updates : List Update := [⟨["/waku/2/rs/0/3"], true⟩, ⟨["/waku/2/rs/0/1"], false⟩]
    ∃ record, withWakuRelaySharding (fun _ => none) ⟨0, [1, 2]⟩ = .ok record ∧
      shardsOf (recordAfter decimal (fun _ => none) sameOrder record updates) = {2, 3} ∧
      Follows decimal (fun _ => none) sameOrder
        (recordAfter decimal (fun _ => none) sameOrder record updates)
        ⟨["/waku/2/rs/0/4"], true⟩ := by
  intro updates
  refine ⟨_, rfl, by decide +kernel, ?_⟩
  refine (updateShards_iff decimal (fun _ => none) sameOrder 0 _ updates ⟨["/waku/2/rs/0/4"], true⟩
    ⟨fun _ => none, rfl, rfl, Or.inr ⟨[1, 2], by simp, rfl⟩⟩ ?_).mpr ?_
  · intro u hu topic htopic
    simp only [updates, List.cons_append, List.nil_append, List.mem_cons, List.not_mem_nil,
      or_false] at hu
    rcases hu with rfl | rfl | rfl
    all_goals rw [List.mem_singleton.mp htopic]
    · exact ⟨3, by decide, rfl⟩
    · exact ⟨1, by decide, rfl⟩
    · exact ⟨4, by decide, rfl⟩
  · rintro ⟨-, -, hlong, -⟩
    revert hlong
    decide +kernel

/-- A record built with 63 shards, in a list.  The 64th is added, and is not read. -/
theorem updateShards_64th :
    let ids := (List.range 63).map UInt16.ofNat
    ∃ record, withWakuRelaySharding (fun _ => none) ⟨0, ids⟩ = .ok record ∧
      (updateENRShards decimal (fun _ => none) sameOrder record ["/waku/2/rs/0/63"] true).2 =
        .ok () ∧
      63 ∉ shardsOf (updateENRShards decimal (fun _ => none) sameOrder record
        ["/waku/2/rs/0/63"] true).1 := by
  exact ⟨_, rfl, by decide +kernel⟩

end Updates

end LogosDelivery.Discovery
