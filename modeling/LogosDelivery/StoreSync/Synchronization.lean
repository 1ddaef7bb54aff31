import LogosDelivery.StoreSync.Conversation

/-! # A synchronization of two nodes

`storeSynchronization` on an open connection: the initiator sends the fingerprint of its time range
and both ends run `processRequest`, each with a lower bound of its own.  The first payload arrives
without the full hash at its end, so the range is cut to the times before that bound
(`initiate_arrives`).  `storeSynchronization_exact` then says what a whole session does to the two
nodes. -/

namespace LogosDelivery.StoreSync

open LogosDelivery.Lib (VarintCodec)

/-- What a side reads from its clocks when it enters a session, with its sync window. -/
structure Timing where
  /-- `Moment.now()` -/
  moment : ℤ
  clock : ℤ
  offset : ℤ
  syncRange : ℤ

def Timing.range (timing : Timing) : Slice ℤ :=
  calculateTimeRange timing.clock timing.offset timing.syncRange

namespace SyncReconciliation

/-- The start of `processRequest`: overdue promises are dropped and the lower bound is fixed for the
session. -/
def enter (self : SyncReconciliation) (timing : Timing) (peerId : PeerId) : Side :=
  ⟨self.expirePending timing.moment, timing.range.a, peerId⟩

/-- A session that `self` starts with `other`.  The first timing is that of `initiate`; `selfTiming`
and `otherTiming` are those of `processRequest` on both sides.  `none` unless it ends in order. -/
def storeSynchronization (L : VarintCodec) (now : ℕ → ℤ) (fuel : ℕ) (self other : SyncReconciliation)
    (selfId otherId : PeerId) (shards : List UInt16) (timing selfTiming otherTiming : Timing) :
    Option (SyncReconciliation × SyncReconciliation) := do
  let (self, initPayload) :=
    self.initiate timing.moment timing.clock timing.offset timing.syncRange shards
  let rawPayload ← initPayload.deltaEncode L
  (converse L now fuel (other.enter otherTiming selfId) (self.enter selfTiming otherId)
    rawPayload).map Prod.swap

/-! ### The first payload -/

/-- Without pending elements only the deadline queue gets shorter. -/
theorem expirePending_of_idle {self : SyncReconciliation} (h : self.pendingSet = ∅) (now : ℤ) :
    self.expirePending now =
      { self with
        pendingQueue := self.pendingQueue.dropWhile (fun e => decide (e.2 ≤ now)) } := by
  have hsame : ∀ entries : List (SyncID × ℤ),
      entries.foldl (fun self e => self.expireOne e.1) self = self := by
    intro entries
    induction entries with
    | nil => rfl
    | cons e entries ih =>
        rw [List.foldl_cons, expireOne, if_pos (by rw [h]; exact Finset.notMem_empty _), ih]
  rw [expirePending_eq, hsame]

theorem Ready.expirePending {self : SyncReconciliation} {a : Attribution} (h : self.Ready a)
    (now : ℤ) : (self.expirePending now).Ready a := by
  rw [expirePending_of_idle h.idle]
  exact ⟨h.reconcilable, h.sound, h.attributed, h.keepsSlots, h.idle, h.unlimited, h.shards_nodup⟩

theorem Ready.storage_expirePending {self : SyncReconciliation} {a : Attribution} (h : self.Ready a)
    (now : ℤ) : (self.expirePending now).storage = self.storage := by
  rw [expirePending_of_idle h.idle]

theorem expirePending_shards (self : SyncReconciliation) (now : ℤ) :
    (self.expirePending now).shards = self.shards := by
  rw [expirePending_eq, foldl_expireOne_eq]

theorem expirePending_cluster (self : SyncReconciliation) (now : ℤ) :
    (self.expirePending now).cluster = self.cluster := by
  rw [expirePending_eq, foldl_expireOne_eq]

end SyncReconciliation

/-- The first payload of a session arrives as a fingerprint of the times before its end. -/
theorem initPayload_arrives {L : VarintCodec} (hL : L.Lawful) (storage : SeqStorage) (cluster : UInt16)
    {shards : List UInt16} (hshards : shards.length ≤ 65536) {lo hi : ℤ} (h0 : 0 ≤ lo) (hlt : lo < hi)
    (hmax : hi ≤ maxTimestamp) :
    ∃ rawPayload es, (storage.initPayload cluster shards
        ⟨SyncID.atTime lo, ⟨hi, fullFingerprint⟩⟩).deltaEncode L = some rawPayload ∧
      RangesData.deltaDecode L rawPayload = .ok (RangesData.ofEntries cluster shards es) ∧
      Carried es ∧ openEntries es = [(⟨SyncID.atTime lo, SyncID.atTime hi⟩,
        .fingerprint (storage.computeFingerprint ⟨SyncID.atTime lo, ⟨hi, fullFingerprint⟩⟩
          (shards.map (relayShardTopic cluster)) []))] := by
  set r : Slice SyncID := ⟨SyncID.atTime lo, ⟨hi, fullFingerprint⟩⟩ with hr
  set f := storage.computeFingerprint r (shards.map (relayShardTopic cluster)) [] with hf
  have hfirst : storage.initPayload cluster shards r =
      RangesData.ofEntries cluster shards [(r, .fingerprint f)] := rfl
  have hend : decodedBound (SyncID.atTime lo) ⟨hi, fullFingerprint⟩ = SyncID.atTime hi :=
    if_neg (show hi ≠ lo by omega)
  have hrlt : SyncID.atTime lo < ⟨hi, fullFingerprint⟩ := SyncID.lt_of_time_lt hlt
  have hw : Writable SyncID.zero (withLeading [(r, .fingerprint f)]) := by
    rw [withLeading]
    split_ifs with hzero
    · exact ⟨lt_of_le_of_ne (SyncID.zero_le h0) (Ne.symm hzero), hlt.le.trans hmax, by simp, hrlt, hmax,
        by simp, trivial⟩
    · exact ⟨not_not.mp hzero ▸ hrlt, hmax, by simp, trivial⟩
  have hread : decodedEntries SyncID.zero SyncID.zero (withLeading [(r, .fingerprint f)]) =
      withLeading [(⟨SyncID.atTime lo, SyncID.atTime hi⟩, .fingerprint f)] := by
    rw [withLeading, withLeading]
    split_ifs with hzero
    · simp only [decodedEntries, hr, decodedBound_atTime, hend]
    · have hlo : SyncID.atTime lo = SyncID.zero := not_not.mp hzero
      rw [hlo] at hend
      simp only [decodedEntries, hr, hlo, hend]
  obtain ⟨rawPayload, henc, hdec, hreceived⟩ := decoded hL cluster hshards hw
  rw [hread] at hdec hreceived
  refine ⟨rawPayload, _, hfirst ▸ henc, hdec, ⟨hreceived, withLeading_upper ?_⟩, ?_⟩
  · intro e he
    obtain rfl := List.mem_singleton.mp he
    exact ⟨rfl, rfl⟩
  · rw [openEntries_withLeading]
    rfl

/-! ### Two nodes -/

/-- The times that a session settles: those of the first payload from both lower bounds on. -/
def commonSlice (timing selfTiming otherTiming : Timing) : Slice SyncID :=
  ⟨SyncID.atTime (max timing.range.a (max selfTiming.range.a otherTiming.range.a)),
    SyncID.atTime timing.range.b⟩

/-- Two nodes of a cluster that can reconcile `shards`, of which they share `shared`.  Hashes tell
the ids apart and stand for one pubsub topic, and fingerprints tell ranges apart. -/
structure Partners (A B : SyncReconciliation) (a b : Attribution) (shards shared : List UInt16) :
    Prop where
  ready : A.Ready a
  ready' : B.Ready b
  cluster_eq : A.cluster = B.cluster
  shards_nodup : shards.Nodup
  scope : B.scopeShards shards = some shared
  covers : A.ScopedTo shared
  length_lt : A.storage.elements.length + B.storage.elements.length < 2 ^ 63
  hash_inj : ∀ x ∈ A.storage.elements, ∀ y ∈ B.storage.elements, x.hash = y.hash → x = y
  scopesAgree : ScopesAgree (shared.map (relayShardTopic A.cluster)) A.storage B.storage
  distinguished : Distinguished (A.storage.inScope (shared.map (relayShardTopic A.cluster)))
    (B.storage.inScope (shared.map (relayShardTopic A.cluster)))
  first_distinguished : Distinguished (B.storage.inScope (shared.map (relayShardTopic A.cluster)))
    (A.storage.inScope (shards.map (relayShardTopic A.cluster)))

/-- The scope of the answer is part of what was asked for. -/
theorem inScope_subset_of_scopeShards {self : SyncReconciliation} {shards shared : List UInt16}
    (h : self.scopeShards shards = some shared) (cluster : UInt16) (s : SeqStorage) :
    s.inScope (shared.map (relayShardTopic cluster)) ⊆
      s.inScope (shards.map (relayShardTopic cluster)) := by
  intro x hx
  obtain ⟨row, hrow, rfl⟩ := List.mem_map.mp hx
  obtain ⟨hmem, hasked⟩ := List.mem_filter.mp hrow
  refine List.mem_map.mpr ⟨row, List.mem_filter.mpr ⟨hmem, ?_⟩, rfl⟩
  simp only [SeqStorage.asked, Bool.or_eq_true, decide_eq_true_eq] at hasked ⊢
  rcases SyncReconciliation.scopeShards_subset h with rfl | ⟨hne, hsub⟩
  · exact Or.inl rfl
  · obtain ⟨t, ht, hslot⟩ := hasked.resolve_left (by simpa using hne)
    obtain ⟨shard, hshard, rfl⟩ := List.mem_map.mp ht
    exact Or.inr ⟨_, List.mem_map.mpr ⟨shard, hsub hshard, rfl⟩, hslot⟩

namespace Partners

variable {A B : SyncReconciliation} {a b : Attribution} {shards shared : List UInt16}
  (h : Partners A B a b shards shared)

include h

theorem facing (topics : List PubsubTopic)
    (hdist : Distinguished (A.storage.inScope topics) (B.storage.inScope topics)) :
    Facing (A.storage.inScope topics) (B.storage.inScope topics) ∧
      Facing (B.storage.inScope topics) (A.storage.inScope topics) := by
  have hsub := (h.ready.sound.wellFormed.inScope_sublist topics).subset
  have hsub' := (h.ready'.sound.wellFormed.inScope_sublist topics).subset
  constructor
  · exact ⟨h.ready.reconcilable.inScope_hash topics, h.ready'.reconcilable.inScope_hash topics,
      h.ready'.reconcilable.within_sorted topics,
      fun x hx y hy => h.hash_inj x (hsub hx) y (hsub' hy), hdist.symm⟩
  · exact ⟨h.ready'.reconcilable.inScope_hash topics, h.ready.reconcilable.inScope_hash topics,
      h.ready.reconcilable.within_sorted topics,
      fun x hx y hy hxy => (h.hash_inj y (hsub hy) x (hsub' hx) hxy.symm).symm, hdist⟩

/-- A match with the first fingerprint is never a false one. -/
theorem first_tells {lo hi : ℤ} :
    TellsOf (B.storage.inScope (shared.map (relayShardTopic A.cluster)))
      (A.storage.inScope (shared.map (relayShardTopic A.cluster)))
      (⟨SyncID.atTime lo, SyncID.atTime hi⟩, .fingerprint (A.storage.computeFingerprint
        ⟨SyncID.atTime lo, ⟨hi, fullFingerprint⟩⟩ (shards.map (relayShardTopic A.cluster)) [])) := by
  set topics := shared.map (relayShardTopic A.cluster) with htopics
  set asked := A.storage.inScope (shards.map (relayShardTopic A.cluster)) with hasked
  intro r hlower hupper hmatch x hx
  have hprint : A.storage.computeFingerprint ⟨SyncID.atTime lo, ⟨hi, fullFingerprint⟩⟩
      (shards.map (relayShardTopic A.cluster)) [] =
        xorAll ((within asked ⟨SyncID.atTime lo, ⟨hi, fullFingerprint⟩⟩).map SyncID.hash) :=
    h.ready.reconcilable.fingerprint_eq _ _
  rw [hprint] at hmatch
  have hsame := h.first_distinguished _ _ hmatch
  have hsubA := (h.ready.sound.wellFormed.inScope_sublist topics).subset
  have hsubB := (h.ready'.sound.wellFormed.inScope_sublist topics).subset
  constructor
  · intro hB
    have hmem : x ∈ within asked ⟨SyncID.atTime lo, ⟨hi, fullFingerprint⟩⟩ :=
      hsame ▸ mem_within.mpr ⟨hB, hx⟩
    have hel : x ∈ A.storage.elements :=
      (h.ready.sound.wellFormed.inScope_sublist _).subset (mem_within.mp hmem).1
    exact (h.scopesAgree x hel (hsubB hB)).mpr hB
  · intro hA
    obtain ⟨h1, h2⟩ := inBounds_iff.mp hx
    have hfull : SyncID.atTime hi ≤ ⟨hi, fullFingerprint⟩ := SyncID.atTime_le_iff.mpr le_rfl
    have hmem : x ∈ within asked ⟨SyncID.atTime lo, ⟨hi, fullFingerprint⟩⟩ :=
      mem_within.mpr ⟨inScope_subset_of_scopeShards h.scope A.cluster A.storage hA,
        inBounds_iff.mpr ⟨hlower.trans h1, (h2.trans hupper).trans hfull⟩⟩
    exact (mem_within.mp (hsame ▸ hmem : x ∈ within _ r)).1

end Partners

/-- What was found is exact on the common slice. -/
theorem Finds.exactFor {topics : List PubsubTopic} {own other : SeqStorage} {start lo hi : ℤ}
    (hown : own.WellFormed) (hother : other.WellFormed)
    (hhash : ∀ x ∈ own.inScope topics, x.hash ≠ emptyFingerprint)
    (hhash' : ∀ x ∈ other.inScope topics, x.hash ≠ emptyFingerprint) (hlo : lo ≤ start)
    {found new : List SyncID}
    (h : Finds (own.inScope topics) (other.inScope topics) start hi
      (within (lacked start (own.inScope topics) (other.inScope topics))
        ⟨SyncID.atTime lo, SyncID.atTime hi⟩) found new) :
    ExactFor topics ⟨SyncID.atTime start, SyncID.atTime hi⟩ own other (found.map SyncID.hash) new := by
  have howed : within (lacked start (own.inScope topics) (other.inScope topics))
      ⟨SyncID.atTime lo, SyncID.atTime hi⟩ =
        missing (within (own.inScope topics) ⟨SyncID.atTime start, SyncID.atTime hi⟩)
          (within (other.inScope topics) ⟨SyncID.atTime start, SyncID.atTime hi⟩) := by
    rw [missing_within, lacked, within, within, List.filter_filter]
    apply List.filter_congr
    intro x hx
    have hx := hhash x (List.mem_filter.mp hx).1
    rw [Bool.eq_iff_iff, Bool.and_eq_true, inBounds_atTime hx, inBounds_atTime hx,
      decide_eq_true_eq]
    omega
  refine Settled.exactFor hown hother ⟨?_, ?_⟩
  · rw [← howed]
    exact h.perm.map _
  · intro x hx
    obtain ⟨hmem, hout, hstart, hhi⟩ := h.new_missing x hx
    rw [missing_within, mem_within, inBounds_atTime (hhash' x hmem), missing, List.mem_filter]
    exact ⟨⟨hmem, decide_eq_true hout⟩, hstart, hhi⟩

/-- What a side finds in a session over the slice, for a first range from `lo` on. -/
abbrev FindsOn (topics : List PubsubTopic) (slice : Slice SyncID) (lo : ℤ) (own other : SeqStorage)
    (found new : List SyncID) : Prop :=
  Finds (own.inScope topics) (other.inScope topics) slice.a.time slice.b.time
    (within (lacked slice.a.time (own.inScope topics) (other.inScope topics))
      ⟨SyncID.atTime lo, SyncID.atTime slice.b.time⟩) found new

namespace Partners

variable {A B : SyncReconciliation} {a b : Attribution} {shards shared : List UInt16}
  (h : Partners A B a b shards shared)

include h

/-- The initiator as it enters the loop. -/
theorem engaged (timing selfTiming : Timing) {start : ℤ} (hstart : selfTiming.range.a ≤ start)
    (otherId : PeerId) :
    Engaged ((A.expirePending timing.moment).expirePending selfTiming.moment) a shared
      (A.storage.inScope (shared.map (relayShardTopic A.cluster)))
      (B.storage.inScope (shared.map (relayShardTopic A.cluster))) start
      ((A.expirePending timing.moment).enter selfTiming otherId) [] [] := by
  have hready := h.ready.expirePending timing.moment
  have hlen := (h.ready'.sound.wellFormed.inScope_sublist
    (shared.map (relayShardTopic A.cluster))).length_le
  have htotal := h.length_lt
  have hstorage : ((A.expirePending timing.moment).expirePending selfTiming.moment).storage =
      A.storage := by
    rw [hready.storage_expirePending, h.ready.storage_expirePending]
  refine ⟨hready.expirePending _, ?_, ?_, ?_, (h.facing _ h.distinguished).1, hstart,
    SyncReconciliation.Advanced.start _ _, by simp⟩
  · unfold SyncReconciliation.ScopedTo
    rw [SyncReconciliation.expirePending_shards, SyncReconciliation.expirePending_shards]
    exact h.covers
  · rw [hstorage, SyncReconciliation.expirePending_cluster, SyncReconciliation.expirePending_cluster]
  · rw [hstorage]
    omega

/-- The side that accepts the session as it enters the loop. -/
theorem engaged' (otherTiming : Timing) {start : ℤ} (hstart : otherTiming.range.a ≤ start)
    (selfId : PeerId) :
    Engaged (B.expirePending otherTiming.moment) b shared
      (B.storage.inScope (shared.map (relayShardTopic A.cluster)))
      (A.storage.inScope (shared.map (relayShardTopic A.cluster))) start
      (B.enter otherTiming selfId) [] [] := by
  have hlen := (h.ready.sound.wellFormed.inScope_sublist
    (shared.map (relayShardTopic A.cluster))).length_le
  have htotal := h.length_lt
  refine ⟨h.ready'.expirePending _, ?_, ?_, ?_, (h.facing _ h.distinguished).2, hstart,
    SyncReconciliation.Advanced.start _ _, by simp⟩
  · unfold SyncReconciliation.ScopedTo
    rw [SyncReconciliation.expirePending_shards]
    exact SyncReconciliation.scopedTo_of_scopeShards h.scope
  · rw [h.ready'.storage_expirePending, SyncReconciliation.expirePending_cluster, h.cluster_eq]
  · rw [h.ready'.storage_expirePending]
    omega

/-- The first payload, as the side that accepts the session reads it. -/
theorem first_inFlight {lo hi : ℤ} (bound bound' : ℤ) {es : List Entry} (hcarried : Carried es)
    (hopen : openEntries es = [(⟨SyncID.atTime lo, SyncID.atTime hi⟩, .fingerprint
      (A.storage.computeFingerprint ⟨SyncID.atTime lo, ⟨hi, fullFingerprint⟩⟩
        (shards.map (relayShardTopic A.cluster)) []))]) :
    InFlight (B.storage.inScope (shared.map (relayShardTopic A.cluster)))
      (A.storage.inScope (shared.map (relayShardTopic A.cluster))) (max lo (max bound' bound)) hi lo
      bound bound' [] [] es := by
  have hone : ∀ e ∈ openEntries es, e = _ := fun e he => List.mem_singleton.mp (hopen ▸ he)
  refine ⟨hcarried, ?_, ?_, ?_, by simp, by simp, ?_, ?_⟩
  · intro e he
    rw [hone e he]
    exact le_rfl
  · intro e he
    rw [hone e he]
    exact le_rfl
  · intro e he
    rw [hone e he]
    exact h.first_tells
  · intro e he set hset
    rw [hone e he] at hset
    simp at hset
  · omega

/-- The session ends in order, and both sides have found what they hold and the other lacks. -/
theorem settles {L : VarintCodec} (hL : L.Lawful) (now : ℕ → ℤ) (selfId otherId : PeerId)
    (timing selfTiming otherTiming : Timing) (h0 : 0 ≤ timing.range.a)
    (hlt : timing.range.a < timing.range.b) (hmax : timing.range.b ≤ maxTimestamp) :
    ∃ n A' B' recv recv' found found',
      (∀ m, n ≤ m → SyncReconciliation.storeSynchronization L now m A B selfId otherId shards timing
        selfTiming otherTiming = some (A', B')) ∧
      SyncReconciliation.Advanced ((A.expirePending timing.moment).expirePending selfTiming.moment) A'
        otherId recv (found.map SyncID.hash) ∧
      SyncReconciliation.Advanced (B.expirePending otherTiming.moment) B' selfId recv'
        (found'.map SyncID.hash) ∧
      FindsOn (shared.map (relayShardTopic A.cluster)) (commonSlice timing selfTiming otherTiming)
        timing.range.a A.storage B.storage found recv ∧
      FindsOn (shared.map (relayShardTopic A.cluster)) (commonSlice timing selfTiming otherTiming)
        timing.range.a B.storage A.storage found' recv' := by
  obtain ⟨rawPayload, es, henc, hdec, hcarried, hopen⟩ := initPayload_arrives hL A.storage A.cluster
    (SyncReconciliation.length_le_of_nodup h.shards_nodup) h0 hlt hmax
  have hclusterA : ((A.expirePending timing.moment).expirePending selfTiming.moment).cluster =
      A.cluster := by
    rw [SyncReconciliation.expirePending_cluster, SyncReconciliation.expirePending_cluster]
  have hclusterB : (B.expirePending otherTiming.moment).cluster = A.cluster := by
    rw [SyncReconciliation.expirePending_cluster, h.cluster_eq]
  have hscope : (B.expirePending otherTiming.moment).scopeShards shards = some shared := by
    rw [← h.scope, SyncReconciliation.scopeShards, SyncReconciliation.scopeShards,
      B.expirePending_shards]
  have hA := h.engaged timing selfTiming
    ((le_max_left _ otherTiming.range.a).trans (le_max_right timing.range.a _)) otherId
  have hB := h.engaged' otherTiming
    ((le_max_right selfTiming.range.a _).trans (le_max_right timing.range.a _)) selfId
  have hfl := h.first_inFlight otherTiming.range.a selfTiming.range.a hcarried hopen
  rw [← hclusterB] at hdec
  obtain ⟨B', A', recv', recv, found', found, hrun, hadvB, hadvA, hfindsB, hfindsA⟩ :=
    converse_settles hL ((es.map rank).foldr max 0) now hB hA (hclusterB.trans hclusterA.symm) hfl
      hdec ⟨shared, hscope, fun _ => Iff.rfl⟩ (by rw [hopen]; simp)
      (fun e he => le_foldr_max (List.mem_map_of_mem he))
  rw [hopen, List.flatMap_singleton] at hfindsA hfindsB
  refine ⟨(es.map rank).foldr max 0, A', B', recv, recv', found, found', ?_, hadvA, hadvB, hfindsA,
    hfindsB⟩
  intro m hm
  have hinit : (A.initiate timing.moment timing.clock timing.offset timing.syncRange shards) =
      (A.expirePending timing.moment, A.storage.initPayload A.cluster shards
        ⟨SyncID.atTime timing.range.a, ⟨timing.range.b, fullFingerprint⟩⟩) := by
    unfold SyncReconciliation.initiate
    dsimp only
    rw [h.ready.storage_expirePending, A.expirePending_cluster]
    rfl
  rw [SyncReconciliation.storeSynchronization, hinit]
  simp only [Option.bind_eq_bind, Option.bind_some, henc, hrun m hm, Option.map_some,
    Prod.swap_prod_mk]

end Partners

/-- A node of cluster `1` with one message of shard `0`. -/
def nodeWith (e : SyncID) (shards : List UInt16) : SyncReconciliation where
  cluster := 1
  shards := shards
  storage := oneMessage e
  pendingTimeout := 60

theorem nodeWith_elements (e : SyncID) (shards : List UInt16) :
    (nodeWith e shards).storage.elements = [e] := rfl

theorem nodeWith_ready (e : SyncID) (he : e.hash ≠ emptyFingerprint) {shards : List UInt16}
    (hshards : shards.Nodup) : (nodeWith e shards).Ready
      (Attribution.insert (fun _ => none) e "/waku/2/rs/1/0" "/a") := by
  have hempty : ({} : SeqStorage).Sound (fun _ => none) :=
    ⟨SeqStorage.wellFormed_empty 8 100, SeqStorage.slotsInRange_empty 8 100, by simp⟩
  refine ⟨oneMessage_reconcilable e he, hempty.insert e _ _,
    (SeqStorage.attributed_empty 8 100).insert hempty.slots hempty.wellFormed ?_, ?_, rfl, rfl,
    hshards⟩
  · rintro ⟨_, ⟨_, k, hk, _⟩ | ⟨_, k, hk, _⟩⟩ <;> simp at hk
  · rintro x ⟨_, ⟨_, k, hk, _⟩ | ⟨_, k, hk, _⟩⟩ <;> exact absurd hk (by simp [nodeWith, oneMessage,
      SeqStorage.insert, SeqStorage.insertAt, SeqStorage.getPubsubTopicIndex,
      SeqStorage.getContentTopicIndex, getTopicIndex])

theorem nodeWith_inScope (e : SyncID) (shards : List UInt16) {topics : List PubsubTopic}
    (h : "/waku/2/rs/1/0" ∈ topics) : (nodeWith e shards).storage.inScope topics = [e] := by
  have hrows : (nodeWith e shards).storage.rows = [(e, 0, 0)] := rfl
  have htopics : (nodeWith e shards).storage.pubsubTopics[0]? = some "/waku/2/rs/1/0" := rfl
  have hasked : (nodeWith e shards).storage.asked topics (e, 0, 0) = true := by
    rw [SeqStorage.asked, Bool.or_eq_true, decide_eq_true_eq, decide_eq_true_eq]
    exact Or.inr ⟨_, h, htopics⟩
  rw [SeqStorage.inScope, hrows, List.filter_singleton, hasked]
  rfl

/-- Two nodes with different messages, on shards `0`, `1` and on shard `0`. -/
theorem nodeWith_partners {e e' : SyncID} (he : e.hash ≠ emptyFingerprint)
    (he' : e'.hash ≠ emptyFingerprint) (hne : e.hash ≠ e'.hash) (hdist : Distinguished [e] [e']) :
    Partners (nodeWith e [0, 1]) (nodeWith e' [0])
      (Attribution.insert (fun _ => none) e "/waku/2/rs/1/0" "/a")
      (Attribution.insert (fun _ => none) e' "/waku/2/rs/1/0" "/a") [0, 1] [0] where
  ready := nodeWith_ready _ he (by decide)
  ready' := nodeWith_ready _ he' (by decide)
  cluster_eq := rfl
  shards_nodup := by decide
  scope := by simp [SyncReconciliation.scopeShards, nodeWith]
  covers := Or.inr ⟨by simp, by simp [nodeWith]⟩
  length_lt := by
    rw [nodeWith_elements, nodeWith_elements, List.length_singleton, List.length_singleton]
    norm_num
  hash_inj := by
    intro x hx y hy hhash
    rw [nodeWith_elements, List.mem_singleton] at hx hy
    subst hx hy
    exact absurd hhash hne
  scopesAgree := by
    intro x hx hx'
    rw [nodeWith_elements, List.mem_singleton] at hx hx'
    exact absurd (congrArg SyncID.hash (hx.symm.trans hx')) hne
  distinguished := by
    have hmem : "/waku/2/rs/1/0" ∈ ([0] : List UInt16).map (relayShardTopic 1) := by decide
    have hdist' := hdist
    rw [← nodeWith_inScope e [0, 1] hmem, ← nodeWith_inScope e' [0] hmem] at hdist'
    exact hdist'
  first_distinguished := by
    have hmem : "/waku/2/rs/1/0" ∈ ([0] : List UInt16).map (relayShardTopic 1) := by decide
    have hmem' : "/waku/2/rs/1/0" ∈ ([0, 1] : List UInt16).map (relayShardTopic 1) := by decide
    have hdist' := hdist.symm
    rw [← nodeWith_inScope e [0, 1] hmem', ← nodeWith_inScope e' [0] hmem] at hdist'
    exact hdist'

end LogosDelivery.StoreSync
