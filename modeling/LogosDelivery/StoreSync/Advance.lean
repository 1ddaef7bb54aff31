import LogosDelivery.StoreSync.Answers
import LogosDelivery.StoreSync.PromisedElements

/-! # A node in the middle of a session

A node that starts a session with nothing pending (`Ready`) is changed by the rounds in one way only:
the ids it asks for come into the index as placeholders and are pending from then on, and the hashes
the peer lacks go to the transfer queue (`Advanced`, `Advanced.round`).  On a range that holds none
of the ids asked for so far the index still shows what it showed at the start
(`Ready.showsOn`). -/

namespace LogosDelivery.StoreSync

/-! ### The index with promised elements -/

namespace SeqStorage

variable {s : SeqStorage}

theorem insert_partitioning (s : SeqStorage) (x : SyncID) (p : PubsubTopic) (c : ContentTopic) :
    (s.insert x p c).partitionCount = s.partitionCount ∧
      (s.insert x p c).lengthThreshold = s.lengthThreshold := by
  unfold insert insertAt
  dsimp only
  split_ifs <;> exact ⟨rfl, rfl⟩

theorem promiseAll_partitioning (ids : List SyncID) : ∀ s : SeqStorage,
    (SyncReconciliation.promiseAll s ids).partitionCount = s.partitionCount ∧
      (SyncReconciliation.promiseAll s ids).lengthThreshold = s.lengthThreshold := by
  induction ids with
  | nil => exact fun s => ⟨rfl, rfl⟩
  | cons id ids ih =>
      intro s
      obtain ⟨hcount, hthreshold⟩ := s.insert_partitioning id pendingPubsubTopic ""
      obtain ⟨hcount', hthreshold'⟩ := ih (s.insert id pendingPubsubTopic "")
      exact ⟨hcount'.trans hcount, hthreshold'.trans hthreshold⟩

theorem promiseAll_append (s : SeqStorage) (ids ids' : List SyncID) :
    SyncReconciliation.promiseAll s (ids ++ ids') =
      SyncReconciliation.promiseAll (SyncReconciliation.promiseAll s ids) ids' :=
  List.foldl_append

/-- The promised elements come on top of those that are there. -/
theorem WellFormed.mem_promiseAll (ids : List SyncID) : ∀ {s : SeqStorage}, s.WellFormed →
    (SyncReconciliation.promiseAll s ids).WellFormed ∧
      ∀ x, x ∈ (SyncReconciliation.promiseAll s ids).elements ↔ x ∈ s.elements ∨ x ∈ ids := by
  induction ids with
  | nil => exact fun h => ⟨h, by simp [SyncReconciliation.promiseAll]⟩
  | cons id ids ih =>
      intro s h
      obtain ⟨hwell, hmem⟩ := ih (h.insert id pendingPubsubTopic "")
      refine ⟨hwell, fun x => ?_⟩
      refine (hmem x).trans ?_
      rw [h.mem_insert, List.mem_cons]
      tauto

end SeqStorage

namespace SyncReconciliation

/-! ### Nodes between two sessions -/

/-- A node that can start a session: its index is as its operations leave it, with the topics `a`;
nothing is pending, and a placeholder takes no topic slot in use. -/
structure Ready (s : SyncReconciliation) (a : Attribution) : Prop where
  reconcilable : s.storage.Reconcilable
  sound : s.storage.Sound a
  attributed : s.storage.Attributed a
  keepsSlots : ∀ x, ¬ s.storage.OverwritesUsed x pendingPubsubTopic ""
  idle : s.pendingSet = ∅
  unlimited : s.remoteNeedsTxMaxsize = 0
  shards_nodup : s.shards.Nodup

namespace Ready

variable {s : SyncReconciliation} {a : Attribution} (h : s.Ready a)

include h

/-- On a range without promised elements the index shows what it showed before. -/
theorem showsOn (topics : List PubsubTopic) {ids : List SyncID} {r : Slice SyncID}
    (hslice : TimeSlice r) (hout : ∀ x ∈ ids, inBounds r x = false) :
    (promiseAll s.storage ids).ShowsOn topics (s.storage.inScope topics) r := by
  obtain ⟨a', hsound', hattr', hkeep, hnew⟩ :=
    SeqStorage.promiseAll_attributed ids h.sound h.attributed (fun x _ => h.keepsSlots x)
  obtain ⟨hwell', hmem'⟩ := SeqStorage.WellFormed.mem_promiseAll ids h.sound.wellFormed
  have hold : ∀ {x}, inBounds r x = true →
      (x ∈ (promiseAll s.storage ids).elements ↔ x ∈ s.storage.elements) := by
    intro x hx
    refine (hmem' x).trans (or_iff_left fun hid => ?_)
    simp [hout x hid] at hx
  constructor
  · intro r' hlower hupper
    have hpart : ∀ {x}, inBounds r' x = true → inBounds r x = true := by
      intro x hx
      obtain ⟨h1, h2⟩ := inBounds_iff.mp hx
      exact inBounds_iff.mpr ⟨hlower.trans h1, h2.trans hupper⟩
    rw [← h.reconcilable.visible_eq_within, hattr'.visible_eq_filter hwell',
      h.attributed.visible_eq_filter h.sound.wellFormed]
    refine (hwell'.sorted.filter _).eq_of_mem_iff (h.sound.wellFormed.sorted.filter _) fun x => ?_
    simp only [List.mem_filter, Bool.and_eq_true]
    constructor
    · rintro ⟨hx, hin, hlisted⟩
      have hx := (hold (hpart hin)).mp hx
      refine ⟨hx, hin, ?_⟩
      rw [Attribution.listed, ← hkeep x ((h.sound.mem x).mp hx)]
      exact hlisted
    · rintro ⟨hx, hin, hlisted⟩
      refine ⟨(hold (hpart hin)).mpr hx, hin, ?_⟩
      rw [Attribution.listed, hkeep x ((h.sound.mem x).mp hx)]
      exact hlisted
  · intro hshort
    obtain ⟨hcount, hthreshold⟩ := SeqStorage.promiseAll_partitioning ids s.storage
    rw [hcount] at hshort
    rw [hthreshold]
    have hsame : (promiseAll s.storage ids).elements.filter (inBounds r) =
        s.storage.elements.filter (fun x => decide (r.a.time ≤ x.time ∧
          x.time < r.a.time + (r.b.time - r.a.time))) := by
      refine (hwell'.sorted.filter _).eq_of_mem_iff (h.sound.wellFormed.sorted.filter _) fun x => ?_
      simp only [List.mem_filter, decide_eq_true_eq, add_sub_cancel]
      have hr : r = ⟨SyncID.atTime r.a.time, SyncID.atTime r.b.time⟩ :=
        Slice.ext hslice.lower hslice.upper
      constructor
      · rintro ⟨hx, hin⟩
        have hx := (hold hin).mp hx
        rw [hr] at hin
        exact ⟨hx, (inBounds_atTime (h.reconcilable.no_zero_hash x hx)).mp hin⟩
      · rintro ⟨hx, htime⟩
        have hin : inBounds r x = true := by
          rw [hr]
          exact (inBounds_atTime (h.reconcilable.no_zero_hash x hx)).mpr htime
        exact ⟨(hold hin).mpr hx, hin⟩
    rw [hsame]
    exact h.reconcilable.sparse _ _ hshort

end Ready

/-! ### Rounds -/

/-- The node `s₀`, after rounds with `peer` in which it asked for `recv` and found the peer to lack
`send`. -/
structure Advanced (s₀ s : SyncReconciliation) (peer : PeerId) (recv : List SyncID)
    (send : List WakuMessageHash) : Prop where
  cluster : s.cluster = s₀.cluster
  shards : s.shards = s₀.shards
  storage : s.storage = promiseAll s₀.storage recv
  pendingTimeout : s.pendingTimeout = s₀.pendingTimeout
  pendingSet : s.pendingSet = s₀.pendingSet ∪ (recv.map SyncID.hash).toFinset
  pendingQueue : s.pendingQueue.map (·.1) = s₀.pendingQueue.map (·.1) ++ recv
  remoteNeedsTx : s.remoteNeedsTx = s₀.remoteNeedsTx ++ send.map (fun hash => (peer, hash))
  remoteNeedsTxMaxsize : s.remoteNeedsTxMaxsize = s₀.remoteNeedsTxMaxsize
  deferredTx : s.deferredTx = s₀.deferredTx

theorem Advanced.start (s : SyncReconciliation) (peer : PeerId) : Advanced s s peer [] [] := by
  constructor <;> simp [promiseAll]

/-- Hashes that are not pending go to an unbounded queue one by one. -/
theorem scheduleTransfers_of_notPending (s : SyncReconciliation) (peer : PeerId)
    {hashes : List WakuMessageHash} (hmax : s.remoteNeedsTxMaxsize = 0)
    (hpending : ∀ hash ∈ hashes, hash ∉ s.pendingSet) :
    (s.scheduleTransfers peer hashes).1 =
      { s with remoteNeedsTx := s.remoteNeedsTx ++ hashes.map (fun hash => (peer, hash)) } := by
  rw [scheduleTransfers_fst]
  induction hashes generalizing s with
  | nil => simp
  | cons hash hashes ih =>
      have hone : (s.scheduleTransfer peer hash).1 =
          { s with remoteNeedsTx := s.remoteNeedsTx ++ [(peer, hash)] } := by
        unfold scheduleTransfer queueTransfer
        rw [if_neg (hpending hash List.mem_cons_self)]
        exact if_pos (Or.inl hmax)
      rw [List.foldl_cons, hone, ih]
      · simp
      · exact hmax
      · exact fun hash' hmem => hpending hash' (List.mem_cons_of_mem _ hmem)

/-- A round adds to what was asked for and to what was found. -/
theorem Advanced.round {s₀ s : SyncReconciliation} {peer : PeerId} {recv recv' : List SyncID}
    {send send' : List WakuMessageHash} (h : Advanced s₀ s peer recv send) (now : ℤ)
    (hmax : s₀.remoteNeedsTxMaxsize = 0)
    (hpending : ∀ hash ∈ send', hash ∉ s₀.pendingSet ∧ ∀ x ∈ recv ++ recv', x.hash ≠ hash) :
    Advanced s₀ ((s.trackPromised now recv').scheduleTransfers peer send').1 peer (recv ++ recv')
      (send ++ send') := by
  have hset : (s.trackPromised now recv').pendingSet =
      s₀.pendingSet ∪ ((recv ++ recv').map SyncID.hash).toFinset := by
    rw [trackPromised_eq]
    dsimp only
    rw [h.pendingSet, List.map_append, List.toFinset_append, Finset.union_assoc]
  have hfree : ∀ hash ∈ send', hash ∉ (s.trackPromised now recv').pendingSet := by
    intro hash hmem
    obtain ⟨hold, hnew⟩ := hpending hash hmem
    rw [hset, Finset.mem_union, not_or]
    refine ⟨hold, ?_⟩
    rw [List.mem_toFinset, List.mem_map]
    rintro ⟨x, hx, rfl⟩
    exact hnew x hx rfl
  have hmax' : (s.trackPromised now recv').remoteNeedsTxMaxsize = 0 := by
    rw [trackPromised_eq]
    exact h.remoteNeedsTxMaxsize.trans hmax
  rw [scheduleTransfers_of_notPending _ peer hmax' hfree]
  constructor
  · rw [trackPromised_eq]
    exact h.cluster
  · rw [trackPromised_eq]
    exact h.shards
  · rw [trackPromised_eq]
    dsimp only
    rw [h.storage, SeqStorage.promiseAll_append]
  · rw [trackPromised_eq]
    exact h.pendingTimeout
  · exact hset
  · rw [trackPromised_eq]
    dsimp only
    rw [List.map_append, h.pendingQueue, List.map_map, List.append_assoc]
    congr 2
    exact List.map_id _
  · rw [trackPromised_eq]
    dsimp only
    rw [h.remoteNeedsTx, List.map_append, List.append_assoc]
  · rw [trackPromised_eq]
    exact h.remoteNeedsTxMaxsize
  · rw [trackPromised_eq]
    exact h.deferredTx

end SyncReconciliation

end LogosDelivery.StoreSync
