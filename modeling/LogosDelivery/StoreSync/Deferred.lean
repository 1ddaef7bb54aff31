import LogosDelivery.Lib.Bisect
import LogosDelivery.StoreSync.NodeRuns

/-! # Promises and deferred transfers

The pending set, the queue of deadlines and the table of deferred transfers agree in every run
(`Promises`): a deferred hash is pending, a pending hash has a queue entry, and the deadlines are in
order.  From this follows what happens to a peer that asked for a pending element: it gets the
element exactly once if it arrives in time, and not at all otherwise (`transfers_after`). -/

namespace LogosDelivery.StoreSync

namespace SyncReconciliation

/-! ### The invariant -/

/-- The bookkeeping of promises; `times` are the times at which operations ran so far. -/
structure Promises (s : SyncReconciliation) (times : List ℤ) : Prop where
  deferred_pending : ∀ h ∈ s.deferredTx, h ∈ s.pendingSet
  pending_queued : ∀ h ∈ s.pendingSet, ∃ e ∈ s.pendingQueue, e.1.hash = h
  deadlines : s.pendingQueue.Pairwise (fun e e' => e.2 ≤ e'.2)
  deadline_origin : ∀ e ∈ s.pendingQueue, ∃ t ∈ times, e.2 = t + s.pendingTimeout
  peers_nodup : ∀ h peers, s.deferredTx.lookup h = some peers → peers.Nodup

variable {s : SyncReconciliation} {times : List ℤ}

theorem Fresh.promises (h : s.Fresh) : s.Promises [] := by
  refine ⟨?_, ?_, ?_, ?_, ?_⟩
  · rw [h.deferredTx]
    intro k hk
    exact absurd hk (AList.notMem_empty k)
  · simp [h.pendingSet]
  · simp [h.pendingQueue]
  · simp [h.pendingQueue]
  · simp [h.deferredTx]

theorem Promises.mono {times' : List ℤ} (h : s.Promises times) (hsub : times ⊆ times') :
    s.Promises times' := by
  refine { h with deadline_origin := ?_ }
  intro e he
  obtain ⟨t, ht, he'⟩ := h.deadline_origin e he
  exact ⟨t, hsub ht, he'⟩

theorem Promises.trackPromised (h : s.Promises times) {now : ℤ} (hnow : ∀ t ∈ times, t ≤ now)
    (ids : List SyncID) : (s.trackPromised now ids).Promises (times ++ [now]) := by
  rw [trackPromised_eq]
  refine ⟨?_, ?_, ?_, ?_, h.peers_nodup⟩
  · intro k hk
    exact Finset.mem_union_left _ (h.deferred_pending k hk)
  · intro k hk
    rcases Finset.mem_union.mp hk with hk | hk
    · obtain ⟨e, he, hek⟩ := h.pending_queued k hk
      exact ⟨e, List.mem_append_left _ he, hek⟩
    · obtain ⟨id, hid, rfl⟩ := List.mem_map.mp (List.mem_toFinset.mp hk)
      exact ⟨_, List.mem_append_right _ (List.mem_map_of_mem hid), rfl⟩
  · -- every deadline in the queue was set at an earlier time
    apply List.pairwise_append.mpr
    refine ⟨h.deadlines, ?_, ?_⟩
    · rw [List.pairwise_map]
      exact List.pairwise_of_forall (fun _ _ => le_rfl)
    · intro e he e' he'
      obtain ⟨id, _, rfl⟩ := List.mem_map.mp he'
      obtain ⟨t, ht, hte⟩ := h.deadline_origin e he
      have := hnow t ht
      show e.2 ≤ now + s.pendingTimeout
      omega
  · intro e he
    rcases List.mem_append.mp he with he | he
    · obtain ⟨t, ht, hte⟩ := h.deadline_origin e he
      exact ⟨t, List.mem_append_left _ ht, hte⟩
    · obtain ⟨id, _, rfl⟩ := List.mem_map.mp he
      exact ⟨now, by simp, rfl⟩

theorem Promises.scheduleTransfer (h : s.Promises times) (peerId : PeerId) (hash : WakuMessageHash) :
    (s.scheduleTransfer peerId hash).1.Promises times := by
  unfold SyncReconciliation.scheduleTransfer
  split_ifs with hp
  · refine { h with deferred_pending := ?_, peers_nodup := ?_ }
    · intro k hk
      rcases (AList.mem_insert s.deferredTx).mp hk with rfl | hk
      · exact hp
      · exact h.deferred_pending k hk
    · intro k peers hk
      by_cases hkh : k = hash
      · subst hkh
        dsimp only at hk
        rw [AList.lookup_insert] at hk
        obtain rfl := Option.some.inj hk
        unfold HashSet.incl
        split_ifs with hin
        · cases hl : s.deferredTx.lookup k with
          | none => simp
          | some l => exact h.peers_nodup k l hl
        · apply List.Nodup.append _ (List.nodup_singleton _)
          · exact List.disjoint_singleton.mpr hin
          · cases hl : s.deferredTx.lookup k with
            | none => simp
            | some l => exact h.peers_nodup k l hl
      · dsimp only at hk
        rw [AList.lookup_insert_ne hkh] at hk
        exact h.peers_nodup k peers hk
  · dsimp only
    rw [queueTransfer_eq]
    exact { h with }

theorem Promises.scheduleTransfers (h : s.Promises times) (peerId : PeerId)
    (hashes : List WakuMessageHash) : (s.scheduleTransfers peerId hashes).1.Promises times := by
  rw [scheduleTransfers_fst]
  induction hashes generalizing s with
  | nil => exact h
  | cons hash hashes ih => exact ih (h.scheduleTransfer peerId hash)

theorem Promises.messageIngress (h : s.Promises times) (id : SyncID) (p : PubsubTopic)
    (c : ContentTopic) : (s.messageIngress id p c).Promises times := by
  rw [messageIngress_eq]
  split_ifs with hid
  · rw [confirm_eq]
    refine ⟨?_, ?_, h.deadlines, h.deadline_origin, ?_⟩
    · intro k hk
      obtain ⟨hne, hk⟩ := AList.mem_erase.mp hk
      exact Finset.mem_erase.mpr ⟨hne, h.deferred_pending k hk⟩
    · intro k hk
      exact h.pending_queued k (Finset.mem_of_mem_erase hk)
    · intro k peers hk
      by_cases hkh : k = id.hash
      · subst hkh
        simp at hk
      · dsimp only at hk
        rw [AList.lookup_erase_ne hkh] at hk
        exact h.peers_nodup k peers hk
  · exact { h with }

/-! ### Expiry -/

theorem Promises.splitBy (h : s.Promises times) (now : ℤ) :
    Lib.SplitBy (fun e : SyncID × ℤ => decide (e.2 ≤ now)) s.pendingQueue := by
  refine h.deadlines.imp ?_
  intro e e' hle h'
  simp only [decide_eq_true_eq] at h' ⊢
  exact hle.trans h'

/-- The due entries are those whose deadline has passed. -/
theorem Promises.due_eq (h : s.Promises times) (now : ℤ) :
    s.due now = s.pendingQueue.filter (fun e => decide (e.2 ≤ now)) :=
  Lib.takeWhile_eq_filter (h.splitBy now)

theorem Promises.mem_expirePending_queue (h : s.Promises times) {now : ℤ} {e : SyncID × ℤ} :
    e ∈ (s.expirePending now).pendingQueue ↔ e ∈ s.pendingQueue ∧ now < e.2 := by
  rw [expirePending_eq]
  dsimp only
  rw [Lib.dropWhile_eq_filter (h.splitBy now), List.mem_filter, Bool.not_eq_true',
    decide_eq_false_iff_not, not_le]

theorem Promises.mem_expirePending_set (h : s.Promises times) {now : ℤ} {k : WakuMessageHash} :
    k ∈ (s.expirePending now).pendingSet ↔
      k ∈ s.pendingSet ∧ ¬ ∃ e ∈ s.pendingQueue, e.1.hash = k ∧ e.2 ≤ now := by
  rw [expirePending_pendingSet, h.due_eq, Finset.mem_sdiff, List.mem_toFinset, List.mem_map]
  simp only [List.mem_filter, decide_eq_true_eq]
  apply and_congr_right
  intro _
  apply not_congr
  constructor
  · rintro ⟨e, ⟨he, hd⟩, rfl⟩
    exact ⟨e, he, rfl, hd⟩
  · rintro ⟨e, he, rfl, hd⟩
    exact ⟨e, ⟨he, hd⟩, rfl⟩

/-- The deferral table after some entries expired: only their hashes are gone. -/
theorem lookup_foldl_expireOne (entries : List (SyncID × ℤ)) (k : WakuMessageHash)
    (h : ∀ k ∈ s.deferredTx, k ∈ s.pendingSet) :
    (entries.foldl (fun self e => expireOne self e.1) s).deferredTx.lookup k =
      if k ∈ entries.map (fun e => e.1.hash) then none else s.deferredTx.lookup k := by
  induction entries generalizing s with
  | nil => simp
  | cons e entries ih =>
      have hkeep : ∀ k ∈ (s.expireOne e.1).deferredTx, k ∈ (s.expireOne e.1).pendingSet := by
        unfold expireOne
        split_ifs with hmem
        · intro k hk
          obtain ⟨hne, hk⟩ := AList.mem_erase.mp hk
          exact Finset.mem_erase.mpr ⟨hne, h k hk⟩
        · exact h
      have hone : (s.expireOne e.1).deferredTx.lookup k =
          if k = e.1.hash then none else s.deferredTx.lookup k := by
        unfold expireOne
        split_ifs with hmem hk hk
        · subst hk
          exact AList.lookup_erase _ _
        · exact AList.lookup_erase_ne hk
        · subst hk
          exact AList.lookup_eq_none.mpr (fun hin => hmem (h _ hin))
        · rfl
      rw [List.foldl_cons, ih hkeep, hone, List.map_cons]
      by_cases hlater : k ∈ entries.map (fun e => e.1.hash)
      · rw [if_pos hlater, if_pos (List.mem_cons_of_mem _ hlater)]
      · rw [if_neg hlater]
        refine if_congr ?_ rfl rfl
        rw [List.mem_cons]
        exact (or_iff_left hlater).symm

theorem Promises.lookup_expirePending (h : s.Promises times) (now : ℤ) (k : WakuMessageHash) :
    (s.expirePending now).deferredTx.lookup k =
      if ∃ e ∈ s.pendingQueue, e.1.hash = k ∧ e.2 ≤ now then none else s.deferredTx.lookup k := by
  have hiff : k ∈ (s.due now).map (fun e => e.1.hash) ↔
      ∃ e ∈ s.pendingQueue, e.1.hash = k ∧ e.2 ≤ now := by
    rw [h.due_eq, List.mem_map]
    simp only [List.mem_filter, decide_eq_true_eq]
    constructor
    · rintro ⟨e, ⟨he, hd⟩, rfl⟩
      exact ⟨e, he, rfl, hd⟩
    · rintro ⟨e, he, rfl, hd⟩
      exact ⟨e, ⟨he, hd⟩, rfl⟩
  rw [expirePending_eq]
  dsimp only
  rw [lookup_foldl_expireOne _ _ h.deferred_pending]
  exact if_congr hiff rfl rfl

theorem Promises.expirePending (h : s.Promises times) (now : ℤ) :
    (s.expirePending now).Promises times := by
  refine ⟨?_, ?_, ?_, ?_, ?_⟩
  · intro k hk
    rw [← AList.lookup_isSome, h.lookup_expirePending] at hk
    split_ifs at hk with hdue
    · simp at hk
    · exact h.mem_expirePending_set.mpr
        ⟨h.deferred_pending k (AList.lookup_isSome.mp hk), hdue⟩
  · intro k hk
    obtain ⟨hk, hdue⟩ := h.mem_expirePending_set.mp hk
    obtain ⟨e, he, rfl⟩ := h.pending_queued k hk
    refine ⟨e, h.mem_expirePending_queue.mpr ⟨he, ?_⟩, rfl⟩
    by_contra hle
    exact hdue ⟨e, he, rfl, not_lt.mp hle⟩
  · rw [expirePending_eq]
    exact h.deadlines.sublist (List.dropWhile_sublist _)
  · intro e he
    have htimeout : (s.expirePending now).pendingTimeout = s.pendingTimeout := by
      rw [expirePending_eq, foldl_expireOne_eq]
    rw [htimeout]
    exact h.deadline_origin e (h.mem_expirePending_queue.mp he).1
  · intro k peers hk
    rw [h.lookup_expirePending] at hk
    split_ifs at hk with hdue
    exact h.peers_nodup k peers hk

/-! ### Whole runs -/

theorem Promises.apply (h : s.Promises times) {op : NodeOp}
    (hop : ∀ t, op.time? = some t → ∀ u ∈ times, u ≤ t) :
    (s.apply op).Promises (times ++ op.time?.toList) := by
  cases op with
  | messageIngress id p c => exact (h.messageIngress id p c).mono (List.subset_append_left _ _)
  | reconcileRound payload lowerBound peerId now =>
      rw [apply_reconcileRound]
      exact (h.trackPromised (hop now rfl) _).scheduleTransfers _ _
  | expirePending now => exact (h.expirePending now).mono (List.subset_append_left _ _)
  | prune t =>
      have hprune : (s.prune t).Promises times := { h with }
      exact hprune.mono (List.subset_append_left _ _)

/-- The bookkeeping of promises holds in every run of a fresh node. -/
theorem Fresh.promises_after (h : s.Fresh) {ops : List NodeOp} (hops : Chronological ops) :
    (s.after ops).Promises (ops.filterMap NodeOp.time?) := by
  induction ops using List.reverseRecOn with
  | nil => exact h.promises
  | append_singleton ops op ih =>
      rw [after_concat, List.filterMap_append]
      have hstep := (ih (hops.of_initial (List.prefix_append _ _))).apply
        (fun t ht u hu => hops.le_last ht hu)
      refine hstep.mono ?_
      cases hop : op.time? <;> simp [hop]

theorem queueTransfer_maxsize (s : SyncReconciliation) (peer : PeerId) (hash : WakuMessageHash) :
    (s.queueTransfer peer hash).remoteNeedsTxMaxsize = s.remoteNeedsTxMaxsize := by
  rw [queueTransfer_eq]

theorem apply_maxsize (s : SyncReconciliation) (op : NodeOp) :
    (s.apply op).remoteNeedsTxMaxsize = s.remoteNeedsTxMaxsize := by
  cases op with
  | messageIngress id p c =>
      show (s.messageIngress id p c).remoteNeedsTxMaxsize = _
      rw [messageIngress_eq]
      split_ifs
      · rw [confirm_eq]
      · rfl
  | reconcileRound payload lowerBound peerId now =>
      rw [apply_reconcileRound, scheduleTransfers_eq, trackPromised_eq]
  | expirePending now =>
      show (s.expirePending now).remoteNeedsTxMaxsize = _
      rw [expirePending_eq, foldl_expireOne_eq]
  | prune t => rfl

theorem after_maxsize (s : SyncReconciliation) (ops : List NodeOp) :
    (s.after ops).remoteNeedsTxMaxsize = s.remoteNeedsTxMaxsize := by
  induction ops using List.reverseRecOn with
  | nil => rfl
  | append_singleton ops op ih => rw [after_concat, apply_maxsize, ih]

/-! ### Who gets what -/

/-- The peer waits for the hash. -/
def Deferred (s : SyncReconciliation) (peer : PeerId) (h : WakuMessageHash) : Prop :=
  peer ∈ (s.deferredTx.lookup h).getD []

instance (s : SyncReconciliation) (peer : PeerId) (h : WakuMessageHash) :
    Decidable (s.Deferred peer h) := inferInstanceAs (Decidable (_ ∈ _))

/-- How often the hash was queued for the peer. -/
def transfers (s : SyncReconciliation) (peer : PeerId) (h : WakuMessageHash) : ℕ :=
  s.remoteNeedsTx.count (peer, h)

theorem queueTransfer_transfers (hmax : s.remoteNeedsTxMaxsize = 0) (peer peer' : PeerId)
    (h h' : WakuMessageHash) :
    (s.queueTransfer peer' h').transfers peer h =
      s.transfers peer h + if peer' = peer ∧ h' = h then 1 else 0 := by
  unfold queueTransfer transfers
  rw [if_pos (Or.inl hmax), List.count_append, List.count_singleton]
  simp only [beq_iff_eq, Prod.mk.injEq]

/-- Every peer of a list without repetitions gets the hash once. -/
theorem foldl_queueTransfer_transfers (hash : WakuMessageHash) {peers : List PeerId}
    (hnodup : peers.Nodup) (hmax : s.remoteNeedsTxMaxsize = 0) (peer : PeerId) (h : WakuMessageHash) :
    (peers.foldl (fun self peer => queueTransfer self peer hash) s).transfers peer h =
      s.transfers peer h + if hash = h ∧ peer ∈ peers then 1 else 0 := by
  induction peers generalizing s with
  | nil => simp
  | cons peer' peers ih =>
      obtain ⟨hnot, hnodup'⟩ := List.nodup_cons.mp hnodup
      rw [List.foldl_cons, ih hnodup' (by rw [queueTransfer_maxsize, hmax]),
        queueTransfer_transfers hmax, Nat.add_assoc]
      congr 1
      by_cases hh : hash = h
      · by_cases hp : peer' = peer
        · subst hp
          simp [hh, hnot]
        · simp [hh, hp, Ne.symm hp]
      · simp [hh]

/-- An arrival sends its hash to the peers that wait for it, and to nobody else. -/
theorem Promises.messageIngress_transfers (hs : s.Promises times) (hmax : s.remoteNeedsTxMaxsize = 0)
    (id : SyncID) (p : PubsubTopic) (c : ContentTopic) (peer : PeerId) (h : WakuMessageHash) :
    (s.messageIngress id p c).transfers peer h =
        s.transfers peer h + (if id.hash = h ∧ s.Deferred peer h then 1 else 0) ∧
      ((s.messageIngress id p c).Deferred peer h ↔ id.hash ≠ h ∧ s.Deferred peer h) := by
  rw [messageIngress_eq]
  by_cases hid : id.hash ∈ s.pendingSet
  · rw [if_pos hid]
    constructor
    · have hpeers : ((s.deferredTx.lookup id.hash).getD []).Nodup := by
        cases hl : s.deferredTx.lookup id.hash with
        | none => simp
        | some peers => exact hs.peers_nodup _ _ hl
      have hsend := foldl_queueTransfer_transfers (s := { s with
        pendingSet := s.pendingSet.erase id.hash
        storage := s.storage.remove id
        deferredTx := s.deferredTx.erase id.hash }) id.hash hpeers hmax peer h
      refine Eq.trans hsend ?_
      congr 1
      by_cases hh : id.hash = h
      · subst hh
        rfl
      · rw [if_neg (fun hc => hh hc.1), if_neg (fun hc => hh hc.1)]
    · rw [confirm_eq]
      unfold Deferred
      dsimp only
      by_cases hh : id.hash = h
      · subst hh
        simp
      · rw [AList.lookup_erase_ne (Ne.symm hh)]
        simp [hh]
  · rw [if_neg hid]
    -- nobody waits for a hash that is not pending
    have hnone : id.hash = h → ¬ s.Deferred peer h := by
      rintro rfl hd
      apply hid
      apply hs.deferred_pending
      unfold Deferred at hd
      rw [← AList.lookup_isSome]
      cases hl : s.deferredTx.lookup id.hash with
      | none => simp [hl] at hd
      | some peers => rfl
    constructor
    · rw [if_neg (fun hc => hnone hc.1 hc.2)]
      rfl
    · constructor
      · intro hd
        exact ⟨fun hh => hnone hh hd, hd⟩
      · exact fun hc => hc.2

/-- Scheduling a hash for a peer concerns that hash and that peer only. -/
theorem scheduleTransfer_other {peer peer' : PeerId} {h h' : WakuMessageHash}
    (hmax : s.remoteNeedsTxMaxsize = 0) (hne : ¬ (peer' = peer ∧ h' = h)) :
    (s.scheduleTransfer peer' h').1.transfers peer h = s.transfers peer h ∧
      ((s.scheduleTransfer peer' h').1.Deferred peer h ↔ s.Deferred peer h) := by
  unfold scheduleTransfer
  split_ifs with hp
  · refine ⟨rfl, ?_⟩
    unfold Deferred
    dsimp only
    by_cases hh : h = h'
    · subst hh
      have hpp : peer ≠ peer' := fun hc => hne ⟨hc.symm, rfl⟩
      rw [AList.lookup_insert, Option.getD_some, HashSet.mem_incl]
      exact or_iff_left hpp
    · rw [AList.lookup_insert_ne hh]
  · dsimp only
    refine ⟨by rw [queueTransfer_transfers hmax, if_neg hne, Nat.add_zero], ?_⟩
    rw [queueTransfer_eq]
    rfl

theorem scheduleTransfers_other {peer peer' : PeerId} {h : WakuMessageHash}
    (hashes : List WakuMessageHash) (hmax : s.remoteNeedsTxMaxsize = 0)
    (hne : ¬ (peer' = peer ∧ h ∈ hashes)) :
    (s.scheduleTransfers peer' hashes).1.transfers peer h = s.transfers peer h ∧
      ((s.scheduleTransfers peer' hashes).1.Deferred peer h ↔ s.Deferred peer h) := by
  rw [scheduleTransfers_fst]
  induction hashes generalizing s with
  | nil => exact ⟨rfl, Iff.rfl⟩
  | cons h' hashes ih =>
      have hhead : ¬ (peer' = peer ∧ h' = h) := fun hc => hne ⟨hc.1, by simp [hc.2]⟩
      have htail : ¬ (peer' = peer ∧ h ∈ hashes) := fun hc => hne ⟨hc.1, by simp [hc.2]⟩
      obtain ⟨h1, h2⟩ := scheduleTransfer_other hmax hhead
      have hmax' : (s.scheduleTransfer peer' h').1.remoteNeedsTxMaxsize = 0 := by
        rw [scheduleTransfer_eq]
        exact hmax
      obtain ⟨h3, h4⟩ := ih hmax' htail
      exact ⟨h3.trans h1, h4.trans h2⟩

/-- A round of the peer that finds the hash to send. -/
def asks (s : SyncReconciliation) (op : NodeOp) (peer : PeerId) (h : WakuMessageHash) : Prop :=
  match op with
  | .reconcileRound payload lowerBound peerId _ =>
      peerId = peer ∧ h ∈ (s.exchange payload lowerBound).hashToSend
  | _ => False

/-- A pending hash in a round is deferred for the peer, and not queued. -/
theorem scheduleTransfers_deferred {peer : PeerId} {h : WakuMessageHash}
    {hashes : List WakuMessageHash} (hmax : s.remoteNeedsTxMaxsize = 0) (hp : h ∈ s.pendingSet)
    (hmem : h ∈ hashes ∨ s.Deferred peer h) :
    (s.scheduleTransfers peer hashes).1.Deferred peer h ∧
      (s.scheduleTransfers peer hashes).1.transfers peer h = s.transfers peer h := by
  rw [scheduleTransfers_fst]
  induction hashes generalizing s with
  | nil => exact ⟨hmem.resolve_left (by simp), rfl⟩
  | cons h' hashes ih =>
      have hmax' : (s.scheduleTransfer peer h').1.remoteNeedsTxMaxsize = 0 := by
        rw [scheduleTransfer_eq]
        exact hmax
      have hp' : h ∈ (s.scheduleTransfer peer h').1.pendingSet := by
        rw [scheduleTransfer_eq]
        exact hp
      by_cases hh : h' = h
      · subst hh
        have hdef : (s.scheduleTransfer peer h').1.Deferred peer h' := by
          unfold scheduleTransfer Deferred
          rw [if_pos hp]
          dsimp only
          rw [AList.lookup_insert, Option.getD_some, HashSet.mem_incl]
          exact Or.inr rfl
        obtain ⟨h1, h2⟩ := ih hmax' hp' (Or.inr hdef)
        refine ⟨h1, h2.trans ?_⟩
        unfold scheduleTransfer
        rw [if_pos hp]
        rfl
      · have hne : ¬ (peer = peer ∧ h' = h) := fun hc => hh hc.2
        obtain ⟨h1, h2⟩ := scheduleTransfer_other hmax hne
        obtain ⟨h3, h4⟩ := ih hmax' hp'
          (hmem.imp (fun hm => (List.mem_cons.mp hm).resolve_left (Ne.symm hh)) h2.mpr)
        exact ⟨h3, h4.trans h1⟩

/-- The operation is the arrival of a message with the hash. -/
def confirms (op : NodeOp) (h : WakuMessageHash) : Bool :=
  match op with
  | .messageIngress id _ _ => decide (id.hash = h)
  | _ => false

/-- The operation is an expiry after a deadline of the hash. -/
def expires (s : SyncReconciliation) (op : NodeOp) (h : WakuMessageHash) : Bool :=
  match op with
  | .expirePending now => decide (∃ e ∈ s.pendingQueue, e.1.hash = h ∧ e.2 ≤ now)
  | _ => false

/-- The hash arrives before it expires. -/
def confirmedInTime (h : WakuMessageHash) (s : SyncReconciliation) : List NodeOp → Bool
  | [] => false
  | op :: rest => confirms op h || (!s.expires op h && confirmedInTime h (s.apply op) rest)

/-- The peer does not ask for the hash again. -/
def NotAsked (peer : PeerId) (h : WakuMessageHash) (s : SyncReconciliation) : List NodeOp → Prop
  | [] => True
  | op :: rest => ¬ s.asks op peer h ∧ NotAsked peer h (s.apply op) rest

/-- **One operation**, as a waiting peer sees it: the hash is sent when it arrives, and the peer
waits on unless it arrives or expires. -/
theorem Promises.apply_transfers (hs : s.Promises times) (hmax : s.remoteNeedsTxMaxsize = 0)
    (op : NodeOp) (peer : PeerId) (h : WakuMessageHash) (hask : ¬ s.asks op peer h) :
    (s.apply op).transfers peer h =
        s.transfers peer h + (if confirms op h = true ∧ s.Deferred peer h then 1 else 0) ∧
      ((s.apply op).Deferred peer h ↔
        s.Deferred peer h ∧ confirms op h = false ∧ s.expires op h = false) := by
  cases op with
  | messageIngress id p c =>
      obtain ⟨h1, h2⟩ := hs.messageIngress_transfers hmax id p c peer h
      refine ⟨?_, ?_⟩
      · refine h1.trans ?_
        simp [confirms]
      · refine h2.trans ?_
        simp [confirms, expires, and_comm]
  | reconcileRound payload lowerBound peerId now =>
      rw [apply_reconcileRound]
      have hmax' : (s.trackPromised now
          (s.exchange payload lowerBound).idsToRecv).remoteNeedsTxMaxsize = 0 := by
        rw [trackPromised_eq]
        exact hmax
      obtain ⟨h1, h2⟩ := scheduleTransfers_other _ hmax' hask
      refine ⟨?_, ?_⟩
      · rw [h1, trackPromised_eq]
        simp [confirms, transfers]
      · rw [h2, trackPromised_eq]
        simp [confirms, expires, Deferred]
  | expirePending now =>
      refine ⟨?_, ?_⟩
      · show (s.expirePending now).transfers peer h = _
        rw [expirePending_eq, foldl_expireOne_eq]
        simp [confirms, transfers]
      · show (s.expirePending now).Deferred peer h ↔ _
        unfold Deferred
        rw [hs.lookup_expirePending]
        by_cases hdue : ∃ e ∈ s.pendingQueue, e.1.hash = h ∧ e.2 ≤ now
        · rw [if_pos hdue]
          simp only [expires, confirms, decide_eq_false_iff_not]
          simpa using fun _ => hdue
        · rw [if_neg hdue]
          simp only [expires, confirms, decide_eq_false_iff_not]
          simpa using fun _ => hdue
  | prune t =>
      refine ⟨?_, ?_⟩
      · simp [confirms]
        rfl
      · simp [confirms, expires]
        rfl

/-- **A whole run**, as a waiting peer sees it. -/
theorem Fresh.transfers_after {node : SyncReconciliation} (hfresh : node.Fresh)
    (hmax : node.remoteNeedsTxMaxsize = 0) (peer : PeerId) (h : WakuMessageHash) :
    ∀ (more ops : List NodeOp), Chronological (ops ++ more) →
      NotAsked peer h (node.after ops) more →
      ((node.after ops).after more).transfers peer h = (node.after ops).transfers peer h +
        if (node.after ops).Deferred peer h ∧ confirmedInTime h (node.after ops) more = true then 1
        else 0
  | [], ops, _, _ => by simp [confirmedInTime]
  | op :: rest, ops, hchron, hask => by
      obtain ⟨hask, hrest⟩ := hask
      have hsplit : ops ++ op :: rest = (ops ++ [op]) ++ rest := by simp
      rw [hsplit] at hchron
      have hs := hfresh.promises_after
        ((hchron.of_initial (List.prefix_append _ _)).of_initial (List.prefix_append _ _))
      have hmax' : (node.after ops).remoteNeedsTxMaxsize = 0 := by rw [after_maxsize, hmax]
      obtain ⟨h1, h2⟩ := hs.apply_transfers hmax' op peer h hask
      have ih := Fresh.transfers_after hfresh hmax peer h rest (ops ++ [op]) hchron
        (by rw [after_concat]; exact hrest)
      rw [after_concat] at ih
      rw [after_cons, ih, h1, Nat.add_assoc]
      congr 1
      simp only [h2, confirmedInTime]
      by_cases hd : (node.after ops).Deferred peer h
      · by_cases hc : confirms op h = true
        · simp [hd, hc]
        · by_cases he : (node.after ops).expires op h = true
          · simp [hc, he]
          · simp [hd, hc, he]
      · simp [hd]

/-- **Promises and deferred transfers.**  In every run of a fresh node whose transfer queue is never
full: the deferral table, the pending set and the deadline queue agree; expiry leaves no entry that
is due; a round defers the hashes that are pending; and a deferred hash is queued for its peer once
if it arrives before it expires and never otherwise, until the peer asks again. -/
theorem deferred_transfers_exact (node : SyncReconciliation) (hfresh : node.Fresh)
    (hmax : node.remoteNeedsTxMaxsize = 0) (ops : List NodeOp) (hops : Chronological ops) :
    let s := node.after ops
    (∀ h ∈ s.deferredTx, h ∈ s.pendingSet) ∧
    (∀ h ∈ s.pendingSet, ∃ e ∈ s.pendingQueue, e.1.hash = h) ∧
    s.pendingQueue.Pairwise (fun e e' => e.2 ≤ e'.2) ∧
    (∀ now, ∀ e ∈ (s.expirePending now).pendingQueue, now < e.2) ∧
    (∀ payload lowerBound peer now h, h ∈ (s.exchange payload lowerBound).hashToSend →
      h ∈ (s.apply (.reconcileRound payload lowerBound peer now)).pendingSet →
      (s.apply (.reconcileRound payload lowerBound peer now)).Deferred peer h ∧
        (s.apply (.reconcileRound payload lowerBound peer now)).transfers peer h =
          s.transfers peer h) ∧
    (∀ peer h more, s.Deferred peer h → Chronological (ops ++ more) → NotAsked peer h s more →
      (s.after more).transfers peer h =
        s.transfers peer h + if confirmedInTime h s more = true then 1 else 0) := by
  intro s
  have hs : s.Promises (ops.filterMap NodeOp.time?) := hfresh.promises_after hops
  have hsmax : s.remoteNeedsTxMaxsize = 0 := (after_maxsize node ops).trans hmax
  refine ⟨hs.deferred_pending, hs.pending_queued, hs.deadlines, ?_, ?_, ?_⟩
  · intro now e he
    exact (hs.mem_expirePending_queue.mp he).2
  · intro payload lowerBound peer now h hsend hp
    rw [apply_reconcileRound] at hp ⊢
    have hp' : h ∈ (s.trackPromised now (s.exchange payload lowerBound).idsToRecv).pendingSet := by
      rw [scheduleTransfers_eq] at hp
      exact hp
    have hmax' : (s.trackPromised now
        (s.exchange payload lowerBound).idsToRecv).remoteNeedsTxMaxsize = 0 := by
      rw [trackPromised_eq]
      exact hsmax
    obtain ⟨h1, h2⟩ := scheduleTransfers_deferred hmax' hp' (Or.inl hsend)
    refine ⟨h1, h2.trans ?_⟩
    rw [trackPromised_eq]
    rfl
  · intro peer h more hd hchron hask
    rw [hfresh.transfers_after hmax peer h more ops hchron hask]
    congr 1
    exact if_congr (and_iff_right hd) rfl rfl

/-- One peer promises an element, and another one lacks it. -/
def promiseThenAsk : List NodeOp :=
  [.reconcileRound (listing [⟨5, fullFingerprint⟩]) 0 "a" 0, .reconcileRound (listing []) 0 "b" 1]

theorem promiseThenAsk_sent_on_arrival :
    (emptyNode.after promiseThenAsk).Deferred "b" fullFingerprint ∧
      ((emptyNode.after promiseThenAsk).after
        [.messageIngress ⟨5, fullFingerprint⟩ "/waku/2/rs/1/0" "/a"]).transfers "b" fullFingerprint =
        (emptyNode.after promiseThenAsk).transfers "b" fullFingerprint + 1 := by
  have hd : (emptyNode.after promiseThenAsk).Deferred "b" fullFingerprint := by decide
  refine ⟨hd, ?_⟩
  obtain ⟨_, _, _, _, _, hsent⟩ := deferred_transfers_exact emptyNode ⟨rfl, rfl, rfl⟩ rfl
    promiseThenAsk (by decide)
  exact hsent "b" fullFingerprint _ hd (by decide) ⟨not_false, trivial⟩

end SyncReconciliation

end LogosDelivery.StoreSync
