import LogosDelivery.Lib.Runs
import LogosDelivery.StoreSync.Rounds

/-! # Runs of a node

The operations that change a node, in any order: the arrival of a message, a round with a peer, the
expiry of promises and the periodic prune.  Here each of them gets one equation that says what it
does to every field, and the rest of the development about runs uses these only.

A round is determined by its exchange, the ids to receive and the hashes to send that
`processPayload` finds; out of scope there is none.  A payload with too few fingerprints or item
sets is a defect and changes nothing; the decoder accepts no such payload. -/

namespace LogosDelivery.StoreSync

/-- An operation of a node, with the time at which it runs where it reads the clock. -/
inductive NodeOp where
  | messageIngress (id : SyncID) (pubsubTopic : PubsubTopic) (contentTopic : ContentTopic)
  | reconcileRound (recvPayload : RangesData) (lowerBound : ℤ) (peerId : PeerId) (now : ℤ)
  | expirePending (now : ℤ)
  | prune (timestamp : ℤ)

/-- The time an operation reads from the clock. -/
def NodeOp.time? : NodeOp → Option ℤ
  | .messageIngress _ _ _ => none
  | .reconcileRound _ _ _ now => some now
  | .expirePending now => some now
  | .prune _ => none

/-- The clock does not run backwards. -/
def Chronological (ops : List NodeOp) : Prop := (ops.filterMap NodeOp.time?).Pairwise (· ≤ ·)

instance (ops : List NodeOp) : Decidable (Chronological ops) :=
  inferInstanceAs (Decidable (List.Pairwise _ _))

theorem Chronological.of_initial {ops pre : List NodeOp} (h : Chronological ops) (hp : pre <+: ops) :
    Chronological pre := by
  obtain ⟨rest, rfl⟩ := hp
  unfold Chronological at h
  rw [List.filterMap_append] at h
  exact (List.pairwise_append.mp h).1

theorem Chronological.le_last {ops : List NodeOp} {op : NodeOp} (h : Chronological (ops ++ [op]))
    {t u : ℤ} (ht : op.time? = some t) (hu : u ∈ ops.filterMap NodeOp.time?) : u ≤ t := by
  unfold Chronological at h
  rw [List.filterMap_append] at h
  refine (List.pairwise_append.mp h).2.2 u hu t ?_
  simp [ht]

namespace SyncReconciliation

variable (self : SyncReconciliation)

/-- What a round finds. -/
def exchange (recvPayload : RangesData) (lowerBound : ℤ) : Exchange :=
  match self.preProcessPayload recvPayload lowerBound with
  | some (some payload) => (self.storage.processPayload payload).getD {}
  | _ => {}

/-- The state after an operation. -/
def apply : NodeOp → SyncReconciliation
  | .messageIngress id pubsubTopic contentTopic => self.messageIngress id pubsubTopic contentTopic
  | .reconcileRound recvPayload lowerBound peerId now =>
      ((self.reconcileRound recvPayload lowerBound peerId now).map (·.1)).getD self
  | .expirePending now => self.expirePending now
  | .prune timestamp => self.prune timestamp

/-- The state of a node after the operations. -/
def after (s : SyncReconciliation) (ops : List NodeOp) : SyncReconciliation :=
  Lib.run SyncReconciliation.apply s ops

@[simp] theorem after_nil (s : SyncReconciliation) : s.after [] = s := rfl

@[simp] theorem after_concat (s : SyncReconciliation) (ops : List NodeOp) (op : NodeOp) :
    s.after (ops ++ [op]) = (s.after ops).apply op := Lib.run_concat _ _ _ _

theorem after_cons (s : SyncReconciliation) (op : NodeOp) (rest : List NodeOp) :
    s.after (op :: rest) = (s.apply op).after rest := rfl

/-- A node that has not been promised anything. -/
structure Fresh (s : SyncReconciliation) : Prop where
  pendingSet : s.pendingSet = ∅
  pendingQueue : s.pendingQueue = []
  deferredTx : s.deferredTx = ∅

/-- A node as it starts; what it loads from the archive comes in like arrivals. -/
structure New (s : SyncReconciliation) : Prop extends s.Fresh where
  storage : s.storage =
    { partitionCount := s.storage.partitionCount, lengthThreshold := s.storage.lengthThreshold }

/-- A node with an empty index. -/
def emptyNode : SyncReconciliation where
  cluster := 1
  shards := []
  storage := {}
  pendingTimeout := 10

/-- A payload that lists `elements` as all there is in the first hundred nanoseconds. -/
def listing (elements : List SyncID) : RangesData :=
  RangesData.ofEntries 1 []
    [(⟨SyncID.atTime 0, SyncID.atTime 100⟩, .itemSet { elements := elements, reconciled := true })]

/-! ### Rounds -/

/-- Promised elements are stored under the pending topic, in the order they are listed. -/
def promiseAll (storage : SeqStorage) (ids : List SyncID) : SeqStorage :=
  ids.foldl (fun storage id => storage.insert id pendingPubsubTopic "") storage

theorem trackPromised_eq (now : ℤ) (ids : List SyncID) :
    self.trackPromised now ids =
      { self with
        storage := promiseAll self.storage ids
        pendingSet := self.pendingSet ∪ (ids.map SyncID.hash).toFinset
        pendingQueue := self.pendingQueue ++ ids.map (fun id => (id, now + self.pendingTimeout)) } := by
  unfold trackPromised promiseAll
  dsimp only
  generalize now + self.pendingTimeout = deadline
  induction ids generalizing self with
  | nil => simp
  | cons id ids ih =>
      rw [List.foldl_cons, ih]
      simp [Finset.insert_union]

theorem queueTransfer_eq (peer : PeerId) (hash : WakuMessageHash) :
    self.queueTransfer peer hash =
      { self with remoteNeedsTx := (self.queueTransfer peer hash).remoteNeedsTx } := by
  unfold queueTransfer
  split_ifs <;> rfl

/-- Queueing a transfer changes nothing but the queue. -/
theorem foldl_queueTransfer_eq (hash : WakuMessageHash) (peers : List PeerId) :
    peers.foldl (fun self peer => queueTransfer self peer hash) self =
      { self with
        remoteNeedsTx :=
          (peers.foldl (fun self peer => queueTransfer self peer hash) self).remoteNeedsTx } := by
  induction peers generalizing self with
  | nil => rfl
  | cons peer peers ih =>
      rw [List.foldl_cons, ih]
      rw [queueTransfer_eq]

/-- Scheduling a hash changes nothing but the queue and the deferral table. -/
theorem scheduleTransfer_eq (peerId : PeerId) (hash : WakuMessageHash) :
    (self.scheduleTransfer peerId hash).1 =
      { self with
        remoteNeedsTx := (self.scheduleTransfer peerId hash).1.remoteNeedsTx
        deferredTx := (self.scheduleTransfer peerId hash).1.deferredTx } := by
  unfold scheduleTransfer
  split_ifs
  · rfl
  · dsimp only
    rw [queueTransfer_eq]

/-- The state after scheduling the hashes, one after the other. -/
theorem scheduleTransfers_fst (peerId : PeerId) (hashes : List WakuMessageHash) :
    (self.scheduleTransfers peerId hashes).1 =
      hashes.foldl (fun self hash => (self.scheduleTransfer peerId hash).1) self := by
  unfold scheduleTransfers
  generalize (0 : ℕ) = queued
  induction hashes generalizing self queued with
  | nil => rfl
  | cons hash hashes ih => rw [List.foldl_cons, List.foldl_cons, ih]

theorem scheduleTransfers_eq (peerId : PeerId) (hashes : List WakuMessageHash) :
    (self.scheduleTransfers peerId hashes).1 =
      { self with
        remoteNeedsTx := (self.scheduleTransfers peerId hashes).1.remoteNeedsTx
        deferredTx := (self.scheduleTransfers peerId hashes).1.deferredTx } := by
  rw [scheduleTransfers_fst]
  induction hashes generalizing self with
  | nil => rfl
  | cons hash hashes ih =>
      rw [List.foldl_cons, ih]
      rw [scheduleTransfer_eq]

/-- A round tracks the ids to receive and schedules the hashes to send. -/
theorem apply_reconcileRound (recvPayload : RangesData) (lowerBound : ℤ) (peerId : PeerId) (now : ℤ) :
    self.apply (.reconcileRound recvPayload lowerBound peerId now) =
      ((self.trackPromised now (self.exchange recvPayload lowerBound).idsToRecv).scheduleTransfers
        peerId (self.exchange recvPayload lowerBound).hashToSend).1 := by
  unfold apply reconcileRound exchange
  dsimp only
  cases self.preProcessPayload recvPayload lowerBound with
  | none => rfl
  | some pre =>
      cases pre with
      | none => rfl
      | some payload =>
          cases hproc : self.storage.processPayload payload with
          | none =>
              simp only [Option.bind_eq_bind, Option.bind_some, hproc]
              rfl
          | some ex =>
              simp only [Option.bind_eq_bind, Option.bind_some, hproc]
              rfl

/-! ### Expiry -/

/-- One entry whose deadline has passed. -/
def expireOne (id : SyncID) : SyncReconciliation :=
  if id.hash ∉ self.pendingSet then self
  else
    { self with
      pendingSet := self.pendingSet.erase id.hash
      deferredTx := self.deferredTx.erase id.hash
      storage := self.storage.remove id }

/-- The entries at the front of the queue that are due. -/
def due (now : ℤ) : List (SyncID × ℤ) := self.pendingQueue.takeWhile (fun e => decide (e.2 ≤ now))

theorem expireLoop_eq (now : ℤ) (queue : List (SyncID × ℤ)) :
    expireLoop now queue self =
      { (queue.takeWhile (fun e => decide (e.2 ≤ now))).foldl (fun self e => self.expireOne e.1) self with
        pendingQueue := queue.dropWhile (fun e => decide (e.2 ≤ now)) } := by
  induction queue generalizing self with
  | nil => rfl
  | cons e queue ih =>
      obtain ⟨id, deadline⟩ := e
      rw [expireLoop]
      by_cases hlate : now < deadline
      · rw [if_pos hlate, List.takeWhile_cons_of_neg (by simp; omega),
          List.dropWhile_cons_of_neg (by simp; omega)]
        rfl
      · rw [if_neg hlate, List.takeWhile_cons_of_pos (by simp; omega),
          List.dropWhile_cons_of_pos (by simp; omega), List.foldl_cons, expireOne]
        split_ifs with hmem
        · exact ih _
        · exact ih self

/-- Expiry handles the due entries one by one. -/
theorem expirePending_eq (now : ℤ) :
    self.expirePending now =
      { (self.due now).foldl (fun self e => self.expireOne e.1) self with
        pendingQueue := self.pendingQueue.dropWhile (fun e => decide (e.2 ≤ now)) } :=
  expireLoop_eq self now self.pendingQueue

theorem expireOne_pendingSet (id : SyncID) :
    (self.expireOne id).pendingSet = self.pendingSet.erase id.hash := by
  unfold expireOne
  split_ifs with h
  · rfl
  · exact (Finset.erase_eq_of_notMem h).symm

/-- Expiring entries touches the set, the table and the storage only. -/
theorem foldl_expireOne_eq (entries : List (SyncID × ℤ)) :
    entries.foldl (fun self e => expireOne self e.1) self =
      { self with
        pendingSet := self.pendingSet \ (entries.map (fun e => e.1.hash)).toFinset
        deferredTx := (entries.foldl (fun self e => expireOne self e.1) self).deferredTx
        storage := (entries.foldl (fun self e => expireOne self e.1) self).storage } := by
  induction entries generalizing self with
  | nil => simp
  | cons e entries ih =>
      rw [List.foldl_cons, ih]
      have hone : self.expireOne e.1 =
          { self with
            pendingSet := self.pendingSet.erase e.1.hash
            deferredTx := (self.expireOne e.1).deferredTx
            storage := (self.expireOne e.1).storage } := by
        rw [← expireOne_pendingSet]
        unfold expireOne
        split_ifs <;> rfl
      rw [hone]
      congr 1
      rw [List.map_cons, List.toFinset_cons, Finset.sdiff_insert, Finset.erase_sdiff_comm]

theorem expirePending_pendingSet (now : ℤ) :
    (self.expirePending now).pendingSet =
      self.pendingSet \ ((self.due now).map (fun e => e.1.hash)).toFinset := by
  rw [expirePending_eq, foldl_expireOne_eq]

/-! ### Arrival -/

/-- An arrival of a pending element: it leaves the pending set, its placeholder is removed and the
peers that asked for it get it. -/
def confirm (id : SyncID) : SyncReconciliation :=
  ((self.deferredTx.lookup id.hash).getD []).foldl (fun self peer => self.queueTransfer peer id.hash)
    { self with
      pendingSet := self.pendingSet.erase id.hash
      storage := self.storage.remove id
      deferredTx := self.deferredTx.erase id.hash }

theorem messageIngress_eq (id : SyncID) (p : PubsubTopic) (c : ContentTopic) :
    self.messageIngress id p c =
      if id.hash ∈ self.pendingSet then
        { self.confirm id with storage := (self.storage.remove id).insert id p c }
      else { self with storage := self.storage.insert id p c } := by
  unfold messageIngress insertConfirmed
  dsimp only
  split_ifs with h
  · rw [show self.confirm id = _ from foldl_queueTransfer_eq _ _ _, foldl_queueTransfer_eq]
  · rfl

theorem confirm_eq (id : SyncID) :
    self.confirm id =
      { self with
        pendingSet := self.pendingSet.erase id.hash
        storage := self.storage.remove id
        deferredTx := self.deferredTx.erase id.hash
        remoteNeedsTx := (self.confirm id).remoteNeedsTx } :=
  foldl_queueTransfer_eq _ _ _

/-- The index after an arrival. -/
theorem messageIngress_storage (id : SyncID) (p : PubsubTopic) (c : ContentTopic) :
    (self.messageIngress id p c).storage =
      (if id.hash ∈ self.pendingSet then self.storage.remove id else self.storage).insert id p c := by
  rw [messageIngress_eq]
  split_ifs <;> rfl

theorem messageIngress_pendingSet (id : SyncID) (p : PubsubTopic) (c : ContentTopic) :
    (self.messageIngress id p c).pendingSet = self.pendingSet.erase id.hash := by
  rw [messageIngress_eq]
  split_ifs with hp
  · rw [confirm_eq]
  · exact (Finset.erase_eq_of_notMem hp).symm

theorem messageIngress_pendingQueue (id : SyncID) (p : PubsubTopic) (c : ContentTopic) :
    (self.messageIngress id p c).pendingQueue = self.pendingQueue := by
  rw [messageIngress_eq]
  split_ifs with hp
  · rw [confirm_eq]
  · rfl

end SyncReconciliation

end LogosDelivery.StoreSync
