import LogosDelivery.StoreSync.Reconciliation

/-! # A round on entries

What the pre-processing and a round do, on payloads that are lists of entries.  The pre-processing
turns the entries before the lower bound into skips and clips the one that crosses it
(`clipEntries`); a round then answers the entries one by one and tracks the ids and hashes that
this brings up (`reconcileRound_ofEntries`). -/

namespace LogosDelivery.StoreSync

open Lib (PackedSet)

/-! ### The pre-processing on entries -/

/-- The part of a body that belongs to the elements from `split` on. -/
def RangeBody.clip (split : SyncID) : RangeBody → RangeBody
  | .itemSet set =>
      .itemSet { set with elements := set.elements.filter (fun x => decide (cmp x split ≠ -1)) }
  | body => body

/-- The loop of `preProcessPayload` on entries. -/
def clipEntries (lowerBound : ℤ) : List Entry → List Entry
  | [] => []
  | (r, .skip) :: es => (r, .skip) :: clipEntries lowerBound es
  | (r, body) :: es =>
      let split := SyncID.atTime lowerBound
      if cmp split r.b ≠ -1 then (r, .skip) :: clipEntries lowerBound es
      else if r.a.time < lowerBound then
        (⟨r.a, split⟩, .skip) :: (⟨split, r.b⟩, body.clip split) :: es
      else (r, body) :: es

/-- The three sequences of a list of entries, as one triple. -/
def sequences (es : List Entry) :
    List (Slice SyncID × RangeType) × List Fingerprint × List ItemSet :=
  (es.map (fun e => (e.1, e.2.type)), es.filterMap (fun e => e.2.fingerprint?),
    es.filterMap (fun e => e.2.itemSet?))

theorem preProcessRanges_eq (lowerBound : ℤ) : ∀ es : List Entry,
    SyncReconciliation.preProcessRanges lowerBound (es.map (fun e => (e.1, e.2.type)))
        (es.filterMap (fun e => e.2.fingerprint?)) (es.filterMap (fun e => e.2.itemSet?)) =
      some (sequences (clipEntries lowerBound es))
  | [] => rfl
  | (r, .skip) :: es => by
      have ih := preProcessRanges_eq lowerBound es
      simp only [List.map_cons, List.filterMap_cons, RangeBody.type_skip,
        RangeBody.fingerprint?_skip, RangeBody.itemSet?_skip, SyncReconciliation.preProcessRanges, ih]
      rfl
  | (r, .fingerprint f) :: es => by
      have ih := preProcessRanges_eq lowerBound es
      simp only [List.map_cons, List.filterMap_cons, RangeBody.type_fingerprint,
        RangeBody.fingerprint?_fingerprint, RangeBody.itemSet?_fingerprint,
        SyncReconciliation.preProcessRanges, clipEntries, ih]
      split_ifs <;> rfl
  | (r, .itemSet set) :: es => by
      have ih := preProcessRanges_eq lowerBound es
      simp only [List.map_cons, List.filterMap_cons, RangeBody.type_itemSet,
        RangeBody.fingerprint?_itemSet, RangeBody.itemSet?_itemSet,
        SyncReconciliation.preProcessRanges, clipEntries, ih]
      split_ifs <;> rfl

theorem clipEntries_open (lowerBound : ℤ) {r : Slice SyncID} {body : RangeBody} (h : body ≠ .skip)
    (es : List Entry) :
    clipEntries lowerBound ((r, body) :: es) =
      if cmp (SyncID.atTime lowerBound) r.b ≠ -1 then (r, .skip) :: clipEntries lowerBound es
      else if r.a.time < lowerBound then
        (⟨r.a, SyncID.atTime lowerBound⟩, .skip) ::
          (⟨SyncID.atTime lowerBound, r.b⟩, body.clip (SyncID.atTime lowerBound)) :: es
      else (r, body) :: es := by
  cases body with
  | skip => exact absurd rfl h
  | fingerprint f => rfl
  | itemSet set => rfl

theorem clipped_cons (lowerBound : ℤ) {x e : Entry} {es : List Entry}
    (h : e.2 = .skip ∨ e ∈ es ∨ ∃ r body, (r, body) ∈ es ∧ r.a.time < lowerBound ∧
      e = (⟨SyncID.atTime lowerBound, r.b⟩, body.clip (SyncID.atTime lowerBound))) :
    e.2 = .skip ∨ e ∈ x :: es ∨ ∃ r body, (r, body) ∈ x :: es ∧ r.a.time < lowerBound ∧
      e = (⟨SyncID.atTime lowerBound, r.b⟩, body.clip (SyncID.atTime lowerBound)) := by
  rcases h with h | h | ⟨r, body, h, h'⟩
  · exact Or.inl h
  · exact Or.inr (Or.inl (List.mem_cons_of_mem x h))
  · exact Or.inr (Or.inr ⟨r, body, List.mem_cons_of_mem x h, h'⟩)

/-- After the pre-processing an entry is a skip, an entry that was there before, or the upper part
of one that crosses the lower bound. -/
theorem mem_clipEntries (lowerBound : ℤ) {e : Entry} : ∀ {es : List Entry},
    e ∈ clipEntries lowerBound es → e.2 = .skip ∨ e ∈ es ∨
      ∃ r body, (r, body) ∈ es ∧ r.a.time < lowerBound ∧
        e = (⟨SyncID.atTime lowerBound, r.b⟩, body.clip (SyncID.atTime lowerBound))
  | [], he => by simp [clipEntries] at he
  | (r, body) :: es, he => by
      by_cases hskip : body = .skip
      · subst hskip
        rcases List.mem_cons.mp he with rfl | he
        · exact Or.inl rfl
        · exact clipped_cons lowerBound (mem_clipEntries lowerBound he)
      · rw [clipEntries_open lowerBound hskip] at he
        split_ifs at he with h1 h2
        · rcases List.mem_cons.mp he with rfl | he
          · exact Or.inl rfl
          · exact clipped_cons lowerBound (mem_clipEntries lowerBound he)
        · rcases List.mem_cons.mp he with rfl | he
          · exact Or.inl rfl
          · rcases List.mem_cons.mp he with rfl | he
            · exact Or.inr (Or.inr ⟨r, body, List.mem_cons_self, h2, rfl⟩)
            · exact Or.inr (Or.inl (List.mem_cons_of_mem _ he))
        · exact Or.inr (Or.inl he)

namespace SyncReconciliation

theorem preProcessPayload_ofEntries (self : SyncReconciliation) (cluster : UInt16)
    (shards : List UInt16) (es : List Entry) (lowerBound : ℤ) :
    self.preProcessPayload (RangesData.ofEntries cluster shards es) lowerBound =
      some (if cluster ≠ self.cluster then none
        else (self.scopeShards shards).map (fun scope =>
          RangesData.ofEntries cluster scope (clipEntries lowerBound es))) := by
  unfold preProcessPayload
  by_cases hcluster : (RangesData.ofEntries cluster shards es).cluster ≠ self.cluster
  · rw [if_pos hcluster]
    exact congrArg some (if_pos hcluster).symm
  · rw [if_neg hcluster]
    refine Eq.trans ?_ (congrArg some (if_neg hcluster).symm)
    have hpre := preProcessRanges_eq lowerBound es
    cases hshards : self.scopeShards shards with
    | none =>
        simp only [RangesData.ofEntries, hshards]
        rfl
    | some scope =>
        simp only [RangesData.ofEntries, hshards, hpre]
        rfl

/-- The topic indexes that are in scope for the shards of a payload. -/
def scopeSet (self : SyncReconciliation) (scope : List UInt16) : PackedSet ℤ :=
  self.storage.pubsubScope (scope.map (relayShardTopic self.cluster))

/-- The ids that a round shows to be missing here. -/
def roundRecvs (self : SyncReconciliation) (scope : List UInt16) (lowerBound : ℤ) (es : List Entry) :
    List SyncID :=
  (clipEntries lowerBound es).flatMap (self.storage.recvs (self.scopeSet scope) ∅)

/-- The hashes that a round shows the peer to lack. -/
def roundSends (self : SyncReconciliation) (scope : List UInt16) (lowerBound : ℤ) (es : List Entry) :
    List WakuMessageHash :=
  (clipEntries lowerBound es).flatMap (self.storage.sends (self.scopeSet scope) ∅)

/-- The entries of the reply to a round. -/
def roundReply (self : SyncReconciliation) (scope : List UInt16) (lowerBound : ℤ) (es : List Entry) :
    List Entry :=
  replyEntries ((clipEntries lowerBound es).flatMap (self.storage.answer (self.scopeSet scope) ∅))

section Round

variable (self : SyncReconciliation) {cluster : UInt16} {shards : List UInt16} (es : List Entry)
  (lowerBound : ℤ) (peerId : PeerId) (now : ℤ)

/-- Out of scope nothing changes and the reply is a header alone. -/
theorem reconcileRound_outOfScope (h : cluster ≠ self.cluster ∨ self.scopeShards shards = none) :
    self.reconcileRound (RangesData.ofEntries cluster shards es) lowerBound peerId now =
      some (self, RangesData.ofEntries self.cluster self.shards [], 0) := by
  unfold reconcileRound
  rw [preProcessPayload_ofEntries]
  by_cases hcluster : cluster ≠ self.cluster
  · rw [if_pos hcluster]
    rfl
  · rw [if_neg hcluster, h.resolve_left hcluster]
    rfl

/-- In scope the answers go back, the ids to receive are tracked and the hashes to send are
scheduled. -/
theorem reconcileRound_inScope (hcluster : cluster = self.cluster) {scope : List UInt16}
    (hscope : self.scopeShards shards = some scope) :
    self.reconcileRound (RangesData.ofEntries cluster shards es) lowerBound peerId now =
      some (((self.trackPromised now (self.roundRecvs scope lowerBound es)).scheduleTransfers peerId
          (self.roundSends scope lowerBound es)).1,
        RangesData.ofEntries self.cluster scope (self.roundReply scope lowerBound es),
        (self.roundRecvs scope lowerBound es).length +
          ((self.trackPromised now (self.roundRecvs scope lowerBound es)).scheduleTransfers peerId
            (self.roundSends scope lowerBound es)).2) := by
  subst hcluster
  have hproc := self.storage.processPayload_eq self.cluster scope (clipEntries lowerBound es)
  unfold reconcileRound
  rw [preProcessPayload_ofEntries, if_neg (not_not.mpr rfl), hscope]
  simp only [Option.map_some, Option.bind_eq_bind, Option.bind_some, hproc]
  rfl

end Round

/-- **A round.**  Out of scope nothing changes and the reply is a header alone.  In scope the
answers go back, the ids to receive are tracked and the hashes to send are scheduled. -/
theorem reconcileRound_ofEntries (self : SyncReconciliation) (cluster : UInt16)
    (shards : List UInt16) (es : List Entry) (lowerBound : ℤ) (peerId : PeerId) (now : ℤ) :
    ((cluster ≠ self.cluster ∨ self.scopeShards shards = none) ∧
      self.reconcileRound (RangesData.ofEntries cluster shards es) lowerBound peerId now =
        some (self, RangesData.ofEntries self.cluster self.shards [], 0)) ∨
    ∃ scope reply, cluster = self.cluster ∧ self.scopeShards shards = some scope ∧
      self.reconcileRound (RangesData.ofEntries cluster shards es) lowerBound peerId now =
        some (((self.trackPromised now (self.roundRecvs scope lowerBound es)).scheduleTransfers peerId
            (self.roundSends scope lowerBound es)).1,
          RangesData.ofEntries self.cluster scope reply,
          (self.roundRecvs scope lowerBound es).length +
            ((self.trackPromised now (self.roundRecvs scope lowerBound es)).scheduleTransfers peerId
              (self.roundSends scope lowerBound es)).2) ∧
      openEntries reply = openEntries ((clipEntries lowerBound es).flatMap
        (self.storage.answer (self.scopeSet scope) ∅)) := by
  by_cases hcluster : cluster = self.cluster
  · cases hshards : self.scopeShards shards with
    | none => exact Or.inl ⟨Or.inr rfl, self.reconcileRound_outOfScope es _ _ _ (Or.inr hshards)⟩
    | some scope =>
        exact Or.inr ⟨scope, _, hcluster, rfl, self.reconcileRound_inScope es _ _ _ hcluster hshards,
          openEntries_replyEntries _⟩
  · exact Or.inl ⟨Or.inl hcluster, self.reconcileRound_outOfScope es _ _ _ (Or.inl hcluster)⟩

end SyncReconciliation

end LogosDelivery.StoreSync
