import LogosDelivery.Node.EdgeFilterCalls

/-! # A pass of the edge filter loop

A pass takes the subscriptions of every shard from the content topics of the last pass to those
wanted now, where it overtakes nothing that is under way there (`InOrder`).  Each operation of the
pass works on one shard and leaves the others (`Aside`). -/

namespace LogosDelivery.Node.EdgeFilter

open Lib
open StoreSync (PubsubTopic ContentTopic)

variable {σ P : Type} {s s' s'' : EdgeFilter σ P} {shard b : PubsubTopic} {p q : P}
  {t : ContentTopic} {k : SendChunkedFilterRpcKind} {T T' : Finset ContentTopic}

/-- The subscriptions on a shard lead to the content topics `T`. -/
structure OnShard (T : Finset ContentTopic) (s : EdgeFilter σ P) (shard : PubsubTopic) : Prop where
  peers : ∀ p, AtPeer T s shard p
  hasState : ∀ p, s.Subscribing p shard → shard ∈ s.edgeFilterSubStates
  nodup : (s.stateOf shard).peers.Nodup

/-- An operation on one shard that subscribes to no peer. -/
structure Aside (shard : PubsubTopic) (s s' : EdgeFilter σ P) : Prop where
  unsent : ∀ q b k t, b ≠ shard → (s'.Unsent q b k t ↔ s.Unsent q b k t)
  subscribing : ∀ q b, s'.Subscribing q b ↔ s.Subscribing q b
  service : ∀ q b, b ≠ shard → s'.service q b = s.service q b
  states : ∀ b, b ≠ shard →
    s'.edgeFilterSubStates.lookup b = s.edgeFilterSubStates.lookup b
  lastSynced : s'.lastSynced = s.lastSynced
  contentTopics : ∀ b, s'.manager.contentTopics b = s.manager.contentTopics b

namespace Aside

theorem refl (s : EdgeFilter σ P) : Aside shard s s where
  unsent _ _ _ _ _ := Iff.rfl
  subscribing _ _ := Iff.rfl
  service _ _ _ := rfl
  states _ _ := rfl
  lastSynced := rfl
  contentTopics _ := rfl

theorem trans (h : Aside shard s s') (h' : Aside shard s' s'') : Aside shard s s'' where
  unsent q b k t hb := (h'.unsent q b k t hb).trans (h.unsent q b k t hb)
  subscribing q b := (h'.subscribing q b).trans (h.subscribing q b)
  service q b hb := (h'.service q b hb).trans (h.service q b hb)
  states b hb := (h'.states b hb).trans (h.states b hb)
  lastSynced := h'.lastSynced.trans h.lastSynced
  contentTopics b := (h'.contentTopics b).trans (h.contentTopics b)

theorem stateOf (h : Aside shard s s') (hb : b ≠ shard) : s'.stateOf b = s.stateOf b := by
  unfold EdgeFilter.stateOf
  rw [h.states b hb]

theorem held (h : Aside shard s s') (hb : b ≠ shard) : s'.Held q b ↔ s.Held q b := by
  unfold Held Tracked
  rw [h.stateOf hb, h.subscribing]

theorem onShard (h : Aside shard s s') (hb : b ≠ shard) (hs : OnShard T s b) : OnShard T s' b where
  peers q := (hs.peers q).congr (fun k t => h.unsent q b k t hb) (h.held hb) (h.service q b hb)
  hasState q hq := by
    have hmem := hs.hasState q ((h.subscribing q b).mp hq)
    rw [← AList.lookup_isSome] at hmem ⊢
    rw [h.states b hb]
    exact hmem
  nodup := by
    rw [h.stateOf hb]
    exact hs.nodup

end Aside

/-- An operation on the states of the shards that leaves the peers. -/
theorem OnShard.of_sameCalls (h : OnShard T s b) (hc : SameCalls s s')
    (hpeers : (s'.stateOf b).peers = (s.stateOf b).peers)
    (hmem : b ∈ s.edgeFilterSubStates → b ∈ s'.edgeFilterSubStates) : OnShard T s' b where
  peers q := by
    refine (h.peers q).congr (fun k t => hc.unsent) ?_ (by rw [hc.service])
    unfold Held Tracked
    rw [hpeers, hc.subscribing]
  hasState q hq := hmem (h.hasState q (hc.subscribing.mp hq))
  nodup := by
    rw [hpeers]
    exact h.nodup

theorem SameCalls.aside (hc : SameCalls s s')
    (hstates : ∀ b, b ≠ shard →
      s'.edgeFilterSubStates.lookup b = s.edgeFilterSubStates.lookup b) : Aside shard s s' where
  unsent _ _ _ _ _ := hc.unsent
  subscribing _ _ := hc.subscribing
  service _ _ _ := by rw [hc.service]
  states := hstates
  lastSynced := hc.lastSynced
  contentTopics := hc.contentTopics

theorem SameCalls.numbered (hc : SameCalls s s') (h : Numbered s)
    (hpending : ∀ b, ∀ id ∈ (s'.stateOf b).pending, id ∈ (s.stateOf b).pending) :
    Numbered s' where
  calls id call hlookup := by
    rw [hc.callsMade]
    rw [hc.calls] at hlookup
    exact h.calls id call hlookup
  pending b id hid := by
    rw [hc.callsMade, hc.calls]
    exact h.pending b id (hpending b id hid)

/-! ### The state of a shard -/

theorem ensureState_sameCalls : SameCalls s (s.ensureState shard) :=
  ⟨rfl, rfl, rfl, rfl, fun _ => rfl⟩

theorem stateOf_ensureState : (s.ensureState shard).stateOf b = s.stateOf b := by
  rw [stateOf_insert (s.stateOf shard) rfl]
  split_ifs with hb
  · rw [hb]
  · rfl

theorem mem_ensureState : shard ∈ (s.ensureState shard).edgeFilterSubStates :=
  AList.mem_insert _ |>.mpr (Or.inl rfl)

theorem ensureState_aside : Aside shard s (s.ensureState shard) :=
  ensureState_sameCalls.aside (fun _ hb => AList.lookup_insert_ne hb)

theorem Numbered.ensureState (h : Numbered s) : Numbered (s.ensureState shard) := by
  refine ensureState_sameCalls.numbered h (fun b id hid => ?_)
  rwa [stateOf_ensureState] at hid

theorem OnShard.ensureState (h : OnShard T s shard) : OnShard T (s.ensureState shard) shard :=
  h.of_sameCalls ensureState_sameCalls (by rw [stateOf_ensureState]) (fun _ => mem_ensureState)

theorem withState_sameCalls {f : EdgeFilterSubState P → EdgeFilterSubState P} :
    SameCalls s (s.withState shard f) := by
  unfold withState
  split <;> exact ⟨rfl, rfl, rfl, rfl, fun _ => rfl⟩

theorem withState_manager {f : EdgeFilterSubState P → EdgeFilterSubState P} :
    (s.withState shard f).manager = s.manager := by
  unfold withState
  split <;> rfl

theorem lookup_withState {f : EdgeFilterSubState P → EdgeFilterSubState P} :
    (s.withState shard f).edgeFilterSubStates.lookup b =
      if b = shard then (s.edgeFilterSubStates.lookup b).map f
      else s.edgeFilterSubStates.lookup b := by
  unfold withState
  split
  · rename_i hnone
    split_ifs with hb
    · rw [hb, hnone, Option.map_none]
    · rfl
  · rename_i state hsome
    rw [Table.lookup_insert_eq]
    split_ifs with hb
    · rw [hb, hsome, Option.map_some]
    · rfl

theorem withState_aside {f : EdgeFilterSubState P → EdgeFilterSubState P} :
    Aside shard s (s.withState shard f) :=
  withState_sameCalls.aside (fun _ hb => by rw [lookup_withState, if_neg hb])

theorem mem_withState {f : EdgeFilterSubState P → EdgeFilterSubState P} :
    b ∈ (s.withState shard f).edgeFilterSubStates ↔ b ∈ s.edgeFilterSubStates := by
  rw [← AList.lookup_isSome, ← AList.lookup_isSome, lookup_withState]
  split_ifs
  · rw [Option.isSome_map]
  · rfl

theorem stateOf_withState {f : EdgeFilterSubState P → EdgeFilterSubState P}
    (hmem : shard ∈ s.edgeFilterSubStates) :
    (s.withState shard f).stateOf shard = f (s.stateOf shard) := by
  obtain ⟨state, hstate⟩ := Table.mem_iff.mp hmem
  rw [stateOf_of_lookup hstate]
  apply stateOf_of_lookup
  rw [lookup_withState, if_pos rfl, hstate, Option.map_some]

/-- The peers of a shard stay under an update that leaves them. -/
theorem peers_withState {f : EdgeFilterSubState P → EdgeFilterSubState P}
    (hf : ∀ state, (f state).peers = state.peers) (b : PubsubTopic) :
    ((s.withState shard f).stateOf b).peers = (s.stateOf b).peers := by
  unfold stateOf
  rw [lookup_withState]
  split_ifs
  · cases s.edgeFilterSubStates.lookup b with
    | none => rfl
    | some state => exact hf state
  · rfl

theorem OnShard.withState (h : OnShard T s b) {f : EdgeFilterSubState P → EdgeFilterSubState P}
    (hf : ∀ state, (f state).peers = state.peers) : OnShard T (s.withState shard f) b :=
  h.of_sameCalls withState_sameCalls (peers_withState hf b) mem_withState.mpr

theorem Numbered.withState (h : Numbered s) {f : EdgeFilterSubState P → EdgeFilterSubState P}
    (hf : ∀ state, ∀ id ∈ (f state).pending, id ∈ state.pending) :
    Numbered (s.withState shard f) := by
  refine withState_sameCalls.numbered h (fun b id hid => ?_)
  unfold stateOf at hid ⊢
  rw [lookup_withState] at hid
  split_ifs at hid
  · cases hlookup : s.edgeFilterSubStates.lookup b with
    | none => simp [hlookup] at hid
    | some state =>
        rw [hlookup] at hid
        exact hf state id hid
  · exact hid

/-! ### Peers that do not serve the shard -/

variable [DecidableEq P] {input : PassInput P}

theorem startCall_aside (h : Numbered s) {kind : FilterCallKind}
    (hkind : kind ≠ .subscribeFilterPeer) (rpc : FilterRpc) (toSend : List FilterRpc) :
    Aside shard s (s.startCall kind p shard (rpc :: toSend)) where
  unsent q b k t hb := by
    rw [unsent_startCall h]
    simp [hb]
  subscribing q b := by
    rw [subscribing_startCall h]
    simp [hkind]
  service q b hb := service_startCall_ne (fun heq => hb heq.2)
  states _ _ := rfl
  lastSynced := rfl
  contentTopics _ := rfl

/-- What the removal of peers from a shard keeps. -/
structure Removal (T : Finset ContentTopic) (shard : PubsubTopic) (s s' : EdgeFilter σ P) :
    Prop where
  numbered : Numbered s'
  onShard : OnShard T s' shard
  aside : Aside shard s s'
  unsent : ∀ q k t, s'.Unsent q shard k t ↔ s.Unsent q shard k t
  hasState : shard ∈ s'.edgeFilterSubStates

/-- A peer leaves the state of a shard. -/
structure Untracked (shard : PubsubTopic) (p : P) (s s' : EdgeFilter σ P) : Prop where
  same : SameCalls s s'
  aside : Aside shard s s'
  tracked : ∀ q, s'.Tracked q shard ↔ q ≠ p ∧ s.Tracked q shard
  numbered : Numbered s'
  nodup : (s'.stateOf shard).peers.Nodup
  hasState : shard ∈ s'.edgeFilterSubStates

theorem untracked_of_del (hn : Numbered s) (h : OnShard T s shard) {state : EdgeFilterSubState P}
    (hstate : s.edgeFilterSubStates.lookup shard = some state) (hp : p ∈ state.peers) :
    Untracked shard p s { s with
      edgeFilterSubStates := s.edgeFilterSubStates.insert shard
        { state with peers := seqDel state.peers (state.peers.idxOf p) }
      manager := s.manager.wakeup } := by
  have hof := stateOf_of_lookup hstate
  have hnodup : state.peers.Nodup := by
    rw [← hof]
    exact h.nodup
  have hsame : SameCalls s { s with
      edgeFilterSubStates := s.edgeFilterSubStates.insert shard
        { state with peers := seqDel state.peers (state.peers.idxOf p) }
      manager := s.manager.wakeup } := ⟨rfl, rfl, rfl, rfl, fun _ => rfl⟩
  refine ⟨hsame, hsame.aside (fun b hb => AList.lookup_insert_ne hb), fun q => ?_,
    hsame.numbered hn (fun b id hid => ?_), ?_, (AList.mem_insert _).mpr (Or.inl rfl)⟩
  · unfold Tracked
    rw [stateOf_insert _ rfl, if_pos rfl, hof, (seqDel_perm hp).mem_iff]
    exact hnodup.mem_erase_iff
  · rw [stateOf_insert _ rfl] at hid
    split_ifs at hid with hb
    · rw [hb, hof]
      exact hid
    · exact hid
  · rw [stateOf_insert _ rfl, if_pos rfl, (seqDel_perm hp).nodup_iff]
    exact hnodup.erase p

namespace Untracked

omit [DecidableEq P] in
theorem not_held (h : Untracked shard p s s') (hsub : ¬ s.Subscribing p shard) :
    ¬ s'.Held p shard := by
  rintro (htracked | hsub')
  · exact ((h.tracked p).mp htracked).1 rfl
  · exact hsub (h.same.subscribing.mp hsub')

omit [DecidableEq P] in
theorem other (h : Untracked shard p s s') (hq : q ≠ p) (hs : AtPeer T s shard q) :
    AtPeer T s' shard q := by
  refine hs.congr (fun k t => h.same.unsent) ?_ (by rw [h.same.service])
  unfold Held
  rw [h.tracked, h.same.subscribing]
  simp [hq]

/-- The peer is then unsubscribed from content topics that include all it has. -/
theorem unsubscribe (h : Untracked shard p s s') (hs : OnShard T s shard)
    (hsub : ¬ s.Subscribing p shard) (hunsent : ∀ k t, ¬ s.Unsent p shard k t)
    {ct : List ContentTopic} (hct : ∀ t ∈ T, t ∈ ct) :
    Removal T shard s (s'.startCall .doUnsubscribe p shard [⟨.filterUnsubscribe, ct⟩]) := by
  have haside : Aside shard s' (s'.startCall .doUnsubscribe p shard [⟨.filterUnsubscribe, ct⟩]) :=
    startCall_aside h.numbered (by decide) _ _
  have hunsent' : ∀ q k t,
      (s'.startCall .doUnsubscribe p shard [⟨.filterUnsubscribe, ct⟩]).Unsent q shard k t ↔
        s.Unsent q shard k t := by
    intro q k t
    rw [unsent_startCall h.numbered, h.same.unsent]
    simp [not_names_nil]
  have hheld : ∀ q,
      (s'.startCall .doUnsubscribe p shard [⟨.filterUnsubscribe, ct⟩]).Held q shard ↔
        s'.Held q shard := by
    intro q
    rw [held_startCall h.numbered]
    simp
  have hnot := h.not_held hsub
  refine ⟨h.numbered.startCall, ⟨fun q => ?_, fun _ _ => h.hasState, h.nodup⟩,
    h.aside.trans haside, hunsent', h.hasState⟩
  by_cases hq : q = p
  · subst hq
    have hservice : (s'.startCall .doUnsubscribe q shard [⟨.filterUnsubscribe, ct⟩]).service q
        shard = (⟨.filterUnsubscribe, ct⟩ : FilterRpc).apply (s.service q shard) := by
      rw [service_startCall_self, h.same.service]
    refine (hs.peers q).sent hservice ?_ ?_ ?_
    · intro k t hk
      exact absurd ((hunsent' q k t).mp hk) (hunsent k t)
    · intro t ht _
      refine ⟨fun k => hunsent k t, ?_⟩
      rw [hheld]
      exact iff_of_false (fun hh => hnot hh.1) (fun hh => ht (hct t hh.2))
    · intro t _
      rw [hheld]
      exact iff_of_false (by simp) (fun hh => hnot hh.1)
  · refine (h.other hq (hs.peers q)).congr (fun k t => ?_) (hheld q)
      (service_startCall_ne (fun heq => hq heq.1))
    rw [hunsent', h.same.unsent]

/-- The peer has nothing to be unsubscribed from. -/
theorem nothing (h : Untracked shard p s s') (hs : OnShard T s shard)
    (hunsent : ∀ k t, ¬ s.Unsent p shard k t) (hT : T = ∅) : Removal T shard s s' := by
  refine ⟨h.numbered, ⟨fun q => ?_, fun _ _ => h.hasState, h.nodup⟩, h.aside,
    fun _ _ _ => h.same.unsent, h.hasState⟩
  by_cases hq : q = p
  · subst hq hT
    refine ⟨fun k t hk => absurd (h.same.unsent.mp hk) (hunsent k t),
      fun t hk => absurd (h.same.unsent.mp hk) (hunsent _ t), fun t _ => ?_⟩
    rw [h.same.service, (hs.peers q).settled t (fun k => hunsent k t)]
    simp
  · exact h.other hq (hs.peers q)

end Untracked

theorem removePeer_removal (hn : Numbered s) (h : OnShard T s shard)
    (hmem : shard ∈ s.edgeFilterSubStates) (hsub : ¬ s.Subscribing p shard)
    (hunsent : ∀ k t, ¬ s.Unsent p shard k t) (hT : T ⊆ s.manager.contentTopics shard) :
    Removal T shard s (s.removePeer input shard p) := by
  obtain ⟨state, hstate⟩ := Table.mem_iff.mp hmem
  have hct : ∀ t ∈ T, t ∈ input.topicOrder.toSeq (s.manager.contentTopics shard) :=
    fun t ht => (input.topicOrder.mem_toSeq _ t).mpr (hT ht)
  simp only [removePeer, hstate]
  split_ifs with hp hlen
  · exact (untracked_of_del hn h hstate hp).unsubscribe h hsub hunsent hct
  · refine (untracked_of_del hn h hstate hp).nothing h hunsent ?_
    refine Finset.eq_empty_of_forall_notMem (fun t ht => ?_)
    exact hlen (List.length_pos_of_mem (hct t ht))
  · exact ⟨hn, h, .refl s, fun _ _ _ => Iff.rfl, hmem⟩

theorem foldl_removePeer_removal (peers : List P) (hn : Numbered s) (h : OnShard T s shard)
    (hmem : shard ∈ s.edgeFilterSubStates)
    (hpeers : ∀ p ∈ peers, ¬ s.Subscribing p shard ∧ (∀ k t, ¬ s.Unsent p shard k t) ∧
      T ⊆ s.manager.contentTopics shard) :
    Removal T shard s (peers.foldl (fun s p => s.removePeer input shard p) s) := by
  induction peers generalizing s with
  | nil => exact ⟨hn, h, .refl s, fun _ _ _ => Iff.rfl, hmem⟩
  | cons p peers ih =>
      obtain ⟨hsub, hunsent, hT⟩ := hpeers p List.mem_cons_self
      have hfirst : Removal T shard s (s.removePeer input shard p) :=
        removePeer_removal hn h hmem hsub hunsent hT
      rw [List.foldl_cons]
      have hrest := ih hfirst.numbered hfirst.onShard hfirst.hasState (fun q hq => by
        obtain ⟨hsub', hunsent', hT'⟩ := hpeers q (List.mem_cons_of_mem _ hq)
        refine ⟨fun hs => hsub' ((hfirst.aside.subscribing q shard).mp hs),
          fun k t hk => hunsent' k t ((hfirst.unsent q k t).mp hk), ?_⟩
        rw [hfirst.aside.contentTopics]
        exact hT')
      exact ⟨hrest.numbered, hrest.onShard, hfirst.aside.trans hrest.aside,
        fun q k t => (hrest.unsent q k t).trans (hfirst.unsent q k t), hrest.hasState⟩

/-! ### What changed -/

section Deltas

variable {added removed : List ContentTopic}

/-- The added and removed topics lead from `T` to `T'`. -/
structure IsDelta (T T' : Finset ContentTopic) (added removed : List ContentTopic) : Prop where
  added : ∀ t, t ∈ added ↔ t ∈ T' ∧ t ∉ T
  removed : ∀ t, t ∈ removed ↔ t ∈ T ∧ t ∉ T'

theorem IsDelta.names (h : IsDelta T T' added removed)
    (hk : Names (chunkedFilterRpcs .filterSubscribe added ++
      chunkedFilterRpcs .filterUnsubscribe removed) k t) :
    k = .filterSubscribe ↔ t ∈ T' := by
  rcases names_append.mp hk with hk | hk
  · obtain ⟨rfl, ht⟩ := names_chunked.mp hk
    exact iff_of_true rfl ((h.added t).mp ht).1
  · obtain ⟨rfl, ht⟩ := names_chunked.mp hk
    exact iff_of_false (by decide) ((h.removed t).mp ht).2

theorem IsDelta.mem_iff_of_not_names (h : IsDelta T T' added removed)
    (hk : ∀ k, ¬ Names (chunkedFilterRpcs .filterSubscribe added ++
      chunkedFilterRpcs .filterUnsubscribe removed) k t) : t ∈ T' ↔ t ∈ T := by
  have hadded : t ∉ added := fun ht =>
    hk _ (names_append.mpr (Or.inl (names_chunked.mpr ⟨rfl, ht⟩)))
  have hremoved : t ∉ removed := fun ht =>
    hk _ (names_append.mpr (Or.inr (names_chunked.mpr ⟨rfl, ht⟩)))
  rw [h.added] at hadded
  rw [h.removed] at hremoved
  tauto

theorem IsDelta.eq (h : IsDelta T T' added removed) (hadded : added = [])
    (hremoved : removed = []) : T' = T := by
  subst hadded hremoved
  ext t
  have ha := h.added t
  have hr := h.removed t
  simp only [List.not_mem_nil, false_iff] at ha hr
  tauto

/-- The call to one tracked peer. -/
theorem syncFilterDeltas_atPeer (hn : Numbered s) (h : AtPeer T s shard p)
    (hdelta : IsDelta T T' added removed) {rpc : FilterRpc} {toSend : List FilterRpc}
    (hrpcs : chunkedFilterRpcs .filterSubscribe added ++
      chunkedFilterRpcs .filterUnsubscribe removed = rpc :: toSend)
    (hheld : s.Held p shard) (hordered : ∀ k t, s.Unsent p shard k t → (t ∈ T' ↔ t ∈ T)) :
    AtPeer T' (s.startCall .syncFilterDeltas p shard (rpc :: toSend)) shard p := by
  have hnames : ∀ {k t}, Names (rpc :: toSend) k t → (k = .filterSubscribe ↔ t ∈ T') := by
    intro k t hk
    rw [← hrpcs] at hk
    exact hdelta.names hk
  have hheld' : (s.startCall .syncFilterDeltas p shard (rpc :: toSend)).Held p shard :=
    (held_startCall hn).mpr (Or.inl hheld)
  refine h.sent service_startCall_self ?_ ?_ ?_
  · intro k t hk
    refine ⟨?_, fun _ => hheld'⟩
    rcases (unsent_startCall hn).mp hk with hold | ⟨-, -, hnew⟩
    · rw [hordered k t hold]
      exact h.unsent k t hold
    · exact hnames (names_cons.mpr (Or.inr hnew))
  · intro t ht hnone
    have hold : ∀ k, ¬ s.Unsent p shard k t :=
      fun k hk => hnone k ((unsent_startCall hn).mpr (Or.inl hk))
    have hnew : ∀ k, ¬ Names toSend k t :=
      fun k hk => hnone k ((unsent_startCall hn).mpr (Or.inr ⟨rfl, rfl, hk⟩))
    refine ⟨hold, ?_⟩
    have hsame : t ∈ T' ↔ t ∈ T := by
      refine hdelta.mem_iff_of_not_names (fun k hk => ?_)
      rw [hrpcs] at hk
      rcases names_cons.mp hk with ⟨-, hmem⟩ | hk
      · exact ht hmem
      · exact hnew k hk
    simp only [hheld, hheld', hsame]
  · intro t ht
    rw [hnames (names_cons.mpr (Or.inl ⟨rfl, ht⟩))]
    simp [hheld']

/-- The calls to the peers of a list: these go on to `T'`, the others are there. -/
theorem foldl_syncFilterDeltas (peers : List P) (hnodup : peers.Nodup) (hn : Numbered s)
    (hdelta : IsDelta T T' added removed) {rpc : FilterRpc} {toSend : List FilterRpc}
    (hrpcs : chunkedFilterRpcs .filterSubscribe added ++
      chunkedFilterRpcs .filterUnsubscribe removed = rpc :: toSend)
    (htracked : ∀ p ∈ peers, s.Tracked p shard)
    (hordered : ∀ p ∈ peers, ∀ k t, s.Unsent p shard k t → (t ∈ T' ↔ t ∈ T))
    (hpeers : ∀ p, AtPeer (if p ∈ peers then T else T') s shard p) :
    let s' := peers.foldl (fun s p => s.syncFilterDeltas p shard added removed) s
    Numbered s' ∧ Aside shard s s' ∧ s'.edgeFilterSubStates = s.edgeFilterSubStates ∧
      ∀ p, AtPeer T' s' shard p := by
  induction peers generalizing s with
  | nil => exact ⟨hn, .refl s, rfl, fun p => by simpa using hpeers p⟩
  | cons p peers ih =>
      obtain ⟨hp, hnodup'⟩ := List.nodup_cons.mp hnodup
      have hcall : s.syncFilterDeltas p shard added removed =
          s.startCall .syncFilterDeltas p shard (rpc :: toSend) := by
        rw [syncFilterDeltas, hrpcs]
      have hfirst : AtPeer T s shard p := by simpa using hpeers p
      have hunsent : ∀ q, q ≠ p → ∀ k t,
          (s.startCall .syncFilterDeltas p shard (rpc :: toSend)).Unsent q shard k t ↔
            s.Unsent q shard k t := by
        intro q hq k t
        rw [unsent_startCall hn]
        simp [hq]
      have haside : Aside shard s (s.startCall .syncFilterDeltas p shard (rpc :: toSend)) :=
        startCall_aside hn (by decide) rpc toSend
      have htracked' : ∀ q ∈ peers,
          (s.startCall .syncFilterDeltas p shard (rpc :: toSend)).Tracked q shard :=
        fun q hq => htracked q (List.mem_cons_of_mem _ hq)
      have hordered' : ∀ q ∈ peers, ∀ k t,
          (s.startCall .syncFilterDeltas p shard (rpc :: toSend)).Unsent q shard k t →
            (t ∈ T' ↔ t ∈ T) := by
        intro q hq k t hk
        have hne : q ≠ p := fun heq => hp (heq ▸ hq)
        exact hordered q (List.mem_cons_of_mem _ hq) k t ((hunsent q hne k t).mp hk)
      have hpeers' : ∀ q, AtPeer (if q ∈ peers then T else T')
          (s.startCall .syncFilterDeltas p shard (rpc :: toSend)) shard q := by
        intro q
        by_cases hq : q = p
        · subst hq
          rw [if_neg hp]
          exact syncFilterDeltas_atPeer hn hfirst hdelta hrpcs
            (Or.inl (htracked q List.mem_cons_self)) (hordered q List.mem_cons_self)
        · have hold := hpeers q
          simp only [List.mem_cons, hq, false_or] at hold
          refine hold.congr (hunsent q hq) ?_ (service_startCall_ne (fun heq => hq heq.1))
          rw [held_startCall hn]
          simp
      simp only [List.foldl_cons, hcall]
      obtain ⟨hn', haside', hstates, hall⟩ :=
        ih hnodup' hn.startCall htracked' hordered' hpeers'
      exact ⟨hn', haside.trans haside', hstates, hall⟩

theorem spawnDeltas_onShard (hn : Numbered s) (h : OnShard T s shard)
    (hdelta : IsDelta T T' added removed) (hsub : T ≠ T' → ∀ p, ¬ s.Subscribing p shard)
    (hordered : ∀ p k t, s.Unsent p shard k t → (t ∈ T' ↔ t ∈ T)) :
    let s' := s.spawnDeltas shard added removed
    Numbered s' ∧ Aside shard s s' ∧ s'.edgeFilterSubStates = s.edgeFilterSubStates ∧
      OnShard T' s' shard := by
  unfold spawnDeltas
  split_ifs with hlen
  · have hne : chunkedFilterRpcs .filterSubscribe added ++
        chunkedFilterRpcs .filterUnsubscribe removed ≠ [] := by
      intro hnil
      obtain ⟨hadded, hremoved⟩ := List.append_eq_nil_iff.mp hnil
      rcases hlen with hlen | hlen
      · exact chunked_ne_nil _ (List.ne_nil_of_length_pos hlen) hadded
      · exact chunked_ne_nil _ (List.ne_nil_of_length_pos hlen) hremoved
    obtain ⟨rpc, toSend, hrpcs⟩ := List.exists_cons_of_ne_nil hne
    have hchanged : T ≠ T' := by
      rintro rfl
      rcases hlen with hlen | hlen
      · obtain ⟨t, ht⟩ := List.exists_mem_of_length_pos hlen
        exact absurd ((hdelta.added t).mp ht).1 ((hdelta.added t).mp ht).2
      · obtain ⟨t, ht⟩ := List.exists_mem_of_length_pos hlen
        exact absurd ((hdelta.removed t).mp ht).1 ((hdelta.removed t).mp ht).2
    have hpeers : ∀ p, AtPeer (if p ∈ (s.stateOf shard).peers then T else T') s shard p := by
      intro p
      split_ifs with hp
      · exact h.peers p
      · -- a peer that is not held has nothing, whatever is wanted
        have hnot : ¬ s.Held p shard := fun hh => hh.elim hp (hsub hchanged p)
        refine ⟨fun k t hk => ?_, (h.peers p).held, fun t hnone => ?_⟩
        · rw [hordered p k t hk]
          exact (h.peers p).unsent k t hk
        · rw [(h.peers p).settled t hnone]
          simp [hnot]
    obtain ⟨hn', haside, hstates, hall⟩ := foldl_syncFilterDeltas (s.stateOf shard).peers h.nodup
      hn hdelta hrpcs (fun p hp => hp) (fun p _ => hordered p) hpeers
    refine ⟨hn', haside, hstates, hall, fun q hq => ?_, ?_⟩
    · rw [hstates]
      exact h.hasState q ((haside.subscribing q shard).mp hq)
    · rw [stateOf_congr hstates]
      exact h.nodup
  · have hsame : T' = T := by
      rw [not_or, Nat.not_lt, Nat.not_lt, Nat.le_zero, Nat.le_zero, List.length_eq_zero_iff,
        List.length_eq_zero_iff] at hlen
      exact hdelta.eq hlen.1 hlen.2
    rw [hsame]
    exact ⟨hn, .refl s, rfl, h⟩

end Deltas

/-! ### One shard of a pass -/

/-- A pass to the content topics `T'` does not overtake what is under way on a shard: no peer is
being subscribed while the topics change, no request still to be sent is about a topic that changed,
and a peer that turns out not to serve the shard has nothing under way and loses no topic. -/
structure InOrder (input : PassInput P) (T' : Finset ContentTopic) (s : EdgeFilter σ P)
    (shard : PubsubTopic) : Prop where
  settled : s.lastSynced.topics shard ≠ T' → ∀ p, ¬ s.Subscribing p shard
  ordered : ∀ p k t, s.Unsent p shard k t → (t ∈ T' ↔ t ∈ s.lastSynced.topics shard)
  dropped : ∀ p, s.Tracked p shard → input.missesShard p shard = true →
    ¬ s.Subscribing p shard ∧ (∀ k t, ¬ s.Unsent p shard k t) ∧
      s.lastSynced.topics shard ⊆ s.manager.contentTopics shard

/-- A shard that a pass can take from the content topics of the last pass to `T'`. -/
structure Ready (input : PassInput P) (T' : Finset ContentTopic) (s : EdgeFilter σ P)
    (shard : PubsubTopic) : Prop extends InOrder input T' s shard where
  onShard : OnShard (s.lastSynced.topics shard) s shard

omit [DecidableEq P] in
theorem Aside.ready (h : Aside shard s s') (hb : b ≠ shard) (hs : Ready input T s b) :
    Ready input T s' b where
  onShard := by
    rw [h.lastSynced]
    exact h.onShard hb hs.onShard
  settled hne p hp := by
    rw [h.lastSynced] at hne
    exact hs.settled hne p ((h.subscribing p b).mp hp)
  ordered p k t hk := by
    rw [h.lastSynced]
    exact hs.ordered p k t ((h.unsent p b k t hb).mp hk)
  dropped p hp hmisses := by
    unfold Tracked at hp
    rw [h.stateOf hb] at hp
    obtain ⟨hsub, hunsent, hT⟩ := hs.dropped p hp hmisses
    rw [h.lastSynced, h.contentTopics]
    exact ⟨fun hsub' => hsub ((h.subscribing p b).mp hsub'),
      fun k t hk => hunsent k t ((h.unsent p b k t hb).mp hk), hT⟩

theorem reconcile_onShard (hn : Numbered s) {newSynced : SyncedTopics}
    (h : Ready input (newSynced.topics shard) s shard) :
    let s' := s.reconcile input newSynced shard
    Numbered s' ∧ Aside shard s s' ∧ shard ∈ s'.edgeFilterSubStates ∧
      OnShard (newSynced.topics shard) s' shard := by
  have hensured : Numbered (s.ensureState shard) := hn.ensureState
  have haside₁ : Aside shard s (s.ensureState shard) := ensureState_aside
  -- the peers that do not serve the shard
  have hpeers : ∀ p ∈ ((s.ensureState shard).stateOf shard).peers.filter
      (fun p => input.missesShard p shard), ¬ (s.ensureState shard).Subscribing p shard ∧
        (∀ k t, ¬ (s.ensureState shard).Unsent p shard k t) ∧
        s.lastSynced.topics shard ⊆ (s.ensureState shard).manager.contentTopics shard := by
    intro p hp
    rw [stateOf_ensureState, List.mem_filter] at hp
    obtain ⟨hsub, hunsent, hT⟩ := h.dropped p hp.1 hp.2
    exact ⟨fun hsub' => hsub (ensureState_sameCalls.subscribing.mp hsub'),
      fun k t hk => hunsent k t (ensureState_sameCalls.unsent.mp hk), hT⟩
  have hdropped : Removal (s.lastSynced.topics shard) shard (s.ensureState shard)
      ((s.ensureState shard).dropMissing input shard) :=
    foldl_removePeer_removal _ hensured h.onShard.ensureState mem_ensureState hpeers
  -- the calls that ended
  set s₂ := (s.ensureState shard).dropMissing input shard with hs₂
  have haside₂ : Aside shard s (s₂.prunePending shard) :=
    (haside₁.trans hdropped.aside).trans withState_aside
  have hnumbered₂ : Numbered (s₂.prunePending shard) :=
    hdropped.numbered.withState (fun state id hid => (List.mem_filter.mp hid).1)
  have honShard₂ : OnShard (s.lastSynced.topics shard) (s₂.prunePending shard) shard :=
    hdropped.onShard.withState (fun _ => rfl)
  have hunsent₂ : ∀ p k t, (s₂.prunePending shard).Unsent p shard k t →
      s.Unsent p shard k t := by
    intro p k t hk
    exact ensureState_sameCalls.unsent.mp ((hdropped.unsent p k t).mp
      (withState_sameCalls.unsent.mp hk))
  -- what changed
  have hdelta : IsDelta (s.lastSynced.topics shard) (newSynced.topics shard)
      ((input.topicOrder.toSeq (newSynced.topics shard)).filter
        (fun t => t ∉ s.lastSynced.topics shard))
      ((input.topicOrder.toSeq (s.lastSynced.topics shard)).filter
        (fun t => t ∉ newSynced.topics shard)) := by
    constructor <;> intro t <;> simp [input.topicOrder.mem_toSeq]
  obtain ⟨hn', haside', hstates, honShard⟩ := spawnDeltas_onShard hnumbered₂ honShard₂ hdelta
    (fun hne p hp => h.settled hne p ((haside₂.subscribing p shard).mp hp))
    (fun p k t hk => h.ordered p k t (hunsent₂ p k t hk))
  refine ⟨hn', haside₂.trans haside', ?_, honShard⟩
  have hmem : shard ∈ (s₂.prunePending shard).edgeFilterSubStates :=
    mem_withState.mpr hdropped.hasState
  rw [← hstates] at hmem
  exact hmem

/-! ### The first step of a pass -/

/-- A task of a pass: it subscribes to all the content topics of a shard that has some. -/
structure IsTask (input : PassInput P) (newSynced : SyncedTopics)
    (task : EdgeFilterSubscribeTask P) : Prop where
  shard : task.shard ∈ newSynced
  topics : task.topics = input.topicOrder.toSeq (newSynced.topics task.shard)

theorem reconcileShards_onShard {newSynced : SyncedTopics} (shards : List PubsubTopic)
    (hnodup : shards.Nodup) {tasks : List (EdgeFilterSubscribeTask P)}
    {shardsToDelete : List PubsubTopic} (hn : Numbered s)
    (hready : ∀ shard ∈ shards, Ready input (newSynced.topics shard) s shard)
    (hdone : ∀ shard, shard ∉ shards → OnShard (newSynced.topics shard) s shard)
    (htasks : ∀ task ∈ tasks, IsTask input newSynced task ∧
      task.shard ∈ s.edgeFilterSubStates)
    (hdelete : ∀ shard ∈ shardsToDelete, shard ∉ newSynced) :
    let r := reconcileShards input newSynced shards s tasks shardsToDelete
    Numbered r.1 ∧ (∀ shard, OnShard (newSynced.topics shard) r.1 shard) ∧
      (∀ q shard, r.1.Subscribing q shard ↔ s.Subscribing q shard) ∧
      (∀ shard, r.1.manager.contentTopics shard = s.manager.contentTopics shard) ∧
      (∀ task ∈ r.2.1, IsTask input newSynced task ∧ task.shard ∈ r.1.edgeFilterSubStates) ∧
      (∀ shard ∈ r.2.2, shard ∉ newSynced ∧ (shard ∈ shardsToDelete ∨ shard ∈ shards)) := by
  induction shards generalizing s tasks shardsToDelete with
  | nil =>
      exact ⟨hn, fun shard => hdone shard List.not_mem_nil, fun _ _ => Iff.rfl, fun _ => rfl,
        htasks, fun shard hshard => ⟨hdelete shard hshard, Or.inl hshard⟩⟩
  | cons shard shards ih =>
      obtain ⟨hnot, hnodup'⟩ := List.nodup_cons.mp hnodup
      obtain ⟨hn', haside, hmem, honShard⟩ :=
        reconcile_onShard hn (hready shard List.mem_cons_self)
      set s' := s.reconcile input newSynced shard with hs'
      have hready' : ∀ b ∈ shards, Ready input (newSynced.topics b) s' b := by
        intro b hb
        exact haside.ready (fun heq => hnot (heq ▸ hb)) (hready b (List.mem_cons_of_mem _ hb))
      have hdone' : ∀ b, b ∉ shards → OnShard (newSynced.topics b) s' b := by
        intro b hb
        by_cases heq : b = shard
        · subst heq
          exact honShard
        · refine haside.onShard heq (hdone b (fun hmem' => ?_))
          rcases List.mem_cons.mp hmem' with heq' | hmem'
          · exact heq heq'
          · exact hb hmem'
      have hmem' : ∀ b, b ∈ s.edgeFilterSubStates → b ∈ s'.edgeFilterSubStates := by
        intro b hb
        by_cases heq : b = shard
        · subst heq
          exact hmem
        · rw [← AList.lookup_isSome] at hb ⊢
          rw [haside.states b heq]
          exact hb
      have htasks' : ∀ task ∈ tasks, IsTask input newSynced task ∧
          task.shard ∈ s'.edgeFilterSubStates :=
        fun task htask => ⟨(htasks task htask).1, hmem' _ (htasks task htask).2⟩
      simp only [reconcileShards]
      rw [← hs']
      split_ifs with hnew
      · have htasks'' : ∀ task ∈ tasks ++ s'.subscribeTasks input newSynced shard,
            IsTask input newSynced task ∧ task.shard ∈ s'.edgeFilterSubStates := by
          intro task htask
          rcases List.mem_append.mp htask with hold | htask
          · exact htasks' task hold
          · obtain ⟨p, -, rfl⟩ := List.mem_map.mp htask
            exact ⟨⟨hnew, rfl⟩, hmem⟩
        obtain ⟨h₁, h₂, h₃, h₄, h₅, h₆⟩ := ih hnodup' hn' hready' hdone' htasks'' hdelete
        refine ⟨h₁, h₂, fun q b => (h₃ q b).trans (haside.subscribing q b),
          fun b => (h₄ b).trans (haside.contentTopics b), h₅, fun b hb => ?_⟩
        exact ⟨(h₆ b hb).1, (h₆ b hb).2.imp_right (List.mem_cons_of_mem _)⟩
      · have hdelete' : ∀ b ∈ shardsToDelete ++ [shard], b ∉ newSynced := by
          intro b hb
          rcases List.mem_append.mp hb with hb | hb
          · exact hdelete b hb
          · rw [List.mem_singleton.mp hb]
            exact hnew
        obtain ⟨h₁, h₂, h₃, h₄, h₅, h₆⟩ := ih hnodup' hn' hready' hdone' htasks' hdelete'
        refine ⟨h₁, h₂, fun q b => (h₃ q b).trans (haside.subscribing q b),
          fun b => (h₄ b).trans (haside.contentTopics b), h₅, fun b hb => ?_⟩
        refine ⟨(h₆ b hb).1, ?_⟩
        rcases (h₆ b hb).2 with hold | hb
        · rcases List.mem_append.mp hold with hold | hb
          · exact Or.inl hold
          · exact Or.inr (List.mem_cons.mpr (Or.inl (List.mem_singleton.mp hb)))
        · exact Or.inr (List.mem_cons_of_mem _ hb)

/-! ### The second step of a pass -/

section Subscribe

variable {rpc : FilterRpc} {toSend : List FilterRpc}

/-- A subscription to all the content topics of a shard. -/
theorem subscribing_atPeer (hn : Numbered s) (h : AtPeer T s shard p)
    (hnames : ∀ k t, Names (rpc :: toSend) k t ↔ k = .filterSubscribe ∧ t ∈ T) :
    AtPeer T (s.startCall .subscribeFilterPeer p shard (rpc :: toSend)) shard p := by
  have hheld : (s.startCall .subscribeFilterPeer p shard (rpc :: toSend)).Held p shard :=
    (held_startCall hn).mpr (Or.inr ⟨rfl, rfl, rfl⟩)
  refine h.sent service_startCall_self ?_ ?_ ?_
  · intro k t hk
    refine ⟨?_, fun _ => hheld⟩
    rcases (unsent_startCall hn).mp hk with hold | ⟨-, -, hnew⟩
    · exact h.unsent k t hold
    · obtain ⟨rfl, ht⟩ := (hnames k t).mp (names_cons.mpr (Or.inr hnew))
      exact iff_of_true rfl ht
  · intro t ht hnone
    refine ⟨fun k hk => hnone k ((unsent_startCall hn).mpr (Or.inl hk)), ?_⟩
    have hnot : t ∉ T := by
      intro hT
      rcases names_cons.mp ((hnames .filterSubscribe t).mpr ⟨rfl, hT⟩) with ⟨-, hmem⟩ | hnew
      · exact ht hmem
      · exact hnone _ ((unsent_startCall hn).mpr (Or.inr ⟨rfl, rfl, hnew⟩))
    simp [hnot]
  · intro t ht
    obtain ⟨hkind, hT⟩ := (hnames rpc.kind t).mp (names_cons.mpr (Or.inl ⟨rfl, ht⟩))
    exact iff_of_true hkind ⟨hheld, hT⟩

theorem subscribing_onShard (hn : Numbered s) (h : OnShard T s b)
    (hmem : shard ∈ s.edgeFilterSubStates)
    (hnames : b = shard → ∀ k t, Names (rpc :: toSend) k t ↔ k = .filterSubscribe ∧ t ∈ T) :
    OnShard T (s.startCall .subscribeFilterPeer p shard (rpc :: toSend)) b where
  peers q := by
    by_cases hq : q = p ∧ b = shard
    · obtain ⟨rfl, rfl⟩ := hq
      exact subscribing_atPeer hn (h.peers q) (hnames rfl)
    · refine (h.peers q).congr (fun k t => ?_) ?_ (service_startCall_ne hq)
      · rw [unsent_startCall hn, ← and_assoc]
        simp [hq]
      · rw [held_startCall hn]
        simp [hq]
  hasState q hq := by
    rcases (subscribing_startCall hn).mp hq with hold | ⟨-, -, rfl⟩
    · exact h.hasState q hold
    · exact hmem
  nodup := h.nodup

/-- The call that was just made is pending on its shard. -/
theorem Numbered.pend (hn : Numbered s) :
    Numbered ((s.startCall .subscribeFilterPeer p shard (rpc :: toSend)).withState shard
      (fun state => { state with pending := state.pending ++ [s.callsMade] })) := by
  have hn' : Numbered (s.startCall .subscribeFilterPeer p shard (rpc :: toSend)) := hn.startCall
  constructor
  · intro id call hlookup
    rw [withState_sameCalls.callsMade]
    rw [withState_sameCalls.calls] at hlookup
    exact hn'.calls id call hlookup
  · intro b id hid
    rw [withState_sameCalls.callsMade, withState_sameCalls.calls]
    by_cases hold : id ∈ (s.stateOf b).pending
    · exact hn'.pending b id hold
    · -- only the new call is not pending before
      have hstates : (s.startCall .subscribeFilterPeer p shard (rpc :: toSend)).edgeFilterSubStates
          = s.edgeFilterSubStates := rfl
      have hnew : id = s.callsMade ∧ b = shard := by
        unfold stateOf at hid hold
        rw [lookup_withState, hstates] at hid
        cases hlookup : s.edgeFilterSubStates.lookup b with
        | none => simp [hlookup] at hid
        | some state =>
            rw [hlookup] at hid hold
            split_ifs at hid with hb
            · rcases List.mem_append.mp hid with hid | hid
              · exact absurd hid hold
              · exact ⟨List.mem_singleton.mp hid, hb⟩
            · exact absurd hid hold
      obtain ⟨rfl, rfl⟩ := hnew
      refine ⟨Nat.lt_succ_self _, fun call hlookup => ?_⟩
      rcases (lookup_startCall hn).mp hlookup with hcall | ⟨-, rfl⟩
      · rw [hn.fresh] at hcall
        cases hcall
      · exact ⟨rfl, rfl⟩

end Subscribe

theorem subscribeFilterPeer_onShard {newSynced : SyncedTopics} {task : EdgeFilterSubscribeTask P}
    (hn : Numbered s) (h : ∀ shard, OnShard (newSynced.topics shard) s shard)
    (htask : IsTask input newSynced task) (hmem : task.shard ∈ s.edgeFilterSubStates)
    (hne : newSynced.topics task.shard ≠ ∅) :
    let s' := s.subscribeFilterPeer task
    Numbered s' ∧ (∀ shard, OnShard (newSynced.topics shard) s' shard) ∧
      (∀ shard, shard ∈ s.edgeFilterSubStates → shard ∈ s'.edgeFilterSubStates) ∧
      s'.manager = s.manager := by
  have hmemTopics : ∀ t, t ∈ task.topics ↔ t ∈ newSynced.topics task.shard := by
    rw [htask.topics]
    exact input.topicOrder.mem_toSeq _
  have hlen : task.topics ≠ [] := by
    obtain ⟨t, ht⟩ := Finset.nonempty_iff_ne_empty.mpr hne
    exact List.ne_nil_of_mem ((hmemTopics t).mpr ht)
  obtain ⟨rpc, toSend, hrpcs⟩ := List.exists_cons_of_ne_nil
    (chunked_ne_nil .filterSubscribe hlen)
  have hnames : ∀ k t, Names (rpc :: toSend) k t ↔
      k = .filterSubscribe ∧ t ∈ newSynced.topics task.shard := by
    intro k t
    rw [← hrpcs, names_chunked, hmemTopics]
  -- the peer is pending before its first request is sent
  set s₁ := s.withState task.shard (fun state =>
    { state with pendingPeers := insert task.peer state.pendingPeers }) with hs₁
  have hn₁ : Numbered s₁ := hn.withState (fun _ _ hid => hid)
  have hmem₁ : ∀ b, b ∈ s.edgeFilterSubStates → b ∈ s₁.edgeFilterSubStates :=
    fun b hb => mem_withState.mpr hb
  have hmade : s₁.callsMade = s.callsMade := withState_sameCalls.callsMade
  have heq : s.subscribeFilterPeer task =
      (s₁.startCall .subscribeFilterPeer task.peer task.shard (rpc :: toSend)).withState task.shard
        (fun state => { state with pending := state.pending ++ [s₁.callsMade] }) := by
    rw [hmade, ← hrpcs]
    rfl
  dsimp only
  rw [heq]
  refine ⟨hn₁.pend, fun b => ?_, fun b hb => mem_withState.mpr (hmem₁ b hb), ?_⟩
  · refine OnShard.withState ?_ (fun _ => rfl)
    refine subscribing_onShard hn₁ ((h b).withState (fun _ => rfl)) (hmem₁ _ hmem) ?_
    rintro rfl
    exact hnames
  · rw [withState_manager]
    exact withState_manager

theorem foldl_subscribeFilterPeer {newSynced : SyncedTopics}
    (tasks : List (EdgeFilterSubscribeTask P)) (hn : Numbered s)
    (h : ∀ shard, OnShard (newSynced.topics shard) s shard)
    (htasks : ∀ task ∈ tasks, IsTask input newSynced task ∧ task.shard ∈ s.edgeFilterSubStates)
    (hne : ∀ shard ∈ newSynced, newSynced.topics shard ≠ ∅) :
    let s' := tasks.foldl subscribeFilterPeer s
    Numbered s' ∧ (∀ shard, OnShard (newSynced.topics shard) s' shard) ∧
      s'.manager = s.manager := by
  induction tasks generalizing s with
  | nil => exact ⟨hn, h, rfl⟩
  | cons task tasks ih =>
      obtain ⟨htask, hmem⟩ := htasks task List.mem_cons_self
      obtain ⟨hn', h', hstates, hmanager⟩ :=
        subscribeFilterPeer_onShard hn h htask hmem (hne _ htask.shard)
      obtain ⟨hn'', h'', hmanager'⟩ := ih hn' h' (fun task' htask' =>
        ⟨(htasks task' (List.mem_cons_of_mem _ htask')).1,
          hstates _ (htasks task' (List.mem_cons_of_mem _ htask')).2⟩)
      exact ⟨hn'', h'', hmanager'.trans hmanager⟩

omit [DecidableEq P] in
/-- A shard on which nothing is wanted and no peer is being subscribed loses its state. -/
theorem erase_onShard {newSynced : SyncedTopics} (hn : Numbered s)
    (h : ∀ b, OnShard (newSynced.topics b) s b) (hempty : newSynced.topics shard = ∅)
    (hsub : ∀ p, ¬ s.Subscribing p shard) :
    let s' := { s with edgeFilterSubStates := s.edgeFilterSubStates.erase shard }
    Numbered s' ∧ (∀ b, OnShard (newSynced.topics b) s' b) := by
  intro s'
  have hsame : SameCalls s s' := ⟨rfl, rfl, rfl, rfl, fun _ => rfl⟩
  have haside : Aside shard s s' := hsame.aside (fun b hb => AList.lookup_erase_ne hb)
  have hstate : s'.stateOf shard = ⟨[], [], ∅⟩ := by
    have hnone : s'.edgeFilterSubStates.lookup shard = none := AList.lookup_erase _ _
    rw [stateOf, hnone, Option.getD_none]
  refine ⟨hsame.numbered hn (fun b id hid => ?_), fun b => ?_⟩
  · by_cases hb : b = shard
    · rw [hb, hstate] at hid
      cases hid
    · rwa [haside.stateOf hb] at hid
  · by_cases hb : b = shard
    · subst hb
      have hnot : ∀ q, ¬ s'.Held q b := by
        rintro q (htracked | hsub')
        · unfold Tracked at htracked
          rw [hstate] at htracked
          cases htracked
        · exact hsub q (hsame.subscribing.mp hsub')
      have hT : ∀ t, t ∉ newSynced.topics b := by
        intro t
        rw [hempty]
        exact Finset.notMem_empty t
      refine ⟨fun q => ⟨fun k t hk => ?_, fun t hk => ?_, fun t hnone => ?_⟩, ?_, ?_⟩
      · exact ((h b).peers q).unsent k t (hsame.unsent.mp hk)
      · exact absurd ((((h b).peers q).unsent _ t (hsame.unsent.mp hk)).mp rfl) (hT t)
      · have hsettled := ((h b).peers q).settled t (fun k hk => hnone k (hsame.unsent.mpr hk))
        rw [hsame.service, hsettled]
        simp [hT t]
      · exact fun q hq => absurd (hsame.subscribing.mp hq) (hsub q)
      · rw [hstate]
        exact List.nodup_nil
    · exact haside.onShard hb (h b)

/-- Without a call to cancel, a pass runs to its end. -/
theorem finishPass_onShard {newSynced : SyncedTopics} (shardsToDelete : List PubsubTopic)
    {tasks : List (EdgeFilterSubscribeTask P)} (hn : Numbered s)
    (h : ∀ b, OnShard (newSynced.topics b) s b)
    (htasks : ∀ task ∈ tasks, IsTask input newSynced task ∧ task.shard ∈ s.edgeFilterSubStates)
    (hne : ∀ shard ∈ newSynced, newSynced.topics shard ≠ ∅)
    (hdelete : ∀ shard ∈ shardsToDelete, shard ∉ newSynced ∧ (∀ p, ¬ s.Subscribing p shard)) :
    let s' := s.finishPass tasks newSynced shardsToDelete
    Numbered s' ∧ (∀ b, OnShard (newSynced.topics b) s' b) ∧ s'.lastSynced = newSynced ∧
      s'.loop = .waiting ∧ s'.manager = s.manager := by
  induction shardsToDelete generalizing s with
  | nil =>
      obtain ⟨hn', h', hmanager⟩ := foldl_subscribeFilterPeer tasks hn h htasks hne
      exact ⟨⟨hn'.calls, hn'.pending⟩,
        fun b => ⟨fun q => ⟨((h' b).peers q).unsent, ((h' b).peers q).held,
          ((h' b).peers q).settled⟩, (h' b).hasState, (h' b).nodup⟩, rfl, rfl, hmanager⟩
  | cons shard shardsToDelete ih =>
      obtain ⟨hnot, hsub⟩ := hdelete shard List.mem_cons_self
      have hdelete' : ∀ b ∈ shardsToDelete, b ∉ newSynced ∧ (∀ p, ¬ s.Subscribing p b) :=
        fun b hb => hdelete b (List.mem_cons_of_mem _ hb)
      have hnone : s.unfinished shard = none := by
        refine List.find?_eq_none.mpr (fun id hid hcall => ?_)
        obtain ⟨p, hp⟩ := hn.subscribing hid (of_decide_eq_true hcall)
        exact hsub p hp
      have hempty : newSynced.topics shard = ∅ := by
        rw [SyncedTopics.topics, AList.lookup_eq_none.mpr hnot, Option.getD_none]
      simp only [finishPass, hnone]
      split_ifs
      · exact ih hn h htasks hdelete'
      · obtain ⟨hn', h'⟩ := erase_onShard hn h hempty hsub
        refine ih hn' h' (fun task htask => ?_) hdelete'
        refine ⟨(htasks task htask).1, ?_⟩
        have hne' : task.shard ≠ shard := by
          intro heq
          exact hnot (heq ▸ (htasks task htask).1.shard)
        rw [AList.mem_erase]
        exact ⟨hne', (htasks task htask).2⟩

/-! ### Whole passes -/

omit [DecidableEq P] in
theorem lookup_snapshot (s : EdgeFilter σ P) :
    s.snapshot.topics shard = s.manager.contentTopics shard := by
  unfold snapshot SyncedTopics.topics SubscriptionManager.contentTopics
  rw [Table.lookup_filterMapValues]
  cases s.manager.shards.lookup shard with
  | none => rfl
  | some sub =>
      by_cases hcard : 0 < sub.contentTopics.card
      · simp only [Option.bind_some, if_pos hcard, Option.map_some, Option.getD_some]
      · have hempty : sub.contentTopics = ∅ := by
          rw [← Finset.card_eq_zero]
          omega
        simp [hempty]

omit [DecidableEq P] in
theorem snapshot_ne_empty (s : EdgeFilter σ P) (hmem : shard ∈ s.snapshot) :
    s.snapshot.topics shard ≠ ∅ := by
  obtain ⟨topics, hlookup⟩ := Table.mem_iff.mp hmem
  rw [SyncedTopics.topics, hlookup, Option.getD_some]
  rw [snapshot, Table.lookup_filterMapValues, Option.bind_eq_some_iff] at hlookup
  obtain ⟨sub, -, hsub⟩ := hlookup
  split_ifs at hsub with hcard
  cases hsub
  exact Finset.card_pos.mp hcard |>.ne_empty

/-- A pass that finds every shard ready takes all of them to the content topics wanted now. -/
theorem pass_onShard (hn : Numbered s)
    (hsynced : ∀ shard ∈ s.lastSynced, s.lastSynced.topics shard ≠ ∅)
    (hready : ∀ shard, Ready input (s.manager.contentTopics shard) s shard) :
    let s' := s.pass input
    Numbered s' ∧ (∀ shard, OnShard (s'.lastSynced.topics shard) s' shard) ∧
      s'.lastSynced = s.snapshot ∧ s'.loop = .waiting ∧
      (∀ shard, s'.manager.contentTopics shard = s.manager.contentTopics shard) := by
  -- the wake-up is cleared
  set s₁ : EdgeFilter σ P := { s with manager := { s.manager with edgeFilterWakeup := false } }
    with hs₁
  have hsame : SameCalls s s₁ := ⟨rfl, rfl, rfl, rfl, fun _ => rfl⟩
  have hn₁ : Numbered s₁ := hsame.numbered hn (fun _ _ hid => hid)
  have hsnapshot : ∀ shard, s₁.snapshot.topics shard = s.manager.contentTopics shard :=
    fun shard => lookup_snapshot s
  have hready₁ : ∀ shard, Ready input (s₁.snapshot.topics shard) s₁ shard := by
    intro shard
    rw [hsnapshot]
    have h := hready shard
    exact ⟨⟨fun hne p hp => h.settled hne p (hsame.subscribing.mp hp),
      fun p k t hk => h.ordered p k t (hsame.unsent.mp hk),
      fun p hp hmisses => ⟨fun hsub => (h.dropped p hp hmisses).1 (hsame.subscribing.mp hsub),
        fun k t hk => (h.dropped p hp hmisses).2.1 k t (hsame.unsent.mp hk),
        (h.dropped p hp hmisses).2.2⟩⟩, h.onShard.of_sameCalls hsame rfl id⟩
  -- the first step
  set allShards := input.shardOrder.ofSeq (s₁.snapshot.keys ++ s₁.lastSynced.keys) with hall
  have hnodup : allShards.Nodup := by
    rw [hall, IterationOrder.ofSeq, (input.shardOrder.perm _).nodup_iff]
    exact List.nodup_dedup _
  have hmem : ∀ shard, shard ∈ allShards ↔ shard ∈ s₁.snapshot ∨ shard ∈ s₁.lastSynced := by
    intro shard
    rw [hall, IterationOrder.mem_ofSeq, List.mem_append]
    rfl
  have hdone : ∀ shard, shard ∉ allShards → OnShard (s₁.snapshot.topics shard) s₁ shard := by
    intro shard hnot
    rw [hmem, not_or] at hnot
    have hold : s₁.lastSynced.topics shard = ∅ := by
      rw [SyncedTopics.topics, AList.lookup_eq_none.mpr hnot.2, Option.getD_none]
    have hnew : s₁.snapshot.topics shard = ∅ := by
      rw [SyncedTopics.topics, AList.lookup_eq_none.mpr hnot.1, Option.getD_none]
    have honShard := (hready₁ shard).onShard
    rw [hold] at honShard
    rw [hnew]
    exact honShard
  have htasks : ∀ task ∈ ([] : List (EdgeFilterSubscribeTask P)),
      IsTask input s₁.snapshot task ∧ task.shard ∈ s₁.edgeFilterSubStates :=
    fun _ htask => absurd htask List.not_mem_nil
  have hnone : ∀ shard ∈ ([] : List PubsubTopic), shard ∉ s₁.snapshot :=
    fun _ hb => absurd hb List.not_mem_nil
  obtain ⟨h₁, h₂, h₃, h₄, h₅, h₆⟩ := reconcileShards_onShard allShards hnodup hn₁
    (fun shard _ => hready₁ shard) hdone htasks hnone
  -- the second step
  have hdelete : ∀ shard ∈ (reconcileShards input s₁.snapshot allShards s₁ [] []).2.2,
      shard ∉ s₁.snapshot ∧
        ∀ p, ¬ (reconcileShards input s₁.snapshot allShards s₁ [] []).1.Subscribing p shard := by
    intro shard hshard
    obtain ⟨hnot, hfrom⟩ := h₆ shard hshard
    refine ⟨hnot, fun p hp => ?_⟩
    have hlast : shard ∈ s.lastSynced := by
      have hin := hfrom.resolve_left List.not_mem_nil
      exact ((hmem shard).mp hin).resolve_left hnot
    have hempty : s₁.snapshot.topics shard = ∅ := by
      rw [SyncedTopics.topics, AList.lookup_eq_none.mpr hnot, Option.getD_none]
    refine (hready₁ shard).settled ?_ p ((h₃ p shard).mp hp)
    rw [hempty]
    exact hsynced shard hlast
  obtain ⟨hn', h', hlast, hloop, hmanager⟩ := finishPass_onShard _ h₁ h₂ h₅
    (fun shard hin => snapshot_ne_empty s₁ hin) hdelete
  refine ⟨hn', fun shard => ?_, hlast, hloop, fun shard => ?_⟩
  · rw [show (s.pass input).lastSynced = s₁.snapshot from hlast]
    exact h' shard
  · rw [show (s.pass input).manager = _ from hmanager]
    exact h₄ shard

end LogosDelivery.Node.EdgeFilter
