import LogosDelivery.Node.EdgeFilterPass
import LogosDelivery.Node.SubscriptionBookkeeping

/-! # When the filter subscriptions of an edge node converge

In every quiescent state each tracked peer has exactly the wanted content topics, provided that no
pass overtakes what is under way (`InOrder`).  A pass that does can leave a peer that was being
subscribed with the topics of the pass before, or be undone by a request of the pass before
(`converges_not_after`). -/

namespace LogosDelivery.Node

open Lib
open StoreSync (PubsubTopic ContentTopic)

/-! ### The manager wakes the loop -/

namespace SubscriptionManager

variable {σ : Type} {G : GossipSub σ} {m : SubscriptionManager σ} {shard : PubsubTopic}

theorem doRelaySubscribe_wakeup :
    (m.doRelaySubscribe G shard).edgeFilterWakeup = m.edgeFilterWakeup := by
  unfold doRelaySubscribe
  split
  · rfl
  · split_ifs <;> rfl

theorem doRelayUnsubscribe_wakeup :
    (m.doRelayUnsubscribe G shard).edgeFilterWakeup = m.edgeFilterWakeup := by
  unfold doRelayUnsubscribe
  split
  · rfl
  · split_ifs <;> rfl

/-- The loop is woken, or nothing changed for it. -/
def Wakes (m m' : SubscriptionManager σ) : Prop :=
  m'.edgeFilterWakeup = true ∨
    (m'.edgeFilterWakeup = m.edgeFilterWakeup ∧
      ∀ shard, m'.contentTopics shard = m.contentTopics shard)

theorem wakes_subscribe (contentTopic : ContentTopic) :
    Wakes m (m.subscribe G shard contentTopic).1 := by
  unfold subscribe
  split
  · split_ifs
    · refine Or.inr ⟨doRelaySubscribe_wakeup, fun b => ?_⟩
      rw [contentTopics, doRelaySubscribe_shards]
      rfl
    · exact Or.inl doRelaySubscribe_wakeup
  · exact Or.inl doRelaySubscribe_wakeup

theorem wakes_unsubscribe (contentTopic : ContentTopic) :
    Wakes m (m.unsubscribe G shard contentTopic).1 := by
  unfold unsubscribe
  split
  · split_ifs
    · refine Or.inl ?_
      dsimp only [emit, reduceEntry]
      split_ifs
      · rfl
      · exact doRelayUnsubscribe_wakeup
    · exact Or.inr ⟨rfl, fun _ => rfl⟩
  · exact Or.inr ⟨rfl, fun _ => rfl⟩

end SubscriptionManager

namespace EdgeFilter

variable {σ P : Type} [DecidableEq P] {G : GossipSub σ} {s : EdgeFilter σ P} {shard : PubsubTopic}
  {p : P}

/-- The loop is idle without a wake-up, and no request is in flight. -/
def quiescent (s : EdgeFilter σ P) : Bool :=
  match s.loop with
  | .waiting => !s.manager.edgeFilterWakeup && decide (s.calls.keys = [])
  | _ => false

/-- The subscriptions of every shard lead to the content topics of the last pass, and these are the
wanted ones unless a pass is to come. -/
structure Converging (s : EdgeFilter σ P) : Prop where
  numbered : Numbered s
  shards : ∀ shard, OnShard (s.lastSynced.topics shard) s shard
  synced : ∀ shard ∈ s.lastSynced, s.lastSynced.topics shard ≠ ∅
  loop : s.loop = .waiting ∨ s.loop = .debouncing
  awake : s.loop = .waiting → s.manager.edgeFilterWakeup = false →
    ∀ shard, s.manager.contentTopics shard = s.lastSynced.topics shard

omit [DecidableEq P] in
theorem new_converging : Converging (new : EdgeFilter σ P) := by
  have hunsent : ∀ p shard k t, ¬ (new : EdgeFilter σ P).Unsent p shard k t := by
    rintro p shard k t ⟨id, call, hlookup, -⟩
    cases hlookup
  have hsub : ∀ p shard, ¬ (new : EdgeFilter σ P).Subscribing p shard := by
    rintro p shard ⟨id, call, hlookup, -⟩
    cases hlookup
  refine ⟨⟨fun _ _ hlookup => ?_, fun _ _ hid => ?_⟩, fun shard => ⟨fun p =>
    ⟨fun k t hk => absurd hk (hunsent p shard k t), fun t hk => absurd hk (hunsent p shard _ t),
      fun t _ => ?_⟩, fun p hp => absurd hp (hsub p shard), List.nodup_nil⟩, fun shard hmem => ?_,
    Or.inl rfl, fun _ _ _ => rfl⟩
  · cases hlookup
  · cases hid
  · exact iff_of_false (Finset.notMem_empty t) (fun hh => Finset.notMem_empty t hh.2)
  · exact absurd hmem (AList.notMem_empty shard)

/-! ### Answers -/

section Answer

variable {id : ℕ} {call : FilterCall P} {T : PubsubTopic → Finset ContentTopic} {q : P}
  {b : PubsubTopic} {k : SendChunkedFilterRpcKind} {t : ContentTopic}

/-- The next request of a call is sent. -/
def sendNext (s : EdgeFilter σ P) (id : ℕ) (call : FilterCall P) (rpc : FilterRpc)
    (toSend : List FilterRpc) : EdgeFilter σ P :=
  { s with calls := s.calls.insert id { call with toSend := toSend } }.send call.peer call.shard rpc

section Next

variable {rpc : FilterRpc} {toSend : List FilterRpc}

/-- A call stays the one it is, and what it has to send is what it had. -/
theorem lookup_sendNext (hlookup : s.calls.lookup id = some call)
    (hsend : call.toSend = rpc :: toSend) {j : ℕ} {c : FilterCall P}
    (hc : (s.sendNext id call rpc toSend).calls.lookup j = some c) :
    ∃ c₀, s.calls.lookup j = some c₀ ∧ c.kind = c₀.kind ∧ c.peer = c₀.peer ∧ c.shard = c₀.shard ∧
      ∀ k t, Names c.toSend k t → Names c₀.toSend k t := by
  have hcalls : (s.sendNext id call rpc toSend).calls =
      s.calls.insert id { call with toSend := toSend } := rfl
  rw [hcalls, Table.lookup_insert_eq] at hc
  split_ifs at hc with hj
  · cases hc
    refine ⟨call, hj ▸ hlookup, rfl, rfl, rfl, fun k t hk => ?_⟩
    rw [hsend]
    exact names_cons.mpr (Or.inr hk)
  · exact ⟨c, hc, rfl, rfl, rfl, fun _ _ hk => hk⟩

theorem lookup_sendNext_self :
    (s.sendNext id call rpc toSend).calls.lookup id = some { call with toSend := toSend } :=
  AList.lookup_insert _

theorem lookup_sendNext_ne {j : ℕ} (hj : j ≠ id) :
    (s.sendNext id call rpc toSend).calls.lookup j = s.calls.lookup j :=
  AList.lookup_insert_ne hj

theorem unsent_of_sendNext (hlookup : s.calls.lookup id = some call)
    (hsend : call.toSend = rpc :: toSend) (h : (s.sendNext id call rpc toSend).Unsent q b k t) :
    s.Unsent q b k t := by
  obtain ⟨j, c, hc, hpeer, hshard, hk⟩ := h
  obtain ⟨c₀, hc₀, -, hpeer', hshard', hnames⟩ := lookup_sendNext hlookup hsend hc
  exact ⟨j, c₀, hc₀, hpeer' ▸ hpeer, hshard' ▸ hshard, hnames k t hk⟩

/-- What is no longer to be sent was sent. -/
theorem unsent_sendNext (hlookup : s.calls.lookup id = some call)
    (hsend : call.toSend = rpc :: toSend) (h : s.Unsent q b k t) :
    (s.sendNext id call rpc toSend).Unsent q b k t ∨
      (q = call.peer ∧ b = call.shard ∧ k = rpc.kind ∧ t ∈ rpc.topics) := by
  obtain ⟨j, c, hc, rfl, rfl, hk⟩ := h
  by_cases hj : j = id
  · subst hj
    rw [hlookup] at hc
    cases hc
    rw [hsend] at hk
    rcases names_cons.mp hk with ⟨rfl, ht⟩ | hk
    · exact Or.inr ⟨rfl, rfl, rfl, ht⟩
    · exact Or.inl ⟨j, { call with toSend := toSend }, lookup_sendNext_self, rfl, rfl, hk⟩
  · exact Or.inl ⟨j, c, (lookup_sendNext_ne hj).trans hc, rfl, rfl, hk⟩

theorem subscribing_sendNext (hlookup : s.calls.lookup id = some call)
    (hsend : call.toSend = rpc :: toSend) :
    (s.sendNext id call rpc toSend).Subscribing q b ↔ s.Subscribing q b := by
  constructor
  · rintro ⟨j, c, hc, hkind, hpeer, hshard⟩
    obtain ⟨c₀, hc₀, hkind', hpeer', hshard', -⟩ := lookup_sendNext hlookup hsend hc
    exact ⟨j, c₀, hc₀, hkind' ▸ hkind, hpeer' ▸ hpeer, hshard' ▸ hshard⟩
  · rintro ⟨j, c, hc, hkind, hpeer, hshard⟩
    by_cases hj : j = id
    · subst hj
      rw [hlookup] at hc
      cases hc
      exact ⟨j, { call with toSend := toSend }, lookup_sendNext_self, hkind, hpeer, hshard⟩
    · exact ⟨j, c, (lookup_sendNext_ne hj).trans hc, hkind, hpeer, hshard⟩

theorem held_sendNext (hlookup : s.calls.lookup id = some call)
    (hsend : call.toSend = rpc :: toSend) :
    (s.sendNext id call rpc toSend).Held q b ↔ s.Held q b := by
  have hstate : (s.sendNext id call rpc toSend).stateOf b = s.stateOf b := rfl
  unfold Held Tracked
  rw [hstate, subscribing_sendNext hlookup hsend]

theorem Numbered.sendNext (hn : Numbered s) (hlookup : s.calls.lookup id = some call)
    (hsend : call.toSend = rpc :: toSend) : Numbered (s.sendNext id call rpc toSend) where
  calls j c hc := by
    obtain ⟨c₀, hc₀, -⟩ := lookup_sendNext hlookup hsend hc
    exact hn.calls j c₀ hc₀
  pending b j hj := by
    obtain ⟨hlt, hcall⟩ := hn.pending b j hj
    refine ⟨hlt, fun c hc => ?_⟩
    obtain ⟨c₀, hc₀, hkind, -, hshard, -⟩ := lookup_sendNext hlookup hsend hc
    rw [hkind, hshard]
    exact hcall c₀ hc₀

/-- The request that is sent goes where the subscriptions of the peer lead. -/
theorem AtPeer.sendNext {T : Finset ContentTopic} (h : AtPeer T s call.shard call.peer)
    (hlookup : s.calls.lookup id = some call) (hsend : call.toSend = rpc :: toSend) :
    AtPeer T (s.sendNext id call rpc toSend) call.shard call.peer := by
  have hrpc : ∀ t ∈ rpc.topics, s.Unsent call.peer call.shard rpc.kind t := by
    intro t ht
    refine ⟨id, call, hlookup, rfl, rfl, ?_⟩
    rw [hsend]
    exact names_cons.mpr (Or.inl ⟨rfl, ht⟩)
  have hservice : (s.sendNext id call rpc toSend).service call.peer call.shard =
      rpc.apply (s.service call.peer call.shard) := by
    simp [EdgeFilter.sendNext, send]
  refine h.sent hservice ?_ ?_ ?_
  · intro k t hk
    have hold := unsent_of_sendNext hlookup hsend hk
    refine ⟨h.unsent k t hold, ?_⟩
    rintro rfl
    exact (held_sendNext hlookup hsend).mpr (h.held t hold)
  · intro t ht hnone
    refine ⟨fun k hk => ?_, by rw [held_sendNext hlookup hsend]⟩
    rcases unsent_sendNext hlookup hsend hk with hk | ⟨-, -, -, hmem⟩
    · exact hnone k hk
    · exact ht hmem
  · intro t ht
    rw [held_sendNext hlookup hsend]
    constructor
    · intro hkind
      refine ⟨h.held t ?_, (h.unsent _ t (hrpc t ht)).mp hkind⟩
      rw [← hkind]
      exact hrpc t ht
    · exact fun hh => (h.unsent _ t (hrpc t ht)).mpr hh.2

theorem OnShard.sendNext {T : Finset ContentTopic} (h : OnShard T s b)
    (hlookup : s.calls.lookup id = some call) (hsend : call.toSend = rpc :: toSend) :
    OnShard T (s.sendNext id call rpc toSend) b where
  peers q := by
    by_cases hq : q = call.peer ∧ b = call.shard
    · obtain ⟨rfl, rfl⟩ := hq
      exact (h.peers _).sendNext hlookup hsend
    · have hservice : (s.sendNext id call rpc toSend).service q b = s.service q b := by
        simp [EdgeFilter.sendNext, send, hq]
      refine (h.peers q).congr (fun k t => ⟨unsent_of_sendNext hlookup hsend, fun hk => ?_⟩)
        (held_sendNext hlookup hsend) hservice
      rcases unsent_sendNext hlookup hsend hk with hk | ⟨hpeer, hshard, -⟩
      · exact hk
      · exact absurd ⟨hpeer, hshard⟩ hq
  hasState q hq := h.hasState q ((subscribing_sendNext hlookup hsend).mp hq)
  nodup := h.nodup

end Next

section Ended

omit [DecidableEq P] in
theorem lookup_erased {j : ℕ} {c : FilterCall P} :
    ({ s with calls := s.calls.erase id } : EdgeFilter σ P).calls.lookup j = some c ↔
      j ≠ id ∧ s.calls.lookup j = some c := by
  have hcalls : ({ s with calls := s.calls.erase id } : EdgeFilter σ P).calls =
      s.calls.erase id := rfl
  rw [hcalls, Table.lookup_erase_eq]
  split_ifs with hj
  · simp [hj]
  · simp [hj]

omit [DecidableEq P] in
theorem Numbered.erased (hn : Numbered s) :
    Numbered ({ s with calls := s.calls.erase id } : EdgeFilter σ P) where
  calls j c hc := hn.calls j c (lookup_erased.mp hc).2
  pending b j hj := ⟨(hn.pending b j hj).1,
    fun c hc => (hn.pending b j hj).2 c (lookup_erased.mp hc).2⟩

omit [DecidableEq P] in
theorem unsent_erased (hlookup : s.calls.lookup id = some call) (hsend : call.toSend = []) :
    ({ s with calls := s.calls.erase id } : EdgeFilter σ P).Unsent q b k t ↔
      s.Unsent q b k t := by
  constructor
  · rintro ⟨j, c, hc, hrest⟩
    exact ⟨j, c, (lookup_erased.mp hc).2, hrest⟩
  · rintro ⟨j, c, hc, hpeer, hshard, hk⟩
    refine ⟨j, c, lookup_erased.mpr ⟨?_, hc⟩, hpeer, hshard, hk⟩
    rintro rfl
    rw [hlookup] at hc
    cases hc
    rw [hsend] at hk
    exact not_names_nil hk

omit [DecidableEq P] in
theorem subscribing_of_erased
    (h : ({ s with calls := s.calls.erase id } : EdgeFilter σ P).Subscribing q b) :
    s.Subscribing q b := by
  obtain ⟨j, c, hc, hrest⟩ := h
  exact ⟨j, c, (lookup_erased.mp hc).2, hrest⟩

omit [DecidableEq P] in
theorem subscribing_erased (hlookup : s.calls.lookup id = some call) (h : s.Subscribing q b) :
    ({ s with calls := s.calls.erase id } : EdgeFilter σ P).Subscribing q b ∨
      (call.kind = .subscribeFilterPeer ∧ q = call.peer ∧ b = call.shard) := by
  obtain ⟨j, c, hc, hkind, rfl, rfl⟩ := h
  by_cases hj : j = id
  · subst hj
    rw [hlookup] at hc
    cases hc
    exact Or.inr ⟨hkind, rfl, rfl⟩
  · exact Or.inl ⟨j, c, lookup_erased.mpr ⟨hj, hc⟩, hkind, rfl, rfl⟩

omit [DecidableEq P] in
/-- A call that ends without a request to send leaves the subscriptions where they lead. -/
theorem OnShard.of_ended {T : Finset ContentTopic} {s' : EdgeFilter σ P} (h : OnShard T s b)
    (hlookup : s.calls.lookup id = some call) (hsend : call.toSend = [])
    (hsame : SameCalls { s with calls := s.calls.erase id } s')
    (hheld : ∀ q, s'.Held q b ↔ s.Held q b) (hnodup : (s'.stateOf b).peers.Nodup)
    (hmem : b ∈ s.edgeFilterSubStates → b ∈ s'.edgeFilterSubStates) : OnShard T s' b where
  peers q := by
    refine (h.peers q).congr (fun k t => ?_) (hheld q) (by rw [hsame.service])
    rw [hsame.unsent, unsent_erased hlookup hsend]
  hasState q hq := hmem (h.hasState q (subscribing_of_erased (hsame.subscribing.mp hq)))
  nodup := hnodup

/-- A peer is tracked at the end of its subscription. -/
theorem tracked_withState {peer : P} {f : EdgeFilterSubState P → EdgeFilterSubState P}
    (hf : ∀ state, (f state).peers =
      if peer ∈ state.peers then state.peers else state.peers ++ [peer])
    (hmem : shard ∈ s.edgeFilterSubStates) :
    (s.withState shard f).Tracked q b ↔ s.Tracked q b ∨ (q = peer ∧ b = shard) := by
  unfold Tracked
  by_cases hb : b = shard
  · subst hb
    rw [stateOf_withState hmem, hf]
    split_ifs with hpeer
    · constructor
      · exact Or.inl
      · rintro (hq | ⟨rfl, -⟩)
        · exact hq
        · exact hpeer
    · rw [List.mem_append, List.mem_singleton]
      simp
  · rw [withState_aside.stateOf hb]
    simp [hb]

theorem answer_ended (hn : Numbered s) (h : ∀ b, OnShard (T b) s b)
    (hlookup : s.calls.lookup id = some call) (hsend : call.toSend = []) :
    let s' := { s with calls := s.calls.erase id }.finish call.kind call.peer call.shard
    Numbered s' ∧ (∀ b, OnShard (T b) s' b) ∧ s'.lastSynced = s.lastSynced ∧
      s'.loop = s.loop ∧ s'.manager = s.manager := by
  have hother : call.kind ≠ .subscribeFilterPeer →
      ∀ b, OnShard (T b) ({ s with calls := s.calls.erase id } : EdgeFilter σ P) b := by
    intro hkind b
    refine (h b).of_ended hlookup hsend ⟨rfl, rfl, rfl, rfl, fun _ => rfl⟩ (fun q => ?_)
      (h b).nodup (fun hmem => hmem)
    refine or_congr Iff.rfl ⟨subscribing_of_erased, fun hq => ?_⟩
    exact (subscribing_erased hlookup hq).resolve_right (fun hcall => hkind hcall.1)
  cases hkind : call.kind with
  | syncFilterDeltas =>
      exact ⟨hn.erased, hother (by rw [hkind]; decide), rfl, rfl, rfl⟩
  | doUnsubscribe =>
      exact ⟨hn.erased, hother (by rw [hkind]; decide), rfl, rfl, rfl⟩
  | subscribeFilterPeer =>
      have hsub : s.Subscribing call.peer call.shard := ⟨id, call, hlookup, hkind, rfl, rfl⟩
      have hmem : call.shard ∈ s.edgeFilterSubStates := (h call.shard).hasState _ hsub
      set s₁ : EdgeFilter σ P := { s with calls := s.calls.erase id } with hs₁
      set f : EdgeFilterSubState P → EdgeFilterSubState P := fun state =>
        { state with
          peers := if call.peer ∈ state.peers then state.peers else state.peers ++ [call.peer]
          pendingPeers := state.pendingPeers.erase call.peer } with hf
      have htracked : ∀ q b, (s₁.withState call.shard f).Tracked q b ↔
          s.Tracked q b ∨ (q = call.peer ∧ b = call.shard) :=
        fun q b => tracked_withState (s := s₁) (fun _ => rfl) hmem
      have hfinish : s₁.finish .subscribeFilterPeer call.peer call.shard =
          s₁.withState call.shard f := rfl
      dsimp only
      rw [hfinish]
      refine ⟨hn.erased.withState (fun _ _ hid => hid), fun b => ?_,
        withState_sameCalls.lastSynced, ?_, withState_manager⟩
      · refine (h b).of_ended hlookup hsend withState_sameCalls (fun q => ?_) ?_
          (fun hb => mem_withState.mpr hb)
        · unfold Held
          rw [htracked, withState_sameCalls.subscribing]
          constructor
          · rintro ((hq | ⟨rfl, rfl⟩) | hq)
            · exact Or.inl hq
            · exact Or.inr hsub
            · exact Or.inr (subscribing_of_erased hq)
          · rintro (hq | hq)
            · exact Or.inl (Or.inl hq)
            · rcases subscribing_erased hlookup hq with hq | ⟨-, hq⟩
              · exact Or.inr hq
              · exact Or.inl (Or.inr hq)
        · by_cases hb : b = call.shard
          · subst hb
            have hstate : s₁.stateOf call.shard = s.stateOf call.shard := rfl
            have hnodup := (h call.shard).nodup
            rw [stateOf_withState (s := s₁) hmem, hstate, hf]
            dsimp only
            split_ifs with hpeer
            · exact hnodup
            · rw [← List.concat_eq_append]
              exact hnodup.concat hpeer
          · rw [withState_aside.stateOf hb]
            exact (h b).nodup
      · unfold withState
        split <;> rfl

end Ended

theorem answer_onShard (hn : Numbered s) (h : ∀ b, OnShard (T b) s b) (id : ℕ) :
    Numbered (s.answer id) ∧ (∀ b, OnShard (T b) (s.answer id) b) ∧
      (s.answer id).lastSynced = s.lastSynced ∧ (s.answer id).loop = s.loop ∧
      (s.answer id).manager = s.manager := by
  unfold answer
  split
  · exact ⟨hn, h, rfl, rfl, rfl⟩
  · rename_i call hlookup
    split
    · rename_i hsend
      exact answer_ended hn h hlookup hsend
    · rename_i rpc toSend hsend
      exact ⟨hn.sendNext hlookup hsend, fun b => (h b).sendNext hlookup hsend, rfl, rfl, rfl⟩

end Answer

/-! ### Runs -/

/-- A step that is no pass, or a pass that overtakes nothing that is under way on any shard. -/
def PassInOrder (G : GossipSub σ) (pre : List (Action P)) (a : Action P) : Prop :=
  ∀ input, a = .pass input → (after G pre).loop = .debouncing →
    ∀ shard, InOrder input ((after G pre).manager.contentTopics shard) (after G pre) shard

omit [DecidableEq P] in
/-- An action of the application on the manager. -/
theorem Converging.of_wakes (h : Converging s) {m : SubscriptionManager σ}
    (hm : SubscriptionManager.Wakes s.manager m) : Converging { s with manager := m } where
  numbered := ⟨h.numbered.calls, h.numbered.pending⟩
  shards b := ⟨fun q => ⟨((h.shards b).peers q).unsent, ((h.shards b).peers q).held,
    ((h.shards b).peers q).settled⟩, (h.shards b).hasState, (h.shards b).nodup⟩
  synced := h.synced
  loop := h.loop
  awake hwaiting hwakeup b := by
    rcases hm with htrue | ⟨hsame, htopics⟩
    · have hfalse : m.edgeFilterWakeup = false := hwakeup
      rw [hfalse] at htrue
      cases htrue
    · exact (htopics b).trans (h.awake hwaiting (hsame ▸ hwakeup) b)

theorem Converging.pass (h : Converging s) (input : PassInput P)
    (hinput : ∀ shard, InOrder input (s.manager.contentTopics shard) s shard) :
    Converging (s.pass input) := by
  obtain ⟨hn, hshards, hlast, hloop, htopics⟩ := pass_onShard h.numbered h.synced
    (fun shard => ⟨hinput shard, h.shards shard⟩)
  refine ⟨hn, hshards, fun shard hmem => ?_, Or.inl hloop, fun _ _ shard => ?_⟩
  · rw [hlast] at hmem ⊢
    exact snapshot_ne_empty s hmem
  · rw [hlast, lookup_snapshot]
    exact htopics shard

theorem Converging.step (h : Converging s) (a : Action P)
    (ha : ∀ input, a = .pass input → s.loop = .debouncing →
      ∀ shard, InOrder input (s.manager.contentTopics shard) s shard) :
    Converging (s.step G a) := by
  cases a with
  | subscribe shard contentTopic =>
      exact h.of_wakes (SubscriptionManager.wakes_subscribe contentTopic)
  | unsubscribe shard contentTopic =>
      exact h.of_wakes (SubscriptionManager.wakes_unsubscribe contentTopic)
  | wakeup => exact h.of_wakes (Or.inl rfl)
  | debounce =>
      rcases h.loop with hloop | hloop <;> simp only [EdgeFilter.step, hloop]
      · split_ifs
        · exact ⟨⟨h.numbered.calls, h.numbered.pending⟩, fun b => ⟨fun q =>
            ⟨((h.shards b).peers q).unsent, ((h.shards b).peers q).held,
              ((h.shards b).peers q).settled⟩, (h.shards b).hasState, (h.shards b).nodup⟩,
            h.synced, Or.inr rfl, nofun⟩
        · exact h
      · exact h
  | pass input =>
      rcases h.loop with hloop | hloop <;> simp only [EdgeFilter.step, hloop]
      · exact h
      · exact h.pass input (ha input rfl hloop)
  | cancelled =>
      rcases h.loop with hloop | hloop <;> simp only [EdgeFilter.step, hloop] <;> exact h
  | answer id =>
      simp only [EdgeFilter.step]
      obtain ⟨hn, hshards, hlast, hloop, hmanager⟩ := answer_onShard h.numbered h.shards id
      refine ⟨hn, ?_, ?_, ?_, ?_⟩
      · rw [hlast]
        exact hshards
      · rw [hlast]
        exact h.synced
      · rw [hloop]
        exact h.loop
      · rw [hloop, hmanager, hlast]
        exact h.awake

theorem after_converging (G : GossipSub σ) (actions : List (Action P))
    (h : AllSteps (PassInOrder G) actions) : Converging (after G actions) := by
  refine run_induction (P := fun actions => Converging (after G actions)) new_converging ?_
    actions h
  intro pre a ha hpre
  rw [after, run_concat]
  exact hpre.step a ha

omit [DecidableEq P] in
/-- In a quiescent state the subscriptions are where they lead. -/
theorem Converging.quiescent (h : Converging s) (hq : s.quiescent = true)
    (htracked : s.Tracked p shard) : s.service p shard = s.manager.contentTopics shard := by
  have hidle : s.loop = .waiting ∧ s.manager.edgeFilterWakeup = false ∧ s.calls.keys = [] := by
    unfold EdgeFilter.quiescent at hq
    split at hq
    · rename_i hloop
      rw [Bool.and_eq_true, Bool.not_eq_true', decide_eq_true_eq] at hq
      exact ⟨hloop, hq⟩
    · cases hq
  obtain ⟨hloop, hwakeup, hcalls⟩ := hidle
  have hunsent : ∀ k t, ¬ s.Unsent p shard k t := by
    rintro k t ⟨id, call, hlookup, -⟩
    have hmem : id ∈ s.calls.keys := Table.mem_iff.mpr ⟨call, hlookup⟩
    rw [hcalls] at hmem
    cases hmem
  ext t
  rw [((h.shards shard).peers p).settled t (fun k => hunsent k t), h.awake hloop hwakeup shard]
  exact and_iff_right (Or.inl htracked)

/-- In every run whose passes overtake nothing that is under way, every quiescent state has each
tracked peer of each shard filter-subscribed to exactly the content topics wanted there. -/
theorem converges_after (G : GossipSub σ) (actions : List (Action P))
    (h : AllSteps (PassInOrder G) actions) (hq : (after G actions).quiescent = true) :
    ∀ shard p, (after G actions).Tracked p shard →
      (after G actions).service p shard = (after G actions).manager.contentTopics shard :=
  fun _ _ htracked => (after_converging G actions h).quiescent hq htracked

/-! ### Concrete runs -/

/-- A mesh that keeps the handlers of each topic. -/
def handlerLists : GossipSub (PubsubTopic → List ℕ) where
  init := fun _ => []
  topics := fun s t => s t
  subscribe := fun s t h t' => if t' = t then s t ++ [h] else s t'
  unsubscribe := fun s t h t' => if t' = t then (s t).filter (fun h' => h' ≠ h) else s t'
  topics_init := fun _ => rfl
  topics_subscribe := fun _ _ _ _ => rfl
  topics_unsubscribe := fun _ _ _ _ => rfl

/-- The sets of the topics `a` and `b` in this order, and other sets sorted. -/
def abSeq (s : Finset ContentTopic) : List ContentTopic :=
  if s ⊆ {"a", "b"} then ["a", "b"].filter (fun t => t ∈ s) else SubscriptionManager.sortedTopics s

theorem abSeq_nodup (s : Finset ContentTopic) : (abSeq s).Nodup := by
  unfold abSeq
  split_ifs
  · exact List.Nodup.filter _ (by decide)
  · exact s.sort_nodup (· ≤ ·)

theorem mem_abSeq (s : Finset ContentTopic) (t : ContentTopic) : t ∈ abSeq s ↔ t ∈ s := by
  unfold abSeq
  split_ifs with hs
  · have hab : t ∈ s → t = "a" ∨ t = "b" := fun ht => by simpa using hs ht
    simpa using hab
  · exact Finset.mem_sort (· ≤ ·)

/-- A pass for which the peer manager offers one peer, which serves every shard. -/
def onePeer : PassInput ℕ where
  topicOrder := ⟨abSeq, abSeq_nodup, mem_abSeq⟩
  shardOrder := ⟨id, fun l => List.Perm.refl l⟩
  missesShard := fun _ _ => false
  selectPeers := fun _ => [0]
  staticFilterPeer := fun _ => none

/-- The application subscribes to `b` while a peer is being subscribed to `a`. -/
def whileSubscribing : List (Action ℕ) :=
  [.subscribe "s" "a", .debounce, .pass onePeer, .subscribe "s" "b", .debounce, .pass onePeer,
    .answer 0]

/-- The application drops `a` for `b` and takes it up again while the request for `b` is in flight,
after which the peer is unsubscribed from `a`. -/
def outOfOrder : List (Action ℕ) :=
  [.subscribe "s" "a", .debounce, .pass onePeer, .answer 0, .subscribe "s" "b",
    .unsubscribe "s" "a", .debounce, .pass onePeer, .subscribe "s" "a", .debounce, .pass onePeer,
    .answer 1, .answer 2, .answer 1]

/-- Two quiescent states in which the tracked peer lacks a wanted content topic. -/
theorem converges_not_after :
    ((after handlerLists whileSubscribing).quiescent = true ∧
      (after handlerLists whileSubscribing).Tracked 0 "s" ∧
      (after handlerLists whileSubscribing).service 0 "s" = {"a"} ∧
      (after handlerLists whileSubscribing).manager.contentTopics "s" = {"a", "b"}) ∧
    ((after handlerLists outOfOrder).quiescent = true ∧
      (after handlerLists outOfOrder).Tracked 0 "s" ∧
      (after handlerLists outOfOrder).service 0 "s" = {"b"} ∧
      (after handlerLists outOfOrder).manager.contentTopics "s" = {"a", "b"}) := by
  unfold Tracked
  decide +kernel

/-- A pass that starts without a call under way overtakes nothing. -/
theorem passInOrder_of_calls {G : GossipSub σ} {pre : List (Action ℕ)} {a : Action ℕ}
    (ha : ∀ input, a = .pass input → input = onePeer ∧ (after G pre).calls.keys = []) :
    PassInOrder G pre a := by
  intro input heq _ shard
  obtain ⟨rfl, hcalls⟩ := ha input heq
  have hnone : ∀ {id call}, (after G pre).calls.lookup id = some call → False := by
    intro id call hlookup
    have hmem : id ∈ (after G pre).calls.keys := Table.mem_iff.mpr ⟨call, hlookup⟩
    rw [hcalls] at hmem
    cases hmem
  refine ⟨fun _ p hp => ?_, fun p k t hk => ?_, fun p _ hmisses => ?_⟩
  · obtain ⟨id, call, hlookup, -⟩ := hp
    exact hnone hlookup
  · obtain ⟨id, call, hlookup, -⟩ := hk
    exact (hnone hlookup).elim
  · cases hmisses

/-- The application subscribes to `b` after the peer was subscribed to `a`. -/
def oneAfterTheOther : List (Action ℕ) :=
  [.subscribe "s" "a", .debounce, .pass onePeer, .answer 0, .subscribe "s" "b", .debounce,
    .pass onePeer, .answer 1]

theorem converges_oneAfterTheOther :
    AllSteps (PassInOrder handlerLists) oneAfterTheOther ∧
    (after handlerLists oneAfterTheOther).quiescent = true ∧
    ∀ shard p, (after handlerLists oneAfterTheOther).Tracked p shard →
      (after handlerLists oneAfterTheOther).service p shard =
        (after handlerLists oneAfterTheOther).manager.contentTopics shard := by
  have hsteps : AllSteps (PassInOrder handlerLists) oneAfterTheOther := by
    refine allSteps_of_get (fun i => passInOrder_of_calls (fun input heq => ?_))
    fin_cases i <;> cases heq
    · exact ⟨rfl, by decide +kernel⟩
    · exact ⟨rfl, by decide +kernel⟩
  have hq : (after handlerLists oneAfterTheOther).quiescent = true := by decide +kernel
  exact ⟨hsteps, hq, converges_after handlerLists oneAfterTheOther hsteps hq⟩

end EdgeFilter

end LogosDelivery.Node
