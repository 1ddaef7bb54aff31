import LogosDelivery.Node.EdgeFilter

/-! # What the calls of an edge node still have to send

For the subscriptions of a peer on a shard three things count: what the service has (`service`),
what the calls still have to send (`Unsent`) and whether the peer is tracked or becomes so
(`Held`).  `AtPeer` says that these lead to a set of content topics: every request still to be sent
goes there, and what no request is about is there.  One lemma says what a request that is sent does
to it (`AtPeer.sent`); the calls of the loop are instances of it. -/

namespace LogosDelivery.Node

open Lib
open StoreSync (PubsubTopic ContentTopic)

/-! ### Requests -/

/-- Some of the requests are of the kind and about the content topic. -/
def Names (rpcs : List FilterRpc) (kind : SendChunkedFilterRpcKind) (t : ContentTopic) : Prop :=
  ∃ rpc ∈ rpcs, rpc.kind = kind ∧ t ∈ rpc.topics

section Requests

variable {kind k : SendChunkedFilterRpcKind} {t : ContentTopic} {rpcs rpcs' : List FilterRpc}

theorem names_append : Names (rpcs ++ rpcs') k t ↔ Names rpcs k t ∨ Names rpcs' k t := by
  simp only [Names, List.mem_append, or_and_right, exists_or]

theorem names_cons {rpc : FilterRpc} :
    Names (rpc :: rpcs) k t ↔ (rpc.kind = k ∧ t ∈ rpc.topics) ∨ Names rpcs k t := by
  simp only [Names, List.mem_cons, or_and_right, exists_or, exists_eq_left]

theorem not_names_nil : ¬ Names [] k t := by
  rintro ⟨rpc, hrpc, -⟩
  cases hrpc

theorem mem_apply {rpc : FilterRpc} {topics : Finset ContentTopic} :
    t ∈ rpc.apply topics ↔
      if t ∈ rpc.topics then rpc.kind = .filterSubscribe else t ∈ topics := by
  unfold FilterRpc.apply
  split_ifs with hmem <;> cases hkind : rpc.kind <;> simp [hmem]

/-- The requests of a list of content topics are about the topics of the list. -/
theorem names_chunked {topics : List ContentTopic} :
    Names (chunkedFilterRpcs kind topics) k t ↔ k = kind ∧ t ∈ topics := by
  constructor
  · rintro ⟨rpc, hrpc, rfl, ht⟩
    obtain ⟨n, -, rfl⟩ := List.mem_map.mp hrpc
    exact ⟨rfl, List.mem_of_mem_take (List.mem_of_mem_drop ht)⟩
  · rintro ⟨rfl, ht⟩
    obtain ⟨j, hj, rfl⟩ := List.mem_iff_getElem.mp ht
    refine ⟨_, List.mem_map.mpr ⟨j / MaxContentTopicsPerRequest, ?_, rfl⟩, rfl, ?_⟩
    · rw [List.mem_range]
      unfold MaxContentTopicsPerRequest
      omega
    · have hlow := Nat.div_mul_le_self j MaxContentTopicsPerRequest
      have hhigh : j < j / MaxContentTopicsPerRequest * MaxContentTopicsPerRequest +
          MaxContentTopicsPerRequest := by
        unfold MaxContentTopicsPerRequest
        omega
      refine List.mem_iff_getElem?.mpr ⟨j - j / MaxContentTopicsPerRequest *
        MaxContentTopicsPerRequest, ?_⟩
      rw [List.getElem?_drop, List.getElem?_take, Nat.add_sub_cancel' hlow, if_pos (by omega),
        List.getElem?_eq_getElem hj]

theorem chunked_ne_nil (kind : SendChunkedFilterRpcKind) {topics : List ContentTopic}
    (h : topics ≠ []) :
    chunkedFilterRpcs kind topics ≠ [] := by
  intro hnil
  obtain ⟨t, ht⟩ := List.exists_mem_of_ne_nil topics h
  have hnames : Names (chunkedFilterRpcs kind topics) kind t := names_chunked.mpr ⟨rfl, ht⟩
  rw [hnil] at hnames
  exact not_names_nil hnames

end Requests

/-! ### Sequences -/

theorem seqDel_perm {α : Type} [DecidableEq α] {l : List α} {a : α} (h : a ∈ l) :
    (seqDel l (l.idxOf a)).Perm (l.erase a) := by
  obtain ⟨pre, post, rfl, hpre⟩ := List.eq_append_cons_of_mem h
  have hidx : (pre ++ a :: post).idxOf a = pre.length := by
    rw [List.idxOf_append_of_notMem hpre, List.idxOf_cons_self, Nat.add_zero]
  have herase : (pre ++ a :: post).erase a = pre ++ post := by
    rw [List.erase_append_right _ hpre, List.erase_cons_head]
  rw [hidx, herase]
  cases post using List.reverseRecOn with
  | nil => simp [seqDel]
  | append_singleton post last =>
      have hlast : (pre ++ a :: (post ++ [last])).getLast? = some last := by
        simp [List.getLast?_append, List.getLast?_cons]
      have hset : (pre ++ a :: (post ++ [last])).set pre.length last =
          (pre ++ last :: post) ++ [last] := by
        simp
      simp only [seqDel, hlast, hset, List.dropLast_concat]
      exact List.Perm.append_left pre (List.perm_append_singleton last post).symm

namespace EdgeFilter

variable {σ P : Type}

/-! ### Views of the state -/

/-- A call still has to send a request of the kind to the peer, about the content topic. -/
def Unsent (s : EdgeFilter σ P) (p : P) (shard : PubsubTopic) (k : SendChunkedFilterRpcKind)
    (t : ContentTopic) : Prop :=
  ∃ id call, s.calls.lookup id = some call ∧ call.peer = p ∧ call.shard = shard ∧
    Names call.toSend k t

/-- A `subscribeFilterPeer` call to the peer did not end. -/
def Subscribing (s : EdgeFilter σ P) (p : P) (shard : PubsubTopic) : Prop :=
  ∃ id call, s.calls.lookup id = some call ∧ call.kind = .subscribeFilterPeer ∧ call.peer = p ∧
    call.shard = shard

def Tracked (s : EdgeFilter σ P) (p : P) (shard : PubsubTopic) : Prop :=
  p ∈ (s.stateOf shard).peers

/-- The peer is tracked or becomes so. -/
def Held (s : EdgeFilter σ P) (p : P) (shard : PubsubTopic) : Prop :=
  s.Tracked p shard ∨ s.Subscribing p shard

/-- The subscriptions of a peer on a shard lead to the content topics `T`, or to none for a peer
that is not held. -/
structure AtPeer (T : Finset ContentTopic) (s : EdgeFilter σ P) (shard : PubsubTopic) (p : P) :
    Prop where
  unsent : ∀ k t, s.Unsent p shard k t → (k = .filterSubscribe ↔ t ∈ T)
  held : ∀ t, s.Unsent p shard .filterSubscribe t → s.Held p shard
  settled : ∀ t, (∀ k, ¬ s.Unsent p shard k t) →
    (t ∈ s.service p shard ↔ s.Held p shard ∧ t ∈ T)

section AtPeer

variable {T T' : Finset ContentTopic} {s s' : EdgeFilter σ P} {shard : PubsubTopic} {p : P}

/-- A request is sent, after which `T'` is what the subscriptions lead to. -/
theorem AtPeer.sent (h : AtPeer T s shard p) {rpc : FilterRpc}
    (hservice : s'.service p shard = rpc.apply (s.service p shard))
    (hunsent : ∀ k t, s'.Unsent p shard k t →
      (k = .filterSubscribe ↔ t ∈ T') ∧ (k = .filterSubscribe → s'.Held p shard))
    (hrest : ∀ t, t ∉ rpc.topics → (∀ k, ¬ s'.Unsent p shard k t) →
      (∀ k, ¬ s.Unsent p shard k t) ∧ (s'.Held p shard ∧ t ∈ T' ↔ s.Held p shard ∧ t ∈ T))
    (hrpc : ∀ t ∈ rpc.topics, (rpc.kind = .filterSubscribe ↔ s'.Held p shard ∧ t ∈ T')) :
    AtPeer T' s' shard p where
  unsent k t hk := (hunsent k t hk).1
  held t hk := (hunsent _ t hk).2 rfl
  settled t hnone := by
    rw [hservice, mem_apply]
    split_ifs with hmem
    · exact hrpc t hmem
    · obtain ⟨hnone', hsame⟩ := hrest t hmem hnone
      rw [hsame]
      exact h.settled t hnone'

/-- Nothing changes for the peer. -/
theorem AtPeer.congr (h : AtPeer T s shard p)
    (hunsent : ∀ k t, s'.Unsent p shard k t ↔ s.Unsent p shard k t)
    (hheld : s'.Held p shard ↔ s.Held p shard)
    (hservice : s'.service p shard = s.service p shard) : AtPeer T s' shard p where
  unsent k t hk := h.unsent k t ((hunsent k t).mp hk)
  held t hk := hheld.mpr (h.held t ((hunsent _ t).mp hk))
  settled t hnone := by
    rw [hservice, hheld]
    exact h.settled t (fun k hk => hnone k ((hunsent k t).mpr hk))

end AtPeer

/-! ### The numbers of the calls -/

/-- Calls are numbered in the order in which they are made, and the pending calls of a shard are
`subscribeFilterPeer` calls on it. -/
structure Numbered (s : EdgeFilter σ P) : Prop where
  calls : ∀ id call, s.calls.lookup id = some call → id < s.callsMade
  pending : ∀ shard, ∀ id ∈ (s.stateOf shard).pending, id < s.callsMade ∧
    ∀ call, s.calls.lookup id = some call → call.kind = .subscribeFilterPeer ∧ call.shard = shard

variable {s s' : EdgeFilter σ P} {shard b : PubsubTopic} {p q : P} {t : ContentTopic}
  {k : SendChunkedFilterRpcKind}

theorem Numbered.fresh (h : Numbered s) : s.calls.lookup s.callsMade = none := by
  cases hlookup : s.calls.lookup s.callsMade with
  | none => rfl
  | some call => exact absurd (h.calls _ _ hlookup) (lt_irrefl _)

/-- A pending call of a shard that did not end is a subscription on the shard. -/
theorem Numbered.subscribing (h : Numbered s) {id : ℕ} (hid : id ∈ (s.stateOf shard).pending)
    (hcall : id ∈ s.calls) : ∃ p, s.Subscribing p shard := by
  obtain ⟨call, hlookup⟩ := Table.mem_iff.mp hcall
  obtain ⟨hkind, hshard⟩ := (h.pending shard id hid).2 call hlookup
  exact ⟨call.peer, id, call, hlookup, hkind, rfl, hshard⟩

/-! ### States of shards -/

theorem stateOf_congr (h : s'.edgeFilterSubStates = s.edgeFilterSubStates) (shard : PubsubTopic) :
    s'.stateOf shard = s.stateOf shard := by
  unfold stateOf
  rw [h]

theorem stateOf_insert (state : EdgeFilterSubState P)
    (h : s'.edgeFilterSubStates = s.edgeFilterSubStates.insert shard state) (b : PubsubTopic) :
    s'.stateOf b = if b = shard then state else s.stateOf b := by
  unfold stateOf
  rw [h, Table.lookup_insert_eq]
  split_ifs <;> rfl

theorem stateOf_of_lookup {state : EdgeFilterSubState P}
    (h : s.edgeFilterSubStates.lookup shard = some state) : s.stateOf shard = state := by
  rw [stateOf, h, Option.getD_some]

/-- What an operation on the states of the shards leaves as it is. -/
structure SameCalls (s s' : EdgeFilter σ P) : Prop where
  calls : s'.calls = s.calls
  callsMade : s'.callsMade = s.callsMade
  service : s'.service = s.service
  lastSynced : s'.lastSynced = s.lastSynced
  contentTopics : ∀ shard, s'.manager.contentTopics shard = s.manager.contentTopics shard

namespace SameCalls

theorem unsent (h : SameCalls s s') : s'.Unsent p shard k t ↔ s.Unsent p shard k t := by
  unfold Unsent
  rw [h.calls]

theorem subscribing (h : SameCalls s s') : s'.Subscribing p shard ↔ s.Subscribing p shard := by
  unfold Subscribing
  rw [h.calls]

end SameCalls

/-! ### Calls that start -/

variable [DecidableEq P]

section StartCall

variable {kind : FilterCallKind} {rpc : FilterRpc} {toSend : List FilterRpc}

theorem lookup_startCall (h : Numbered s) {id : ℕ} {call : FilterCall P} :
    (s.startCall kind p shard (rpc :: toSend)).calls.lookup id = some call ↔
      s.calls.lookup id = some call ∨ (id = s.callsMade ∧ call = ⟨kind, p, shard, toSend⟩) := by
  have hcalls : (s.startCall kind p shard (rpc :: toSend)).calls =
      s.calls.insert s.callsMade ⟨kind, p, shard, toSend⟩ := rfl
  rw [hcalls, Table.lookup_insert_eq]
  split_ifs with hid
  · subst hid
    simp [h.fresh, eq_comm]
  · simp [hid]

theorem unsent_startCall (h : Numbered s) :
    (s.startCall kind p shard (rpc :: toSend)).Unsent q b k t ↔
      s.Unsent q b k t ∨ (q = p ∧ b = shard ∧ Names toSend k t) := by
  constructor
  · rintro ⟨id, call, hlookup, rfl, rfl, hnames⟩
    rcases (lookup_startCall h).mp hlookup with hold | ⟨-, rfl⟩
    · exact Or.inl ⟨id, call, hold, rfl, rfl, hnames⟩
    · exact Or.inr ⟨rfl, rfl, hnames⟩
  · rintro (⟨id, call, hlookup, hrest⟩ | ⟨rfl, rfl, hnames⟩)
    · exact ⟨id, call, (lookup_startCall h).mpr (Or.inl hlookup), hrest⟩
    · exact ⟨_, _, (lookup_startCall h).mpr (Or.inr ⟨rfl, rfl⟩), rfl, rfl, hnames⟩

theorem subscribing_startCall (h : Numbered s) :
    (s.startCall kind p shard (rpc :: toSend)).Subscribing q b ↔
      s.Subscribing q b ∨ (kind = .subscribeFilterPeer ∧ q = p ∧ b = shard) := by
  constructor
  · rintro ⟨id, call, hlookup, hkind, rfl, rfl⟩
    rcases (lookup_startCall h).mp hlookup with hold | ⟨-, rfl⟩
    · exact Or.inl ⟨id, call, hold, hkind, rfl, rfl⟩
    · exact Or.inr ⟨hkind, rfl, rfl⟩
  · rintro (⟨id, call, hlookup, hrest⟩ | ⟨rfl, rfl, rfl⟩)
    · exact ⟨id, call, (lookup_startCall h).mpr (Or.inl hlookup), hrest⟩
    · exact ⟨_, _, (lookup_startCall h).mpr (Or.inr ⟨rfl, rfl⟩), rfl, rfl, rfl⟩

theorem held_startCall (h : Numbered s) :
    (s.startCall kind p shard (rpc :: toSend)).Held q b ↔
      s.Held q b ∨ (kind = .subscribeFilterPeer ∧ q = p ∧ b = shard) := by
  have hstate : (s.startCall kind p shard (rpc :: toSend)).stateOf b = s.stateOf b := rfl
  unfold Held Tracked
  rw [hstate, subscribing_startCall h, or_assoc]

theorem service_startCall_self :
    (s.startCall kind p shard (rpc :: toSend)).service p shard =
      rpc.apply (s.service p shard) := by
  simp [startCall, send]

theorem service_startCall_ne (h : ¬ (q = p ∧ b = shard)) :
    (s.startCall kind p shard (rpc :: toSend)).service q b = s.service q b := by
  simp [startCall, send, h]

theorem Numbered.startCall (h : Numbered s) :
    Numbered (s.startCall kind p shard (rpc :: toSend)) where
  calls id call hlookup := by
    rcases (lookup_startCall h).mp hlookup with hold | ⟨rfl, -⟩
    · exact Nat.lt_succ_of_lt (h.calls id call hold)
    · exact Nat.lt_succ_self _
  pending b id hid := by
    obtain ⟨hlt, hcall⟩ := h.pending b id hid
    refine ⟨Nat.lt_succ_of_lt hlt, fun call hlookup => ?_⟩
    rcases (lookup_startCall h).mp hlookup with hold | ⟨rfl, -⟩
    · exact hcall call hold
    · exact absurd hlt (lt_irrefl _)

end StartCall

end EdgeFilter

end LogosDelivery.Node
