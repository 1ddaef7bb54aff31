import LogosDelivery.StoreSync.CodecRoundTrip
import LogosDelivery.StoreSync.PromisedElements

/-! # Confirmed elements

An element that arrived is to stay in the index, under its real topics, until it is pruned.  It can
be lost in two ways.  A peer may list it where the node does not find it: the node then tracks it as
promised although it is there, and the expiry of that promise removes it.  And a peer may promise
another element of the same hash while an old deadline of the arrived one is still queued: expiry
is keyed by the hash, so the old deadline removes the arrived element.  Its topics can be lost
through the recycling of topic slots, or because it arrives while it is stored as a placeholder
whose hash is no longer pending.

In a run in which no operation does any of this every arrived element is kept
(`confirmed_elements_kept`); `listedOutOfRange_drops_confirmed` is a run that loses one. -/

namespace LogosDelivery.StoreSync

open Lib (AllSteps)

/-- `e` arrived under the topics and was not pruned since. -/
def Arrived (ops : List NodeOp) (e : SyncID) (p : PubsubTopic) (c : ContentTopic) : Prop :=
  ∃ pre post, ops = pre ++ .messageIngress e p c :: post ∧ ∀ t, .prune t ∈ post → t ≤ e.time

/-- The elements that arrived and were not pruned since. -/
def HasArrived (ops : List NodeOp) (e : SyncID) : Prop := ∃ p c, Arrived ops e p c

theorem Arrived.concat {ops : List NodeOp} {e : SyncID} {p : PubsubTopic} {c : ContentTopic}
    (h : Arrived ops e p c) {op : NodeOp} (hop : ∀ t, op = .prune t → t ≤ e.time) :
    Arrived (ops ++ [op]) e p c := by
  obtain ⟨pre, post, rfl, hpost⟩ := h
  refine ⟨pre, post ++ [op], by simp, ?_⟩
  intro t ht
  rcases List.mem_append.mp ht with ht | ht
  · exact hpost t ht
  · exact hop t (List.mem_singleton.mp ht).symm

/-- What arrived in the end arrived with the last operation or before it. -/
theorem arrived_concat {ops : List NodeOp} {op : NodeOp} {e : SyncID} {p : PubsubTopic}
    {c : ContentTopic} (h : Arrived (ops ++ [op]) e p c) :
    op = .messageIngress e p c ∨ Arrived ops e p c ∧ ∀ t, op = .prune t → t ≤ e.time := by
  obtain ⟨pre, post, hsplit, hpost⟩ := h
  cases post using List.reverseRecOn with
  | nil =>
      left
      exact (List.append_inj' hsplit rfl).2 |> List.singleton_inj.mp
  | append_singleton post last =>
      right
      rw [← List.cons_append, ← List.append_assoc] at hsplit
      obtain ⟨rfl, hlast⟩ := List.append_inj' hsplit rfl
      obtain rfl := List.singleton_inj.mp hlast
      refine ⟨⟨pre, post, rfl, fun t ht => hpost t (List.mem_append_left _ ht)⟩, ?_⟩
      rintro t rfl
      exact hpost t (List.mem_append_right _ List.mem_cons_self)

namespace SyncReconciliation

/-- The operation endangers no element that arrived before: it brings no promise of one, none of
its hash while a deadline of it is queued, and no arrival at a leftover placeholder. -/
def KeepsConfirmed (s : SyncReconciliation) (arrived : SyncID → Prop) : NodeOp → Prop
  | .messageIngress id _ _ => id ∈ s.storage.elements → id.hash ∉ s.pendingSet → arrived id
  | .reconcileRound recvPayload lowerBound _ _ => ∀ x, s.Unheld recvPayload lowerBound x →
      ∀ e, arrived e → e.hash = x.hash → e ≠ x ∧ ∀ d, (e, d) ∉ s.pendingQueue
  | .expirePending _ => True
  | .prune _ => True

/-- What holds of the arrived elements, `topics` being those they arrived with. -/
structure Keeps (s : SyncReconciliation) (a : Attribution)
    (topics : SyncID → PubsubTopic → ContentTopic → Prop) : Prop where
  sound : s.storage.Sound a
  attributed : s.storage.Attributed a
  kept : ∀ e p c, topics e p c → ∃ p' c', topics e p' c' ∧ a e = some (p', c')
  /-- No promise of an arrived element is open. -/
  safe : ∀ e p c, topics e p c → e.hash ∈ s.pendingSet → ∀ d, (e, d) ∉ s.pendingQueue

variable {s : SyncReconciliation} {a : Attribution}
  {topics : SyncID → PubsubTopic → ContentTopic → Prop}

/-- One expired entry removes no arrived element. -/
theorem Keeps.expireOne (h : s.Keeps a topics) {entry : SyncID × ℤ} (he : entry ∈ s.pendingQueue) :
    ∃ a', (s.expireOne entry.1).Keeps a' topics := by
  unfold SyncReconciliation.expireOne
  split_ifs with hp
  · refine ⟨a.remove entry.1, h.sound.remove _, h.attributed.remove h.sound.wellFormed _, ?_, ?_⟩
    · intro e p c hin
      obtain ⟨p', c', hin', ha⟩ := h.kept e p c hin
      have hne : e ≠ entry.1 := by
        rintro rfl
        exact h.safe _ p c hin hp entry.2 he
      exact ⟨p', c', hin', by simp [Attribution.remove, hne, ha]⟩
    · intro e p c hin hmem
      exact h.safe e p c hin (Finset.mem_of_mem_erase hmem)
  · exact ⟨a, h⟩

theorem Keeps.foldl_expireOne (entries : List (SyncID × ℤ)) : ∀ {s : SyncReconciliation}
    {a : Attribution}, s.Keeps a topics → (∀ e ∈ entries, e ∈ s.pendingQueue) →
    ∃ a', (entries.foldl (fun self e => self.expireOne e.1) s).Keeps a' topics := by
  induction entries with
  | nil => exact fun h _ => ⟨_, h⟩
  | cons entry entries ih =>
      intro s a h hmem
      obtain ⟨a', h'⟩ := h.expireOne (hmem entry List.mem_cons_self)
      refine ih h' ?_
      intro e he
      have hqueue : (s.expireOne entry.1).pendingQueue = s.pendingQueue := by
        unfold SyncReconciliation.expireOne
        split_ifs <;> rfl
      rw [hqueue]
      exact hmem e (List.mem_cons_of_mem _ he)

/-- Expiry removes no arrived element. -/
theorem Keeps.expirePending (h : s.Keeps a topics) (now : ℤ) :
    ∃ a', (s.expirePending now).Keeps a' topics := by
  obtain ⟨a', h'⟩ := Keeps.foldl_expireOne (s.due now) h
    (fun e he => List.takeWhile_subset _ he)
  rw [expirePending_eq]
  refine ⟨a', h'.sound, h'.attributed, h'.kept, ?_⟩
  intro e p c hin hmem d hd
  have hmem' : e.hash ∈ s.pendingSet := by
    rw [foldl_expireOne_eq] at hmem
    exact (Finset.mem_sdiff.mp hmem).1
  exact h.safe e p c hin hmem' d (List.dropWhile_subset _ hd)

/-- A round that endangers no arrived element. -/
theorem Keeps.reconcileRound (h : s.Keeps a topics) {recvPayload : RangesData} {lowerBound : ℤ}
    {peerId : PeerId} {now : ℤ}
    (hgood : s.KeepsConfirmed (fun e => ∃ p c, topics e p c)
      (.reconcileRound recvPayload lowerBound peerId now))
    (hslots : s.KeepsSlots (.reconcileRound recvPayload lowerBound peerId now)) :
    ∃ a', (s.apply (.reconcileRound recvPayload lowerBound peerId now)).Keeps a' topics := by
  have hunheld : ∀ x ∈ (s.exchange recvPayload lowerBound).idsToRecv,
      s.Unheld recvPayload lowerBound x := fun x hx => unheld_of_mem_idsToRecv h.sound.wellFormed hx
  obtain ⟨a', hs', ha', hkeep, _⟩ := SeqStorage.promiseAll_attributed
    (s.exchange recvPayload lowerBound).idsToRecv h.sound h.attributed
    (fun x hx => hslots x (hunheld x hx))
  rw [apply_reconcileRound, scheduleTransfers_eq, trackPromised_eq]
  refine ⟨a', hs', ha', ?_, ?_⟩
  · intro e p c hin
    obtain ⟨p', c', hin', hae⟩ := h.kept e p c hin
    exact ⟨p', c', hin', (hkeep e (by rw [hae]; simp)).trans hae⟩
  · intro e p c hin hmem d hd
    rcases List.mem_append.mp hd with hd | hd
    · rcases Finset.mem_union.mp hmem with hmem | hmem
      · exact h.safe e p c hin hmem d hd
      · -- another element of this hash was promised
        obtain ⟨x, hx, hhash⟩ := List.mem_map.mp (List.mem_toFinset.mp hmem)
        exact (hgood x (hunheld x hx) e ⟨p, c, hin⟩ hhash.symm).2 d hd
    · obtain ⟨x, hx, hpair⟩ := List.mem_map.mp hd
      obtain ⟨rfl, _⟩ := Prod.mk.inj hpair
      exact (hgood x (hunheld x hx) x ⟨p, c, hin⟩ rfl).1 rfl

/-- An arrival at nothing that is left over. -/
theorem Keeps.messageIngress {ops : List NodeOp} (h : s.Keeps a (Arrived ops)) {id : SyncID} {p : PubsubTopic} {c : ContentTopic}
    (hgood : s.KeepsConfirmed (HasArrived ops) (.messageIngress id p c))
    (hslots : s.KeepsSlots (.messageIngress id p c)) :
    ∃ a', (s.messageIngress id p c).Keeps a' (Arrived (ops ++ [.messageIngress id p c])) := by
  obtain ⟨hs', ha'⟩ := messageIngress_attributed h.sound h.attributed hslots
  have hnoprune : ∀ e : SyncID, ∀ t, NodeOp.messageIngress id p c = .prune t → t ≤ e.time := by
    intro e t ht
    cases ht
  have hnow : Arrived (ops ++ [.messageIngress id p c]) id p c := ⟨ops, [], rfl, by simp⟩
  refine ⟨_, hs', ha', ?_, ?_⟩
  · intro e p' c' hin
    by_cases hid : e = id
    · subst hid
      by_cases hp : e.hash ∈ s.pendingSet
      · refine ⟨p, c, hnow, ?_⟩
        simp [hp, Attribution.insert, Attribution.remove]
      · cases hae : a e with
        | none =>
            refine ⟨p, c, hnow, ?_⟩
            simp [hp, Attribution.insert, hae]
        | some tc =>
            -- it is stored already, so it arrived before
            have hmem : e ∈ s.storage.elements := (h.sound.mem e).mpr (by rw [hae]; simp)
            obtain ⟨p₀, c₀, h₀⟩ := hgood hmem hp
            obtain ⟨p₁, c₁, h₁, hae₁⟩ := h.kept e p₀ c₀ h₀
            refine ⟨p₁, c₁, h₁.concat (hnoprune e), ?_⟩
            simp [hp, Attribution.insert, hae₁]
    · have hin' : Arrived ops e p' c' := by
        rcases arrived_concat hin with heq | heq
        · cases heq
          exact absurd rfl hid
        · exact heq.1
      obtain ⟨p₁, c₁, h₁, hae₁⟩ := h.kept e p' c' hin'
      refine ⟨p₁, c₁, h₁.concat (hnoprune e), ?_⟩
      by_cases hp : id.hash ∈ s.pendingSet <;> simp [hp, Attribution.insert, Attribution.remove, hid, hae₁]
  · intro e p' c' hin hmem d hd
    rw [messageIngress_pendingSet] at hmem
    rw [messageIngress_pendingQueue] at hd
    obtain ⟨hne, hmem⟩ := Finset.mem_erase.mp hmem
    rcases arrived_concat hin with heq | heq
    · cases heq
      exact hne rfl
    · exact h.safe e p' c' heq.1 hmem d hd

theorem Keeps.prune {ops : List NodeOp} (h : s.Keeps a (Arrived ops)) (t : ℤ) :
    (s.prune t).Keeps (a.prune t) (Arrived (ops ++ [.prune t])) := by
  have hback : ∀ {e p c}, Arrived (ops ++ [.prune t]) e p c → Arrived ops e p c ∧ t ≤ e.time := by
    intro e p c hin
    rcases arrived_concat hin with heq | heq
    · cases heq
    · exact ⟨heq.1, heq.2 t rfl⟩
  refine ⟨h.sound.prune t, h.attributed.prune h.sound.wellFormed t, ?_, ?_⟩
  · intro e p c hin
    obtain ⟨hin', hle⟩ := hback hin
    obtain ⟨p', c', h', hae⟩ := h.kept e p c hin'
    refine ⟨p', c', h'.concat ?_, ?_⟩
    · intro t' ht'
      cases ht'
      exact hle
    · simp [Attribution.prune, not_lt.mpr hle, hae]
  · intro e p c hin hmem d hd
    exact h.safe e p c (hback hin).1 hmem d hd

theorem Keeps.of_topics_iff {topics' : SyncID → PubsubTopic → ContentTopic → Prop}
    (h : s.Keeps a topics) (hiff : ∀ e p c, topics' e p c ↔ topics e p c) : s.Keeps a topics' := by
  have heq : topics' = topics := by
    funext e p c
    exact propext (hiff e p c)
  rw [heq]
  exact h

/-- An operation that is neither an arrival nor a prune changes nothing about what has arrived. -/
theorem arrived_concat_iff {ops : List NodeOp} {op : NodeOp}
    (hin : ∀ e p c, op ≠ .messageIngress e p c) (hpr : ∀ t, op ≠ .prune t) (e : SyncID)
    (p : PubsubTopic) (c : ContentTopic) : Arrived (ops ++ [op]) e p c ↔ Arrived ops e p c := by
  constructor
  · intro h
    rcases arrived_concat h with heq | heq
    · exact absurd heq (hin e p c)
    · exact heq.1
  · intro h
    exact h.concat (fun t ht => absurd ht (hpr t))

/-- **One operation** that endangers no arrived element keeps them all. -/
theorem Keeps.apply {ops : List NodeOp} (h : s.Keeps a (Arrived ops)) {op : NodeOp}
    (hgood : s.KeepsConfirmed (HasArrived ops) op) (hslots : s.KeepsSlots op) :
    ∃ a', (s.apply op).Keeps a' (Arrived (ops ++ [op])) := by
  cases op with
  | messageIngress id p c => exact h.messageIngress hgood hslots
  | reconcileRound payload lowerBound peerId now =>
      obtain ⟨a', h'⟩ := h.reconcileRound hgood hslots
      exact ⟨a', h'.of_topics_iff (arrived_concat_iff (by simp) (by simp))⟩
  | expirePending now =>
      obtain ⟨a', h'⟩ := h.expirePending now
      exact ⟨a', h'.of_topics_iff (arrived_concat_iff (by simp) (by simp))⟩
  | prune t => exact ⟨_, h.prune t⟩

/-- **Confirmed elements are kept.**  In a run of a new node whose operations endanger no arrived
element and overwrite no topic slot in use, every element that arrived and was not pruned since is
in the index, under topics with which it arrived. -/
theorem confirmed_elements_kept (node : SyncReconciliation) (hnew : node.New) (ops : List NodeOp)
    (hgood : AllSteps (fun pre op => (node.after pre).KeepsConfirmed (HasArrived pre) op ∧
      (node.after pre).KeepsSlots op) ops) :
    ∀ pre, pre <+: ops → ∀ e, HasArrived pre e → ∃ (i : ℕ) (p : PubsubTopic) (c : ContentTopic),
      Arrived pre e p c ∧ (node.after pre).storage.elements[i]? = some e ∧
        (node.after pre).storage.topicsAt i = some (p, c) := by
  intro pre hpre
  have hkeeps : ∃ a, (node.after pre).Keeps a (Arrived pre) := by
    refine Lib.run_induction (P := fun pre => ∃ a, (node.after pre).Keeps a (Arrived pre)) ?_ ?_ pre
      (hgood.of_initial hpre)
    · have hnone : ∀ {e p c}, ¬ Arrived [] e p c := by
        rintro e p c ⟨pre, post, h, _⟩
        simp at h
      refine ⟨fun _ => none, ?_, ?_, fun e p c h => absurd h hnone, fun e p c h => absurd h hnone⟩
      · rw [after_nil, hnew.storage]
        exact sound_storageAfter _ _ []
      · rw [after_nil, hnew.storage]
        exact SeqStorage.attributed_empty _ _
    · rintro pre op ⟨hconf, hslots⟩ ⟨a, h⟩
      rw [after_concat]
      exact h.apply hconf hslots
  obtain ⟨a, h⟩ := hkeeps
  rintro e ⟨p, c, hin⟩
  obtain ⟨p', c', hin', hae⟩ := h.kept e p c hin
  obtain ⟨i, hi⟩ := List.mem_iff_getElem?.mp ((h.sound.mem e).mpr (by rw [hae]; simp))
  exact ⟨i, p', c', hin', hi, (h.attributed.topicsAt_eq h.sound.wellFormed hi).trans hae⟩

/-- A payload that lists an element at time `5` for the range up to time `3`. -/
def outOfRangePayload : RangesData :=
  RangesData.ofEntries 1 []
    [(⟨SyncID.zero, SyncID.atTime 3⟩,
      .itemSet { elements := [⟨5, fullFingerprint⟩], reconciled := true })]

/-- An element arrives, a peer lists it out of range, and the promise expires. -/
def listedOutOfRange : List NodeOp :=
  [.messageIngress ⟨5, fullFingerprint⟩ "/waku/2/rs/1/0" "/a",
    .reconcileRound outOfRangePayload 0 "peer" 0, .expirePending 10]

/-- The decoder accepts the payload, the element arrived and nothing was pruned, and still it is
gone. -/
theorem listedOutOfRange_drops_confirmed :
    (∃ buffer, RangesData.deltaDecode Lib.leb128 buffer = .ok outOfRangePayload) ∧
      emptyNode.New ∧ Chronological listedOutOfRange ∧
      HasArrived listedOutOfRange ⟨5, fullFingerprint⟩ ∧
      (⟨5, fullFingerprint⟩ : SyncID) ∉ (emptyNode.after listedOutOfRange).storage.elements := by
  refine ⟨⟨(outOfRangePayload.deltaEncode Lib.leb128).getD [], by rfl⟩, ⟨⟨rfl, rfl, rfl⟩, rfl⟩,
    by decide, ?_, by decide⟩
  exact ⟨_, _, [], _, rfl, by simp⟩

/-- An element arrives. -/
def oneArrival : List NodeOp :=
  [] ++ [.messageIngress ⟨5, fullFingerprint⟩ "/waku/2/rs/1/0" "/a"]

/-- Then a peer lists it together with an element that is promised, and the promise expires. -/
def promisedInOrder : List NodeOp :=
  oneArrival ++
    [.reconcileRound (listing [⟨5, fullFingerprint⟩, ⟨6, constFingerprint 1⟩]) 0 "peer" 0] ++
    [.expirePending 10]

/-- Only the element that is not stored is promised. -/
theorem oneArrival_unheld {x : SyncID} (h : (emptyNode.after oneArrival).Unheld
    (listing [⟨5, fullFingerprint⟩, ⟨6, constFingerprint 1⟩]) 0 x) : x = ⟨6, constFingerprint 1⟩ := by
  obtain ⟨p, r, set, earlier, later, hpre, hmem, hsplit, hcase⟩ := h
  have hpre' : (emptyNode.after oneArrival).preProcessPayload
      (listing [⟨5, fullFingerprint⟩, ⟨6, constFingerprint 1⟩]) 0 =
      some (some (listing [⟨5, fullFingerprint⟩, ⟨6, constFingerprint 1⟩])) := by decide
  obtain rfl := Option.some.inj (Option.some.inj (hpre'.symm.trans hpre))
  obtain ⟨rfl, rfl⟩ := Prod.mk.inj (List.mem_singleton.mp hmem)
  cases earlier with
  | nil =>
      obtain ⟨rfl, _⟩ := List.cons.inj hsplit
      rcases hcase with hcase | ⟨y, hy, _⟩
      · exact absurd (by decide) hcase
      · simp at hy
  | cons e earlier =>
      obtain ⟨_, hsplit⟩ := List.cons.inj hsplit
      cases earlier with
      | nil =>
          obtain ⟨rfl, _⟩ := List.cons.inj hsplit
          rfl
      | cons e' earlier => simp at hsplit

theorem promisedInOrder_keeps_confirmed :
    ∃ (i : ℕ) (p : PubsubTopic) (c : ContentTopic),
      Arrived promisedInOrder ⟨5, fullFingerprint⟩ p c ∧
        (emptyNode.after promisedInOrder).storage.elements[i]? = some ⟨5, fullFingerprint⟩ ∧
        (emptyNode.after promisedInOrder).storage.topicsAt i = some (p, c) := by
  refine confirmed_elements_kept emptyNode ⟨⟨rfl, rfl, rfl⟩, rfl⟩ promisedInOrder ?_ _
    (List.prefix_refl _) _ ⟨_, _, [], _, rfl, by simp⟩
  refine ((Lib.allSteps_nil.concat ?_).concat ?_).concat ⟨trivial, trivial⟩
  · refine ⟨fun h => absurd h (by decide), ?_⟩
    rintro ⟨_, h | h⟩ <;> exact absurd h.2 (by decide)
  · refine ⟨?_, ?_⟩
    · rintro x hx e ⟨p, c, he⟩ hhash
      obtain rfl := oneArrival_unheld hx
      exfalso
      rcases arrived_concat he with heq | ⟨⟨pre, post, heq, _⟩, _⟩
      · cases heq
        exact absurd hhash (by decide)
      · simp at heq
    · rintro x hx ⟨_, h | h⟩ <;> exact absurd h.2 (by decide)

end SyncReconciliation

end LogosDelivery.StoreSync
