import LogosDelivery.StoreSync.CodecRoundTrip
import LogosDelivery.StoreSync.Deferred
import LogosDelivery.StoreSync.PromisedElements

/-! # Placeholders

A promised element is stored under the pending topic until it arrives or its promise expires.  The
pending set is keyed by the hash alone, so two placeholders of one hash and different times get in
each other's way: when one of them arrives or expires, the hash leaves the pending set, the later
entries of the queue are passed over and the other placeholder stays for good
(`sameHashTwice_leaves_placeholder`).

In a run in which this does not happen every placeholder is promised, and its expiry or its arrival
takes it out (`placeholders_promised`). -/

namespace LogosDelivery.StoreSync

open Lib (AllSteps)

namespace SyncReconciliation

variable {s : SyncReconciliation} {a : Attribution} {times : List ℤ}

/-- `x` is stored under the pending topic. -/
def HeldPending (s : SyncReconciliation) (x : SyncID) : Prop :=
  ∃ i c, s.storage.elements[i]? = some x ∧ s.storage.topicsAt i = some (pendingPubsubTopic, c)

/-- The hash of `x` is pending, and `x` has a deadline. -/
def Promised (s : SyncReconciliation) (x : SyncID) : Prop :=
  x.hash ∈ s.pendingSet ∧ ∃ d, (x, d) ∈ s.pendingQueue

/-- The element of the first due entry with the hash. -/
def firstDue (s : SyncReconciliation) (now : ℤ) (h : WakuMessageHash) : Option SyncID :=
  ((s.due now).find? (fun e => decide (e.1.hash = h))).map Prod.fst

/-- The operation takes no hash out of the pending set under which another element is held, and
brings no message under the pending topic. -/
def NoTwin (s : SyncReconciliation) : NodeOp → Prop
  | .messageIngress id p _ =>
      (id.hash ∈ s.pendingSet ∨ id ∉ s.storage.elements → p ≠ pendingPubsubTopic) ∧
        ∀ x, s.HeldPending x → x.hash = id.hash → x = id
  | .reconcileRound _ _ _ _ => True
  | .expirePending now => ∀ x, s.HeldPending x → ∀ id, s.firstDue now x.hash = some id → x = id
  | .prune _ => True

theorem heldPending_iff (hs : s.storage.Sound a) (ha : s.storage.Attributed a) {x : SyncID} :
    s.HeldPending x ↔ ∃ c, a x = some (pendingPubsubTopic, c) := by
  constructor
  · rintro ⟨i, c, hi, ht⟩
    rw [ha.topicsAt_eq hs.wellFormed hi] at ht
    exact ⟨c, ht⟩
  · rintro ⟨c, hax⟩
    obtain ⟨i, hi⟩ := List.mem_iff_getElem?.mp ((hs.mem x).mpr (by rw [hax]; simp))
    exact ⟨i, c, hi, (ha.topicsAt_eq hs.wellFormed hi).trans hax⟩

/-! ### The invariant -/

/-- Every placeholder is promised; `a` gives the topics of the index. -/
structure Placed (s : SyncReconciliation) (a : Attribution) : Prop where
  sound : s.storage.Sound a
  attributed : s.storage.Attributed a
  promised : ∀ x c, a x = some (pendingPubsubTopic, c) → s.Promised x

/-- Whoever is held under the pending topic is promised. -/
theorem Placed.promised_of_heldPending (h : s.Placed a) {x : SyncID} (hx : s.HeldPending x) :
    s.Promised x := by
  obtain ⟨c, hax⟩ := (heldPending_iff h.sound h.attributed).mp hx
  exact h.promised x c hax

theorem Placed.messageIngress (h : s.Placed a) {id : SyncID} {p : PubsubTopic} {c : ContentTopic}
    (hgood : s.NoTwin (.messageIngress id p c)) (hslots : s.KeepsSlots (.messageIngress id p c)) :
    ∃ a', (s.messageIngress id p c).Placed a' := by
  obtain ⟨hs', ha'⟩ := messageIngress_attributed h.sound h.attributed hslots
  obtain ⟨htopic, htwin⟩ := hgood
  refine ⟨_, hs', ha', ?_⟩
  intro x c' hx
  by_cases hxid : x = id
  · -- the element itself comes in under its own topic
    exfalso
    subst hxid
    by_cases hp : x.hash ∈ s.pendingSet
    · simp only [hp, if_true, Attribution.insert, Attribution.remove, and_self,
        Option.some.injEq, Prod.mk.injEq] at hx
      exact htopic (Or.inl hp) hx.1
    · simp only [hp, if_false, Attribution.insert, true_and] at hx
      split_ifs at hx with hnone
      · obtain ⟨rfl, _⟩ := Prod.mk.inj (Option.some.inj hx)
        refine htopic (Or.inr ?_) rfl
        intro hmem
        exact (h.sound.mem x).mp hmem hnone
      · exact hp (h.promised x c' hx).1
  · have hax : a x = some (pendingPubsubTopic, c') := by
      by_cases hp : id.hash ∈ s.pendingSet
      · simpa [hp, Attribution.insert, Attribution.remove, hxid] using hx
      · simpa [hp, Attribution.insert, hxid] using hx
    obtain ⟨hmem, d, hd⟩ := h.promised x c' hax
    refine ⟨?_, d, ?_⟩
    · rw [messageIngress_pendingSet]
      refine Finset.mem_erase.mpr ⟨?_, hmem⟩
      intro hhash
      exact hxid (htwin x ((heldPending_iff h.sound h.attributed).mpr ⟨c', hax⟩) hhash)
    · rw [messageIngress_pendingQueue]
      exact hd

/-- A round promises what it stores under the pending topic. -/
theorem Placed.reconcileRound (h : s.Placed a) {recvPayload : RangesData} {lowerBound : ℤ}
    {peerId : PeerId} {now : ℤ}
    (hslots : s.KeepsSlots (.reconcileRound recvPayload lowerBound peerId now)) :
    ∃ a', (s.apply (.reconcileRound recvPayload lowerBound peerId now)).Placed a' := by
  obtain ⟨a', hs', ha', hkeep, hnew⟩ := SeqStorage.promiseAll_attributed
    (s.exchange recvPayload lowerBound).idsToRecv h.sound h.attributed
    (fun x hx => hslots x (unheld_of_mem_idsToRecv h.sound.wellFormed hx))
  rw [apply_reconcileRound, scheduleTransfers_eq, trackPromised_eq]
  refine ⟨a', hs', ha', ?_⟩
  intro x c hx
  by_cases hax : a x = none
  · obtain ⟨_, hmem⟩ := hnew x hax (by rw [hx]; simp)
    refine ⟨Finset.mem_union_right _ ?_, _, List.mem_append_right _ (List.mem_map_of_mem hmem)⟩
    exact List.mem_toFinset.mpr (List.mem_map_of_mem hmem)
  · rw [hkeep x hax] at hx
    obtain ⟨hmem, d, hd⟩ := h.promised x c hx
    exact ⟨Finset.mem_union_left _ hmem, d, List.mem_append_left _ hd⟩

theorem Placed.prune (h : s.Placed a) (t : ℤ) : (s.prune t).Placed (a.prune t) := by
  refine ⟨h.sound.prune t, h.attributed.prune h.sound.wellFormed t, ?_⟩
  intro x c hx
  unfold Attribution.prune at hx
  split_ifs at hx with hlt
  exact h.promised x c hx

/-! ### Expiry -/

/-- The index after the entries expired: of every pending hash the element of the first entry is
gone, and nothing else. -/
theorem foldl_expireOne_attributed (entries : List (SyncID × ℤ)) : ∀ {s : SyncReconciliation}
    {a : Attribution}, s.storage.Sound a → s.storage.Attributed a →
    ∃ a', (entries.foldl (fun self e => self.expireOne e.1) s).storage.Sound a' ∧
      (entries.foldl (fun self e => self.expireOne e.1) s).storage.Attributed a' ∧
      ∀ x, a' x = if x.hash ∈ s.pendingSet ∧
        (entries.find? (fun e => decide (e.1.hash = x.hash))).map Prod.fst = some x then none
        else a x := by
  induction entries with
  | nil =>
      intro s a hs ha
      exact ⟨a, hs, ha, fun x => by simp⟩
  | cons entry entries ih =>
      intro s a hs ha
      rw [List.foldl_cons]
      by_cases hp : entry.1.hash ∈ s.pendingSet
      · have hone : s.expireOne entry.1 =
            { s with
              pendingSet := s.pendingSet.erase entry.1.hash
              deferredTx := s.deferredTx.erase entry.1.hash
              storage := s.storage.remove entry.1 } := by
          unfold SyncReconciliation.expireOne
          rw [if_neg (not_not.mpr hp)]
        obtain ⟨a', hs', ha', heq⟩ := ih (s := s.expireOne entry.1) (a := a.remove entry.1)
          (by rw [hone]; exact hs.remove _)
          (by rw [hone]; exact ha.remove hs.wellFormed _)
        refine ⟨a', hs', ha', ?_⟩
        intro x
        rw [heq x, expireOne_pendingSet]
        by_cases hhash : entry.1.hash = x.hash
        · -- the hash is no longer pending for the entries behind this one
          rw [if_neg (fun hc => (Finset.mem_erase.mp hc.1).1 hhash.symm),
            List.find?_cons_of_pos (by simpa using hhash)]
          by_cases hx : x = entry.1
          · subst hx
            simp [Attribution.remove, hp]
          · simp [Attribution.remove, hx, Ne.symm hx]
        · have hx : x ≠ entry.1 := fun hc => hhash (by rw [hc])
          rw [List.find?_cons_of_neg (by simpa using hhash)]
          refine if_congr (and_congr_left' ?_) rfl (if_neg hx)
          rw [Finset.mem_erase]
          exact and_iff_right (Ne.symm hhash)
      · have hone : s.expireOne entry.1 = s := by
          unfold SyncReconciliation.expireOne
          rw [if_pos hp]
        rw [hone]
        obtain ⟨a', hs', ha', heq⟩ := ih hs ha
        refine ⟨a', hs', ha', ?_⟩
        intro x
        rw [heq x]
        by_cases hhash : entry.1.hash = x.hash
        · rw [hhash] at hp
          rw [if_neg (fun hc => hp hc.1), if_neg (fun hc => hp hc.1)]
        · rw [List.find?_cons_of_neg (by simpa using hhash)]

/-- Of every pending hash, expiry removes the element of the first due entry. -/
theorem expirePending_attributed (hs : s.storage.Sound a) (ha : s.storage.Attributed a) (now : ℤ) :
    ∃ a', (s.expirePending now).storage.Sound a' ∧ (s.expirePending now).storage.Attributed a' ∧
      ∀ x, a' x = if x.hash ∈ s.pendingSet ∧ s.firstDue now x.hash = some x then none else a x := by
  rw [expirePending_eq]
  exact foldl_expireOne_attributed (s.due now) hs ha

/-- A placeholder that is due is the first due entry of its hash. -/
theorem Promises.firstDue_eq (hprom : s.Promises times) {now : ℤ}
    (hgood : s.NoTwin (.expirePending now)) {x : SyncID} (hx : s.HeldPending x)
    {e : SyncID × ℤ} (he : e ∈ s.pendingQueue) (hhash : e.1.hash = x.hash) (hdue : e.2 ≤ now) :
    s.firstDue now x.hash = some x := by
  have hmem : e ∈ s.due now := by
    rw [hprom.due_eq, List.mem_filter]
    exact ⟨he, by simpa using hdue⟩
  cases hfind : s.firstDue now x.hash with
  | none =>
      unfold firstDue at hfind
      rw [Option.map_eq_none_iff, List.find?_eq_none] at hfind
      exact absurd (by simpa using hhash) (hfind e hmem)
  | some id => rw [hgood x hx id hfind]

theorem Placed.expirePending (h : s.Placed a) (hprom : s.Promises times) {now : ℤ}
    (hgood : s.NoTwin (.expirePending now)) : ∃ a', (s.expirePending now).Placed a' := by
  obtain ⟨a', hs', ha', heq⟩ := expirePending_attributed h.sound h.attributed now
  refine ⟨a', hs', ha', ?_⟩
  intro x c hx
  rw [heq x] at hx
  split_ifs at hx with hfirst
  obtain ⟨hmem, d, hd⟩ := h.promised x c hx
  -- a placeholder with a due entry would have been removed
  have hlate : ¬ ∃ e ∈ s.pendingQueue, e.1.hash = x.hash ∧ e.2 ≤ now := by
    rintro ⟨e, he, hhash, hdue⟩
    have hheld := (heldPending_iff h.sound h.attributed).mpr ⟨c, hx⟩
    exact hfirst ⟨hmem, hprom.firstDue_eq hgood hheld he hhash hdue⟩
  refine ⟨hprom.mem_expirePending_set.mpr ⟨hmem, hlate⟩, d, ?_⟩
  refine hprom.mem_expirePending_queue.mpr ⟨hd, ?_⟩
  by_contra hle
  exact hlate ⟨_, hd, rfl, not_lt.mp hle⟩

/-- A due placeholder is taken out of the index. -/
theorem Placed.not_mem_expirePending (h : s.Placed a) (hprom : s.Promises times) {now : ℤ}
    (hgood : s.NoTwin (.expirePending now)) {x : SyncID} (hx : s.HeldPending x) {d : ℤ}
    (hd : (x, d) ∈ s.pendingQueue) (hdue : d ≤ now) :
    x ∉ (s.expirePending now).storage.elements := by
  obtain ⟨a', hs', _, heq⟩ := expirePending_attributed h.sound h.attributed now
  rw [hs'.mem x, heq x, if_pos]
  · simp
  · exact ⟨(h.promised_of_heldPending hx).1, hprom.firstDue_eq hgood hx hd rfl hdue⟩

/-- An arrival leaves no placeholder of the element. -/
theorem not_heldPending_messageIngress {id : SyncID} {p : PubsubTopic} {c : ContentTopic}
    (h : (s.messageIngress id p c).Placed a) : ¬ (s.messageIngress id p c).HeldPending id := by
  intro hheld
  have hmem := (h.promised_of_heldPending hheld).1
  rw [messageIngress_pendingSet] at hmem
  exact Finset.notMem_erase _ _ hmem

/-! ### Runs -/

/-- **One operation** of a run. -/
theorem Placed.apply (h : s.Placed a) (hprom : s.Promises times) {op : NodeOp} (hgood : s.NoTwin op)
    (hslots : s.KeepsSlots op) : ∃ a', (s.apply op).Placed a' := by
  cases op with
  | messageIngress id p c => exact h.messageIngress hgood hslots
  | reconcileRound payload lowerBound peerId now => exact h.reconcileRound hslots
  | expirePending now => exact h.expirePending hprom hgood
  | prune t => exact ⟨_, h.prune t⟩

theorem New.placed {node : SyncReconciliation} (hnew : node.New) : node.Placed (fun _ => none) := by
  refine ⟨?_, ?_, fun x c hx => by simp at hx⟩
  · rw [hnew.storage]
    exact sound_storageAfter _ _ []
  · rw [hnew.storage]
    exact SeqStorage.attributed_empty _ _

theorem New.placed_after {node : SyncReconciliation} (hnew : node.New) {ops : List NodeOp}
    (hops : Chronological ops)
    (hgood : AllSteps (fun pre op => (node.after pre).NoTwin op ∧ (node.after pre).KeepsSlots op) ops) :
    ∃ a, (node.after ops).Placed a := by
  induction ops using List.reverseRecOn with
  | nil => exact ⟨_, hnew.placed⟩
  | append_singleton ops op ih =>
      have hops' := hops.of_initial (List.prefix_append ops [op])
      obtain ⟨a, h⟩ := ih hops' hgood.init
      rw [after_concat]
      exact h.apply (hnew.toFresh.promises_after hops') hgood.last.1 hgood.last.2

/-- **No placeholder outlives its promise.**  In a run of a new node in which no hash leaves the
pending set while another element of that hash is held, and no topic slot in use is overwritten:
every placeholder is promised, its expiry removes it and its arrival replaces it. -/
theorem placeholders_promised (node : SyncReconciliation) (hnew : node.New) (ops : List NodeOp)
    (hops : Chronological ops)
    (hgood : AllSteps (fun pre op => (node.after pre).NoTwin op ∧ (node.after pre).KeepsSlots op) ops) :
    (∀ pre, pre <+: ops → ∀ x, (node.after pre).HeldPending x → (node.after pre).Promised x) ∧
    (∀ pre now, pre ++ [.expirePending now] <+: ops → ∀ x d, (node.after pre).HeldPending x →
      (x, d) ∈ (node.after pre).pendingQueue → d ≤ now →
      x ∉ (node.after (pre ++ [.expirePending now])).storage.elements) ∧
    (∀ pre x p c, pre ++ [.messageIngress x p c] <+: ops →
      ¬ (node.after (pre ++ [.messageIngress x p c])).HeldPending x) := by
  have hplaced : ∀ pre, pre <+: ops → ∃ a, (node.after pre).Placed a :=
    fun pre hpre => hnew.placed_after (hops.of_initial hpre) (hgood.of_initial hpre)
  refine ⟨?_, ?_, ?_⟩
  · intro pre hpre x hx
    obtain ⟨a, h⟩ := hplaced pre hpre
    exact h.promised_of_heldPending hx
  · intro pre now hpre x d hx hd hdue
    have hpre' : pre <+: ops := (List.prefix_append _ _).trans hpre
    obtain ⟨a, h⟩ := hplaced pre hpre'
    rw [after_concat]
    exact h.not_mem_expirePending (hnew.toFresh.promises_after (hops.of_initial hpre'))
      (hgood pre _ hpre).1 hx hd hdue
  · intro pre x p c hpre
    obtain ⟨a, h⟩ := hplaced _ hpre
    rw [after_concat] at h ⊢
    exact not_heldPending_messageIngress h

/-- A peer promises one hash at two times, and the promises expire. -/
def sameHashTwice : List NodeOp :=
  [.reconcileRound (listing [⟨5, fullFingerprint⟩, ⟨6, fullFingerprint⟩]) 0 "peer" 0,
    .expirePending 10]

/-- The decoder accepts the payload, and the second placeholder stays although nothing is pending
or queued any more. -/
theorem sameHashTwice_leaves_placeholder :
    (∃ buffer, RangesData.deltaDecode Lib.leb128 buffer =
        .ok (listing [⟨5, fullFingerprint⟩, ⟨6, fullFingerprint⟩])) ∧
      emptyNode.New ∧ Chronological sameHashTwice ∧
      (emptyNode.after sameHashTwice).HeldPending ⟨6, fullFingerprint⟩ ∧
      (emptyNode.after sameHashTwice).pendingSet = ∅ ∧
      (emptyNode.after sameHashTwice).pendingQueue = [] := by
  refine ⟨⟨((listing [⟨5, fullFingerprint⟩, ⟨6, fullFingerprint⟩]).deltaEncode Lib.leb128).getD [],
    by rfl⟩, ⟨⟨rfl, rfl, rfl⟩, rfl⟩, by decide, ⟨0, "", by decide, by decide⟩, by decide, by decide⟩

/-- A peer promises an element. -/
def onePromise : List NodeOp :=
  [] ++ [.reconcileRound (listing [⟨6, fullFingerprint⟩]) 0 "peer" 0]

theorem onePromise_expires :
    (emptyNode.after onePromise).HeldPending ⟨6, fullFingerprint⟩ ∧
      (⟨6, fullFingerprint⟩ : SyncID) ∉
        (emptyNode.after (onePromise ++ [.expirePending 10])).storage.elements := by
  have hheld : (emptyNode.after onePromise).HeldPending ⟨6, fullFingerprint⟩ :=
    ⟨0, "", by decide, by decide⟩
  refine ⟨hheld, ?_⟩
  refine (placeholders_promised emptyNode ⟨⟨rfl, rfl, rfl⟩, rfl⟩ (onePromise ++ [.expirePending 10])
    (by decide) ?_).2.1 onePromise 10 (List.prefix_refl _) _ 10 hheld (by decide) le_rfl
  have hround : ∀ x, (emptyNode.after []).Unheld (listing [⟨6, fullFingerprint⟩]) 0 x →
      ¬ (emptyNode.after []).storage.OverwritesUsed x pendingPubsubTopic "" := by
    rintro x _ ⟨_, h | h⟩ <;> exact absurd h.2 (by decide)
  refine (Lib.allSteps_nil.concat ⟨trivial, hround⟩).concat ⟨?_, trivial⟩
  rintro x ⟨i, c, hi, _⟩ id hid
  have helements : (emptyNode.after onePromise).storage.elements = [⟨6, fullFingerprint⟩] := by
    decide
  have hx : x ∈ (emptyNode.after onePromise).storage.elements := List.mem_of_getElem? hi
  rw [helements] at hx
  obtain rfl := List.mem_singleton.mp hx
  have hfirst : (emptyNode.after onePromise).firstDue 10 fullFingerprint =
      some ⟨6, fullFingerprint⟩ := by decide
  exact Option.some.inj (hfirst.symm.trans hid)

end SyncReconciliation

end LogosDelivery.StoreSync
