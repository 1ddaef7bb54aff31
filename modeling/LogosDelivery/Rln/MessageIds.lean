import LogosDelivery.Rln.ProofGeneration

/-! # Message ids are never reused

A message id of an epoch in two proofs for different messages reveals the identity secret, so no
interleaving of calls, failing saves, cancellations and crashes may lead to it.

The argument is about ids that calls hold and ids in returned proofs.  They are all different; the
counter in memory is above all of them; and the ones that are in a proof, or may still get into one,
are secured by the store.  A call that changes the counter or submits a write has the lock, so that
no other call waits for a save meanwhile.  `InvOn` states this for a set of calls: for all of them
between two events, and for all but the running one while that one is in its critical section. -/

namespace LogosDelivery.Rln

open Lib (mem_table_set mem_table_remove)

/-- The epoch index and the number of a proof. -/
def IssuedProof.messageId (proof : IssuedProof) : ℕ × ℕ := (fromEpoch proof.epoch, proof.nonce)

namespace RlnEvm

variable {s s' : RlnEvm} {who who' : ℕ → Prop} {c : ℕ} {call : Call}

/-- The ids in the proofs that were returned. -/
def returned (s : RlnEvm) : List (ℕ × ℕ) := s.issued.map IssuedProof.messageId

/-- The id was drawn from the counter. -/
def Drawn (s : RlnEvm) (x : ℕ × ℕ) : Prop :=
  s.loaded = true ∧ s.nonceManager.Counts x ∧ x.2 < s.nonceManager.nonceLimit

/-- What holds of a call in each phase. -/
def CallInv (s : RlnEvm) (c : ℕ) (call : Call) : Prop :=
  call.epochIndex = s.params.epochIndexOf call.request.senderEpochTime ∧
    match call.phase with
    | .acquiring => True
    | .loading read =>
        s.reserveLock = some c ∧ s.loaded = false ∧ ∀ row, read = some row → row = s.store.row
    | .saving id ticket =>
        s.reserveLock = some c ∧ s.Drawn (call.epochIndex, id) ∧
          s.store.submitted.length = ticket + 1 ∧
          s.store.submitted[ticket]? = some ⟨call.epochIndex, id + 1⟩
    | .proving id => s.Drawn (call.epochIndex, id) ∧ s.store.Secures (call.epochIndex, id)
    | .checkingRoot id => s.Drawn (call.epochIndex, id) ∧ s.store.Secures (call.epochIndex, id)
    | .reproving id => s.Drawn (call.epochIndex, id) ∧ s.store.Secures (call.epochIndex, id)
    | .releasing id _ => s.Drawn (call.epochIndex, id)
    | .lowering _ => s.reserveLock = some c

/-- One of the calls holds the id. -/
def Held (s : RlnEvm) (who : ℕ → Prop) (x : ℕ × ℕ) : Prop :=
  ∃ c call, who c ∧ s.calls c = some call ∧ call.messageId? = some x

/-- The invariant, for the calls in `who`. -/
structure InvOn (s : RlnEvm) (who : ℕ → Prop) : Prop where
  call : ∀ c call, who c → s.calls c = some call → s.CallInv c call
  distinct : ∀ c c' call call' x, who c → who c' → s.calls c = some call → s.calls c' = some call' →
    call.messageId? = some x → call'.messageId? = some x → c = c'
  apart : ∀ x, s.Held who x → x ∉ s.returned
  nodup : s.returned.Nodup
  small : ∀ x ∈ s.returned, x.2 < s.nonceManager.nonceLimit
  secured : ∀ x ∈ s.returned, s.store.Secures x
  counted : ∀ x ∈ s.returned, s.loaded = true → s.nonceManager.Counts x
  unloaded : s.loaded = false → s.store.pending = []

theorem InvOn.mono (h : s.InvOn who) (hsub : ∀ c, who' c → who c) : s.InvOn who' := by
  refine { h with call := ?_, distinct := ?_, apart := ?_ }
  · intro c call hc
    exact h.call c call (hsub c hc)
  · intro c c' call call' x hc hc'
    exact h.distinct c c' call call' x (hsub c hc) (hsub c' hc')
  · rintro x ⟨c, call, hc, hcall, hx⟩
    exact h.apart x ⟨c, call, hsub c hc, hcall, hx⟩

/-- An id of a call was drawn. -/
theorem CallInv.drawn (h : s.CallInv c call) {x : ℕ × ℕ} (hx : call.messageId? = some x) :
    s.Drawn x := by
  obtain ⟨id, hid, rfl⟩ := Option.map_eq_some_iff.mp hx
  obtain ⟨request, epochIndex, phase⟩ := call
  have h' := h.2
  cases phase with
  | acquiring => cases hid
  | loading read => cases hid
  | saving id' ticket =>
      cases hid
      exact h'.2.1
  | proving id' =>
      cases hid
      exact h'.1
  | checkingRoot id' =>
      cases hid
      exact h'.1
  | reproving id' =>
      cases hid
      exact h'.1
  | releasing id' error =>
      cases hid
      exact h'
  | lowering error => cases hid

/-- A call without the lock depends on the rest only through its own id. -/
theorem CallInv.of_free (h : s.CallInv c call) (hfree : s.reserveLock ≠ some c)
    (hparams : s'.params = s.params)
    (hdrawn : ∀ x, call.messageId? = some x → s.Drawn x → s'.Drawn x)
    (hsecures : ∀ x, call.messageId? = some x → s.store.Secures x → s'.store.Secures x) :
    s'.CallInv c call := by
  obtain ⟨request, epochIndex, phase⟩ := call
  obtain ⟨hepoch, h'⟩ := h
  refine ⟨by rw [hparams]; exact hepoch, ?_⟩
  cases phase with
  | acquiring => trivial
  | loading read => exact absurd h'.1 hfree
  | saving id ticket => exact absurd h'.1 hfree
  | proving id => exact ⟨hdrawn _ rfl h'.1, hsecures _ rfl h'.2⟩
  | checkingRoot id => exact ⟨hdrawn _ rfl h'.1, hsecures _ rfl h'.2⟩
  | reproving id => exact ⟨hdrawn _ rfl h'.1, hsecures _ rfl h'.2⟩
  | releasing id error => exact hdrawn _ rfl h'
  | lowering error => exact absurd h' hfree

/-! ### The end of a critical section -/

/-- The ids that the running call may hold: no other call holds them and no proof carries them. -/
def Free (s : RlnEvm) (c : ℕ) (x : ℕ × ℕ) : Prop := ¬ s.Held (· ≠ c) x ∧ x ∉ s.returned

/-- A call may keep its own id. -/
theorem InvOn.free (h : s.InvOn (fun _ => True)) (hcall : s.calls c = some call) {x : ℕ × ℕ}
    (hx : call.messageId? = some x) : s.Free c x := by
  refine ⟨?_, h.apart x ⟨c, call, trivial, hcall, hx⟩⟩
  rintro ⟨c', call', hne, hcall', hx'⟩
  exact hne (h.distinct c' c call' call x trivial trivial hcall' hcall hx' hx)

theorem InvOn.await (h : s.InvOn (· ≠ c)) (hcall : s.CallInv c call)
    (hfree : ∀ x, call.messageId? = some x → s.Free c x) :
    (s.await c call).InvOn (fun _ => True) := by
  refine ⟨?_, ?_, ?_, h.nodup, h.small, h.secured, h.counted, h.unloaded⟩
  · intro c' call' _ hcall'
    rcases mem_table_set hcall' with ⟨rfl, rfl⟩ | ⟨hne, hcall'⟩
    · exact hcall
    · exact h.call c' call' hne hcall'
  · intro c₁ c₂ call₁ call₂ x _ _ h₁ h₂ hx₁ hx₂
    -- the id of the suspended call is free, so no other call has it
    rcases mem_table_set h₁ with ⟨rfl, rfl⟩ | ⟨hne₁, hcall₁⟩
    · rcases mem_table_set h₂ with ⟨rfl, -⟩ | ⟨hne₂, hcall₂⟩
      · rfl
      · exact absurd ⟨c₂, call₂, hne₂, hcall₂, hx₂⟩ (hfree x hx₁).1
    · rcases mem_table_set h₂ with ⟨rfl, rfl⟩ | ⟨hne₂, hcall₂⟩
      · exact absurd ⟨c₁, call₁, hne₁, hcall₁, hx₁⟩ (hfree x hx₂).1
      · exact h.distinct c₁ c₂ call₁ call₂ x hne₁ hne₂ hcall₁ hcall₂ hx₁ hx₂
  · rintro x ⟨c', call', _, hcall', hx⟩
    rcases mem_table_set hcall' with ⟨rfl, rfl⟩ | ⟨hne, hcall'⟩
    · exact (hfree x hx).2
    · exact h.apart x ⟨c', call', hne, hcall', hx⟩

/-- The other calls after the running one gave up the lock. -/
theorem InvOn.release2 (h : s.InvOn (· ≠ c)) : (s.release2 c).InvOn (· ≠ c) := by
  unfold RlnEvm.release2
  by_cases hlock : s.reserveLock = some c
  · rw [if_pos hlock]
    refine { h with call := ?_ }
    intro c' call' hne hcall'
    refine (h.call c' call' hne hcall').of_free ?_ rfl (fun _ _ hx => hx) (fun _ _ hx => hx)
    rw [hlock]
    exact fun hc => hne (Option.some.inj hc).symm
  · rw [if_neg hlock]
    exact { h with }

/-- The running call is over. -/
theorem InvOn.removeCall (h : s.InvOn (· ≠ c)) :
    { s with calls := Function.update s.calls c none }.InvOn (fun _ => True) := by
  refine ⟨?_, ?_, ?_, h.nodup, h.small, h.secured, h.counted, h.unloaded⟩
  · intro c' call' _ hcall'
    obtain ⟨hne, hcall'⟩ := mem_table_remove hcall'
    exact h.call c' call' hne hcall'
  · intro c₁ c₂ call₁ call₂ x _ _ h₁ h₂
    obtain ⟨hne₁, h₁⟩ := mem_table_remove h₁
    obtain ⟨hne₂, h₂⟩ := mem_table_remove h₂
    exact h.distinct c₁ c₂ call₁ call₂ x hne₁ hne₂ h₁ h₂
  · rintro x ⟨c', call', _, hcall', hx⟩
    obtain ⟨hne, hcall'⟩ := mem_table_remove hcall'
    exact h.apart x ⟨c', call', hne, hcall', hx⟩

/-- A failure returns no id. -/
theorem InvOn.addFailure (h : s.InvOn who) (request : ProofRequest) (error : CallError) :
    { s with results := s.results ++ [(request, Except.error error)] }.InvOn who := by
  have hreturned : { s with results := s.results ++ [(request, Except.error error)] }.returned =
      s.returned := by
    simp [returned, issued, List.filterMap_append]
  refine ⟨h.call, h.distinct, ?_, ?_, ?_, ?_, ?_, h.unloaded⟩
  · intro x hx
    rw [hreturned]
    exact h.apart x hx
  all_goals rw [hreturned]
  · exact h.nodup
  · exact h.small
  · exact h.secured
  · exact h.counted

/-- A proof returns an id that nobody else has and that is secured. -/
theorem InvOn.addProof (h : s.InvOn who) (request : ProofRequest) {proof : IssuedProof}
    (hheld : ¬ s.Held who proof.messageId) (hnew : proof.messageId ∉ s.returned)
    (hdrawn : s.Drawn proof.messageId) (hsecures : s.store.Secures proof.messageId) :
    { s with results := s.results ++ [(request, Except.ok proof)] }.InvOn who := by
  have hreturned : { s with results := s.results ++ [(request, Except.ok proof)] }.returned =
      s.returned ++ [proof.messageId] := by
    simp [returned, issued, List.filterMap_append]
  have hcase : ∀ {x}, x ∈ s.returned ++ [proof.messageId] → x ∈ s.returned ∨ x = proof.messageId :=
    fun hx => (List.mem_append.mp hx).imp_right List.mem_singleton.mp
  refine ⟨h.call, h.distinct, ?_, ?_, ?_, ?_, ?_, h.unloaded⟩
  · intro x hx hmem
    rw [hreturned] at hmem
    rcases hcase hmem with hmem | rfl
    · exact h.apart x hx hmem
    · exact hheld hx
  all_goals rw [hreturned]
  · apply List.Nodup.append h.nodup (List.nodup_singleton _)
    exact List.disjoint_singleton.mpr hnew
  · intro x hx
    rcases hcase hx with hx | rfl
    · exact h.small x hx
    · exact hdrawn.2.2
  · intro x hx
    rcases hcase hx with hx | rfl
    · exact h.secured x hx
    · exact hsecures
  · intro x hx hloaded
    rcases hcase hx with hx | rfl
    · exact h.counted x hx hloaded
    · exact hdrawn.2.1

/-- A call that ends without a proof. -/
theorem InvOn.endCall_error (h : s.InvOn (· ≠ c)) (call : Call) (error : CallError) :
    (s.endCall c call (.error error)).InvOn (fun _ => True) :=
  (h.release2.addFailure call.request error).removeCall

/-- A call that returns a proof: its id moves to the returned ones. -/
theorem InvOn.endCall_ok (h : s.InvOn (· ≠ c)) (call : Call) {proof : IssuedProof}
    (hfree : s.Free c proof.messageId) (hdrawn : s.Drawn proof.messageId)
    (hsecures : s.store.Secures proof.messageId) :
    (s.endCall c call (.ok proof)).InvOn (fun _ => True) :=
  (h.release2.addProof call.request hfree.1 hfree.2 hdrawn hsecures).removeCall

/-! ### Inside a critical section -/

/-- Nobody in `who` has the lock. -/
def Unlocked (s : RlnEvm) (who : ℕ → Prop) : Prop := ∀ c, who c → s.reserveLock ≠ some c

theorem unlocked_of_none (h : s.reserveLock = none) : s.Unlocked who := by
  intro c _
  rw [h]
  simp

theorem unlocked_of_some (h : s.reserveLock = some c) : s.Unlocked (· ≠ c) := by
  intro c' hne
  rw [h]
  exact fun hc => hne (Option.some.inj hc).symm

theorem InvOn.setLock (h : s.InvOn who) (hfree : s.Unlocked who) (lock : Option ℕ) :
    { s with reserveLock := lock }.InvOn who := by
  refine { h with call := ?_ }
  intro c call hc hcall
  exact (h.call c call hc hcall).of_free (hfree c hc) rfl (fun _ _ hx => hx) (fun _ _ hx => hx)

/-- A change of the counter that loses no id. -/
theorem InvOn.setNonceManager (h : s.InvOn who) (hfree : s.Unlocked who) {n : NonceManager}
    (hlimit : n.nonceLimit = s.nonceManager.nonceLimit)
    (hcounts : ∀ x, s.Held who x ∨ x ∈ s.returned → s.nonceManager.Counts x → n.Counts x) :
    { s with nonceManager := n }.InvOn who := by
  refine { h with call := ?_, small := ?_, counted := ?_ }
  · intro c call hc hcall
    refine (h.call c call hc hcall).of_free (hfree c hc) rfl ?_ (fun _ _ hx => hx)
    rintro x hx ⟨hloaded, hcounted, hlt⟩
    refine ⟨hloaded, hcounts x (Or.inl ⟨c, call, hc, hcall, hx⟩) hcounted, ?_⟩
    rw [hlimit]
    exact hlt
  · intro x hx
    rw [hlimit]
    exact h.small x hx
  · intro x hx hloaded
    exact hcounts x (Or.inr hx) (h.counted x hx hloaded)

/-- A save of the counter. -/
theorem InvOn.save (h : s.InvOn who) (hfree : s.Unlocked who) (hloaded : s.loaded = true) :
    { s with
      store := (s.store.saveMessageIds
        ⟨s.nonceManager.epochIndex, s.nonceManager.nextId⟩).2 }.InvOn who := by
  refine { h with call := ?_, secured := ?_, unloaded := ?_ }
  · intro c call hc hcall
    have hinv := h.call c call hc hcall
    refine hinv.of_free (hfree c hc) rfl (fun _ _ hx => hx) ?_
    intro x hx hsecures
    exact hsecures.saveMessageIds (hinv.drawn hx).2.1
  · intro x hx
    exact (h.secured x hx).saveMessageIds (h.counted x hx hloaded)
  · intro hnot
    exact absurd (hloaded.symm.trans hnot) (by simp)

/-- Before the row is loaded no call holds an id. -/
theorem InvOn.not_held (h : s.InvOn who) (hloaded : s.loaded = false) (x : ℕ × ℕ) :
    ¬ s.Held who x := by
  rintro ⟨c, call, hc, hcall, hx⟩
  have hdrawn := (h.call c call hc hcall).drawn hx
  exact absurd (hloaded.symm.trans hdrawn.1) (by simp)

/-- Loading the row: the counter is above every id in a returned proof. -/
theorem InvOn.restoreRow (h : s.InvOn who) (hfree : s.Unlocked who) (hloaded : s.loaded = false) :
    (s.restoreRow s.store.row).InvOn who := by
  have hcall : ∀ c call, who c → s.calls c = some call →
      (s.restoreRow s.store.row).CallInv c call := by
    intro c call hc hcall
    have hnone : ∀ x, call.messageId? ≠ some x :=
      fun x hx => h.not_held hloaded x ⟨c, call, hc, hcall, hx⟩
    refine (h.call c call hc hcall).of_free (hfree c hc) ?_ (fun x hx => absurd hx (hnone x))
      (fun x hx => absurd hx (hnone x))
    unfold RlnEvm.restoreRow
    split <;> rfl
  unfold RlnEvm.restoreRow at hcall ⊢
  cases hrow : s.store.row with
  | none =>
      simp only [hrow] at hcall
      refine { h with call := hcall, counted := ?_, unloaded := ?_ }
      · intro x hx _
        obtain ⟨⟨row, hrow', _⟩, _⟩ := h.secured x hx
        rw [hrow] at hrow'
        cases hrow'
      · intro hnot
        cases hnot
  | some row =>
      simp only [hrow] at hcall
      have hlimit := NonceManager.restore_nonceLimit (n := s.nonceManager) row.epochIndex row.nextId
      refine { h with call := hcall, small := ?_, counted := ?_, unloaded := ?_ }
      · intro x hx
        show x.2 < (s.nonceManager.restore _ _).nonceLimit
        rw [hlimit]
        exact h.small x hx
      · intro x hx _
        obtain ⟨⟨row', hrow', hcounts⟩, _⟩ := h.secured x hx
        obtain rfl := Option.some.inj (hrow.symm.trans hrow')
        exact NonceManager.counts_restore hcounts (h.small x hx)
      · intro hnot
        cases hnot

/-- A draw under the lock: it fails and the call ends, or the new id is saved. -/
theorem InvOn.reserveAndSave (h : s.InvOn (· ≠ c)) (hlock : s.reserveLock = some c)
    (hloaded : s.loaded = true)
    (hepoch : call.epochIndex = s.params.epochIndexOf call.request.senderEpochTime) :
    (s.reserveAndSave c call).InvOn (fun _ => True) := by
  have hfree := unlocked_of_some hlock
  have hknown : ∀ x, s.Held (· ≠ c) x ∨ x ∈ s.returned → s.nonceManager.Counts x := by
    rintro x (⟨c', call', hne, hcall', hx⟩ | hx)
    · exact ((h.call c' call' hne hcall').drawn hx).2.1
    · exact h.counted x hx hloaded
  have hlimit := NonceManager.reserve_nonceLimit (n := s.nonceManager) call.epochIndex
  unfold RlnEvm.reserveAndSave
  cases hres : s.nonceManager.reserve call.epochIndex with
  | mk result n =>
      rw [hres] at hlimit
      cases result with
      | error error =>
          exact (h.setNonceManager hfree hlimit
            (fun x _ hx => NonceManager.Counts.of_reserve_error hres hx)).endCall_error call _
      | ok id =>
          obtain ⟨rfl, hid, hnew, hcounts⟩ := NonceManager.reserve_ok hres
          have hsaved := (h.setNonceManager hfree hlimit (fun x _ hx => hcounts x hx)).save hfree hloaded
          refine hsaved.await ⟨hepoch, hlock, ⟨hloaded, ?_, hid⟩, ?_, ?_⟩ ?_
          · exact Or.inr ⟨rfl, Nat.lt_succ_self id⟩
          · simp [MessageIdStore.saveMessageIds]
          · simp [MessageIdStore.saveMessageIds]
          · intro x hx
            obtain rfl := Option.some.inj hx
            exact ⟨fun hheld => hnew (hknown _ (Or.inl hheld)),
              fun hmem => hnew (hknown _ (Or.inr hmem))⟩

/-- The counter after the running call gave its id back. -/
theorem InvOn.releaseId (h : s.InvOn (· ≠ c)) (hfree : s.Unlocked (· ≠ c)) {epochIndex id : ℕ}
    (hid : s.Free c (epochIndex, id)) :
    { s with nonceManager := s.nonceManager.release epochIndex id }.InvOn (· ≠ c) := by
  refine h.setNonceManager hfree (NonceManager.release_nonceLimit _ _) ?_
  rintro x hknown hx
  apply hx.release
  rintro rfl
  rcases hknown with hheld | hmem
  · exact hid.1 hheld
  · exact hid.2 hmem

/-- A release under the lock: nothing moves and the call ends, or the lower count is saved. -/
theorem InvOn.releaseAndSave (h : s.InvOn (· ≠ c)) (hlock : s.reserveLock = some c)
    (hloaded : s.loaded = true)
    (hepoch : call.epochIndex = s.params.epochIndexOf call.request.senderEpochTime) {id : ℕ}
    (hid : s.Free c (call.epochIndex, id)) (error : CallError) :
    (s.releaseAndSave c call id error).InvOn (fun _ => True) := by
  have hfree := unlocked_of_some hlock
  have hreleased := h.releaseId hfree hid
  unfold RlnEvm.releaseAndSave
  dsimp only
  by_cases hsame : (s.nonceManager.release call.epochIndex id).nextId = s.nonceManager.nextId
  · rw [if_pos hsame]
    exact hreleased.endCall_error call _
  · rw [if_neg hsame]
    have hsaved := hreleased.save hfree hloaded
    dsimp only at hsaved
    rw [NonceManager.release_changed hsame] at hsaved
    refine hsaved.await ⟨hepoch, hlock⟩ ?_
    intro x hx
    cases hx

/-! ### One event -/

/-- A call that goes on to another phase with its id. -/
theorem InvOn.setPhase (h : s.InvOn (fun _ => True)) (hcall : s.calls c = some call) {phase : Phase}
    (hid : ∀ id, phase.id? = some id → call.phase.id? = some id)
    (hnew : s.CallInv c { call with phase := phase }) :
    (s.await c { call with phase := phase }).InvOn (fun _ => True) := by
  refine (h.mono (fun _ _ => trivial)).await hnew ?_
  intro x hx
  obtain ⟨id, hid', rfl⟩ := Option.map_eq_some_iff.mp hx
  exact h.free hcall (Option.map_eq_some_iff.mpr ⟨id, hid id hid', rfl⟩)

/-- A call in one of the three phases in which a proof may be returned. -/
theorem InvOn.returnProof (h : s.InvOn (fun _ => True)) (hcall : s.calls c = some call) {id : ℕ}
    (hid : call.phase.id? = some id)
    (hepoch : call.epochIndex = s.params.epochIndexOf call.request.senderEpochTime)
    (hdrawn : s.Drawn (call.epochIndex, id)) (hsecures : s.store.Secures (call.epochIndex, id)) :
    (s.endCall c call (.ok (s.proofOf call id))).InvOn (fun _ => True) := by
  have hmessageId : (s.proofOf call id).messageId = (call.epochIndex, id) := by
    rw [hepoch]
    exact Prod.ext (s.params.fromEpoch_calcEpoch _) rfl
  have hfree : s.Free c (call.epochIndex, id) :=
    h.free hcall (Option.map_eq_some_iff.mpr ⟨id, hid, rfl⟩)
  rw [← hmessageId] at hfree hdrawn hsecures
  exact (h.mono (fun _ _ => trivial)).endCall_ok call hfree hdrawn hsecures

/-- The id of a call that stands at a phase with an id. -/
theorem InvOn.free_of_phase (h : s.InvOn (fun _ => True)) (hcall : s.calls c = some call)
    {phase : Phase} (heq : call.phase = phase) {id : ℕ} (hid : phase.id? = some id) :
    s.Free c (call.epochIndex, id) :=
  h.free hcall (Option.map_eq_some_iff.mpr ⟨id, by rw [heq]; exact hid, rfl⟩)

/-- A waiting call gets the lock. -/
theorem InvOn.resume_acquire (h : s.InvOn (fun _ => True)) (hcall : s.calls c = some call) :
    (s.resume c call .acquire).InvOn (fun _ => True) := by
  obtain ⟨hepoch, hphase⟩ := h.call c call trivial hcall
  dsimp only [RlnEvm.resume]
  by_cases hlock : s.reserveLock = none
  · rw [if_pos hlock]
    have hlocked : { s with reserveLock := some c }.InvOn (· ≠ c) :=
      (h.mono (fun _ _ => trivial)).setLock (unlocked_of_none hlock) (some c)
    split
    · by_cases hloaded : s.loaded = true
      · rw [if_pos hloaded]
        exact hlocked.reserveAndSave rfl hloaded hepoch
      · rw [if_neg hloaded]
        refine hlocked.await ⟨hepoch, rfl, by simpa using hloaded, by simp⟩ ?_
        intro x hx
        cases hx
    · rename_i id error heq
      rw [heq] at hphase
      exact hlocked.releaseAndSave rfl hphase.1 hepoch (h.free_of_phase hcall heq rfl) error
    · exact h
  · rw [if_neg hlock]
    exact h

/-- The row is there: the counter is restored and an id drawn. -/
theorem InvOn.resume_loaded (h : s.InvOn (fun _ => True)) (hcall : s.calls c = some call) :
    (s.resume c call .loaded).InvOn (fun _ => True) := by
  obtain ⟨hepoch, hphase⟩ := h.call c call trivial hcall
  dsimp only [RlnEvm.resume]
  split
  · rename_i read heq
    rw [heq] at hphase
    obtain ⟨hlock, hloaded, hread⟩ := hphase
    obtain rfl := hread read rfl
    have hrestored := InvOn.restoreRow (h.mono (fun c' (_ : c' ≠ c) => trivial))
      (unlocked_of_some hlock) hloaded
    refine hrestored.reserveAndSave ?_ ?_ ?_
    · unfold RlnEvm.restoreRow
      split <;> exact hlock
    · unfold RlnEvm.restoreRow
      split <;> rfl
    · unfold RlnEvm.restoreRow
      split <;> exact hepoch
  · exact h

/-- The save is committed: the write is the row and nothing else is pending, so the id is
secured. -/
theorem InvOn.resume_saved (h : s.InvOn (fun _ => True)) (hcall : s.calls c = some call) :
    (s.resume c call .saved).InvOn (fun _ => True) := by
  obtain ⟨hepoch, hphase⟩ := h.call c call trivial hcall
  dsimp only [RlnEvm.resume]
  split
  · rename_i id ticket heq
    rw [heq] at hphase
    obtain ⟨hlock, hdrawn, hlast, hwrite⟩ := hphase
    split_ifs with hcommitted
    · obtain ⟨hrow, hpending⟩ := MessageIdStore.row_of_committed hlast hwrite hcommitted
      have hsecures : s.store.Secures (call.epochIndex, id) := by
        refine ⟨⟨_, hrow, Or.inr ⟨rfl, Nat.lt_succ_self id⟩⟩, ?_⟩
        rw [hpending]
        simp
      refine (InvOn.release2 (h.mono (fun _ _ => trivial))).await ⟨hepoch, hdrawn, hsecures⟩ ?_
      intro x hx
      obtain rfl := Option.some.inj hx
      exact h.free_of_phase hcall heq rfl
    · exact h
  · exact h

/-- **A call goes on** from its await. -/
theorem InvOn.resume (h : s.InvOn (fun _ => True)) (hcall : s.calls c = some call)
    (event : CallEvent) : (s.resume c call event).InvOn (fun _ => True) := by
  obtain ⟨hepoch, hphase⟩ := h.call c call trivial hcall
  have hothers : s.InvOn (· ≠ c) := h.mono (fun _ _ => trivial)
  cases event with
  | acquire => exact h.resume_acquire hcall
  | loaded => exact h.resume_loaded hcall
  | saved => exact h.resume_saved hcall
  | read =>
      dsimp only [RlnEvm.resume]
      split
      · rename_i heq
        rw [heq] at hphase
        refine h.setPhase hcall (fun id hid => by cases hid) ⟨hepoch, hphase.1, hphase.2.1, ?_⟩
        intro row hrow
        exact (Option.some.inj hrow).symm
      · exact h
  | loadFails error =>
      dsimp only [RlnEvm.resume]
      split
      · exact hothers.endCall_error call _
      · exact h
  | saveFails error =>
      dsimp only [RlnEvm.resume]
      split
      · rename_i id ticket heq
        rw [heq] at hphase
        exact (hothers.releaseId (unlocked_of_some hphase.1)
          (h.free_of_phase hcall heq rfl)).endCall_error call _
      · exact h
  | generated =>
      dsimp only [RlnEvm.resume]
      split
      · rename_i id heq
        rw [heq] at hphase
        unfold proofGenerated
        split_ifs
        · exact h.setPhase hcall (fun id' hid => by rw [heq]; exact hid) ⟨hepoch, hphase⟩
        · exact h.returnProof hcall (by rw [heq]; rfl) hepoch hphase.1 hphase.2
      · rename_i id heq
        rw [heq] at hphase
        exact h.returnProof hcall (by rw [heq]; rfl) hepoch hphase.1 hphase.2
      · exact h
  | generationFails failure =>
      dsimp only [RlnEvm.resume]
      split
      · rename_i id heq
        rw [heq] at hphase
        exact h.setPhase hcall (fun id' hid => by rw [heq]; exact hid) ⟨hepoch, hphase.1⟩
      · rename_i id heq
        rw [heq] at hphase
        exact h.setPhase hcall (fun id' hid => by rw [heq]; exact hid) ⟨hepoch, hphase.1⟩
      · exact h
  | undecodable error =>
      dsimp only [RlnEvm.resume]
      split
      · rename_i id heq
        rw [heq] at hphase
        split_ifs
        · exact h.setPhase hcall (fun id' hid => by rw [heq]; exact hid) ⟨hepoch, hphase.1⟩
        · exact h
      · exact h
  | rootChecked valid =>
      dsimp only [RlnEvm.resume]
      split
      · rename_i id heq
        rw [heq] at hphase
        split_ifs
        · exact h.returnProof hcall (by rw [heq]; rfl) hepoch hphase.1 hphase.2
        · exact h.setPhase hcall (fun id' hid => by rw [heq]; exact hid) ⟨hepoch, hphase⟩
      · exact h
  | lowered =>
      dsimp only [RlnEvm.resume]
      split
      · exact hothers.endCall_error call _
      · exact h
  | cancel =>
      dsimp only [RlnEvm.resume]
      split
      · exact h
      · exact h
      · exact hothers.endCall_error call _

/-- Processing a write keeps what the calls rely on. -/
theorem CallInv.setStore (h : s.CallInv c call) {store : MessageIdStore}
    (hsubmitted : store.submitted = s.store.submitted)
    (hsecures : ∀ x, s.store.Secures x → store.Secures x)
    (hrow : s.loaded = false → store.row = s.store.row) :
    { s with store := store }.CallInv c call := by
  obtain ⟨request, epochIndex, phase⟩ := call
  obtain ⟨hepoch, h'⟩ := h
  refine ⟨hepoch, ?_⟩
  cases phase with
  | acquiring => trivial
  | loading read =>
      refine ⟨h'.1, h'.2.1, ?_⟩
      intro row hread
      exact (h'.2.2 row hread).trans (hrow h'.2.1).symm
  | saving id ticket =>
      refine ⟨h'.1, h'.2.1, ?_, ?_⟩
      · rw [hsubmitted]
        exact h'.2.2.1
      · rw [hsubmitted]
        exact h'.2.2.2
  | proving id => exact ⟨h'.1, hsecures _ h'.2⟩
  | checkingRoot id => exact ⟨h'.1, hsecures _ h'.2⟩
  | reproving id => exact ⟨h'.1, hsecures _ h'.2⟩
  | releasing id error => exact h'
  | lowering error => exact h'

theorem InvOn.setStore (h : s.InvOn who) {store : MessageIdStore}
    (hsubmitted : store.submitted = s.store.submitted)
    (hsecures : ∀ x, s.store.Secures x → store.Secures x)
    (hrow : s.loaded = false → store.row = s.store.row ∧ store.pending = []) :
    { s with store := store }.InvOn who := by
  refine { h with call := ?_, secured := ?_, unloaded := fun hloaded => (hrow hloaded).2 }
  · intro c call hc hcall
    exact (h.call c call hc hcall).setStore hsubmitted hsecures (fun hloaded => (hrow hloaded).1)
  · intro x hx
    exact hsecures x (h.secured x hx)

/-- **One event** keeps the invariant. -/
theorem InvOn.step (h : s.InvOn (fun _ => True)) (event : Event) :
    (s.step event).InvOn (fun _ => True) := by
  cases event with
  | start c request now =>
      dsimp only [RlnEvm.step]
      split
      · exact h
      · split
        · exact h.addFailure request _
        · refine (h.mono (fun _ _ => trivial)).await ⟨rfl, trivial⟩ ?_
          intro x hx
          cases hx
  | call c event =>
      dsimp only [RlnEvm.step]
      split
      · rename_i call hcall
        exact h.resume hcall event
      · exact h
  | commitNext =>
      refine h.setStore MessageIdStore.commitNext_submitted (fun x hx => hx.commitNext) ?_
      intro hloaded
      have hpending := h.unloaded hloaded
      rcases MessageIdStore.commitNext_cases s.store with heq | ⟨w, rest, hcons, _⟩
      · rw [heq]
        exact ⟨rfl, hpending⟩
      · rw [hpending] at hcons
        cases hcons
  | failNext =>
      refine h.setStore MessageIdStore.failNext_submitted (fun x hx => hx.failNext) ?_
      intro hloaded
      have hpending := h.unloaded hloaded
      rcases MessageIdStore.failNext_cases s.store with heq | ⟨w, hcons, _⟩
      · rw [heq]
        exact ⟨rfl, hpending⟩
      · rw [hpending] at hcons
        cases hcons
  | crash =>
      refine ⟨?_, ?_, ?_, h.nodup, h.small, ?_, ?_, fun _ => MessageIdStore.crash_pending⟩
      · intro c call _ hcall
        cases hcall
      · intro c c' call call' x _ _ hcall
        cases hcall
      · rintro x ⟨c, call, _, hcall, _⟩
        cases hcall
      · intro x hx
        exact (h.secured x hx).crash
      · intro x hx hloaded
        cases hloaded

theorem invOn_mounted (params : RlnParams) (nonceLimit : ℕ) (row : Option StoredMessageIds) :
    (mounted params nonceLimit row).InvOn (fun _ => True) := by
  refine ⟨?_, ?_, ?_, List.nodup_nil, ?_, ?_, ?_, fun _ => rfl⟩
  · intro c call _ hcall
    cases hcall
  · intro c c' call call' x _ _ hcall
    cases hcall
  · rintro x ⟨c, call, _, hcall, _⟩
    cases hcall
  all_goals
    intro x hx
    cases hx

/-- **Every run** keeps the invariant. -/
theorem invOn_after (params : RlnParams) (nonceLimit : ℕ) (row : Option StoredMessageIds)
    (events : List Event) : ((mounted params nonceLimit row).after events).InvOn (fun _ => True) := by
  induction events using List.reverseRecOn with
  | nil => exact invOn_mounted params nonceLimit row
  | append_singleton events event ih =>
      rw [after_concat]
      exact ih.step event

/-- **Message ids are never reused.**  In every run of a backend over any row, with any calls,
saves, failures, cancellations and crashes: no two returned proofs carry the same id of the same
epoch, and the saved row counts the id of every returned proof. -/
theorem message_ids_never_reused (params : RlnParams) (nonceLimit : ℕ)
    (row : Option StoredMessageIds) (events : List Event) :
    ((mounted params nonceLimit row).after events).issued.Pairwise
        (fun p q => ¬ (p.epoch = q.epoch ∧ p.nonce = q.nonce)) ∧
      ∀ p ∈ ((mounted params nonceLimit row).after events).issued, ∃ saved,
        ((mounted params nonceLimit row).after events).store.row = some saved ∧
          (fromEpoch p.epoch < saved.epochIndex ∨
            fromEpoch p.epoch = saved.epochIndex ∧ p.nonce < saved.nextId) := by
  have h := invOn_after params nonceLimit row events
  constructor
  · refine (List.pairwise_map.mp h.nodup).imp ?_
    rintro p q hne ⟨hepoch, hnonce⟩
    apply hne
    unfold IssuedProof.messageId
    rw [hepoch, hnonce]
  · intro p hp
    exact (h.secured p.messageId (List.mem_map_of_mem hp)).1

/-- A proof, a crash, and another proof for the same epoch. -/
def proofsAcrossCrash : List Event :=
  [.start 0 ⟨[1], 30, false⟩ 30, .call 0 .acquire, .call 0 .read, .call 0 .loaded, .commitNext,
    .call 0 .saved, .call 0 .generated, .crash,
    .start 0 ⟨[2], 31, true⟩ 30, .call 0 .acquire, .call 0 .read, .call 0 .loaded, .commitNext,
    .call 0 .saved, .call 0 .generated, .call 0 (.rootChecked false), .call 0 .generated]

example : ((mounted (.mount 10) 5 none).after proofsAcrossCrash).issued =
    [⟨[1], 3, 0⟩, ⟨[2], 3, 1⟩] := by
  decide +kernel

end RlnEvm

end LogosDelivery.Rln
