import LogosDelivery.Rln.ConcurrentValidation
import LogosDelivery.Rln.MessageIds

/-! # An honest publisher is not taken for a spammer

A publisher generates proofs with `RlnEvm`, and a `Validator` receives messages of anyone.  A message is
called spam only where its nullifier is logged, and a nullifier is logged only for a message that was
valid before (`Grounded`).  If the verified proofs under a publisher's nullifiers are proofs that it
issued (`Unforgeable`), then both messages carry proofs with one message id, and since ids are never
reused they are proofs for the same signal: what is called spam has been accepted before. -/

namespace LogosDelivery.Rln

open Lib (mem_table_set mem_table_remove)

variable {lib : RlnLibrary}

namespace RlnLibrary

/-- The message has a proof that verifies for it. -/
def Proven (lib : RlnLibrary) (msg : WakuMessage) : Prop :=
  ∃ proof roots, lib.init msg.proof = some proof ∧
    lib.verifyRlnProof proof msg.toRLNSignal roots = .ok true

/-- Two messages carry the same epoch and the same nullifier. -/
def SameNullifier (lib : RlnLibrary) (msg msg' : WakuMessage) : Prop :=
  ∃ epoch nullifier, lib.Carries msg epoch nullifier ∧ lib.Carries msg' epoch nullifier

variable {log : NullifierLog} {msg : WakuMessage} {proof : RateLimitProof}
  {validRoots : List MerkleNode} {rootValid : Bool}

theorem proven_of_verifies (hinit : lib.init msg.proof = some proof)
    (h : lib.Verifies validRoots msg proof) : lib.Proven msg :=
  ⟨proof, validRoots, hinit, h.verified⟩

/-- What a verdict of valid or spam says about the message. -/
theorem verifies_of_judge
    (h : lib.judge log validRoots msg proof rootValid = .valid ∨
      lib.judge log validRoots msg proof rootValid = .spam) : lib.Verifies validRoots msg proof := by
  by_contra hnot
  have hneither : lib.judge log validRoots msg proof rootValid ≠ .valid ∧
      lib.judge log validRoots msg proof rootValid ≠ .spam :=
    judge_of_not_verifies fun hboth => hnot hboth.2
  exact h.elim hneither.1 hneither.2

/-- Spam is what is logged. -/
theorem logged_of_judge (h : lib.judge log validRoots msg proof rootValid = .spam) :
    log.Logged proof.epoch proof.nullifier := by
  by_contra hnot
  have hverifies := verifies_of_judge (Or.inr h)
  have hroot : rootValid = true := by
    cases rootValid with
    | true => rfl
    | false => cases h
  subst hroot
  rw [(judge_of_verifies log hverifies).2 hnot] at h
  cases h

end RlnLibrary

namespace Validator

variable {s : Validator} {c : ℕ} {call : ValidationCall} {message : WakuMessage}
  {result : MessageValidationResult} {epoch : Epoch} {nullifier : Nullifier}
  {results : List (WakuMessage × MessageValidationResult)}

/-! ### Verdicts with a reason -/

/-- One of the results is valid, for a proven message of the same epoch and nullifier. -/
def AcceptedLike (lib : RlnLibrary) (results : List (WakuMessage × MessageValidationResult))
    (message : WakuMessage) : Prop :=
  ∃ r ∈ results, r.2 = .valid ∧ lib.Proven r.1 ∧ lib.SameNullifier r.1 message

/-- A valid message is proven, and so is spam, which has been accepted before. -/
def Reasoned (lib : RlnLibrary) (results : List (WakuMessage × MessageValidationResult))
    (message : WakuMessage) (result : MessageValidationResult) : Prop :=
  (result = .valid → lib.Proven message) ∧
    (result = .spam → lib.Proven message ∧ AcceptedLike lib results message)

theorem Reasoned.more (h : Reasoned lib results message result)
    (more : List (WakuMessage × MessageValidationResult)) :
    Reasoned lib (results ++ more) message result := by
  refine ⟨h.1, fun hspam => ?_⟩
  obtain ⟨hproven, r, hr, hlike⟩ := h.2 hspam
  exact ⟨hproven, r, List.mem_append_left more hr, hlike⟩

theorem reasoned_of_ne (hvalid : result ≠ .valid) (hspam : result ≠ .spam) :
    Reasoned lib results message result :=
  ⟨fun h => absurd h hvalid, fun h => absurd h hspam⟩

/-- Every verdict has its reason in what was accepted before, and the log knows nothing else. -/
structure Grounded (s : Validator) (lib : RlnLibrary) : Prop where
  decoded : ∀ c call, s.calls c = some call → lib.init call.message.proof = some call.proof
  judged : ∀ c call result, s.calls c = some call → call.phase = .judged result →
    Reasoned lib s.results call.message result
  logged : ∀ epoch nullifier, s.log.Logged epoch nullifier →
    ∃ r ∈ s.results, r.2 = .valid ∧ lib.Proven r.1 ∧ lib.Carries r.1 epoch nullifier
  results : ∀ before message result, before ++ [(message, result)] <+: s.results →
    Reasoned lib before message result

theorem grounded_idle (params : RlnParams) (validRoots : List MerkleNode) (moment : ℚ) :
    (idle params validRoots moment).Grounded lib where
  decoded := fun _ _ h => by cases h
  judged := fun _ _ _ h => by cases h
  logged := fun _ _ h => absurd h NullifierLog.not_logged_empty
  results := fun before message result h => by
    obtain ⟨rest, hrest⟩ := h
    simp [idle] at hrest

/-- The duplicate check gives a verdict with its reason. -/
theorem Grounded.judge (h : s.Grounded lib) {proof : RateLimitProof} {validRoots : List MerkleNode}
    {rootValid : Bool} (hinit : lib.init message.proof = some proof) :
    Reasoned lib s.results message (lib.judge s.log validRoots message proof rootValid) := by
  constructor
  · intro hvalid
    exact RlnLibrary.proven_of_verifies hinit (RlnLibrary.verifies_of_judge (Or.inl hvalid))
  · intro hspam
    obtain ⟨r, hr, hvalid, hproven, hcarries⟩ := h.logged _ _ (RlnLibrary.logged_of_judge hspam)
    refine ⟨RlnLibrary.proven_of_verifies hinit (RlnLibrary.verifies_of_judge (Or.inr hspam)), ?_⟩
    exact ⟨r, hr, hvalid, hproven, _, _, hcarries, proof, hinit, rfl, rfl⟩

/-- The verdict that a call ends with is its own or invalid. -/
theorem logIfValid_cases (lib : RlnLibrary) (log : NullifierLog) (message : WakuMessage)
    (result : MessageValidationResult) :
    (lib.logIfValid log message result).1 = result ∨
      (lib.logIfValid log message result).1 = .invalid := by
  unfold RlnLibrary.logIfValid
  cases lib.init message.proof with
  | none => exact Or.inr rfl
  | some proof =>
      cases hmeta : lib.extractMetadata proof with
      | error e => exact Or.inr (by simp [hmeta])
      | ok proofMetadata =>
          refine Or.inl ?_
          by_cases hvalid : result = .valid <;> simp [hmeta, hvalid]

theorem Grounded.finish (h : s.Grounded lib) (hreason : Reasoned lib s.results message result) :
    (s.finish lib c message result).Grounded lib := by
  have hfinal : Reasoned lib s.results message (lib.logIfValid s.log message result).1 := by
    rcases logIfValid_cases lib s.log message result with heq | heq
    · rw [heq]
      exact hreason
    · rw [heq]
      exact reasoned_of_ne (by simp) (by simp)
  refine ⟨?_, ?_, ?_, ?_⟩
  · intro c' call hcall
    exact h.decoded c' call (mem_table_remove hcall).2
  · intro c' call result' hcall hphase
    exact (h.judged c' call result' (mem_table_remove hcall).2 hphase).more _
  · intro epoch nullifier hlogged
    rcases logged_logIfValid.mp hlogged with hlogged | ⟨hvalid, hcarries⟩
    · obtain ⟨r, hr, hrest⟩ := h.logged epoch nullifier hlogged
      exact ⟨r, List.mem_append_left _ hr, hrest⟩
    · exact ⟨_, List.mem_append_right _ List.mem_cons_self, hvalid, hfinal.1 hvalid, hcarries⟩
  · intro before message' result' hprefix
    rcases List.prefix_concat_iff.mp hprefix with heq | hprefix
    · obtain ⟨rfl, hlast⟩ := List.append_inj' heq rfl
      obtain ⟨rfl, rfl⟩ := (Prod.mk.injEq ..).mp (List.singleton_inj.mp hlast)
      exact hfinal
    · exact h.results before message' result' hprefix

theorem Grounded.await (h : s.Grounded lib) (hdecoded : lib.init call.message.proof = some call.proof)
    (hreason : ∀ result, call.phase = .judged result → Reasoned lib s.results call.message result) :
    (s.await c call).Grounded lib := by
  refine ⟨?_, ?_, h.logged, h.results⟩
  · intro c' call' hcall'
    rcases mem_table_set hcall' with ⟨rfl, rfl⟩ | ⟨_, hcall'⟩
    · exact hdecoded
    · exact h.decoded c' call' hcall'
  · intro c' call' result hcall' hphase
    rcases mem_table_set hcall' with ⟨rfl, rfl⟩ | ⟨_, hcall'⟩
    · exact hreason result hphase
    · exact h.judged c' call' result hcall' hphase

theorem Grounded.refreshDone (h : s.Grounded lib) (roots : List MerkleNode) (moment : ℚ) :
    (s.step lib (.refreshDone roots moment)).Grounded lib := by
  dsimp only [Validator.step]
  split_ifs
  · refine ⟨?_, ?_, h.logged, h.results⟩
    · intro c call hcall
      obtain ⟨call', hcall', rfl⟩ := Option.map_eq_some_iff.mp hcall
      have hdecoded := h.decoded c call' hcall'
      unfold ValidationCall.wake
      split_ifs <;> exact hdecoded
    · intro c call result hcall hphase
      obtain ⟨call', hcall', rfl⟩ := Option.map_eq_some_iff.mp hcall
      unfold ValidationCall.wake at hphase ⊢
      split_ifs at hphase ⊢
      exact h.judged c call' result hcall' hphase
  · exact h

/-- **One event** keeps every verdict reasoned. -/
theorem Grounded.step (h : s.Grounded lib) (event : ValidationEvent) :
    (s.step lib event).Grounded lib := by
  cases event with
  | begin c message now moment =>
      dsimp only [Validator.step]
      split
      · exact h
      · cases hcheck : lib.checkProof s.params now message with
        | error result =>
            rw [RlnLibrary.checkProof_error hcheck]
            exact h.finish (reasoned_of_ne (by simp) (by simp))
        | ok proof =>
            have hinit := RlnLibrary.init_of_checkProof hcheck
            dsimp only
            split_ifs
            · exact h.finish (h.judge hinit)
            · unfold refreshRoots
              split_ifs
              · exact h.finish (h.judge hinit)
              · have hinFlight : { s with rootsRefreshInFlight := true }.Grounded lib :=
                  ⟨h.decoded, h.judged, h.logged, h.results⟩
                exact hinFlight.await hinit fun result hphase => by cases hphase
  | refreshDone roots moment => exact h.refreshDone roots moment
  | validateRoot c =>
      dsimp only [Validator.step]
      split
      · rename_i message proof hcall
        have hinit := h.decoded c _ hcall
        exact h.await hinit fun result hphase => by cases hphase
      · exact h
  | validateMessage c =>
      dsimp only [Validator.step]
      split
      · rename_i message proof valid hcall
        have hinit := h.decoded c _ hcall
        refine h.await hinit fun result hphase => ?_
        obtain rfl := ValidationPhase.judged.inj hphase
        exact h.judge hinit
      · exact h
  | updateLog c =>
      dsimp only [Validator.step]
      split
      · rename_i message proof result hcall
        exact h.finish (h.judged c _ result hcall rfl)
      · exact h
  | rootsChange roots => exact ⟨h.decoded, h.judged, h.logged, h.results⟩
  | clearNullifierLog now =>
      refine ⟨h.decoded, h.judged, fun epoch nullifier hlogged => ?_, h.results⟩
      exact h.logged epoch nullifier (NullifierLog.logged_clearNullifierLog.mp hlogged).1

theorem grounded_after (lib : RlnLibrary) (params : RlnParams) (validRoots : List MerkleNode) (moment : ℚ)
    (events : List ValidationEvent) :
    ((idle params validRoots moment).after lib events).Grounded lib := by
  induction events using List.reverseRecOn with
  | nil => exact grounded_idle params validRoots moment
  | append_singleton events event ih =>
      rw [after_concat]
      exact ih.step event

end Validator

/-! ### The publisher and the validator -/

/-- A proof that verifies under one of the publisher's nullifiers is one that the publisher issued,
with that message id and for that signal. -/
def Unforgeable (lib : RlnLibrary) (nullifierOf : Epoch → ℕ → Nullifier)
    (issued : List IssuedProof) : Prop :=
  ∀ proof signal roots id, lib.verifyRlnProof proof signal roots = .ok true →
    proof.nullifier = nullifierOf proof.epoch id → (⟨signal, proof.epoch, id⟩ : IssuedProof) ∈ issued

/-- The proven messages under one nullifier of the publisher have one signal. -/
theorem same_signal {nullifierOf : Epoch → ℕ → Nullifier} {issued : List IssuedProof}
    (hsound : Unforgeable lib nullifierOf issued)
    (hnodup : (issued.map IssuedProof.messageId).Nodup) {msg msg' : WakuMessage}
    {epoch : Epoch} {id : ℕ} (hproven : lib.Proven msg) (hproven' : lib.Proven msg')
    (hcarries : lib.Carries msg epoch (nullifierOf epoch id))
    (hcarries' : lib.Carries msg' epoch (nullifierOf epoch id)) :
    msg.toRLNSignal = msg'.toRLNSignal := by
  have hissued : ∀ m, lib.Proven m → lib.Carries m epoch (nullifierOf epoch id) →
      (⟨m.toRLNSignal, epoch, id⟩ : IssuedProof) ∈ issued := by
    rintro m ⟨proof, roots, hinit, hverified⟩ ⟨proof', hinit', rfl, hnullifier⟩
    obtain rfl := Option.some.inj (hinit.symm.trans hinit')
    exact hsound proof m.toRLNSignal roots id hverified hnullifier
  have heq := List.inj_on_of_nodup_map hnodup (hissued msg hproven hcarries)
    (hissued msg' hproven' hcarries') rfl
  exact (IssuedProof.mk.injEq ..).mp heq |>.1

/-- **An honest publisher is not taken for a spammer.**  Whatever the publisher's calls, saves, failures
and crashes, and whatever the validator receives and in whatever order its calls go on: a message
under one of the publisher's nullifiers is called spam only after a message with the same signal
was accepted. -/
theorem honest_publisher_never_spam (params : RlnParams) (nonceLimit : ℕ)
    (row : Option StoredMessageIds) (events : List Event) (lib : RlnLibrary)
    (nullifierOf : Epoch → ℕ → Nullifier)
    (hsound : Unforgeable lib nullifierOf ((RlnEvm.mounted params nonceLimit row).after events).issued)
    (validatorParams : RlnParams) (validRoots : List MerkleNode) (moment : ℚ)
    (received : List ValidationEvent) (before : List (WakuMessage × MessageValidationResult))
    (message : WakuMessage)
    (hspam : before ++ [(message, .spam)] <+:
      ((Validator.idle validatorParams validRoots moment).after lib received).results)
    (epoch : Epoch) (id : ℕ) (hcarries : lib.Carries message epoch (nullifierOf epoch id)) :
    ∃ accepted, (accepted, .valid) ∈ before ∧ accepted.toRLNSignal = message.toRLNSignal := by
  have hgrounded := Validator.grounded_after lib validatorParams validRoots moment received
  obtain ⟨hproven, r, hr, hvalid, hproven', epoch', nullifier, hcarries₁, hcarries₂⟩ :=
    (hgrounded.results before message .spam hspam).2 rfl
  obtain ⟨rfl, rfl⟩ := hcarries₂.unique hcarries
  have hnodup := (RlnEvm.invOn_after params nonceLimit row events).nodup
  refine ⟨r.1, ?_, same_signal hsound hnodup hproven' hproven hcarries₁ hcarries⟩
  rw [← hvalid]
  exact hr

/-- A library that verifies one proof of one publisher. -/
def onePublisher : RlnLibrary where
  init := RlnLibrary.oneSender.init
  verifyRlnProof := fun proof signal _ =>
    .ok (decide (signal = Validator.firstMessage.toRLNSignal ∧ proof.epoch = 2 ∧ proof.nullifier = 7))
  generateExternalNullifier := fun _ _ => .ok 0

def oneNullifier (_ : Epoch) (id : ℕ) : Nullifier := if id = 0 then 7 else 0

def publishOnce : List Event :=
  [.start 0 ⟨Validator.firstMessage.toRLNSignal, 1500, false⟩ 1501, .call 0 .acquire, .call 0 .read,
    .call 0 .loaded, .commitNext, .call 0 .saved, .call 0 .generated]

def receivedTwice : List ValidationEvent :=
  [.begin 0 Validator.firstMessage 1501 10, .begin 1 Validator.firstMessage 1501 11]

/-- The second copy of a message is spam, and the first one was valid. -/
theorem receivedTwice_spam :
    ((Validator.idle (.mount 600) [1] 0).after onePublisher receivedTwice).results =
        [(Validator.firstMessage, .valid), (Validator.firstMessage, .spam)] ∧
      ∃ accepted, (accepted, .valid) ∈ [(Validator.firstMessage, MessageValidationResult.valid)] ∧
        accepted.toRLNSignal = Validator.firstMessage.toRLNSignal := by
  have hresults : ((Validator.idle (.mount 600) [1] 0).after onePublisher receivedTwice).results =
      [(Validator.firstMessage, .valid), (Validator.firstMessage, .spam)] := by decide +kernel
  have hissued : ((RlnEvm.mounted (.mount 600) 5 none).after publishOnce).issued =
      [⟨Validator.firstMessage.toRLNSignal, 2, 0⟩] := by decide +kernel
  refine ⟨hresults, honest_publisher_never_spam (.mount 600) 5 none publishOnce onePublisher
    oneNullifier ?_ (.mount 600) [1] 0 receivedTwice
    [(Validator.firstMessage, .valid)] Validator.firstMessage ?_ 2 0 ⟨_, rfl, rfl, rfl⟩⟩
  · rw [hissued]
    intro proof signal roots id hverified hnullifier
    obtain ⟨rfl, hepoch, hseven⟩ := of_decide_eq_true (Except.ok.inj hverified)
    have hid : id = 0 := by
      by_contra hne
      rw [oneNullifier, if_neg hne, hseven] at hnullifier
      exact absurd hnullifier (by decide)
    rw [hepoch, hid]
    exact List.mem_singleton.mpr rfl
  · rw [hresults]
    exact List.prefix_refl _

end LogosDelivery.Rln
