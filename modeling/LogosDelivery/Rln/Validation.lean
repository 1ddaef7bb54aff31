import LogosDelivery.Lib.Runs
import LogosDelivery.Rln.NullifierLog

/-! # Validating messages

`validateMessage` accepts a message whose time is near the clock, whose proof is for the epoch of
that time and against a known root, verifies, and carries a nullifier that is not logged for the
epoch.  `validateProof` first clears the log, and logs the nullifier of a valid message.

The log is to catch every second message of a sender in an epoch.  It does so exactly when no call
clears the epoch between two of its messages (`catchesDoubleSignals_iff`).  But messages are
accepted by a distance in seconds and epochs are cleared by a distance in epochs: with an epoch of
ten minutes the previous one is cleared at once, while its messages are accepted for another twenty
seconds (`lateMessage_accepted_twice`). -/

namespace LogosDelivery.Rln

structure WakuMessage where
  payload : List UInt8
  contentTopic : String
  /-- In nanoseconds. -/
  timestamp : ℤ
  proof : List UInt8
  deriving DecidableEq

structure RateLimitProof where
  proof : List UInt8
  merkleRoot : MerkleNode
  epoch : Epoch
  shareX : MerkleNode
  shareY : MerkleNode
  nullifier : Nullifier
  rlnIdentifier : RlnIdentifier
  deriving DecidableEq

inductive MessageValidationResult where
  | valid
  | invalid
  | spam
  | unknownRoot
  deriving DecidableEq, Repr

/-- What is used of the codec and the RLN library: decoding a proof, verifying it for a signal
against a list of roots, and hashing an epoch and an identifier. -/
structure RlnLibrary where
  init : List UInt8 → Option RateLimitProof
  verifyRlnProof : RateLimitProof → List UInt8 → List MerkleNode → Except String Bool
  generateExternalNullifier : Epoch → RlnIdentifier → Except String ExternalNullifier

/-- The eight bytes of a timestamp, as a 64-bit number in little-endian order. -/
def timestampBytes (timestamp : ℤ) : List UInt8 :=
  List.ofFn (fun i : Fin 8 => UInt8.ofNat ((timestamp % 2 ^ 64).toNat / 256 ^ i.val % 256))

/-- The signal that a proof is bound to. -/
def WakuMessage.toRLNSignal (msg : WakuMessage) : List UInt8 :=
  msg.payload ++ msg.contentTopic.toUTF8.toList ++ timestampBytes msg.timestamp

/-- The time of a message in seconds. -/
def WakuMessage.time (msg : WakuMessage) : ℚ := msg.timestamp / 10 ^ 9

/-- Whether a root is one of the acceptable ones. -/
def rootKnown (validRoots : List MerkleNode) (root : MerkleNode) : Bool := decide (root ∈ validRoots)

namespace RlnLibrary

variable (lib : RlnLibrary)

def extractMetadata (proof : RateLimitProof) : Except String ProofMetadata :=
  match lib.generateExternalNullifier proof.epoch proof.rlnIdentifier with
  | .error error => .error ("Failed to compute external nullifier: " ++ error)
  | .ok externalNullifier => .ok ⟨proof.nullifier, proof.shareX, proof.shareY, externalNullifier⟩

/-- `validateMessage` up to the await of `validateRoot`. -/
def checkProof (params : RlnParams) (now : ℚ) (msg : WakuMessage) :
    Except MessageValidationResult RateLimitProof :=
  match lib.init msg.proof with
  | none => .error .invalid
  | some proof =>
      if params.rlnMaxTimestampGap < RlnParams.timeGap now msg.time then .error .invalid
      else if proof.epoch ≠ params.calcEpoch msg.time then .error .invalid
      else .ok proof

/-- `validateMessage` after `validateRoot`. -/
def judge (log : NullifierLog) (validRoots : List MerkleNode) (msg : WakuMessage)
    (proof : RateLimitProof) (rootValid : Bool) : MessageValidationResult :=
  if ¬ rootValid then .unknownRoot
  else
    match lib.verifyRlnProof proof msg.toRLNSignal validRoots with
    | .error _ => .invalid
    | .ok false => .invalid
    | .ok true =>
        match lib.extractMetadata proof with
        | .error _ => .invalid
        | .ok proofMetadata =>
            match log.hasDuplicate proof.epoch proofMetadata with
            | .error _ => .valid
            | .ok true => .spam
            | .ok false => .valid

/-- The roots are those known when `validateRoot` answers. -/
def validateMessage (params : RlnParams) (log : NullifierLog) (validRoots : List MerkleNode)
    (now : ℚ) (msg : WakuMessage) : MessageValidationResult :=
  match lib.checkProof params now msg with
  | .error result => result
  | .ok proof => lib.judge log validRoots msg proof (rootKnown validRoots proof.merkleRoot)

/-- `validateMessageAndUpdateLog` after `validateMessage`. -/
def logIfValid (log : NullifierLog) (msg : WakuMessage) (result : MessageValidationResult) :
    MessageValidationResult × NullifierLog :=
  match lib.init msg.proof with
  | none => (.invalid, log)
  | some msgProof =>
      match lib.extractMetadata msgProof with
      | .error _ => (.invalid, log)
      | .ok proofMetadata =>
          if result = .valid then (result, log.updateLog msgProof.epoch proofMetadata)
          else (result, log)

end RlnLibrary

/-- A call of `validateProof`: the message, the times at which it clears the log and checks the
timestamp, and the roots known to the node. -/
structure ValidateCall where
  message : WakuMessage
  clearTime : ℚ
  checkTime : ℚ
  validRoots : List MerkleNode

namespace RlnLibrary

/-- The verdict on a message and the log afterwards. -/
def validateProof (lib : RlnLibrary) (params : RlnParams) (log : NullifierLog) (call : ValidateCall) :
    MessageValidationResult × NullifierLog :=
  let log := log.clearNullifierLog params call.clearTime
  match lib.init call.message.proof with
  | none => (.invalid, log)
  | some _ =>
      lib.logIfValid log call.message
        (lib.validateMessage params log call.validRoots call.checkTime call.message)

variable {lib : RlnLibrary} {params : RlnParams} {log : NullifierLog} {msg : WakuMessage}
  {proof : RateLimitProof} {epoch : Epoch} {nullifier : Nullifier}

/-! ### The duplicate check -/

/-- The proof verifies for the message against the roots, and its metadata can be extracted. -/
structure Verifies (lib : RlnLibrary) (validRoots : List MerkleNode) (msg : WakuMessage)
    (proof : RateLimitProof) : Prop where
  verified : lib.verifyRlnProof proof msg.toRLNSignal validRoots = .ok true
  metadata : ∃ proofMetadata, lib.extractMetadata proof = .ok proofMetadata

theorem extractMetadata_nullifier {proofMetadata : ProofMetadata}
    (h : lib.extractMetadata proof = .ok proofMetadata) :
    proofMetadata.nullifier = proof.nullifier := by
  unfold extractMetadata at h
  cases hgen : lib.generateExternalNullifier proof.epoch proof.rlnIdentifier with
  | error e =>
      rw [hgen] at h
      cases h
  | ok externalNullifier =>
      rw [hgen] at h
      cases h
      rfl

/-- A verified proof is spam if its nullifier is logged, and valid if it is not. -/
theorem judge_of_verifies (log : NullifierLog) {validRoots : List MerkleNode}
    (h : lib.Verifies validRoots msg proof) :
    (log.Logged proof.epoch proof.nullifier → lib.judge log validRoots msg proof true = .spam) ∧
      (¬ log.Logged proof.epoch proof.nullifier →
        lib.judge log validRoots msg proof true = .valid) := by
  obtain ⟨proofMetadata, hmeta⟩ := h.metadata
  obtain ⟨b, hdup, hlogged⟩ := log.hasDuplicate_eq proof.epoch proofMetadata
  rw [extractMetadata_nullifier hmeta] at hlogged
  have hjudge : lib.judge log validRoots msg proof true = if b = true then .spam else .valid := by
    unfold judge
    simp only [h.verified, hmeta, hdup]
    cases b <;> rfl
  rw [hjudge]
  refine ⟨fun hl => if_pos (hlogged.mpr hl), fun hl => if_neg (fun hb => hl (hlogged.mp hb))⟩

/-- Any other proof is neither. -/
theorem judge_of_not_verifies {validRoots : List MerkleNode} {rootValid : Bool}
    (h : ¬ (rootValid = true ∧ lib.Verifies validRoots msg proof)) :
    lib.judge log validRoots msg proof rootValid ≠ .valid ∧
      lib.judge log validRoots msg proof rootValid ≠ .spam := by
  unfold judge
  cases rootValid with
  | false => simp
  | true =>
      cases hver : lib.verifyRlnProof proof msg.toRLNSignal validRoots with
      | error e => simp
      | ok verified =>
          cases verified with
          | false => simp
          | true =>
              cases hmeta : lib.extractMetadata proof with
              | error e => simp
              | ok proofMetadata => exact absurd ⟨rfl, hver, proofMetadata, hmeta⟩ h

/-- The nullifier of a message that is valid was not logged. -/
theorem not_logged_of_judge {validRoots : List MerkleNode} {rootValid : Bool}
    (h : lib.judge log validRoots msg proof rootValid = .valid) :
    ¬ log.Logged proof.epoch proof.nullifier := by
  by_cases hverifies : rootValid = true ∧ lib.Verifies validRoots msg proof
  · obtain ⟨rfl, hverifies⟩ := hverifies
    intro hlogged
    rw [(judge_of_verifies log hverifies).1 hlogged] at h
    cases h
  · exact absurd h (judge_of_not_verifies hverifies).1

/-- Only a valid message is logged. -/
theorem logIfValid_eq (hinit : lib.init msg.proof = some proof) {proofMetadata : ProofMetadata}
    (hmeta : lib.extractMetadata proof = .ok proofMetadata) (result : MessageValidationResult) :
    lib.logIfValid log msg result =
      (result, if result = .valid then log.updateLog proof.epoch proofMetadata else log) := by
  unfold logIfValid
  simp only [hinit, hmeta]
  split_ifs <;> rfl

theorem logIfValid_of_ne {result : MessageValidationResult} (h : result ≠ .valid ∧ result ≠ .spam) :
    (lib.logIfValid log msg result).1 ≠ .valid ∧ (lib.logIfValid log msg result).1 ≠ .spam ∧
      (lib.logIfValid log msg result).2 = log := by
  unfold logIfValid
  cases hinit : lib.init msg.proof with
  | none => simp
  | some msgProof =>
      cases hmeta : lib.extractMetadata msgProof with
      | error e => simp [hmeta]
      | ok proofMetadata =>
          simp [hmeta, h.1, h.2]

/-! ### One call -/

/-- The message's proof carries the epoch and the nullifier. -/
def Carries (lib : RlnLibrary) (msg : WakuMessage) (epoch : Epoch) (nullifier : Nullifier) : Prop :=
  ∃ proof, lib.init msg.proof = some proof ∧ proof.epoch = epoch ∧ proof.nullifier = nullifier

/-- The message passes every check but the one for duplicates: its timestamp, its epoch, its root
and its proof are good. -/
structure Admits (lib : RlnLibrary) (params : RlnParams) (call : ValidateCall)
    (proof : RateLimitProof) : Prop extends lib.Verifies call.validRoots call.message proof where
  checked : lib.checkProof params call.checkTime call.message = .ok proof
  root : rootKnown call.validRoots proof.merkleRoot = true

/-- The message passes every other check and carries the epoch and the nullifier. -/
def AdmittedWith (lib : RlnLibrary) (params : RlnParams) (call : ValidateCall) (epoch : Epoch)
    (nullifier : Nullifier) : Prop :=
  ∃ proof, lib.Admits params call proof ∧ proof.epoch = epoch ∧ proof.nullifier = nullifier

variable {call : ValidateCall}

theorem init_of_checkProof {now : ℚ} (h : lib.checkProof params now msg = .ok proof) :
    lib.init msg.proof = some proof := by
  unfold checkProof at h
  cases hinit : lib.init msg.proof with
  | none =>
      rw [hinit] at h
      cases h
  | some proof' =>
      rw [hinit] at h
      dsimp only at h
      split_ifs at h
      cases h
      rfl

theorem checkProof_error {now : ℚ} {result : MessageValidationResult}
    (h : lib.checkProof params now msg = .error result) : result = .invalid := by
  unfold checkProof at h
  cases hinit : lib.init msg.proof with
  | none =>
      rw [hinit] at h
      cases h
      rfl
  | some proof =>
      rw [hinit] at h
      dsimp only at h
      split_ifs at h <;> cases h <;> rfl

theorem AdmittedWith.carries (h : lib.AdmittedWith params call epoch nullifier) :
    lib.Carries call.message epoch nullifier := by
  obtain ⟨proof, hadmits, he, hn⟩ := h
  exact ⟨proof, init_of_checkProof hadmits.checked, he, hn⟩

/-- A message carries one epoch and one nullifier. -/
theorem Carries.unique {epoch' : Epoch} {nullifier' : Nullifier}
    (h : lib.Carries msg epoch nullifier) (h' : lib.Carries msg epoch' nullifier') :
    epoch = epoch' ∧ nullifier = nullifier' := by
  obtain ⟨proof, hinit, rfl, rfl⟩ := h
  obtain ⟨proof', hinit', rfl, rfl⟩ := h'
  obtain rfl := Option.some.inj (hinit.symm.trans hinit')
  exact ⟨rfl, rfl⟩

/-- A call that passes the other checks: it gets spam if its nullifier is logged after the
clearing and valid if not, and in both cases the nullifier is logged afterwards. -/
theorem validateProof_of_admits (log : NullifierLog) (h : lib.Admits params call proof) :
    ((log.clearNullifierLog params call.clearTime).Logged proof.epoch proof.nullifier →
      (lib.validateProof params log call).1 = .spam ∧
        (lib.validateProof params log call).2 = log.clearNullifierLog params call.clearTime) ∧
    (¬ (log.clearNullifierLog params call.clearTime).Logged proof.epoch proof.nullifier →
      (lib.validateProof params log call).1 = .valid ∧
        ∃ proofMetadata, proofMetadata.nullifier = proof.nullifier ∧
          (lib.validateProof params log call).2 =
            (log.clearNullifierLog params call.clearTime).updateLog proof.epoch proofMetadata) := by
  have hinit := init_of_checkProof h.checked
  obtain ⟨proofMetadata, hmeta⟩ := h.metadata
  have hvalidate : ∀ result, lib.judge (log.clearNullifierLog params call.clearTime) call.validRoots
      call.message proof true = result →
      lib.validateProof params log call =
        (result, if result = .valid then
            (log.clearNullifierLog params call.clearTime).updateLog proof.epoch proofMetadata
          else log.clearNullifierLog params call.clearTime) := by
    rintro result rfl
    rw [← logIfValid_eq hinit hmeta]
    unfold validateProof validateMessage
    simp only [hinit, h.checked, h.root]
  obtain ⟨hspam, hvalid⟩ := judge_of_verifies (log.clearNullifierLog params call.clearTime)
    h.toVerifies
  constructor
  · intro hlogged
    rw [hvalidate .spam (hspam hlogged)]
    exact ⟨rfl, rfl⟩
  · intro hlogged
    rw [hvalidate .valid (hvalid hlogged)]
    exact ⟨rfl, proofMetadata, extractMetadata_nullifier hmeta, rfl⟩

/-- A call that fails another check is neither valid nor spam, and logs nothing. -/
theorem validateProof_of_not_admits (log : NullifierLog)
    (h : ∀ proof, ¬ lib.Admits params call proof) :
    (lib.validateProof params log call).1 ≠ .valid ∧ (lib.validateProof params log call).1 ≠ .spam ∧
      (lib.validateProof params log call).2 = log.clearNullifierLog params call.clearTime := by
  have hresult : lib.validateMessage params (log.clearNullifierLog params call.clearTime)
      call.validRoots call.checkTime call.message ≠ .valid ∧
      lib.validateMessage params (log.clearNullifierLog params call.clearTime)
        call.validRoots call.checkTime call.message ≠ .spam := by
    unfold validateMessage
    cases hcheck : lib.checkProof params call.checkTime call.message with
    | error result => simp [checkProof_error hcheck]
    | ok proof =>
        apply judge_of_not_verifies
        rintro ⟨hroot, hverifies⟩
        exact h proof { toVerifies := hverifies, checked := hcheck, root := hroot }
  unfold validateProof
  dsimp only
  cases hinit : lib.init call.message.proof with
  | none => simp
  | some proof => exact logIfValid_of_ne hresult

/-- **What a call leaves in the log**: what it admits, and of the rest what it does not clear. -/
theorem logged_validateProof :
    (lib.validateProof params log call).2.Logged epoch nullifier ↔
      lib.AdmittedWith params call epoch nullifier ∨
        log.Logged epoch nullifier ∧ NullifierLog.Keeps params call.clearTime epoch := by
  rw [← NullifierLog.logged_clearNullifierLog]
  by_cases hadmits : ∃ proof, lib.Admits params call proof
  · obtain ⟨proof, hadmits⟩ := hadmits
    have hwith : lib.AdmittedWith params call epoch nullifier ↔
        epoch = proof.epoch ∧ nullifier = proof.nullifier := by
      constructor
      · intro hw
        have hcarries : lib.Carries call.message proof.epoch proof.nullifier :=
          ⟨proof, init_of_checkProof hadmits.checked, rfl, rfl⟩
        exact hw.carries.unique hcarries
      · rintro ⟨rfl, rfl⟩
        exact ⟨proof, hadmits, rfl, rfl⟩
    obtain ⟨hspam, hvalid⟩ := validateProof_of_admits log hadmits
    by_cases hlogged : (log.clearNullifierLog params call.clearTime).Logged proof.epoch proof.nullifier
    · rw [(hspam hlogged).2, hwith]
      constructor
      · exact Or.inr
      · rintro (⟨rfl, rfl⟩ | hl)
        · exact hlogged
        · exact hl
    · obtain ⟨_, proofMetadata, hnullifier, heq⟩ := hvalid hlogged
      rw [heq, NullifierLog.logged_updateLog, hwith, hnullifier]
  · have hnone : ∀ proof, ¬ lib.Admits params call proof := fun proof hp => hadmits ⟨proof, hp⟩
    rw [(validateProof_of_not_admits log hnone).2.2]
    constructor
    · exact Or.inr
    · rintro (⟨proof, hp, _⟩ | hl)
      · exact absurd hp (hnone proof)
      · exact hl

/-- An admitted message gets spam exactly when its nullifier is logged and not cleared now. -/
theorem AdmittedWith.spam_iff (h : lib.AdmittedWith params call epoch nullifier) :
    (lib.validateProof params log call).1 = .spam ↔
      log.Logged epoch nullifier ∧ NullifierLog.Keeps params call.clearTime epoch := by
  obtain ⟨proof, hadmits, rfl, rfl⟩ := h
  rw [← NullifierLog.logged_clearNullifierLog]
  obtain ⟨hspam, hvalid⟩ := validateProof_of_admits log hadmits
  constructor
  · intro heq
    by_contra hlogged
    rw [(hvalid hlogged).1] at heq
    cases heq
  · exact fun hlogged => (hspam hlogged).1

/-- A valid message is admitted. -/
theorem admittedWith_of_valid (h : (lib.validateProof params log call).1 = .valid)
    (hcarries : lib.Carries call.message epoch nullifier) :
    lib.AdmittedWith params call epoch nullifier := by
  by_contra hnot
  refine (validateProof_of_not_admits log ?_).1 h
  intro proof hadmits
  have hproof : lib.Carries call.message proof.epoch proof.nullifier :=
    ⟨proof, init_of_checkProof hadmits.checked, rfl, rfl⟩
  obtain ⟨rfl, rfl⟩ := hcarries.unique hproof
  exact hnot ⟨proof, hadmits, rfl, rfl⟩

/-! ### Runs of calls -/

/-- The log after the calls, one after the other. -/
def logAfter (lib : RlnLibrary) (params : RlnParams) (calls : List ValidateCall) : NullifierLog :=
  Lib.run (fun log call => (lib.validateProof params log call).2) ∅ calls

/-- What a call gets after the calls before it. -/
def resultAfter (lib : RlnLibrary) (params : RlnParams) (calls : List ValidateCall)
    (call : ValidateCall) : MessageValidationResult :=
  (lib.validateProof params (lib.logAfter params calls) call).1

/-- Some call admitted the epoch and the nullifier, and no later one cleared the epoch. -/
def Remembered (lib : RlnLibrary) (params : RlnParams) (calls : List ValidateCall) (epoch : Epoch)
    (nullifier : Nullifier) : Prop :=
  ∃ pre call rest, calls = pre ++ call :: rest ∧ lib.AdmittedWith params call epoch nullifier ∧
    ∀ later ∈ rest, NullifierLog.Keeps params later.clearTime epoch

theorem remembered_concat {calls : List ValidateCall} :
    lib.Remembered params (calls ++ [call]) epoch nullifier ↔
      lib.AdmittedWith params call epoch nullifier ∨
        lib.Remembered params calls epoch nullifier ∧
          NullifierLog.Keeps params call.clearTime epoch := by
  constructor
  · rintro ⟨pre, first, rest, hsplit, hadmitted, hkeeps⟩
    cases rest using List.reverseRecOn with
    | nil =>
        obtain ⟨_, hlast⟩ := List.append_inj' hsplit rfl
        obtain rfl := List.singleton_inj.mp hlast
        exact Or.inl hadmitted
    | append_singleton rest last =>
        rw [← List.cons_append, ← List.append_assoc] at hsplit
        obtain ⟨rfl, hlast⟩ := List.append_inj' hsplit rfl
        obtain rfl := List.singleton_inj.mp hlast
        refine Or.inr ⟨⟨pre, first, rest, rfl, hadmitted, ?_⟩, hkeeps call (by simp)⟩
        intro later hlater
        exact hkeeps later (List.mem_append_left _ hlater)
  · rintro (hadmitted | ⟨⟨pre, first, rest, rfl, hadmitted, hkeeps⟩, hkeep⟩)
    · exact ⟨calls, call, [], rfl, hadmitted, by simp⟩
    · refine ⟨pre, first, rest ++ [call], by simp, hadmitted, ?_⟩
      intro later hlater
      rcases List.mem_append.mp hlater with hlater | hlater
      · exact hkeeps later hlater
      · rw [List.mem_singleton.mp hlater]
        exact hkeep

/-- The log holds what the calls remember. -/
theorem logged_logAfter (calls : List ValidateCall) :
    (lib.logAfter params calls).Logged epoch nullifier ↔
      lib.Remembered params calls epoch nullifier := by
  induction calls using List.reverseRecOn with
  | nil =>
      constructor
      · exact fun h => absurd h NullifierLog.not_logged_empty
      · rintro ⟨pre, first, rest, hsplit, _⟩
        simp at hsplit
  | append_singleton calls call ih =>
      unfold logAfter at ih ⊢
      rw [Lib.run_concat, logged_validateProof, ih, remembered_concat]

/-- Two different messages one after the other whose proofs carry the same epoch and nullifier:
at most one of them gets valid, and the second one, if both pass the other checks, gets spam. -/
def CatchesDoubleSignals (lib : RlnLibrary) (params : RlnParams) (calls : List ValidateCall) : Prop :=
  ∀ pre first mid second, pre ++ first :: mid ++ [second] <+: calls →
    first.message ≠ second.message → ∀ epoch nullifier,
    lib.Carries first.message epoch nullifier → lib.Carries second.message epoch nullifier →
    ¬ (lib.resultAfter params pre first = .valid ∧
        lib.resultAfter params (pre ++ first :: mid) second = .valid) ∧
      (lib.AdmittedWith params first epoch nullifier → lib.AdmittedWith params second epoch nullifier →
        lib.resultAfter params (pre ++ first :: mid) second = .spam)

/-- When a message passes the other checks and a different one with its epoch and nullifier did so
before, no call has cleared the epoch since the last such message. -/
def EpochsKept (lib : RlnLibrary) (params : RlnParams) (calls : List ValidateCall) : Prop :=
  ∀ pre first mid second, pre ++ first :: mid ++ [second] <+: calls →
    first.message ≠ second.message → ∀ epoch nullifier,
    lib.AdmittedWith params first epoch nullifier → lib.AdmittedWith params second epoch nullifier →
    lib.Remembered params (pre ++ first :: mid) epoch nullifier ∧
      NullifierLog.Keeps params second.clearTime epoch

/-- **The log catches double signals exactly when it keeps the epochs** for which messages still
pass the other checks. -/
theorem catchesDoubleSignals_iff (lib : RlnLibrary) (params : RlnParams) (calls : List ValidateCall) :
    lib.CatchesDoubleSignals params calls ↔ lib.EpochsKept params calls := by
  constructor
  · intro h pre first mid second hprefix hne epoch nullifier hfirst hsecond
    obtain ⟨_, hspam⟩ := h pre first mid second hprefix hne epoch nullifier hfirst.carries
      hsecond.carries
    have hlogged := hsecond.spam_iff.mp (hspam hfirst hsecond)
    exact ⟨(logged_logAfter _).mp hlogged.1, hlogged.2⟩
  · intro h pre first mid second hprefix hne epoch nullifier hfirst hsecond
    have hspam : lib.AdmittedWith params first epoch nullifier →
        lib.AdmittedWith params second epoch nullifier →
        lib.resultAfter params (pre ++ first :: mid) second = .spam := by
      intro hfirst hsecond
      obtain ⟨hremembered, hkeeps⟩ := h pre first mid second hprefix hne epoch nullifier hfirst
        hsecond
      exact hsecond.spam_iff.mpr ⟨(logged_logAfter _).mpr hremembered, hkeeps⟩
    refine ⟨?_, hspam⟩
    rintro ⟨hvalid₁, hvalid₂⟩
    rw [hspam (admittedWith_of_valid hvalid₁ hfirst) (admittedWith_of_valid hvalid₂ hsecond)] at hvalid₂
    cases hvalid₂

/-- A library in which every proof of one byte verifies; the byte is its share, and all of them
are of one sender in epoch `2`. -/
def oneSender : RlnLibrary where
  init := fun bytes => bytes.head?.map (fun b => ⟨[], 1, 2, Fin.ofNat _ b.toNat, 0, 7, 0⟩)
  verifyRlnProof := fun _ _ _ => .ok true
  generateExternalNullifier := fun _ _ => .ok 0

/-- With epochs of ten minutes, a message two seconds before epoch `3` begins. -/
def beforeEpochEnd : ValidateCall := ⟨⟨[1], "/a", 1798000000000, [1]⟩, 1798, 1798, [1]⟩

/-- Another message of epoch `2`, which arrives two seconds after epoch `3` has begun. -/
def afterEpochEnd : ValidateCall := ⟨⟨[2], "/a", 1799000000000, [2]⟩, 1802, 1802, [1]⟩

/-- The clock does not run backwards, the two messages differ and carry the same epoch and
nullifier, and both get valid. -/
theorem lateMessage_accepted_twice :
    beforeEpochEnd.checkTime ≤ afterEpochEnd.clearTime ∧
      beforeEpochEnd.message ≠ afterEpochEnd.message ∧
      oneSender.Carries beforeEpochEnd.message 2 7 ∧ oneSender.Carries afterEpochEnd.message 2 7 ∧
      oneSender.resultAfter (.mount 600) [] beforeEpochEnd = .valid ∧
      oneSender.resultAfter (.mount 600) [beforeEpochEnd] afterEpochEnd = .valid ∧
      ¬ oneSender.CatchesDoubleSignals (.mount 600) [beforeEpochEnd, afterEpochEnd] := by
  have hne : beforeEpochEnd.message ≠ afterEpochEnd.message := by decide
  have hfirst : oneSender.Carries beforeEpochEnd.message 2 7 := ⟨_, rfl, rfl, rfl⟩
  have hsecond : oneSender.Carries afterEpochEnd.message 2 7 := ⟨_, rfl, rfl, rfl⟩
  have hvalid₁ : oneSender.resultAfter (.mount 600) [] beforeEpochEnd = .valid := by decide +kernel
  have hvalid₂ : oneSender.resultAfter (.mount 600) [beforeEpochEnd] afterEpochEnd = .valid := by
    decide +kernel
  refine ⟨by decide +kernel, hne, hfirst, hsecond, hvalid₁, hvalid₂, ?_⟩
  intro h
  exact (h [] beforeEpochEnd [] afterEpochEnd (List.prefix_refl _) hne 2 7 hfirst hsecond).1
    ⟨hvalid₁, hvalid₂⟩

end RlnLibrary

end LogosDelivery.Rln
