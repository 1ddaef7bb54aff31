import LogosDelivery.Rln.Validation

/-! # Concurrent validation

`validateMessageAndUpdateLog` runs without interruption while the root of the proof is known.  For
an unknown root `validateRoot` joins a refresh of the roots, and from then on each of the three
procedures on the way back resumes in a step of its own: `validateRoot` looks the root up again,
`validateMessage` makes the duplicate check, and only in a later step its caller writes the log.
Two messages of one sender that wait for the same refresh are therefore both checked before either
is logged, and both get valid (`waitingTwice_valid_twice`).

In a run in which no call makes its duplicate check while another one with the same epoch and
nullifier is valid but not logged yet, at most one of the messages gets valid
(`double_signal_valid_once`). -/

namespace LogosDelivery.Rln

open Lib (AllSteps mem_table_set mem_table_remove)

/-- The minimum time between two refreshes of the roots, in seconds. -/
def rootsRefreshMinInterval : ℚ := 2

/-- Where a suspended call stands. -/
inductive ValidationPhase where
  /-- `refreshRoots` waits for the refresh in flight. -/
  | joining
  /-- The refresh is over and `validateRoot` is to resume. -/
  | refreshed
  /-- `validateRoot` answered and `validateMessage` is to resume. -/
  | rootChecked (valid : Bool)
  /-- `validateMessage` answered and `validateMessageAndUpdateLog` is to resume. -/
  | judged (result : MessageValidationResult)
  deriving DecidableEq

/-- A suspended call. -/
structure ValidationCall where
  message : WakuMessage
  proof : RateLimitProof
  phase : ValidationPhase
  deriving DecidableEq

/-- The refresh is over for a call that joined it. -/
def ValidationCall.wake (call : ValidationCall) : ValidationCall :=
  if call.phase = .joining then { call with phase := .refreshed } else call

/-- The backend as far as it validates messages, with the suspended calls and the results so far. -/
structure Validator where
  params : RlnParams
  log : NullifierLog := ∅
  validRoots : List MerkleNode
  lastRootsRefreshMoment : ℚ
  rootsRefreshInFlight : Bool := false
  calls : ℕ → Option ValidationCall := fun _ => none
  results : List (WakuMessage × MessageValidationResult) := []

/-- A step of the event loop. -/
inductive ValidationEvent where
  /-- Call `c` begins, at a time of the clock and a moment of the monotonic clock. -/
  | begin (c : ℕ) (message : WakuMessage) (now moment : ℚ)
  /-- The refresh in flight is over, with the roots then known and the moment noted. -/
  | refreshDone (roots : List MerkleNode) (moment : ℚ)
  | validateRoot (c : ℕ)
  | validateMessage (c : ℕ)
  | updateLog (c : ℕ)
  /-- The roots change otherwise. -/
  | rootsChange (roots : List MerkleNode)
  | clearNullifierLog (now : ℚ)

namespace Validator

variable (s : Validator) (lib : RlnLibrary)

/-- `validateMessageAndUpdateLog` after `validateMessage`. -/
def finish (c : ℕ) (message : WakuMessage) (result : MessageValidationResult) : Validator :=
  { s with
    log := (lib.logIfValid s.log message result).2
    calls := Function.update s.calls c none
    results := s.results ++ [(message, (lib.logIfValid s.log message result).1)] }

/-- Call `c` is suspended, or goes on to its next step. -/
def await (c : ℕ) (call : ValidationCall) : Validator :=
  { s with calls := Function.update s.calls c (some call) }

/-- `validateRoot` for an unknown root: a refresh that is too recent is not repeated, and one that
is in flight is joined. -/
def refreshRoots (c : ℕ) (message : WakuMessage) (proof : RateLimitProof) (moment : ℚ) : Validator :=
  if moment - s.lastRootsRefreshMoment < rootsRefreshMinInterval then
    s.finish lib c message (lib.judge s.log s.validRoots message proof false)
  else { s with rootsRefreshInFlight := true }.await c ⟨message, proof, .joining⟩

/-- What an event does to the backend. -/
def step : ValidationEvent → Validator
  | .begin c message now moment =>
      match s.calls c with
      | some _ => s
      | none =>
          match lib.checkProof s.params now message with
          | .error result => s.finish lib c message result
          | .ok proof =>
              if rootKnown s.validRoots proof.merkleRoot then
                s.finish lib c message (lib.judge s.log s.validRoots message proof true)
              else s.refreshRoots lib c message proof moment
  | .refreshDone roots moment =>
      if s.rootsRefreshInFlight then
        { s with
          validRoots := roots
          lastRootsRefreshMoment := moment
          rootsRefreshInFlight := false
          calls := fun c => (s.calls c).map ValidationCall.wake }
      else s
  | .validateRoot c =>
      match s.calls c with
      | some ⟨message, proof, .refreshed⟩ =>
          s.await c ⟨message, proof, .rootChecked (rootKnown s.validRoots proof.merkleRoot)⟩
      | _ => s
  | .validateMessage c =>
      match s.calls c with
      | some ⟨message, proof, .rootChecked valid⟩ =>
          s.await c ⟨message, proof, .judged (lib.judge s.log s.validRoots message proof valid)⟩
      | _ => s
  | .updateLog c =>
      match s.calls c with
      | some ⟨message, _, .judged result⟩ => s.finish lib c message result
      | _ => s
  | .rootsChange roots => { s with validRoots := roots }
  | .clearNullifierLog now => { s with log := s.log.clearNullifierLog s.params now }

/-- The backend after the events. -/
def after (events : List ValidationEvent) : Validator := Lib.run (fun s e => step s lib e) s events

@[simp] theorem after_nil : s.after lib [] = s := rfl

@[simp] theorem after_concat (events : List ValidationEvent) (event : ValidationEvent) :
    s.after lib (events ++ [event]) = (s.after lib events).step lib event := Lib.run_concat _ _ _ _

variable {s lib} {c : ℕ} {call : ValidationCall} {message : WakuMessage}
  {result : MessageValidationResult} {epoch : Epoch} {nullifier : Nullifier}

/-! ### The invariant -/

/-- The call is valid but not logged yet, and carries the epoch and the nullifier. -/
def Unlogged (lib : RlnLibrary) (call : ValidationCall) (epoch : Epoch) (nullifier : Nullifier) :
    Prop :=
  call.phase = .judged .valid ∧ lib.Carries call.message epoch nullifier

/-- No other call than `c` is valid but not logged yet. -/
def Quiet (s : Validator) (lib : RlnLibrary) (c : ℕ) (epoch : Epoch) (nullifier : Nullifier) : Prop :=
  ∀ c' call, c' ≠ c → s.calls c' = some call → ¬ Unlogged lib call epoch nullifier

/-- The result is valid, for a message that carries the epoch and the nullifier. -/
def ValidFor (lib : RlnLibrary) (epoch : Epoch) (nullifier : Nullifier)
    (r : WakuMessage × MessageValidationResult) : Prop :=
  r.2 = .valid ∧ lib.Carries r.1 epoch nullifier

/-- At most one message gets valid: the first one that does is logged, and while one is valid but
not logged there is no other. -/
structure OneValid (s : Validator) (lib : RlnLibrary) (epoch : Epoch) (nullifier : Nullifier) :
    Prop where
  decoded : ∀ c call, s.calls c = some call → lib.init call.message.proof = some call.proof
  unlogged : ∀ c call, s.calls c = some call → Unlogged lib call epoch nullifier →
    ¬ s.log.Logged epoch nullifier ∧ s.Quiet lib c epoch nullifier
  logged : ∀ r ∈ s.results, ValidFor lib epoch nullifier r → s.log.Logged epoch nullifier
  once : s.results.Pairwise (fun r r' => ¬ (ValidFor lib epoch nullifier r ∧
    ValidFor lib epoch nullifier r'))

/-- What is logged after a call finished: what was logged, and its own nullifier if it is valid. -/
theorem logged_logIfValid {log : NullifierLog} :
    (lib.logIfValid log message result).2.Logged epoch nullifier ↔
      log.Logged epoch nullifier ∨
        ValidFor lib epoch nullifier (message, (lib.logIfValid log message result).1) := by
  unfold RlnLibrary.logIfValid ValidFor
  cases hinit : lib.init message.proof with
  | none => simp
  | some proof =>
      cases hmeta : lib.extractMetadata proof with
      | error e => simp [hmeta]
      | ok proofMetadata =>
          by_cases hvalid : result = .valid
          · have hcarries : lib.Carries message epoch nullifier ↔
                epoch = proof.epoch ∧ nullifier = proof.nullifier := by
              constructor
              · rintro ⟨proof', hinit', rfl, rfl⟩
                obtain rfl := Option.some.inj (hinit.symm.trans hinit')
                exact ⟨rfl, rfl⟩
              · rintro ⟨rfl, rfl⟩
                exact ⟨proof, hinit, rfl, rfl⟩
            simp only [hmeta, hvalid, if_true, true_and]
            rw [NullifierLog.logged_updateLog, RlnLibrary.extractMetadata_nullifier hmeta, hcarries]
            exact or_comm
          · simp [hmeta, hvalid]

theorem logIfValid_valid {log : NullifierLog} (h : (lib.logIfValid log message result).1 = .valid) :
    result = .valid := by
  unfold RlnLibrary.logIfValid at h
  cases hinit : lib.init message.proof with
  | none => simp [hinit] at h
  | some proof =>
      cases hmeta : lib.extractMetadata proof with
      | error e => simp [hinit, hmeta] at h
      | ok proofMetadata =>
          by_cases hvalid : result = .valid
          · exact hvalid
          · simp [hinit, hmeta, hvalid] at h

/-- A call finishes: if it is valid, its nullifier was not logged and no other call with it is on
its way to the log. -/
theorem OneValid.finish (h : s.OneValid lib epoch nullifier)
    (hnew : ValidFor lib epoch nullifier (message, result) →
      ¬ s.log.Logged epoch nullifier ∧ s.Quiet lib c epoch nullifier) :
    (s.finish lib c message result).OneValid lib epoch nullifier := by
  have hresult : ValidFor lib epoch nullifier
      (message, (lib.logIfValid s.log message result).1) →
      ¬ s.log.Logged epoch nullifier ∧ s.Quiet lib c epoch nullifier :=
    fun hr => hnew ⟨logIfValid_valid hr.1, hr.2⟩
  refine ⟨?_, ?_, ?_, ?_⟩
  · intro c' call' hcall'
    exact h.decoded c' call' (mem_table_remove hcall').2
  · intro c' call' hcall' hunlogged
    obtain ⟨hne, hcall'⟩ := mem_table_remove hcall'
    obtain ⟨hnot, hquiet⟩ := h.unlogged c' call' hcall' hunlogged
    refine ⟨?_, ?_⟩
    · intro hlogged
      rcases logged_logIfValid.mp hlogged with hlogged | hvalid
      · exact hnot hlogged
      · exact (hresult hvalid).2 c' call' hne hcall' hunlogged
    · intro c'' call'' hne'' hcall''
      exact hquiet c'' call'' hne'' (mem_table_remove hcall'').2
  · intro r hr hvalid
    apply logged_logIfValid.mpr
    rcases List.mem_append.mp hr with hr | hr
    · exact Or.inl (h.logged r hr hvalid)
    · rw [List.mem_singleton.mp hr] at hvalid
      exact Or.inr hvalid
  · apply List.pairwise_append.mpr
    refine ⟨h.once, List.pairwise_singleton _ _, ?_⟩
    rintro r hr r' hr' ⟨hvalid, hvalid'⟩
    rw [List.mem_singleton.mp hr'] at hvalid'
    exact (hresult hvalid').1 (h.logged r hr hvalid)

/-- A call is suspended or goes on; if it is now valid but not logged, it is the only one. -/
theorem OneValid.await (h : s.OneValid lib epoch nullifier)
    (hdecoded : lib.init call.message.proof = some call.proof)
    (hnew : Unlogged lib call epoch nullifier →
      ¬ s.log.Logged epoch nullifier ∧ s.Quiet lib c epoch nullifier) :
    (s.await c call).OneValid lib epoch nullifier := by
  refine ⟨?_, ?_, h.logged, h.once⟩
  · intro c' call' hcall'
    rcases mem_table_set hcall' with ⟨rfl, rfl⟩ | ⟨-, hcall'⟩
    · exact hdecoded
    · exact h.decoded c' call' hcall'
  · intro c' call' hcall' hunlogged
    rcases mem_table_set hcall' with ⟨rfl, rfl⟩ | ⟨hne, hbefore⟩
    · obtain ⟨hnot, hquiet⟩ := hnew hunlogged
      refine ⟨hnot, ?_⟩
      intro c'' call'' hne'' hcall''
      rcases mem_table_set hcall'' with ⟨heq, -⟩ | ⟨-, hbefore''⟩
      · exact absurd heq hne''
      · exact hquiet c'' call'' hne'' hbefore''
    · obtain ⟨hnot, hquiet⟩ := h.unlogged c' call' hbefore hunlogged
      refine ⟨hnot, ?_⟩
      intro c'' call'' hne'' hcall'' hunlogged''
      rcases mem_table_set hcall'' with ⟨rfl, rfl⟩ | ⟨-, hbefore''⟩
      · exact (hnew hunlogged'').2 c' call' hne hbefore hunlogged
      · exact hquiet c'' call'' hne'' hbefore'' hunlogged''

/-! ### One step -/

/-- A call that makes its duplicate check now, as its proof verifies, finds no other call with the
same epoch and nullifier that is valid but not logged yet. -/
def NoRace (s : Validator) (lib : RlnLibrary) : ValidationEvent → Prop
  | .begin c message now _ => ∀ proof, lib.checkProof s.params now message = .ok proof →
      rootKnown s.validRoots proof.merkleRoot = true → lib.Verifies s.validRoots message proof →
      s.Quiet lib c proof.epoch proof.nullifier
  | .validateMessage c => ∀ call, s.calls c = some call → call.phase = .rootChecked true →
      lib.Verifies s.validRoots call.message call.proof →
      s.Quiet lib c call.proof.epoch call.proof.nullifier
  | _ => True

/-- A duplicate check that comes out valid. -/
theorem unlogged_of_judge {proof : RateLimitProof} {validRoots : List MerkleNode} {rootValid : Bool}
    (hinit : lib.init message.proof = some proof)
    (hquiet : rootValid = true → lib.Verifies validRoots message proof →
      s.Quiet lib c proof.epoch proof.nullifier)
    (hjudge : lib.judge s.log validRoots message proof rootValid = .valid)
    (hcarries : lib.Carries message epoch nullifier) :
    ¬ s.log.Logged epoch nullifier ∧ s.Quiet lib c epoch nullifier := by
  obtain ⟨proof', hinit', rfl, rfl⟩ := hcarries
  obtain rfl := Option.some.inj (hinit.symm.trans hinit')
  have hverifies : rootValid = true ∧ lib.Verifies validRoots message proof := by
    by_contra hnot
    exact (RlnLibrary.judge_of_not_verifies hnot).1 hjudge
  exact ⟨RlnLibrary.not_logged_of_judge hjudge, hquiet hverifies.1 hverifies.2⟩

theorem OneValid.begin (h : s.OneValid lib epoch nullifier) {now moment : ℚ}
    (hrace : s.NoRace lib (.begin c message now moment)) :
    (s.step lib (.begin c message now moment)).OneValid lib epoch nullifier := by
  dsimp only [Validator.step]
  split
  · exact h
  · cases hcheck : lib.checkProof s.params now message with
    | error result =>
        dsimp only
        refine h.finish ?_
        rintro ⟨hvalid, _⟩
        rw [RlnLibrary.checkProof_error hcheck] at hvalid
        cases hvalid
    | ok proof =>
        dsimp only
        have hinit := RlnLibrary.init_of_checkProof hcheck
        split_ifs with hroot
        · refine h.finish ?_
          rintro ⟨hvalid, hcarries⟩
          have hjudge : lib.judge s.log s.validRoots message proof true = .valid := hvalid
          exact unlogged_of_judge hinit (fun _ => hrace proof hcheck hroot) hjudge hcarries
        · unfold refreshRoots
          split_ifs
          · refine h.finish ?_
            rintro ⟨hvalid, _⟩
            cases hvalid
          · have hinFlight : { s with rootsRefreshInFlight := true }.OneValid lib epoch nullifier :=
              ⟨h.decoded, h.unlogged, h.logged, h.once⟩
            refine hinFlight.await hinit ?_
            rintro ⟨hphase, _⟩
            cases hphase

theorem unlogged_wake : Unlogged lib call.wake epoch nullifier ↔ Unlogged lib call epoch nullifier := by
  unfold Unlogged ValidationCall.wake
  split_ifs with hphase
  · simp [hphase]
  · rfl

theorem OneValid.refreshDone (h : s.OneValid lib epoch nullifier) (roots : List MerkleNode)
    (moment : ℚ) : (s.step lib (.refreshDone roots moment)).OneValid lib epoch nullifier := by
  dsimp only [Validator.step]
  split_ifs
  · refine ⟨?_, ?_, h.logged, h.once⟩
    · intro c call hcall
      obtain ⟨call', hcall', rfl⟩ := Option.map_eq_some_iff.mp hcall
      have hdecoded := h.decoded c call' hcall'
      unfold ValidationCall.wake
      split_ifs <;> exact hdecoded
    · intro c call hcall hunlogged
      obtain ⟨call', hcall', rfl⟩ := Option.map_eq_some_iff.mp hcall
      obtain ⟨hnot, hquiet⟩ := h.unlogged c call' hcall' (unlogged_wake.mp hunlogged)
      refine ⟨hnot, ?_⟩
      intro c₂ call₂ hne hcall₂ hunlogged₂
      obtain ⟨call₂', hcall₂', rfl⟩ := Option.map_eq_some_iff.mp hcall₂
      exact hquiet c₂ call₂' hne hcall₂' (unlogged_wake.mp hunlogged₂)
  · exact h

theorem OneValid.clearNullifierLog (h : s.OneValid lib epoch nullifier) {now : ℚ}
    (hkeeps : NullifierLog.Keeps s.params now epoch) :
    (s.step lib (.clearNullifierLog now)).OneValid lib epoch nullifier := by
  have hlogged : (s.log.clearNullifierLog s.params now).Logged epoch nullifier ↔
      s.log.Logged epoch nullifier := by
    rw [NullifierLog.logged_clearNullifierLog]
    exact and_iff_left hkeeps
  refine ⟨h.decoded, ?_, ?_, h.once⟩
  · intro c call hcall hunlogged
    obtain ⟨hnot, hquiet⟩ := h.unlogged c call hcall hunlogged
    exact ⟨fun hl => hnot (hlogged.mp hl), hquiet⟩
  · intro r hr hvalid
    exact hlogged.mpr (h.logged r hr hvalid)

/-- **One event** that is no race keeps the invariant. -/
theorem OneValid.step (h : s.OneValid lib epoch nullifier) {event : ValidationEvent}
    (hrace : s.NoRace lib event)
    (hkeeps : ∀ now, event = .clearNullifierLog now → NullifierLog.Keeps s.params now epoch) :
    (s.step lib event).OneValid lib epoch nullifier := by
  cases event with
  | begin c message now moment => exact h.begin hrace
  | refreshDone roots moment => exact h.refreshDone roots moment
  | validateRoot c =>
      dsimp only [Validator.step]
      split
      · rename_i message proof hcall
        have hinit := h.decoded c _ hcall
        refine h.await hinit ?_
        rintro ⟨hphase, _⟩
        cases hphase
      · exact h
  | validateMessage c =>
      dsimp only [Validator.step]
      split
      · rename_i message proof valid hcall
        have hinit := h.decoded c _ hcall
        refine h.await hinit ?_
        rintro ⟨hphase, hcarries⟩
        refine unlogged_of_judge hinit ?_ (ValidationPhase.judged.inj hphase) hcarries
        rintro rfl hverifies
        exact hrace _ hcall rfl hverifies
      · exact h
  | updateLog c =>
      dsimp only [Validator.step]
      split
      · rename_i message proof result hcall
        refine h.finish ?_
        rintro ⟨hvalid, hcarries⟩
        obtain rfl : result = .valid := hvalid
        exact h.unlogged c _ hcall ⟨rfl, hcarries⟩
      · exact h
  | rootsChange roots => exact ⟨h.decoded, h.unlogged, h.logged, h.once⟩
  | clearNullifierLog now => exact h.clearNullifierLog (hkeeps now rfl)

/-! ### Runs -/

theorem step_params (event : ValidationEvent) : (s.step lib event).params = s.params := by
  cases event with
  | begin c message now moment =>
      dsimp only [Validator.step]
      split
      · rfl
      · split
        · rfl
        · unfold refreshRoots
          split_ifs <;> rfl
  | refreshDone roots moment =>
      dsimp only [Validator.step]
      split_ifs <;> rfl
  | validateRoot c =>
      dsimp only [Validator.step]
      split <;> rfl
  | validateMessage c =>
      dsimp only [Validator.step]
      split <;> rfl
  | updateLog c =>
      dsimp only [Validator.step]
      split <;> rfl
  | rootsChange roots => rfl
  | clearNullifierLog now => rfl

theorem after_params (events : List ValidationEvent) : (s.after lib events).params = s.params := by
  induction events using List.reverseRecOn with
  | nil => rfl
  | append_singleton events event ih => rw [after_concat, step_params, ih]

/-- A backend that has validated nothing. -/
def idle (params : RlnParams) (validRoots : List MerkleNode) (moment : ℚ) : Validator where
  params := params
  validRoots := validRoots
  lastRootsRefreshMoment := moment

/-! ### One call at a time -/

/-- An event of another call leaves a call that is not there. -/
theorem step_calls_eq_none {event : ValidationEvent} (h : s.calls c = none)
    (hbegin : ∀ message now moment, event ≠ .begin c message now moment) :
    (s.step lib event).calls c = none := by
  have hfinish : ∀ {c' message result}, (s.finish lib c' message result).calls c = none := by
    intro c' message result
    show Function.update s.calls c' none c = none
    by_cases hne : c = c'
    · rw [hne, Function.update_self]
    · rw [Function.update_of_ne hne, h]
  have hawait : ∀ {c' call}, c ≠ c' → (s.await c' call).calls c = none := by
    intro c' call hne
    show Function.update s.calls c' (some call) c = none
    rw [Function.update_of_ne hne, h]
  have hother : ∀ {c' call}, s.calls c' = some call → c ≠ c' := by
    rintro c' call hcall rfl
    rw [h] at hcall
    cases hcall
  cases event with
  | begin c' message now moment =>
      have hne : c ≠ c' := by
        rintro rfl
        exact hbegin message now moment rfl
      dsimp only [Validator.step]
      split
      · exact h
      · split
        · exact hfinish
        · unfold refreshRoots
          split_ifs
          · exact hfinish
          · exact hfinish
          · exact hawait hne
  | refreshDone roots moment =>
      dsimp only [Validator.step]
      split_ifs
      · simp [h]
      · exact h
  | validateRoot c' =>
      dsimp only [Validator.step]
      split
      · rename_i hcall
        exact hawait (hother hcall)
      · exact h
  | validateMessage c' =>
      dsimp only [Validator.step]
      split
      · rename_i hcall
        exact hawait (hother hcall)
      · exact h
  | updateLog c' =>
      dsimp only [Validator.step]
      split
      · exact hfinish
      · exact h
  | rootsChange roots => exact h
  | clearNullifierLog now => exact h

/-- A caller that validates one message after the other runs into no race. -/
theorem noRace_of_one_caller (lib : RlnLibrary) (params : RlnParams) (validRoots : List MerkleNode)
    (moment : ℚ) {events : List ValidationEvent} (c : ℕ)
    (hone : ∀ c' message now moment, .begin c' message now moment ∈ events → c' = c) :
    AllSteps (fun pre event => ((idle params validRoots moment).after lib pre).NoRace lib event)
      events := by
  have hnone : ∀ pre, pre <+: events → ∀ c', c' ≠ c →
      ((idle params validRoots moment).after lib pre).calls c' = none := by
    intro pre hpre c' hne
    induction pre using List.reverseRecOn with
    | nil => rfl
    | append_singleton pre event ih =>
        rw [after_concat]
        refine step_calls_eq_none (ih ((List.prefix_append _ _).trans hpre)) ?_
        rintro message now moment rfl
        exact hne (hone c' message now moment (hpre.subset (by simp)))
  intro pre event hpre
  have hpre' : pre <+: events := (List.prefix_append _ _).trans hpre
  have hquiet : ∀ epoch nullifier,
      ((idle params validRoots moment).after lib pre).Quiet lib c epoch nullifier := by
    intro epoch nullifier c' call hne hcall
    rw [hnone pre hpre' c' hne] at hcall
    cases hcall
  cases event with
  | begin c' message now moment' =>
      intro proof _ _ _
      rw [hone c' message now moment' (hpre.subset (by simp))]
      exact hquiet _ _
  | validateMessage c' =>
      intro call hcall _ _
      by_cases hne : c' = c
      · rw [hne]
        exact hquiet _ _
      · rw [hnone pre hpre' c' hne] at hcall
        cases hcall
  | _ => trivial

/-! ### At most one message gets valid -/

/-- **Double signals are caught** in a run that clears the epoch at no time, when no call makes its
duplicate check while another one with the same epoch and nullifier is valid but not logged yet: at
most one of the messages with the epoch and the nullifier gets valid. -/
theorem double_signal_valid_once (lib : RlnLibrary) (params : RlnParams)
    (validRoots : List MerkleNode) (moment : ℚ) (events : List ValidationEvent) (epoch : Epoch)
    (nullifier : Nullifier)
    (hkeeps : ∀ now, .clearNullifierLog now ∈ events → NullifierLog.Keeps params now epoch)
    (hrace : AllSteps (fun pre event =>
      ((idle params validRoots moment).after lib pre).NoRace lib event) events) :
    ((idle params validRoots moment).after lib events).results.Pairwise
      (fun r r' => ¬ (ValidFor lib epoch nullifier r ∧ ValidFor lib epoch nullifier r')) := by
  suffices h : ((idle params validRoots moment).after lib events).OneValid lib epoch nullifier from
    h.once
  induction events using List.reverseRecOn with
  | nil =>
      refine ⟨?_, ?_, ?_, List.Pairwise.nil⟩
      · intro c call hcall
        cases hcall
      · intro c call hcall
        cases hcall
      · intro r hr
        cases hr
  | append_singleton events event ih =>
      have hinv := ih (fun now hmem => hkeeps now (List.mem_append_left _ hmem)) hrace.init
      rw [after_concat]
      refine hinv.step hrace.last ?_
      rintro now rfl
      rw [after_params]
      exact hkeeps now (by simp)

open RlnLibrary (oneSender)

/-- Two messages of one sender in epoch `2`, with epochs of ten minutes. -/
def firstMessage : WakuMessage := ⟨[1], "/a", 1500000000000, [1]⟩

def secondMessage : WakuMessage := ⟨[2], "/a", 1501000000000, [2]⟩

/-- Both wait for the same refresh of the roots, and resume in the order in which they came. -/
def waitingTwice : List ValidationEvent :=
  [.begin 0 firstMessage 1501 10, .begin 1 secondMessage 1501 10, .refreshDone [1] 11,
    .validateRoot 0, .validateRoot 1, .validateMessage 0, .validateMessage 1, .updateLog 0,
    .updateLog 1]

/-- The messages differ and carry the same epoch and nullifier, no log is cleared, and both get
valid. -/
theorem waitingTwice_valid_twice :
    firstMessage ≠ secondMessage ∧ oneSender.Carries firstMessage 2 7 ∧
      oneSender.Carries secondMessage 2 7 ∧
      (∀ now, .clearNullifierLog now ∉ waitingTwice) ∧
      ((idle (.mount 600) [] 0).after oneSender waitingTwice).results =
        [(firstMessage, .valid), (secondMessage, .valid)] := by
  refine ⟨by decide, ⟨_, rfl, rfl, rfl⟩, ⟨_, rfl, rfl, rfl⟩, ?_, by decide +kernel⟩
  intro now h
  simp [waitingTwice] at h

/-- The second message begins when the first one is logged. -/
def oneAfterTheOther : List ValidationEvent :=
  [.begin 0 firstMessage 1501 10, .refreshDone [1] 11, .validateRoot 0, .validateMessage 0,
    .updateLog 0, .begin 0 secondMessage 1501 12]

theorem oneAfterTheOther_valid_once :
    ((idle (.mount 600) [] 0).after oneSender oneAfterTheOther).results =
        [(firstMessage, .valid), (secondMessage, .spam)] ∧
      ((idle (.mount 600) [] 0).after oneSender oneAfterTheOther).results.Pairwise
        (fun r r' => ¬ (ValidFor oneSender 2 7 r ∧ ValidFor oneSender 2 7 r')) := by
  refine ⟨by decide +kernel, ?_⟩
  refine double_signal_valid_once oneSender (.mount 600) [] 0 oneAfterTheOther 2 7 ?_
    (noRace_of_one_caller _ _ _ _ 0 ?_)
  · intro now h
    simp [oneAfterTheOther] at h
  · intro c' message now moment h
    simp only [oneAfterTheOther, List.mem_cons, ValidationEvent.begin.injEq, reduceCtorEq,
      List.not_mem_nil, or_false, false_or] at h
    omega

end Validator

end LogosDelivery.Rln
