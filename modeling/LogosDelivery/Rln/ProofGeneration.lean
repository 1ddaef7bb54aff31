import LogosDelivery.Lib.Runs
import LogosDelivery.Rln.MessageIdStore

/-! # Generating proofs

`generateRLNProof` and `generateRLNProofWithRootRefresh` draw a message id under `reserveLock`, save
the new count, and only then generate the proof; a failed generation gives the id back, again under
the lock.  Any number of calls run at once, and each runs from one await to the next without
interruption.  A call is therefore a phase, the await it stands at, and an event lets it go on; the
store processes writes at any time, and the process may crash, which leaves the row and the proofs
that were returned.

An event that does not fit the phase of its call changes nothing, so every list of events is an
interleaving. -/

namespace LogosDelivery.Rln

/-- What a caller asks for: the signal to prove and the time of the message. -/
structure ProofRequest where
  input : List UInt8
  senderEpochTime : ℚ
  /-- Whether it is `generateRLNProofWithRootRefresh` that is called. -/
  rootRefresh : Bool
  deriving DecidableEq

/-- A proof by what `generateProof` was asked to prove. -/
structure IssuedProof where
  input : List UInt8
  epoch : Epoch
  nonce : ℕ
  deriving DecidableEq

/-- How a call ends without a proof: `generateRLNProof` fails with a text, the other one with an
error, and both when they are cancelled. -/
inductive CallError where
  | text (message : String)
  | rln (error : RlnError)
  | cancelled
  deriving DecidableEq

/-- How the generation of a proof fails; cancelling it raises an exception. -/
inductive GenerationFailure where
  | error (error : String)
  | raised (message : String)

/-- The error of `generateRLNProofWithNonce`. -/
def GenerationFailure.text : GenerationFailure → String
  | .error e => "could not generate rln-v2 proof: " ++ e
  | .raised message => "exception generating rln proof: " ++ message

/-- The await at which a call stands. -/
inductive Phase where
  /-- `reserveDurably` waits for the lock. -/
  | acquiring
  /-- `ensureMessageIdsLoaded` waits for the row, which may have been read already. -/
  | loading (read : Option (Option StoredMessageIds))
  /-- `reserveDurably` waits for its save. -/
  | saving (id ticket : ℕ)
  /-- The proof is being generated. -/
  | proving (id : ℕ)
  /-- `proveWithRootRefresh` waits for `validateRoot`. -/
  | checkingRoot (id : ℕ)
  /-- The proof is being generated again, for a fresh root. -/
  | reproving (id : ℕ)
  /-- `releaseDurably` waits for the lock; the call will fail with the error. -/
  | releasing (id : ℕ) (error : CallError)
  /-- `releaseDurably` waits for its save. -/
  | lowering (error : CallError)
  deriving DecidableEq

/-- A call in progress. -/
structure Call where
  request : ProofRequest
  epochIndex : ℕ
  phase : Phase
  deriving DecidableEq

/-- The number of the id that the call holds. -/
def Phase.id? : Phase → Option ℕ
  | .acquiring => none
  | .loading _ => none
  | .saving id _ => some id
  | .proving id => some id
  | .checkingRoot id => some id
  | .reproving id => some id
  | .releasing id _ => some id
  | .lowering _ => none

/-- The id that the call holds. -/
def Call.messageId? (call : Call) : Option (ℕ × ℕ) :=
  call.phase.id?.map (fun id => (call.epochIndex, id))

/-- The backend as far as it generates proofs, with the calls in progress, the store, and how the
calls ended so far. -/
structure RlnEvm where
  params : RlnParams
  nonceManager : NonceManager
  /-- The store was opened and its row loaded. -/
  loaded : Bool := false
  store : MessageIdStore
  reserveLock : Option ℕ := none
  calls : ℕ → Option Call := fun _ => none
  results : List (ProofRequest × Except CallError IssuedProof) := []

/-- What lets a waiting call go on. -/
inductive CallEvent where
  | acquire
  | read
  | loadFails (error : RlnError)
  | loaded
  | saved
  | saveFails (error : String)
  | generated
  | generationFails (failure : GenerationFailure)
  | undecodable (error : String)
  | rootChecked (valid : Bool)
  | lowered
  | cancel

inductive Event where
  | start (c : ℕ) (request : ProofRequest) (now : ℚ)
  | call (c : ℕ) (event : CallEvent)
  | commitNext
  | failNext
  | crash

namespace RlnEvm

variable (s : RlnEvm)

/-- The proofs that were returned. -/
def issued : List IssuedProof :=
  s.results.filterMap (fun r => match r.2 with | .ok proof => some proof | .error _ => none)

/-- Call `c` goes to its next await. -/
def await (c : ℕ) (call : Call) : RlnEvm := { s with calls := Function.update s.calls c (some call) }

/-- Call `c` gives up the lock, if it has it. -/
def release2 (c : ℕ) : RlnEvm :=
  { s with reserveLock := if s.reserveLock = some c then none else s.reserveLock }

/-- Call `c` ends, and with it its hold on the lock. -/
def endCall (c : ℕ) (call : Call) (outcome : Except CallError IssuedProof) : RlnEvm :=
  { s.release2 c with
    calls := Function.update s.calls c none
    results := s.results ++ [(call.request, outcome)] }

/-- The error of a call whose reservation failed. -/
def reserveError (call : Call) (error : RlnError) : CallError :=
  if call.request.rootRefresh then .rln error
  else .text ("could not get new message id to generate an rln proof: " ++ error.text)

/-- `reserveDurably` from the draw of the id to the save. -/
def reserveAndSave (c : ℕ) (call : Call) : RlnEvm :=
  match s.nonceManager.reserve call.epochIndex with
  | (.error error, nonceManager) =>
      { s with nonceManager := nonceManager }.endCall c call (.error (reserveError call error))
  | (.ok id, nonceManager) =>
      let saved := s.store.saveMessageIds ⟨call.epochIndex, nonceManager.nextId⟩
      { s with nonceManager := nonceManager, store := saved.2 }.await c
        { call with phase := .saving id saved.1 }

/-- `releaseDurably` from the lock to the save, which is skipped when the counter did not move. -/
def releaseAndSave (c : ℕ) (call : Call) (id : ℕ) (error : CallError) : RlnEvm :=
  let nonceManager := s.nonceManager.release call.epochIndex id
  if nonceManager.nextId = s.nonceManager.nextId then
    { s with nonceManager := nonceManager }.endCall c call (.error error)
  else
    let saved := s.store.saveMessageIds ⟨call.epochIndex, nonceManager.nextId⟩
    { s with nonceManager := nonceManager, store := saved.2 }.await c
      { call with phase := .lowering error }

/-- The proof of a call, for the epoch of its message. -/
def proofOf (call : Call) (id : ℕ) : IssuedProof :=
  ⟨call.request.input, s.params.calcEpoch call.request.senderEpochTime, id⟩

/-- The first generation is done: `generateRLNProof` returns the proof, and
`proveWithRootRefresh` looks at its root. -/
def proofGenerated (c : ℕ) (call : Call) (id : ℕ) : RlnEvm :=
  if call.request.rootRefresh then s.await c { call with phase := .checkingRoot id }
  else s.endCall c call (.ok (s.proofOf call id))

/-- The error of a call whose generation failed, `context` being what
`proveWithRootRefresh` puts before it. -/
def generationError (call : Call) (context : String) (error : String) : CallError :=
  if call.request.rootRefresh then .rln ⟨.transient, context ++ error⟩ else .text error

/-- The restored counter and the store, once the row is there. -/
def restoreRow (read : Option StoredMessageIds) : RlnEvm :=
  match read with
  | none => { s with loaded := true }
  | some row =>
      { s with loaded := true, nonceManager := s.nonceManager.restore row.epochIndex row.nextId }

/-- The call goes on from its await. -/
def resume (c : ℕ) (call : Call) : CallEvent → RlnEvm
  | .acquire =>
      if s.reserveLock = none then
        match call.phase with
        | .acquiring =>
            if s.loaded then { s with reserveLock := some c }.reserveAndSave c call
            else { s with reserveLock := some c }.await c { call with phase := .loading none }
        | .releasing id error => { s with reserveLock := some c }.releaseAndSave c call id error
        | _ => s
      else s
  | .read =>
      match call.phase with
      | .loading none => s.await c { call with phase := .loading (some s.store.row) }
      | _ => s
  | .loadFails error =>
      match call.phase with
      | .loading _ => s.endCall c call (.error (reserveError call error))
      | _ => s
  | .loaded =>
      match call.phase with
      | .loading (some read) => (s.restoreRow read).reserveAndSave c call
      | _ => s
  | .saved =>
      match call.phase with
      | .saving id ticket =>
          if s.store.committed ticket then (s.release2 c).await c { call with phase := .proving id }
          else s
      | _ => s
  | .saveFails error =>
      match call.phase with
      | .saving id _ =>
          { s with nonceManager := s.nonceManager.release call.epochIndex id }.endCall c call
            (.error (reserveError call
              ⟨.transient, "could not save the message id count: " ++ error⟩))
      | _ => s
  | .generated =>
      match call.phase with
      | .proving id => s.proofGenerated c call id
      | .reproving id => s.endCall c call (.ok (s.proofOf call id))
      | _ => s
  | .generationFails failure =>
      match call.phase with
      | .proving id =>
          s.await c { call with
            phase := .releasing id
              (generationError call "failed to generate RLN proof: " failure.text) }
      | .reproving id =>
          s.await c { call with
            phase := .releasing id
              (generationError call "failed to regenerate RLN proof: " failure.text) }
      | _ => s
  | .undecodable error =>
      match call.phase with
      | .proving id =>
          if call.request.rootRefresh then
            s.await c { call with
              phase := .releasing id
                (generationError call "could not decode proof for root check: " error) }
          else s
      | _ => s
  | .rootChecked valid =>
      match call.phase with
      | .checkingRoot id =>
          if valid then s.endCall c call (.ok (s.proofOf call id))
          else s.await c { call with phase := .reproving id }
      | _ => s
  | .lowered =>
      match call.phase with
      | .lowering error => s.endCall c call (.error error)
      | _ => s
  | .cancel =>
      match call.phase with
      -- `generateRLNProofWithNonce` turns the cancellation into a failure
      | .proving _ => s
      | .reproving _ => s
      | _ => s.endCall c call (.error .cancelled)

/-- What an event does to the backend. -/
def step : Event → RlnEvm
  | .start c request now =>
      match s.calls c with
      | some _ => s
      | none =>
          match s.params.checkTimestampBounds now request.senderEpochTime with
          | .error error =>
              let outcome := if request.rootRefresh then .rln error else .text error.text
              { s with results := s.results ++ [(request, .error outcome)] }
          | .ok _ =>
              s.await c ⟨request, s.params.epochIndexOf request.senderEpochTime, .acquiring⟩
  | .call c event =>
      match s.calls c with
      | some call => s.resume c call event
      | none => s
  | .commitNext => { s with store := s.store.commitNext }
  | .failNext => { s with store := s.store.failNext }
  | .crash =>
      { s with
        nonceManager := { nonceLimit := s.nonceManager.nonceLimit }
        loaded := false
        store := s.store.crash
        reserveLock := none
        calls := fun _ => none }

/-- A backend as it is mounted, over any row. -/
def mounted (params : RlnParams) (nonceLimit : ℕ) (row : Option StoredMessageIds) : RlnEvm where
  params := params
  nonceManager := { nonceLimit := nonceLimit }
  store := { row := row }

/-- The backend after the events. -/
def after (events : List Event) : RlnEvm := Lib.run step s events

@[simp] theorem after_nil : s.after [] = s := rfl

@[simp] theorem after_concat (events : List Event) (event : Event) :
    s.after (events ++ [event]) = (s.after events).step event := Lib.run_concat _ _ _ _

end RlnEvm

end LogosDelivery.Rln
