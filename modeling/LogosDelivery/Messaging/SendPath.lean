import LogosDelivery.Messaging.SendRuns

/-! # The send path with its processors

`mix_processor.nim`, `relay_processor.nim`, `lightpush_processor.nim` and `send_processor.nim`, the
chain that `setupSendProcessorChain` builds from them, and the Store validation of
`send_service.nim`, over the send service.  `exposed` is no field of the source: it records what
leaves the node in clear, that is every plain publish and resend of a task and every Store query that
names it; `autoSubscribed` records the subscribes of `enqueueSend`.

A processor runs from its start to the answer of its publish, or decides at once.  A cancellation
reaches a coroutine only while what it awaits is pending: where the awaited call has completed, the
coroutine gets its result first (`Phase.isPending`).  The source makes some of the steps here without
an await in between; separate steps only add interleavings. -/

namespace LogosDelivery.Messaging

open StoreSync (WakuMessageHash)

inductive AnonymityLevel where
  | none
  | preferred
  | required
deriving DecidableEq

/-! ### The processors -/

inductive LightPushErrorCode where
  | noPeersToRelay
  | tooManyRequests
  | outOfRlnProof
  | serviceNotAvailable
  | internalServerError
  | invalidMessage
  | other
deriving DecidableEq

/-- What a publish returns: the number of peers, or a code with its text, which may hold the marker
of the RLN validator. -/
inductive WakuLightPushResult where
  | ok (peers : ℕ)
  | error (code : LightPushErrorCode) (desc : String) (rlnMarker : Bool)
deriving DecidableEq

def isRlnRejection (code : LightPushErrorCode) (rlnMarker : Bool) : Bool :=
  code = .outOfRlnProof || (code = .invalidMessage && rlnMarker)

/-- `relay` has the state that it sets where it has no peer. -/
inductive SendProcessor where
  | mix (fallbackAllowed : Bool)
  | relay (fallbackStateToSet : DeliveryState)
  | lightpush
deriving DecidableEq

inductive MixUnusable where
  | none
  | unavailable
  | selfHop
  | noExit
deriving DecidableEq

/-- The text written to `errorDesc`. -/
def MixUnusable.reason : MixUnusable → String
  | none => ""
  | unavailable => "mix is not mounted or knows fewer than 4 usable mix nodes"
  | selfHop => "this node has no address that mix can use for replies"
  | noExit => "no mix node serves lightpush on the shard of the message"

/-- What a processor reads when it starts. -/
structure ProcessorReading where
  now : ℤ
  /-- The bytes of the request over mix and the limit of one mix message. -/
  size : ℕ
  limit : ℕ
  mixReady : Bool
  mixMounted : Bool
  mixSelfHopUsable : Bool
  /-- There is an exit for the shard. -/
  mixExit : Bool
  lightpushPeerAvailable : Bool
deriving DecidableEq

/-- `DeliveryWindow`, the mix window. -/
def deliveryWindow : ℤ := 60 * 1000000000

def mixUnusableGrace : ℤ := 3 * 1000000000

def DeliveryTask.admissionAge (task : DeliveryTask) (now : ℤ) : ℤ :=
  match task.firstAdmittedTime with
  | some admitted => now - admitted
  | none => 0

namespace SendProcessor

def mixUnusable (reading : ProcessorReading) : MixUnusable :=
  if reading.mixReady = false then
    if reading.mixMounted && !reading.mixSelfHopUsable then .selfHop else .unavailable
  else if reading.mixExit = false then .noExit
  else .none

def decideWithoutMix (fallbackAllowed : Bool) (task : DeliveryTask) (unusable : MixUnusable)
    (reading : ProcessorReading) : SendOutcome :=
  if fallbackAllowed = false then
    if reading.mixMounted && decide (task.admissionAge reading.now ≤ mixUnusableGrace) then
      .nextRound (some unusable.reason)
    else .failed (some unusable.reason)
  else .fallback (some "")

def decideTooLarge (fallbackAllowed : Bool) (size limit : ℕ) : SendOutcome :=
  if fallbackAllowed = false then
    .failed (some ("message too large for mix: the request has " ++ toString size ++
      " bytes, the limit is " ++ toString limit ++ " bytes"))
  else .fallback (some "")

/-- What a processor decides without a publish.  A `lightpush` that is not valid is the last one of
the chain, so the task waits for its next attempt. -/
def decision (task : DeliveryTask) (reading : ProcessorReading) : SendProcessor → Option SendOutcome
  | mix fallbackAllowed =>
      if reading.limit < reading.size then
        some (decideTooLarge fallbackAllowed reading.size reading.limit)
      else if mixUnusable reading ≠ .none then
        some (decideWithoutMix fallbackAllowed task (mixUnusable reading) reading)
      else if fallbackAllowed && decide (deliveryWindow < task.admissionAge reading.now) then
        some (.fallback (some ""))
      else none
  | relay _ => none
  | lightpush => if reading.lightpushPeerAvailable then none else some (.nextRound none)

/-- `parkForRlnProofRefresh`; `refreshed` is what `onRlnProofRejected` answers. -/
def parkForRlnProofRefresh (refreshed : Bool) (desc : String) : SendOutcome :=
  if refreshed = false then .failed (some desc) else .parkForRlnProofRefresh

/-- The codes after which a mix or lightpush publish is tried again. -/
def isTransient : LightPushErrorCode → Bool
  | .noPeersToRelay => true
  | .tooManyRequests => true
  | .outOfRlnProof => true
  | .serviceNotAvailable => true
  | .internalServerError => true
  | _ => false

/-- What a processor makes of the answer of its publish; mix clears `errorDesc` before it. -/
def outcome (refreshed : Bool) : SendProcessor → WakuLightPushResult → SendOutcome
  | mix _, .ok peers => if 0 < peers then .propagated true else .nextRound (some "")
  | mix _, .error code desc rlnMarker =>
      if isRlnRejection code rlnMarker then parkForRlnProofRefresh refreshed desc
      else if isTransient code then .nextRound (some "")
      else .failed (some desc)
  | relay fallbackStateToSet, .ok peers =>
      if 0 < peers then .propagated false
      else if fallbackStateToSet = .fallbackRetry then .fallback none else .failed none
  | relay fallbackStateToSet, .error code desc rlnMarker =>
      if isRlnRejection code rlnMarker then parkForRlnProofRefresh refreshed desc
      else if code ≠ .noPeersToRelay then .failed (some desc)
      else if fallbackStateToSet = .fallbackRetry then .fallback none else .failed none
  | lightpush, .ok peers => if 0 < peers then .propagated false else .nextRound none
  | lightpush, .error code desc rlnMarker =>
      if isRlnRejection code rlnMarker then parkForRlnProofRefresh refreshed desc
      else if isTransient code then .nextRound none
      else .failed (some desc)

def canResend (peerAvailable : Bool) : SendProcessor → Bool
  | lightpush => peerAvailable
  | _ => false

end SendProcessor

/-- The processors of the plain path. -/
def plainProcessors (isRelayAvail isLightPushAvail : Bool) : List SendProcessor :=
  (if isRelayAvail then
    [.relay (if isLightPushAvail then .fallbackRetry else .failedToDeliver)] else []) ++
  (if isLightPushAvail then [.lightpush] else [])

def setupSendProcessorChain (isRelayAvail isLightPushAvail : Bool) (level : AnonymityLevel) :
    Except String (List SendProcessor) :=
  let plain := plainProcessors isRelayAvail isLightPushAvail
  match level with
  | .none =>
      if plain.length = 0 then .error "No valid send processor found for the delivery task"
      else .ok plain
  | .preferred =>
      if isLightPushAvail = false then
        .error "Mix sending needs a lightpush client, which is not mounted"
      else .ok (.mix true :: plain)
  | .required =>
      if isLightPushAvail = false then
        .error "Mix sending needs a lightpush client, which is not mounted"
      else .ok [.mix false]

/-! ### The path -/

/-- What leaves the node in clear. -/
inductive Exposure where
  | relay
  | lightpush
  | resend
  | storeQuery
deriving DecidableEq

/-- What the start of a processor's publish exposes. -/
def SendProcessor.exposure : SendProcessor → List Exposure
  | mix _ => []
  | relay _ => [.relay]
  | lightpush => [.lightpush]

/-- The awaited call is pending, so that a cancellation reaches the coroutine there. -/
def Phase.isPending : Phase → Bool
  | .admissionEnded _ => false
  | .processEnded => false
  | .retryFired => false
  | .sendEnded _ => false
  | _ => true

/-- A task in `process`: the processors from the current one on, and whether that one publishes. -/
structure Processing where
  processors : List SendProcessor := []
  publishing : Bool := false

structure SendPath where
  level : AnonymityLevel
  chain : List SendProcessor
  archiveTime : ℤ
  service : SendService
  processing : TaskId → Processing := fun _ => {}
  lastStoreQueryTime : TaskId → Option ℤ := fun _ => none
  /-- The batches of the Store queries in flight. -/
  queries : List (List TaskId) := []
  exposed : List (TaskId × Exposure) := []
  autoSubscribed : List RequestId := []

inductive PathAction where
  /-- `enqueueSend`; the subscribe on send finds the topic subscribed, or subscribes it or fails. -/
  | send (requestId : RequestId) (msgHash : WakuMessageHash) (ephemeral : Bool) (timestamp : ℤ)
      (isSubbed subscribes : Bool)
  | startSendService
  | stopSendService
  | retryNow
  /-- A coroutine is resumed, but for the processors of `process`. -/
  | resume (id : TaskId) (r : Delivery.Resumption)
  /-- A slot is acquired, and `process` starts. -/
  | process (id : TaskId)
  /-- The current processor starts. -/
  | beginImpl (id : TaskId) (reading : ProcessorReading)
  /-- The publish of the current processor returns. -/
  | endImpl (id : TaskId) (result : WakuLightPushResult) (refreshed : Bool) (now : ℤ)
  /-- A round of `storeValidationLoop` asks a Store peer. -/
  | storeQuery (now : ℤ)
  | storeAnswer (i : ℕ) (reported : List WakuMessageHash) (paginated peerAvailable : Bool)
  /-- A query times out, fails or is cancelled. -/
  | storeQueryEnds (i : ℕ)
  | resendEnd (msgHash : WakuMessageHash)

namespace SendPath

variable (p : SendPath)

def subscribesOnSend : Bool := p.level = .none

/-! ### Store validation -/

/-- The key by which the tasks of a batch are ordered. -/
def storeValidationKey (id : TaskId) : ℤ :=
  match p.lastStoreQueryTime id with
  | some time => time
  | none => ((p.service.tasks id).bind (·.firstPropagatedTime)).getD 0

/-- The task may be asked about in Store now. -/
def isEligible (now : ℤ) (id : TaskId) : Bool :=
  match p.service.tasks id with
  | none => false
  | some task =>
      (p.service.delivery id task).awaitsStoreValidation p.service.toSendConfig &&
        (match task.firstPropagatedTime with
        | none => false
        | some time => decide (p.archiveTime < now - time)) &&
        (match p.lastStoreQueryTime id with
        | none => true
        | some time => decide (p.archiveTime < now - time))

/-- `MaxPageSize` of the Store. -/
def maxPageSize : ℕ := 100

def nextStoreValidationBatch (tasks : List TaskId) (now : ℤ) : List TaskId :=
  ((tasks.filter (p.isEligible now)).mergeSort
    (fun a b => decide (p.storeValidationKey a ≤ p.storeValidationKey b))).take maxPageSize

/-- The queued tasks whose `deliver` waits for a Store confirmation. -/
def pendingTasks : List TaskId :=
  (p.service.deliveryTasks.map (·.2)).filter (fun id =>
    (p.service.tasks id).any (·.storeAnswerPending))

/-- The tasks that are resent after the answer to a query. -/
def resent (batch : List TaskId) (reported : List WakuMessageHash) (paginated canResend : Bool) :
    List TaskId :=
  batch.filter (fun id => !paginated && canResend && (p.service.tasks id).any (fun task =>
    p.service.startsResend batch reported id (p.service.answered reported id task)))

/-! ### The steps -/

def exposes (ids : List TaskId) (exposure : Exposure) : SendPath :=
  { p with exposed := p.exposed ++ ids.map (fun id => (id, exposure)) }

/-- One processor is done, and `rest` come after it. -/
def endProcessor (id : TaskId) (outcome : SendOutcome) (rest : List SendProcessor) (now : ℤ) :
    SendPath :=
  { p with
    service := p.service.resume id (.sendImpl outcome rest.isEmpty now)
    processing := Function.update p.processing id { processors := rest } }

/-- The current processor of a task in `process` starts. -/
def beginImpl (id : TaskId) (task : DeliveryTask) (reading : ProcessorReading) : SendPath :=
  match p.processing id with
  | { processors := processor :: rest, publishing := false } =>
      match processor.decision task reading with
      | some outcome => p.endProcessor id outcome rest reading.now
      | none =>
          { p with
            processing := Function.update p.processing id
              { processors := processor :: rest, publishing := true }
            exposed := p.exposed ++ processor.exposure.map (fun e => (id, e)) }
  | _ => p

/-- The publish of the current processor of a task in `process` returned. -/
def endImpl (id : TaskId) (result : WakuLightPushResult) (refreshed : Bool) (now : ℤ) : SendPath :=
  match p.processing id with
  | { processors := processor :: rest, publishing := true } =>
      p.endProcessor id (processor.outcome refreshed result) rest now
  | _ => p

/-- The phase of a task. -/
def phase (id : TaskId) : Option Phase := (p.service.tasks id).map (·.phase)

/-- A resumption that is none of `process` and reaches the coroutine. -/
def resumable (id : TaskId) : Delivery.Resumption → Bool
  | .process => false
  | .sendImpl _ _ _ => false
  | .cancel _ => (p.phase id).any Phase.isPending
  | _ => true

def enqueueSend (requestId : RequestId) (msgHash : WakuMessageHash) (ephemeral : Bool)
    (timestamp : ℤ) (isSubbed subscribes : Bool) : SendPath :=
  let enqueued := { p with service := (p.service.enqueue requestId msgHash ephemeral timestamp).1 }
  if !p.service.isFull && p.subscribesOnSend && !isSubbed then
    if subscribes then { enqueued with autoSubscribed := p.autoSubscribed ++ [requestId] } else p
  else enqueued

def step : PathAction → SendPath
  | .send requestId msgHash ephemeral timestamp isSubbed subscribes =>
      p.enqueueSend requestId msgHash ephemeral timestamp isSubbed subscribes
  | .startSendService => { p with service := p.service.startSendService }
  | .stopSendService => { p with service := p.service.stopSendService }
  | .retryNow => { p with service := p.service.retryNow }
  | .resume id r => if p.resumable id r then { p with service := p.service.resume id r } else p
  | .process id =>
      if p.phase id = some .sendSlot then
        { p with
          service := p.service.resume id .process
          processing := Function.update p.processing id { processors := p.chain } }
      else p
  | .beginImpl id reading =>
      match p.service.tasks id with
      | some task => if task.phase = .processing then p.beginImpl id task reading else p
      | none => p
  | .endImpl id result refreshed now =>
      if p.phase id = some .processing then p.endImpl id result refreshed now else p
  | .storeQuery now =>
      let batch := p.nextStoreValidationBatch p.pendingTasks now
      if batch.length = 0 then p
      else
        { p.exposes batch .storeQuery with
          queries := p.queries ++ [batch]
          lastStoreQueryTime := fun id => if id ∈ batch then some now else p.lastStoreQueryTime id }
  | .storeAnswer i reported paginated peerAvailable =>
      match p.queries[i]? with
      | none => p
      | some batch =>
          let canResend := p.chain.any (SendProcessor.canResend peerAvailable)
          { p.exposes (p.resent batch reported paginated canResend) .resend with
            service := p.service.storeResponse batch reported paginated canResend
            queries := p.queries.eraseIdx i }
  | .storeQueryEnds i => { p with queries := p.queries.eraseIdx i }
  | .resendEnd msgHash =>
      { p with
        service := { p.service with
          resends := p.service.resends.filter (fun h => decide (h ≠ msgHash)) } }

/-- What was exposed of a task. -/
def exposuresOf (id : TaskId) : List Exposure :=
  (p.exposed.filter (fun e => decide (e.1 = id))).map (·.2)

/-- The path of a new service. -/
def initial (cfg : SendConfig) (archiveTime : ℤ) (level : AnonymityLevel)
    (chain : List SendProcessor) : SendPath where
  level := level
  chain := chain
  archiveTime := archiveTime
  service := SendService.initial cfg

end SendPath

end LogosDelivery.Messaging
