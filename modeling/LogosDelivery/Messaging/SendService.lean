import LogosDelivery.StoreSync.Common

/-! # The send service

`delivery_service/send_service/send_service.nim` with its `delivery_task.nim` and the outcomes of
`send_processor.nim`.  Every queued task has a coroutine, `deliver`, which sends the task until it
propagates and then waits for a Store confirmation when one is expected.  A coroutine runs without
interruption from one await to the next; `Phase` says at which await it is suspended, and an
`Action` resumes it there with the answer it waited for.  Where a procedure of the coroutine returns
to another one, that is an await too.

A stop cancels every running coroutine.  The cancellation arrives at some later await (`cancel`),
and what happens in between is not fixed: the service may be started again first.  The callbacks of
`startDeliverSoon` wait in `soon`.

Moments and durations are integers.  What the code reads from the network, the rate limit, RLN, the
clocks or the Store is an argument of the action.  `deliveryTasks` is the ordered table of the
source, from hashes to tasks, and a `TaskId` is the reference of a task.  `log` is no field of the
source: it records the events of each task, and when it left the queue.  Metrics, logging and the
fields that only they read are left out. -/

namespace LogosDelivery.Messaging

open StoreSync (WakuMessageHash)

abbrev RequestId := String
abbrev TaskId := ℕ

inductive DeliveryState where
  | entry
  | successfullyPropagated
  | successfullyValidated
  | fallbackRetry
  | nextRoundRetry
  | failedToDeliver
deriving DecidableEq

/-- The future that a Store node's report completes and a timeout cancels. -/
inductive StoreAnswer where
  | pending
  | completed
  | cancelled
deriving DecidableEq

/-- The await at which the `deliver` of a task is suspended. -/
inductive Phase where
  /-- There is no `deliver`, or it is over. -/
  | idle
  | admissionLock
  | quotaState
  | admitting
  | attachRlnProof
  /-- `runAdmission` returned. -/
  | admissionEnded (admitted : Bool)
  | sendSlot
  | processing
  /-- `process` returned. -/
  | processEnded
  | retryTick
  /-- The tick came. -/
  | retryFired
  /-- `sendUntilPropagated` returned. -/
  | sendEnded (propagated : Bool)
  /-- `waitForStoreValidation`, from the moment `started` on. -/
  | storeAnswer (started : ℤ)
deriving DecidableEq

/-- The phases in which a task holds `admissionLock`. -/
def Phase.holdsLock : Phase → Bool
  | .quotaState | .admitting | .attachRlnProof => true
  | _ => false

/-- The phases in which a task holds a send slot. -/
def Phase.holdsSlot : Phase → Bool
  | .processing | .processEnded => true
  | _ => false

structure DeliveryTask where
  requestId : RequestId
  msgHash : WakuMessageHash
  ephemeral : Bool
  timestamp : ℤ
  state : DeliveryState := .entry
  firstPropagatedTime : Option ℤ := none
  firstAdmittedTime : Option ℤ := none
  propagatedEventEmitted : Bool := false
  queuedEventEmitted : Bool := false
  propagatedAnonymously : Bool := false
  storeValidationWaited : ℤ := 0
  storeAnswer : Option StoreAnswer := none
  resendCount : ℕ := 0
  errorDesc : String := ""
  phase : Phase := .idle
  /-- A stop wants the `deliver` to end. -/
  cancelling : Bool := false
deriving DecidableEq

/-- What happens to a task: an event is emitted, or the task leaves the queue. -/
inductive TaskEvent where
  | messageQueued (requestId : RequestId) (messageHash : WakuMessageHash)
  | messagePropagated (requestId : RequestId) (messageHash : WakuMessageHash)
  | messageSent (requestId : RequestId) (messageHash : WakuMessageHash)
  | messageError (requestId : RequestId) (messageHash : WakuMessageHash) (error : String)
  | left
deriving DecidableEq

structure SendConfig where
  /-- Store-based reliability is on. -/
  checkStoreForMessages : Bool
  maxDeliveryTime : ℤ
  maxParkedAge : ℤ
  maxValidationAge : ℤ
  sendQueueCapacity : ℕ
  maxSendsInFlight : ℕ
deriving DecidableEq

/-- The most resends of one message after a Store miss. -/
def MaxStoreMissResends : ℕ := 3

/-- What a coroutine reads when it starts an attempt or ends one. -/
structure Reading where
  /-- `Moment.now()`. -/
  now : ℤ
  /-- The wall clock. -/
  actual : ℤ
  needsRlnProof : Bool
deriving DecidableEq

/-- What one processor of the chain makes of a task. -/
inductive SendOutcome where
  /-- Published, over mix or not. -/
  | propagated (anonymously : Bool)
  /-- Handed to the next processor. -/
  | fallback (errorDesc : Option String)
  | nextRound (errorDesc : Option String)
  | failed (errorDesc : Option String)
  /-- `parkForRlnProofRefresh`: the proof was refused and is made again. -/
  | parkForRlnProofRefresh
deriving DecidableEq

/-- What `attachRlnProof` returns: `permanent` also stands for an exhausted budget, `transient` for
a backend that is not ready. -/
inductive ProofResult where
  | attached
  | permanent (error : String)
  | transient
deriving DecidableEq

/-! ### Tasks -/

namespace DeliveryTask

variable (task : DeliveryTask)

def messageAge (actual : ℤ) : ℤ :=
  if 0 ≤ task.timestamp ∧ task.timestamp < actual then actual - task.timestamp else 0

/-- An admitted task tried for longer than `maxTime` and never propagated. -/
def isDeliveryTimedOut (now maxTime : ℤ) : Bool :=
  match task.firstAdmittedTime, task.firstPropagatedTime with
  | some admitted, none => decide (maxTime < now - admitted)
  | _, _ => false

/-- A task that was never admitted is older than `maxAge`. -/
def isParkedExpired (actual maxAge : ℤ) : Bool :=
  task.firstAdmittedTime.isNone && decide (maxAge < task.messageAge actual)

def storeAnswerPending : Bool := decide (task.storeAnswer = some .pending)

def orElseDesc : Option String → String
  | some errorDesc => errorDesc
  | none => task.errorDesc

/-- One `sendImpl` of the chain. -/
def sendImpl (outcome : SendOutcome) (now : ℤ) : DeliveryTask :=
  match outcome with
  | .propagated anonymously =>
      { task with
        state := .successfullyPropagated
        propagatedAnonymously := task.propagatedAnonymously || anonymously
        firstPropagatedTime := some (task.firstPropagatedTime.getD now) }
  | .fallback errorDesc =>
      { task with state := .fallbackRetry, errorDesc := task.orElseDesc errorDesc }
  | .nextRound errorDesc =>
      { task with state := .nextRoundRetry, errorDesc := task.orElseDesc errorDesc }
  | .failed errorDesc =>
      { task with state := .failedToDeliver, errorDesc := task.orElseDesc errorDesc }
  | .parkForRlnProofRefresh => { task with state := .nextRoundRetry, firstAdmittedTime := none }

/-- A task that the chain left undecided waits for its next attempt. -/
def awaitNextRound : DeliveryTask :=
  if task.state = .fallbackRetry ∨ task.state = .entry then { task with state := .nextRoundRetry }
  else task

end DeliveryTask

/-! ### One delivery -/

/-- A task as its own coroutine sees it: whether it is in the queue, and what happened to it since
the coroutine was resumed. -/
structure Delivery where
  task : DeliveryTask
  queued : Bool
  events : List TaskEvent := []
deriving DecidableEq

namespace Delivery

variable (cfg : SendConfig) (d : Delivery)

/-- The coroutine is suspended. -/
def await (phase : Phase) : Delivery := { d with task := { d.task with phase := phase } }

/-- The coroutine is over. -/
def ended : Delivery := { d with task := { d.task with phase := .idle, cancelling := false } }

def emit (e : TaskEvent) : Delivery := { d with events := d.events ++ [e] }

/-- Removes a task that got its last event. -/
def finish : Delivery := if d.queued then { d.emit .left with queued := false } else d

/-- Fails the task with its last event. -/
def fail (errorDesc : String) : Delivery :=
  let d := { d with task := { d.task with state := .failedToDeliver, errorDesc := errorDesc } }
  (d.emit (.messageError d.task.requestId d.task.msgHash errorDesc)).finish

/-- A plain send of the task would wait for a Store confirmation. -/
def storeConfirmationExpected : Bool := cfg.checkStoreForMessages && !d.task.ephemeral

/-- A propagated task still needs a Store node to confirm it. -/
def awaitsStoreValidation : Bool :=
  d.storeConfirmationExpected cfg && decide (d.task.state = .successfullyPropagated) &&
    !d.task.propagatedAnonymously

/-- Fails the task when its delivery window or its parked age ended; the flag says whether it
did. -/
def failExpired (reading : Reading) : Delivery × Bool :=
  if d.task.isDeliveryTimedOut reading.now cfg.maxDeliveryTime then
    (d.fail (if d.task.errorDesc ≠ "" then d.task.errorDesc
      else "Unable to send within retry time window"), true)
  else if d.task.isParkedExpired reading.actual cfg.maxParkedAge then
    (d.fail "No rate-limit budget came within the maximum wait of a queued message", true)
  else (d, false)

/-- A send over mix is complete when a plain one would wait for the Store. -/
def reportPropagated : Delivery :=
  let d := d.emit (.messagePropagated d.task.requestId d.task.msgHash)
  let d := { d with task := { d.task with propagatedEventEmitted := true } }
  if d.task.propagatedAnonymously && d.storeConfirmationExpected cfg then
    d.emit (.messageSent d.task.requestId d.task.msgHash)
  else d

/-- Once for a task that waits for budget. -/
def reportTaskQueued : Delivery :=
  if d.task.queuedEventEmitted then d
  else
    let d := d.emit (.messageQueued d.task.requestId d.task.msgHash)
    { d with task := { d.task with queuedEventEmitted := true } }

/-! ### `sendUntilPropagated` -/

/-- The start of an attempt. -/
def beginAttempt (reading : Reading) : Delivery :=
  if d.task.firstAdmittedTime.isNone || reading.needsRlnProof then d.await .admissionLock
  else d.await .sendSlot

/-- The task waits for its next attempt, unless its time is over. -/
def awaitRetry (reading : Reading) : Delivery :=
  let d := { d with task := { d.task with state := .nextRoundRetry } }
  match d.failExpired cfg reading with
  | (d, true) => d.await (.sendEnded false)
  | (d, false) => d.await .retryTick

/-- The end of an attempt, admitted and sent or not. -/
def endAttempt (reading : Reading) : Delivery :=
  match d.task.state with
  | .successfullyPropagated => (d.reportPropagated cfg).await (.sendEnded true)
  | .failedToDeliver => (d.fail d.task.errorDesc).await (.sendEnded false)
  | _ => d.awaitRetry cfg reading

/-- The task failed in the admission. -/
def refuse (errorDesc : String) : Delivery :=
  { d with task := { d.task with state := .failedToDeliver, errorDesc := errorDesc } }

/-- `admitAndProve` up to its first await; `failure` is why `checkBeforeAdmission` fails. -/
def admitAndProve (failure : Option String) : Delivery :=
  match failure with
  | some errorDesc => (d.refuse errorDesc).await (.admissionEnded false)
  | none =>
      if d.task.firstAdmittedTime.isNone then
        if d.task.ephemeral then d.await .quotaState else d.await .admitting
      else d.await .attachRlnProof

/-- `quotaState` answered: `none` is `Normal`, and otherwise an ephemeral message is shed. -/
def onQuotaState (quotaState : Option String) : Delivery :=
  match quotaState with
  | none => d.await .admitting
  | some quota =>
      (d.refuse ("Ephemeral message dropped: rate limit " ++ quota)).await (.admissionEnded false)

/-- The rate limit answered. -/
def onAdmit (admitted : Bool) (now : ℤ) : Delivery :=
  if admitted then
    { d with task := { d.task with firstAdmittedTime := some now } }.await .attachRlnProof
  else d.reportTaskQueued.await (.admissionEnded false)

def onProof : ProofResult → Delivery
  | .attached => d.await (.admissionEnded true)
  | .permanent error =>
      (d.refuse ("Failed to attach RLN proof: " ++ error)).await (.admissionEnded false)
  | .transient => d.await (.admissionEnded false)

/-- `sendUntilPropagated` after `runAdmission`. -/
def onAdmissionEnd (admitted : Bool) (reading : Reading) : Delivery :=
  if admitted then d.await .sendSlot else d.endAttempt cfg reading

/-- One processor of `process` is done; `last` when the chain has no other one. -/
def onSendImpl (outcome : SendOutcome) (last : Bool) (now : ℤ) : Delivery :=
  let d := { d with task := d.task.sendImpl outcome now }
  if d.task.state = .fallbackRetry ∧ last = false then d
  else { d with task := d.task.awaitNextRound }.await .processEnded

/-! ### `waitForStoreValidation` and `deliver` -/

/-- The `finally` of `waitForStoreValidation`. -/
def endStoreWait (started now : ℤ) : Delivery :=
  { d with
    task := { d.task with
      storeValidationWaited := d.task.storeValidationWaited + (now - started)
      storeAnswer := none } }

/-- No Store node reported the message in time. -/
def notConfirmed : Delivery :=
  d.fail "Propagated but not confirmed by a store node within the store validation window"

/-- A Store node reported the message. -/
def confirmed : Delivery :=
  let d := { d with task := { d.task with state := .successfullyValidated } }
  (d.emit (.messageSent d.task.requestId d.task.msgHash)).finish

/-- `waitForStoreValidation` up to its await, which it does not reach when no time is left. -/
def waitForStoreValidation (now : ℤ) : Delivery :=
  if 0 < cfg.maxValidationAge - d.task.storeValidationWaited then
    { d with task := { d.task with storeAnswer := some .pending } }.await (.storeAnswer now)
  else (d.notConfirmed.endStoreWait now now).ended

/-- `waitForStoreValidation` after its await: the answer came, or the time was over. -/
def onStoreAnswer (started now : ℤ) : Delivery :=
  match d.task.storeAnswer with
  | some .completed => (d.confirmed.endStoreWait started now).ended
  | some .cancelled => (d.notConfirmed.endStoreWait started now).ended
  | _ => d

/-- `deliver` after the task propagated. -/
def afterSend (now : ℤ) : Delivery :=
  if d.awaitsStoreValidation cfg then d.waitForStoreValidation cfg now else d.finish.ended

/-- The start of `deliver`. -/
def deliver (reading : Reading) : Delivery :=
  if d.task.propagatedEventEmitted then d.afterSend cfg reading.now else d.beginAttempt reading

/-- `deliver` after `sendUntilPropagated`. -/
def onSendEnd (propagated : Bool) (now : ℤ) : Delivery :=
  if propagated then d.afterSend cfg now else d.ended

/-- The cancellation ends the coroutine where it is suspended. -/
def cancelled (now : ℤ) : Delivery :=
  let d :=
    match d.task.phase with
    | .storeAnswer started => d.endStoreWait started now
    | _ => d
  { d with task := d.task.awaitNextRound }.ended

/-- What a coroutine waited for, with the answer. -/
inductive Resumption where
  /-- A callback of `startDeliverSoon`. -/
  | deliver (reading : Reading)
  /-- `admissionLock` is acquired, and `checkBeforeAdmission` answers. -/
  | admitAndProve (failure : Option String)
  | quotaState (quotaState : Option String)
  | admitting (admitted : Bool) (now : ℤ)
  | attachRlnProof (result : ProofResult)
  /-- An exception in `admitAndProve`. -/
  | admissionError
  | admissionEnd (reading : Reading)
  /-- A send slot is acquired. -/
  | process
  | sendImpl (outcome : SendOutcome) (last : Bool) (now : ℤ)
  /-- An exception in `process`. -/
  | processError
  | processEnd (reading : Reading)
  | retry (reading : Reading)
  | sendEnd (now : ℤ)
  /-- The time of the Store validation is over. -/
  | storeTimeout
  | storeEnd (now : ℤ)
  | cancel (now : ℤ)
deriving DecidableEq

/-- The coroutine from one await to the next, when it is suspended at that await. -/
def resume : Resumption → Option Delivery
  | .deliver reading => if d.task.phase = .idle then some (d.deliver cfg reading) else none
  | .admitAndProve failure =>
      if d.task.phase = .admissionLock then some (d.admitAndProve failure) else none
  | .quotaState quotaState =>
      if d.task.phase = .quotaState then some (d.onQuotaState quotaState) else none
  | .admitting admitted now => if d.task.phase = .admitting then some (d.onAdmit admitted now) else none
  | .attachRlnProof result => if d.task.phase = .attachRlnProof then some (d.onProof result) else none
  | .admissionError =>
      if d.task.phase.holdsLock then some (d.await (.admissionEnded false)) else none
  | .admissionEnd reading =>
      match d.task.phase with
      | .admissionEnded admitted => some (d.onAdmissionEnd cfg admitted reading)
      | _ => none
  | .process => if d.task.phase = .sendSlot then some (d.await .processing) else none
  | .sendImpl outcome last now =>
      if d.task.phase = .processing then some (d.onSendImpl outcome last now) else none
  | .processError => if d.task.phase = .processing then some (d.await .processEnded) else none
  | .processEnd reading => if d.task.phase = .processEnded then some (d.endAttempt cfg reading) else none
  | .retry reading => if d.task.phase = .retryFired then some (d.beginAttempt reading) else none
  | .sendEnd now =>
      match d.task.phase with
      | .sendEnded propagated => some (d.onSendEnd cfg propagated now)
      | _ => none
  | .storeTimeout =>
      if d.task.storeAnswerPending then
        some { d with task := { d.task with storeAnswer := some .cancelled } }
      else none
  | .storeEnd now =>
      match d.task.phase with
      | .storeAnswer started => some (d.onStoreAnswer started now)
      | _ => none
  | .cancel now =>
      if d.task.cancelling ∧ d.task.phase ≠ .idle then some (d.cancelled now) else none

end Delivery

/-! ### The service -/

structure SendService extends SendConfig where
  running : Bool := false
  /-- The task that holds `admissionLock`. -/
  admissionLock : Option TaskId := none
  /-- The tasks that hold a slot of `sendSlots`. -/
  sendSlots : List TaskId := []
  /-- The hashes of the resends that run. -/
  resends : List WakuMessageHash := []
  /-- Callbacks of `startDeliverSoon` that did not run yet. -/
  soon : List TaskId := []
  tasks : TaskId → Option DeliveryTask := fun _ => none
  nextTask : TaskId := 0
  deliveryTasks : List (WakuMessageHash × TaskId) := []
  log : List (TaskId × TaskEvent) := []

inductive Action where
  | enqueue (requestId : RequestId) (msgHash : WakuMessageHash) (ephemeral : Bool) (timestamp : ℤ)
  | startSendService
  | stopSendService
  | resume (id : TaskId) (r : Delivery.Resumption)
  | retryNow
  /-- A Store peer lists `reported`, on one page of several when `paginated`, after it was asked for
  `batch`; `canResend` when a processor can resend. -/
  | storeResponse (batch : List TaskId) (reported : List WakuMessageHash) (paginated canResend : Bool)
  | resendEnd (msgHash : WakuMessageHash)

namespace SendService

variable (s : SendService)

/-- The queued task with this hash. -/
def lookup (msgHash : WakuMessageHash) : Option TaskId :=
  (s.deliveryTasks.find? (fun e => decide (e.1 = msgHash))).map (·.2)

def isFull : Bool := decide (s.sendQueueCapacity ≤ s.deliveryTasks.length)

/-- The task itself is in the queue. -/
def isQueued (id : TaskId) (task : DeliveryTask) : Bool := decide (s.lookup task.msgHash = some id)

/-- A new task, and its `startDeliverSoon`. -/
def add (task : DeliveryTask) : SendService :=
  { s with
    tasks := Function.update s.tasks s.nextTask (some task)
    nextTask := s.nextTask + 1
    deliveryTasks := s.deliveryTasks ++ [(task.msgHash, s.nextTask)]
    soon := s.soon ++ [s.nextTask] }

/-- A message that the queue already has gets the request id of the queued task. -/
def enqueue (requestId : RequestId) (msgHash : WakuMessageHash) (ephemeral : Bool) (timestamp : ℤ) :
    SendService × Except String RequestId :=
  match (s.lookup msgHash).bind s.tasks with
  | some queued => (s, .ok queued.requestId)
  | none =>
      if s.isFull then (s, .error "Send queue full, retry later")
      else
        (s.add { requestId := requestId, msgHash := msgHash, ephemeral := ephemeral,
                 timestamp := timestamp }, .ok requestId)

def startSendService : SendService :=
  if s.running then s
  else { s with running := true, soon := s.soon ++ s.deliveryTasks.map (·.2) }

/-- The tasks stay in the queue with no event. -/
def stopSendService : SendService :=
  { s with
    running := false
    resends := []
    tasks := fun id => (s.tasks id).map (fun task =>
      if s.isQueued id task ∧ task.phase ≠ .idle then { task with cancelling := true } else task) }

/-- Writes back what a coroutine did until its next await.  A lock or slot that it does not hold any
more is released. -/
def commit (id : TaskId) (d : Delivery) : SendService :=
  { s with
    tasks := Function.update s.tasks id (some d.task)
    deliveryTasks :=
      if d.queued then s.deliveryTasks
      else s.deliveryTasks.filter (fun e => decide (e.2 ≠ id))
    log := s.log ++ d.events.map (fun e => (id, e))
    admissionLock :=
      if d.task.phase.holdsLock then some id
      else if s.admissionLock = some id then none else s.admissionLock
    sendSlots :=
      if d.task.phase.holdsSlot then (if id ∈ s.sendSlots then s.sendSlots else s.sendSlots ++ [id])
      else s.sendSlots.filter (fun i => decide (i ≠ id)) }

/-- What a coroutine waits for comes from the service for three of its awaits: a callback that runs
while the service runs and the task is queued, a lock that is free, a slot that is free. -/
def grants (id : TaskId) (task : DeliveryTask) : Delivery.Resumption → Bool
  | .deliver _ => decide (id ∈ s.soon) && s.running && s.isQueued id task
  | .admitAndProve _ => s.admissionLock.isNone
  | .process => decide (s.sendSlots.length < s.maxSendsInFlight)
  | _ => true

/-- A callback of `startDeliverSoon` runs once, whatever it finds. -/
def take (id : TaskId) : Delivery.Resumption → SendService
  | .deliver _ => { s with soon := s.soon.erase id }
  | _ => s

def resume (id : TaskId) (r : Delivery.Resumption) : SendService :=
  match s.tasks id with
  | none => s
  | some task =>
      if s.grants id task r then
        match { task := task, queued := s.isQueued id task : Delivery }.resume s.toSendConfig r with
        | some d => (s.take id r).commit id d
        | none => s.take id r
      else s.take id r

/-- Every task that waits on the tick starts its next attempt. -/
def retryNow : SendService :=
  { s with
    tasks := fun id => (s.tasks id).map (fun task =>
      if task.phase = .retryTick then { task with phase := .retryFired } else task) }

/-- `hash in hashes`. -/
def isListed (hashes : List WakuMessageHash) (hash : WakuMessageHash) : Bool :=
  hashes.any (fun h => decide (h = hash))

/-- Only a task whose `deliver` waits for a Store confirmation takes a hash from the answer. -/
def answered (reported : List WakuMessageHash) (id : TaskId) (task : DeliveryTask) : DeliveryTask :=
  if s.isQueued id task && isListed reported task.msgHash && task.storeAnswerPending then
    { task with storeAnswer := some .completed }
  else task

/-- A task of the batch that is not listed is sent again, unless it was resent too often or its last
resend still runs. -/
def startsResend (batch : List TaskId) (reported : List WakuMessageHash) (id : TaskId)
    (task : DeliveryTask) : Bool :=
  decide (id ∈ batch) && !isListed reported task.msgHash && !isListed s.resends task.msgHash &&
    task.storeAnswerPending && decide (task.resendCount < MaxStoreMissResends)

/-- The tail of `checkMsgsInStore`.  A hash that a page lacks can be on the next one. -/
def storeResponse (batch : List TaskId) (reported : List WakuMessageHash)
    (paginated canResend : Bool) : SendService :=
  let resent id task := !paginated && canResend && s.startsResend batch reported id task
  { s with
    tasks := fun id => (s.tasks id).map (fun task =>
      let task := s.answered reported id task
      if resent id task then { task with resendCount := task.resendCount + 1 } else task)
    resends := s.resends ++ batch.filterMap (fun id =>
      ((s.tasks id).filter (fun task => resent id (s.answered reported id task))).map (·.msgHash)) }

def step : Action → SendService
  | .enqueue requestId msgHash ephemeral timestamp =>
      (s.enqueue requestId msgHash ephemeral timestamp).1
  | .startSendService => s.startSendService
  | .stopSendService => s.stopSendService
  | .resume id r => s.resume id r
  | .retryNow => s.retryNow
  | .storeResponse batch reported paginated canResend =>
      s.storeResponse batch reported paginated canResend
  | .resendEnd msgHash => { s with resends := s.resends.filter (fun h => decide (h ≠ msgHash)) }

/-- What happened to a task. -/
def trace (id : TaskId) : List TaskEvent :=
  (s.log.filter (fun e => decide (e.1 = id))).map (·.2)

end SendService

end LogosDelivery.Messaging
