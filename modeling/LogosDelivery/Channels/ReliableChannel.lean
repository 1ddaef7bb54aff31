import LogosDelivery.Messaging.SendRuns

/-! # Reliable channels

The sending half of `channels/reliable_channel.nim`, over the send service.  A `send` draws a request
id, cuts the payload into wire segments and dispatches them one by one; `channelReqs` counts the
segments of a request until all are final.  What counts as final are the `MessageSentEvent` and the
`MessageErrorEvent` of the messaging layer, which the listeners of the channel hand to
`onMessageFinal`.

A `send` is suspended while it wraps and encrypts, and any step of the system can come between two
dispatches.  `MessagingSend.request` never suspends, so a dispatch is one step, and a listener runs
where its event is emitted.  The `n`-th request id drawn anywhere in the process is `rng n`.

`channelReqs` is a table of the source, and a list of its entries here.  The order of
`inflightMessagingIds` is never read, so `del`, which moves the last element, is `erase`.
`emitted` and `segments` are no fields of the source: they record the events of the channel, and for
each request the tasks that its segments became. -/

namespace LogosDelivery.Channels

open Messaging
open StoreSync (Byte WakuMessageHash)

abbrev ChannelId := String

inductive MessagePersistence where
  | persistent
  | ephemeral
deriving DecidableEq

structure ChannelReqState where
  persistenceReqType : MessagePersistence
  totalExpectedSegments : ℕ
  inflightMessagingIds : List RequestId := []
  confirmedCount : ℕ := 0
  failedCount : ℕ := 0
deriving DecidableEq

inductive MessagingOutcome where
  | sent
  | failed
deriving DecidableEq

inductive ChannelEvent where
  | channelMessageSent (channelId : ChannelId) (requestId : RequestId)
  | channelMessageError (channelId : ChannelId) (requestId : RequestId) (error : String)
deriving DecidableEq

def ChannelEvent.requestId : ChannelEvent → RequestId
  | channelMessageSent _ requestId => requestId
  | channelMessageError _ requestId _ => requestId

/-- A segment of the request is final. -/
def ChannelReqState.final (state : ChannelReqState) (messagingReqId : RequestId)
    (outcome : MessagingOutcome) : ChannelReqState :=
  let state := { state with
    inflightMessagingIds := state.inflightMessagingIds.erase messagingReqId }
  match outcome with
  | .sent => { state with confirmedCount := state.confirmedCount + 1 }
  | .failed => { state with failedCount := state.failedCount + 1 }

structure ReliableChannel where
  channelId : ChannelId
  channelReqs : List (RequestId × ChannelReqState) := []
  closed : Bool := false
  /-- `stop` has not dropped the listeners. -/
  listening : Bool := true
  emitted : List ChannelEvent := []
deriving DecidableEq

/-! ### The requests of a channel -/

namespace ReliableChannel

variable (c : ReliableChannel)

def getReq (channelReqId : RequestId) : Option ChannelReqState :=
  (c.channelReqs.find? (fun e => decide (e.1 = channelReqId))).map (·.2)

def setReq (channelReqId : RequestId) (state : ChannelReqState) : ReliableChannel :=
  { c with
    channelReqs :=
      if (c.getReq channelReqId).isSome then
        c.channelReqs.map (fun e => if e.1 = channelReqId then (e.1, state) else e)
      else c.channelReqs ++ [(channelReqId, state)] }

def delReq (channelReqId : RequestId) : ReliableChannel :=
  { c with channelReqs := c.channelReqs.filter (fun e => decide (e.1 ≠ channelReqId)) }

def emit (e : ChannelEvent) : ReliableChannel := { c with emitted := c.emitted ++ [e] }

/-- The last event of a request. -/
def finalEvent (channelReqId : RequestId) (failedCount : ℕ) : ChannelEvent :=
  if 0 < failedCount then
    .channelMessageError c.channelId channelReqId "one or more segments failed"
  else .channelMessageSent c.channelId channelReqId

/-- Removes the request with its last event when no segment is in flight and all are counted. -/
def tryFinalizeChannelReq (channelReqId : RequestId) : ReliableChannel :=
  match c.getReq channelReqId with
  | none => c
  | some state =>
      if state.totalExpectedSegments = 0 then c
      else if state.inflightMessagingIds.length ≠ 0 then c
      else if state.confirmedCount + state.failedCount < state.totalExpectedSegments then c
      else (c.delReq channelReqId).emit (c.finalEvent channelReqId state.failedCount)

/-- The first request that waits for the messaging request takes the outcome. -/
def onMessageFinal (messagingReqId : RequestId) (outcome : MessagingOutcome) : ReliableChannel :=
  match c.channelReqs.find? (fun e => decide (messagingReqId ∈ e.2.inflightMessagingIds)) with
  | none => c
  | some (channelReqId, state) =>
      (c.setReq channelReqId (state.final messagingReqId outcome)).tryFinalizeChannelReq channelReqId

def markSegmentFailed (channelReqId : RequestId) : ReliableChannel :=
  match c.getReq channelReqId with
  | none => c
  | some state =>
      (c.setReq channelReqId { state with failedCount := state.failedCount + 1 }).tryFinalizeChannelReq
        channelReqId

def markSegmentInflight (channelReqId messagingReqId : RequestId) : ReliableChannel :=
  match c.getReq channelReqId with
  | none => c
  | some state =>
      c.setReq channelReqId
        { state with inflightMessagingIds := state.inflightMessagingIds ++ [messagingReqId] }

/-- The listeners of the channel. -/
def hear (messagingReqId : RequestId) (outcome : MessagingOutcome) : ReliableChannel :=
  if c.listening then c.onMessageFinal messagingReqId outcome else c

/-- The channel listens to two of the events of the messaging layer. -/
def hearEvent : TaskEvent → ReliableChannel
  | .messageSent requestId _ => c.hear requestId .sent
  | .messageError requestId _ _ => c.hear requestId .failed
  | _ => c

/-- The channel waits for a final event of the messaging request. -/
def awaits (messagingReqId : RequestId) : Bool :=
  c.channelReqs.any (fun e => decide (messagingReqId ∈ e.2.inflightMessagingIds))

/-- The events of a request. -/
def eventsOf (channelReqId : RequestId) : List ChannelEvent :=
  c.emitted.filter (fun e => decide (e.requestId = channelReqId))

end ReliableChannel

/-! ### Sends -/

/-- What became of a segment. -/
inductive Segment where
  | refused
  | task (id : TaskId)
deriving DecidableEq

inductive SendPhase where
  /-- The segments are wrapped and encrypted. -/
  | preparing
  /-- `left` wire segments are not dispatched. -/
  | dispatching (left : ℕ)
  | returned (result : Except String RequestId)

structure SendCall where
  ephemeral : Bool
  phase : SendPhase

/-- How a `send` got its wire segments: at least one, or none at all. -/
inductive Preparation where
  | segmentationFailed (error : String)
  | wrapFailed (error : String)
  | encryptionFailed (error : String)
  /-- One segment and `more` others. -/
  | wireSegments (more : ℕ)
deriving DecidableEq

structure ChannelSystem where
  service : SendService
  channel : ReliableChannel
  /-- The number of request ids that were drawn. -/
  drawn : ℕ := 0
  calls : RequestId → Option SendCall := fun _ => none
  segments : RequestId → List Segment := fun _ => []

inductive ChannelAction where
  | send (payload : List Byte) (ephemeral : Bool)
  /-- `send` was resumed after its last await before the dispatches. -/
  | prepared (channelReqId : RequestId) (preparation : Preparation)
  /-- The next segment.  `MessagingSend.request` fails before it has a task, or its message has this
  hash and timestamp. -/
  | dispatch (channelReqId : RequestId) (request : Except String (WakuMessageHash × ℤ))
  | stop
  | dropListeners
  /-- Another client, another channel or a repair uses the send service. -/
  | enqueue (msgHash : WakuMessageHash) (ephemeral : Bool) (timestamp : ℤ)
  /-- A step of the send service other than `enqueue`. -/
  | service (a : Action)
  /-- A segment of another channel is refused. -/
  | refusedElsewhere
  /-- An ingress error, which names no request. -/
  | ingressError

namespace ChannelSystem

variable (rng : ℕ → RequestId) (sys : ChannelSystem)

def initial (cfg : SendConfig) (channelId : ChannelId) : ChannelSystem where
  service := .initial cfg
  channel := { channelId := channelId }

def setCall (channelReqId : RequestId) (call : SendCall) : ChannelSystem :=
  { sys with calls := Function.update sys.calls channelReqId (some call) }

def addSegment (channelReqId : RequestId) (segment : Segment) : ChannelSystem :=
  { sys with
    segments := Function.update sys.segments channelReqId (sys.segments channelReqId ++ [segment]) }

/-- `send` up to its first await. -/
def send (payload : List Byte) (ephemeral : Bool) : Except String ChannelSystem :=
  if payload = [] then .error "empty payload"
  else if sys.channel.closed then .error "channel is closed"
  else
    .ok ({ sys with drawn := sys.drawn + 1 }.setCall (rng sys.drawn)
      { ephemeral := ephemeral, phase := .preparing })

/-- `send` from its last await before the dispatches to the first of them. -/
def prepared (channelReqId : RequestId) (call : SendCall) : Preparation → ChannelSystem
  | .segmentationFailed error => sys.setCall channelReqId
      { call with phase := .returned (.error ("segmentation failed: " ++ error)) }
  | .wrapFailed error => sys.setCall channelReqId
      { call with phase := .returned (.error ("SDS wrap failed: " ++ error)) }
  | .encryptionFailed error => sys.setCall channelReqId
      { call with phase := .returned (.error ("encryption failed: " ++ error)) }
  | .wireSegments more =>
      { sys with
        channel := sys.channel.setReq channelReqId
          { persistenceReqType := if call.ephemeral then .ephemeral else .persistent
            totalExpectedSegments := more + 1 } }.setCall channelReqId
        { call with phase := .dispatching (more + 1) }

/-- `MessagingSend.request` has a result. -/
def dispatched (channelReqId : RequestId) (segment : Segment) :
    Except String RequestId → ChannelSystem
  | .ok messagingReqId =>
      { sys with channel := sys.channel.markSegmentInflight channelReqId messagingReqId }.addSegment
        channelReqId segment
  | .error _ =>
      { sys with
        channel := (sys.channel.hear channelReqId .failed).markSegmentFailed channelReqId }.addSegment
        channelReqId .refused

/-- `MessagingSend.request`: the request id is drawn first. -/
def request (channelReqId : RequestId) (ephemeral : Bool) :
    Except String (WakuMessageHash × ℤ) → ChannelSystem
  | .error error => { sys with drawn := sys.drawn + 1 }.dispatched channelReqId .refused (.error error)
  | .ok (msgHash, timestamp) =>
      let result := sys.service.enqueue (rng sys.drawn) msgHash ephemeral timestamp
      { sys with drawn := sys.drawn + 1, service := result.1 }.dispatched channelReqId
        (.task ((sys.service.lookup msgHash).getD sys.service.nextTask)) result.2

/-- One turn of the loop of `send`, or its end. -/
def dispatch (channelReqId : RequestId) (call : SendCall) (left : ℕ)
    (request : Except String (WakuMessageHash × ℤ)) : ChannelSystem :=
  match left with
  | 0 => sys.setCall channelReqId { call with phase := .returned (.ok channelReqId) }
  | left + 1 =>
      if sys.channel.closed then
        { sys with channel := sys.channel.delReq channelReqId }.setCall channelReqId
          { call with phase := .returned (.error "channel closed mid-send") }
      else
        (sys.request rng channelReqId call.ephemeral request).setCall channelReqId
          { call with phase := .dispatching left }

/-- A step of the service, with what the channel hears of it. -/
def serve (a : Action) : ChannelSystem :=
  let service := sys.service.step a
  { sys with
    service := service
    channel := (service.log.drop sys.service.log.length).foldl (fun c e => c.hearEvent e.2)
      sys.channel }

def step : ChannelAction → ChannelSystem
  | .send payload ephemeral =>
      match sys.send rng payload ephemeral with
      | .ok sys' => sys'
      | .error _ => sys
  | .prepared channelReqId preparation =>
      match sys.calls channelReqId with
      | some { ephemeral, phase := .preparing } =>
          sys.prepared channelReqId { ephemeral, phase := .preparing } preparation
      | _ => sys
  | .dispatch channelReqId request =>
      match sys.calls channelReqId with
      | some { ephemeral, phase := .dispatching left } =>
          sys.dispatch rng channelReqId { ephemeral, phase := .dispatching left } left request
      | _ => sys
  | .stop => { sys with channel := { sys.channel with closed := true } }
  | .dropListeners =>
      if sys.channel.closed then { sys with channel := { sys.channel with listening := false } }
      else sys
  | .enqueue msgHash ephemeral timestamp =>
      { sys with
        drawn := sys.drawn + 1
        service := (sys.service.enqueue (rng sys.drawn) msgHash ephemeral timestamp).1 }
  | .service (.enqueue _ _ _ _) => sys
  | .service a => sys.serve a
  | .refusedElsewhere =>
      { sys with
        drawn := sys.drawn + 1
        channel := sys.channel.hear (rng sys.drawn) .failed }
  | .ingressError => { sys with channel := sys.channel.hear "" .failed }

end ChannelSystem

end LogosDelivery.Channels
