import LogosDelivery.Lib.Runs

/-! # The backfill of missed messages

`recv_service/backfill.nim` and the backfill of `recv_service/recv_service.nim`.  Each subscribed
topic (a shard and a content topic) has a record: `Online` from a time on, or `Offline` from a time
on.  An outage of live delivery or a restart makes the records `Offline`, and one worker fills the
gaps from Store, one query at a time.

The worker and the handlers of events are coroutines on one thread; an action is what one of them
does between two awaits.  Times are nanoseconds as unbounded integers.  Writes to the disk may fail,
and a read leaves out the rows that do not decode. -/

namespace LogosDelivery.Messaging.Backfill

open Lib

/-! ### Records -/

inductive TopicRecordState where
  | online
  | offline
deriving DecidableEq

structure TopicRecord where
  timestamp : ℤ
  state : TopicRecordState
deriving DecidableEq

/-- What `getOrDefault` of the table of records gives for a topic without one. -/
def TopicRecord.default : TopicRecord := ⟨0, .online⟩

def outageWindow : ℤ := 5 * 60 * 1000000000

def maxQueryTimeRange : ℤ := 24 * 60 * 60 * 1000000000

def newRecord (time : ℤ) (live : Bool) (liveSince variance : ℤ) : TopicRecord :=
  if live ∧ liveSince ≤ time then ⟨time - variance, .online⟩ else ⟨time - variance, .offline⟩

def TopicRecord.inOutage (record : TopicRecord) (detectedAt : ℤ) : TopicRecord :=
  if record.state = .offline then record
  else ⟨max record.timestamp (detectedAt - outageWindow), .offline⟩

def TopicRecord.atStart (record : TopicRecord) (lastReceivedAt : Option ℤ) : TopicRecord :=
  if record.state = .offline then record
  else
    match lastReceivedAt with
    | none => ⟨record.timestamp, .offline⟩
    | some lastReceivedAt => record.inOutage lastReceivedAt

def coveredFrom (liveSince subscribedSince delayExtra variance : ℤ) : ℤ :=
  max liveSince subscribedSince + delayExtra + variance

def archivedBefore (now archiveTime variance : ℤ) : ℤ := now - variance - archiveTime

/-! ### Pages of Store -/

section Pages

variable {μ : Type}

structure WakuMessage (μ : Type) where
  timestamp : ℤ
  content : μ
deriving DecidableEq

/-- `MaxPageSize` of the Store protocol. -/
def maxPageSize : ℕ := 100

inductive PagingDirection where
  | backward
  | forward
deriving DecidableEq

/-- The fields that `fetchPage` sets; `topic` stands for the pubsub topic and the one content topic.
The end is exclusive. -/
structure StoreQueryRequest (τ : Type) where
  includeData : Bool
  topic : τ
  startTime : Option ℤ
  endTime : Option ℤ
  paginationForward : PagingDirection
  paginationLimit : Option ℕ
deriving DecidableEq

/-- The rows of a page, which may lack their message, and whether there is a cursor. -/
structure StoreQueryResponse (μ : Type) where
  messages : List (Option (WakuMessage μ))
  paginationCursor : Bool
deriving DecidableEq

/-- The loop of `acceptPage`: the timestamp of the last row. -/
def acceptRows (queryStop : ℤ) (deliver : WakuMessage μ → Bool) (last : ℤ) :
    List (Option (WakuMessage μ)) → Except String ℤ
  | [] => .ok last
  | none :: _ => .error "store row without a message"
  | some message :: rows =>
      if message.timestamp < last ∨ queryStop ≤ message.timestamp then
        .error "store row out of order or outside the range"
      else if deliver message = false then .error "delivery declined"
      else acceptRows queryStop deliver message.timestamp rows

def acceptPage (queryStart queryStop : ℤ) (response : StoreQueryResponse μ)
    (deliver : WakuMessage μ → Bool) : Except String (Option ℤ) :=
  match acceptRows queryStop deliver queryStart response.messages with
  | .error e => .error e
  | .ok last =>
      if response.paginationCursor = false then .ok none
      else if response.messages.length = 0 then .error "store page is empty but claims more"
      else if last = queryStart then .ok (some (last + 1))
      else .ok (some last)

/-- The end of the window of a query. -/
def windowStop (start stop : ℤ) : ℤ := min stop (start + maxQueryTimeRange)

/-- The request that `fetchPage` sends. -/
def pageRequest {τ : Type} (topic : τ) (start stop : ℤ) : StoreQueryRequest τ where
  includeData := true
  topic := topic
  startTime := some start
  endTime := some (windowStop start stop)
  paginationForward := .forward
  paginationLimit := some maxPageSize

/-- `fetchPage` after its request, given how `queryPage` ends. -/
def fetchPage (start stop : ℤ) (answer : Except String (StoreQueryResponse μ))
    (deliver : WakuMessage μ → Bool) : Except String ℤ :=
  match answer with
  | .error e => .error e
  | .ok response =>
      match acceptPage start (windowStop start stop) response deliver with
      | .error e => .error e
      | .ok next => .ok (next.getD (windowStop start stop))

end Pages

/-! ### The state of the backfill -/

section State

variable (τ μ : Type)

structure BackfillSettings where
  delayExtra : ℤ
  archiveTime : ℤ
  timestampVariance : ℤ
  /-- The records survive a restart. -/
  enabled : Bool
  /-- The names of the topic are short enough for a key. -/
  hasKey : τ → Bool

structure BackfillSubscriptionChange where
  topic : τ
  subscribed : Bool
  time : ℤ

/-- What `backfillFetchTopic` has computed, and `fetchPage` has sent, when it awaits its page. -/
structure PendingFetch where
  topic : τ
  record : TopicRecord
  now : ℤ
  stop : ℤ
  fetchStop : ℤ
  request : StoreQueryRequest τ

/-- The await at which the backfill worker is suspended. -/
inductive Worker where
  | ended
  | clearing
  | reading
  /-- The write of the records at the start. -/
  | writing
  | running
  | fetching (fetch : PendingFetch τ)

structure RecvService where
  job : Bool := false
  clearJob : Bool := false
  records : τ → Option TopicRecord := fun _ => none
  subscribedSince : τ → Option ℤ := fun _ => none
  live : Bool := false
  liveSince : ℤ := 0
  started : Bool := false
  pendingSubscriptionChanges : List (BackfillSubscriptionChange τ) := []
  stopping : Bool := false
  worker : Worker τ := .ended
  /-- The rows and the last received time on the disk. -/
  storedRecords : τ → Option TopicRecord := fun _ => none
  lastReceivedAt : Option ℤ := none

inductive BackfillAction where
  /-- `startRecvService` with a job of the messaging layer or without, with live delivery ready or
  not, and with the topics that are subscribed. -/
  | start (job live : Bool) (time : ℤ) (topics : List τ)
  | subscriptionChanged (change : BackfillSubscriptionChange τ) (written : Bool)
  | liveChanged (nowLive : Bool) (time : ℤ) (written : Bool)
  /-- The write of the last received time. -/
  | received (time : ℤ)
  /-- The rows on the disk are deleted. -/
  | cleared (written : Bool)
  /-- The rows and the last received time are read, where they can be. -/
  | readRecords (readable : Bool) (decoded : τ → Bool) (lastReadable written : Bool)
  /-- The worker has read the records, and applies the changes that came before. -/
  | started (written : Bool)
  | fetchTopic (topic : τ) (now : ℤ)
  | fetched (answer : Except String (StoreQueryResponse μ)) (deliver : WakuMessage μ → Bool)
      (written : Bool)
  | stop
  /-- The worker has ended after `stop`. -/
  | stopped

end State

variable {τ μ : Type} [DecidableEq τ] (settings : BackfillSettings τ)

namespace RecvService

variable (s : RecvService τ)

/-! ### Changes of the records -/

/-- The rows on the disk after the write of one record, or of its deletion. -/
def writeRecord (topic : τ) (record : Option TopicRecord) (written : Bool) : RecvService τ :=
  if s.job && written && settings.hasKey topic then
    { s with storedRecords := Function.update s.storedRecords topic record }
  else s

def setRecord (topic : τ) (record : Option TopicRecord) : RecvService τ :=
  { s with records := Function.update s.records topic record }

def setSubscribedSince (topic : τ) (since : Option ℤ) : RecvService τ :=
  { s with subscribedSince := Function.update s.subscribedSince topic since }

def applySubscriptionChange (written : Bool) (change : BackfillSubscriptionChange τ) :
    RecvService τ :=
  if change.subscribed then
    let s := s.setSubscribedSince change.topic (some change.time)
    if (s.records change.topic).isSome then s
    else
      let record := newRecord change.time s.live s.liveSince settings.timestampVariance
      (s.setRecord change.topic (some record)).writeRecord settings change.topic record written
  else
    let s := s.setSubscribedSince change.topic none
    if (s.records change.topic).isNone then s
    else (s.setRecord change.topic none).writeRecord settings change.topic none written

/-- The changes that came before the start, applied in order. -/
def applyChanges (written : Bool) (changes : List (BackfillSubscriptionChange τ)) : RecvService τ :=
  changes.foldl (fun s change => s.applySubscriptionChange settings written change) s

def backfillSubscriptionChanged (written : Bool) (change : BackfillSubscriptionChange τ) :
    RecvService τ :=
  if s.started then s.applySubscriptionChange settings written change
  else { s with pendingSubscriptionChanges := s.pendingSubscriptionChanges ++ [change] }

/-- The records of an outage, and the rows of those that changed. -/
def applyLiveChange (nowLive : Bool) (time : ℤ) (written : Bool) : RecvService τ :=
  let s := { s with live := nowLive, liveSince := time }
  if nowLive then s
  else
    let after := fun topic => (s.records topic).map (·.inOutage time)
    { s with
      records := after
      storedRecords := fun topic =>
        if s.job && written && settings.hasKey topic && decide (after topic ≠ s.records topic)
          then after topic
        else s.storedRecords topic }

def backfillLiveChanged (nowLive : Bool) (time : ℤ) (written : Bool) : RecvService τ :=
  if nowLive = s.live then s else s.applyLiveChange settings nowLive time written

def isCandidate (topic : τ) : Bool :=
  s.live && (s.subscribedSince topic).isSome &&
    decide (((s.records topic).getD TopicRecord.default).state = .offline)

/-! ### The worker -/

/-- `backfillReadRecordsAtStart`, with the rows that decode. -/
def backfillReadRecordsAtStart (readable : Bool) (decoded : τ → Bool) (lastReadable written : Bool) :
    RecvService τ :=
  if s.job = false || readable = false then s
  else
    let lastReceivedAt := if lastReadable then s.lastReceivedAt else none
    let rows := fun topic => if decoded topic then s.storedRecords topic else none
    let restarted := fun topic => (rows topic).map (·.atStart lastReceivedAt)
    { s with
      records := fun topic => (restarted topic).or (s.records topic)
      storedRecords := fun topic =>
        if written && settings.hasKey topic && decide (restarted topic ≠ rows topic)
          then restarted topic
        else s.storedRecords topic }

/-- `backfillFetchTopic` up to its query, or to its return where the archive may not have the last
part of the gap yet. -/
def backfillFetchTopic (topic : τ) (now : ℤ) : RecvService τ :=
  match s.subscribedSince topic with
  | none => s
  | some since =>
      let record := (s.records topic).getD TopicRecord.default
      let stop := coveredFrom s.liveSince since settings.delayExtra settings.timestampVariance
      let archived := archivedBefore now settings.archiveTime settings.timestampVariance
      if archived < stop ∧ archived ≤ record.timestamp then s
      else
        let fetchStop := min stop archived
        { s with
          worker := .fetching
            ⟨topic, record, now, stop, fetchStop, pageRequest topic record.timestamp fetchStop⟩ }

/-- The record that a fetch leaves, `next` being the start of the next page. -/
def recordAfter (fetch : PendingFetch τ) (next : ℤ) : TopicRecord :=
  let stopNow := coveredFrom s.liveSince ((s.subscribedSince fetch.topic).getD fetch.now)
    settings.delayExtra settings.timestampVariance
  if s.live ∧ fetch.fetchStop = fetch.stop ∧ stopNow ≤ next then ⟨stopNow, .online⟩
  else ⟨next, .offline⟩

/-- `backfillFetchTopic` after its query. -/
def backfillFetched (fetch : PendingFetch τ) (answer : Except String (StoreQueryResponse μ))
    (deliver : WakuMessage μ → Bool) (written : Bool) : RecvService τ :=
  let s := { s with worker := .running }
  match fetchPage fetch.record.timestamp fetch.fetchStop answer deliver with
  | .error _ => s
  | .ok next =>
      if s.stopping ∨ (s.records fetch.topic).getD TopicRecord.default ≠ fetch.record then s
      else
        let after := s.recordAfter settings fetch next
        (s.setRecord fetch.topic (some after)).writeRecord settings fetch.topic after written

/-! ### The service -/

def startRecvService (job live : Bool) (time : ℤ) (topics : List τ) : RecvService τ :=
  { s with
    stopping := false
    records := fun _ => none
    subscribedSince := fun _ => none
    started := false
    live := live
    liveSince := time
    job := job && settings.enabled
    clearJob := job && !settings.enabled
    pendingSubscriptionChanges := topics.map (fun topic => ⟨topic, true, time⟩)
    worker := if job && !settings.enabled then .clearing else .reading }

/-- What an action does; an action that is not possible in the state does nothing. -/
def step : BackfillAction τ μ → RecvService τ
  | .start job live time topics =>
      match s.worker with
      | .ended => s.startRecvService settings job live time topics
      | _ => s
  | .subscriptionChanged change written => s.backfillSubscriptionChanged settings written change
  | .liveChanged nowLive time written => s.backfillLiveChanged settings nowLive time written
  | .received time => if s.job && s.started then { s with lastReceivedAt := some time } else s
  | .cleared written =>
      match s.worker with
      | .clearing =>
          let s := { s with clearJob := false, worker := .reading }
          if written then { s with storedRecords := fun _ => none, lastReceivedAt := none } else s
      | _ => s
  | .readRecords readable decoded lastReadable written =>
      match s.worker with
      | .reading =>
          { s.backfillReadRecordsAtStart settings readable decoded lastReadable written with
            worker := .writing }
      | _ => s
  | .started written =>
      match s.worker with
      | .writing =>
          let s := { s with started := true, worker := .running }
          { s.applyChanges settings written s.pendingSubscriptionChanges with
            pendingSubscriptionChanges := [] }
      | _ => s
  | .fetchTopic topic now =>
      match s.worker with
      | .running =>
          if s.stopping = false && s.isCandidate topic then s.backfillFetchTopic settings topic now
          else s
      | _ => s
  | .fetched answer deliver written =>
      match s.worker with
      | .fetching fetch => s.backfillFetched settings fetch answer deliver written
      | _ => s
  | .stop => { s with stopping := true }
  | .stopped => if s.stopping then { s with worker := .ended, job := false, clearJob := false } else s

end RecvService

/-- The service after any sequence of actions, from its creation on. -/
def after (actions : List (BackfillAction τ μ)) : RecvService τ :=
  run (RecvService.step settings) {} actions

end LogosDelivery.Messaging.Backfill
