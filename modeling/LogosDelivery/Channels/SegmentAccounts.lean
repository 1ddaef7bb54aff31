import LogosDelivery.Channels.Requests

/-! # The accounts of a channel over any messaging layer

The same channel as in `ReliableChannel`, over a messaging layer of which only its contract is known:
it refuses a segment or accepts it with an id that was not in use, and it emits one final event for
each id that it returned.  Sends are suspended while they wait for the messaging layer, and any other
step can come in between: another send, the answer for another segment, final events in any order,
and events that name no segment of this channel (`foreign`), the channel's own error event for a
refused segment among them.

`records` and `owner` are no fields of the source: they record, for each request, what became of its
dispatched segments, and to which request an id was given.  The counters of a request say what its
own records say (`accounts_after`). -/

namespace LogosDelivery.Channels

open Messaging
open StoreSync (Byte)

/-- A dispatched segment: refused, accepted and without a final event, or with one. -/
inductive SegmentRecord where
  | refused
  | inflight (messagingReqId : RequestId)
  | final (messagingReqId : RequestId) (outcome : MessagingOutcome)
deriving DecidableEq

namespace SegmentRecord

/-- The id of a segment that waits for its final event. -/
def inflightId : SegmentRecord → Option RequestId
  | inflight messagingReqId => some messagingReqId
  | _ => none

/-- The id that the messaging layer gave to the segment. -/
def givenId : SegmentRecord → Option RequestId
  | refused => none
  | inflight messagingReqId => some messagingReqId
  | final messagingReqId _ => some messagingReqId

def confirmed : SegmentRecord → Bool
  | final _ .sent => true
  | _ => false

def failed : SegmentRecord → Bool
  | refused => true
  | final _ .failed => true
  | _ => false

/-- The segment is refused or has its final event. -/
def isFinal (record : SegmentRecord) : Bool := record.confirmed || record.failed

/-- The final event of an id. -/
def settle (messagingReqId : RequestId) (outcome : MessagingOutcome) (record : SegmentRecord) :
    SegmentRecord :=
  if record = inflight messagingReqId then final messagingReqId outcome else record

end SegmentRecord

/-! ### The system -/

structure Traffic where
  channel : ReliableChannel
  calls : RequestId → Option SendCall := fun _ => none
  records : RequestId → List SegmentRecord := fun _ => []
  owner : RequestId → Option RequestId := fun _ => none

inductive TrafficAction where
  /-- `send`, which draws the request id. -/
  | send (channelReqId : RequestId) (payload : List Byte) (ephemeral : Bool)
  /-- `send` was resumed after its last await before the dispatches. -/
  | prepared (channelReqId : RequestId) (preparation : Preparation)
  /-- `send` was resumed with the answer of the messaging layer for its next segment. -/
  | answered (channelReqId : RequestId) (answer : Except String RequestId)
  /-- The loop of `send` ends. -/
  | finished (channelReqId : RequestId)
  /-- The final event of a segment of this channel. -/
  | final (messagingReqId : RequestId) (outcome : MessagingOutcome)
  /-- An event that names no segment of this channel. -/
  | foreign (requestId : RequestId) (outcome : MessagingOutcome)

namespace Traffic

variable (t : Traffic)

def initial (channelId : ChannelId) : Traffic where
  channel := { channelId := channelId }

/-- No send and no segment has the id. -/
def isNew (requestId : RequestId) : Bool :=
  (t.calls requestId).isNone && (t.owner requestId).isNone

def setCall (channelReqId : RequestId) (call : SendCall) : Traffic :=
  { t with calls := Function.update t.calls channelReqId (some call) }

def addRecord (channelReqId : RequestId) (record : SegmentRecord) : Traffic :=
  { t with
    records := Function.update t.records channelReqId (t.records channelReqId ++ [record]) }

/-- `send` up to its first await. -/
def send (channelReqId : RequestId) (payload : List Byte) (ephemeral : Bool) :
    Except String Traffic :=
  if payload = [] then .error "empty payload"
  else if t.channel.closed then .error "channel is closed"
  else .ok (t.setCall channelReqId { ephemeral := ephemeral, phase := .preparing })

/-- `send` from its last await before the dispatches to the first of them. -/
def prepared (channelReqId : RequestId) (call : SendCall) : Preparation → Traffic
  | .segmentationFailed error => t.setCall channelReqId
      { call with phase := .returned (.error ("segmentation failed: " ++ error)) }
  | .wrapFailed error => t.setCall channelReqId
      { call with phase := .returned (.error ("SDS wrap failed: " ++ error)) }
  | .encryptionFailed error => t.setCall channelReqId
      { call with phase := .returned (.error ("encryption failed: " ++ error)) }
  | .wireSegments more =>
      { t with
        channel := t.channel.setReq channelReqId
          { persistenceReqType := if call.ephemeral then .ephemeral else .persistent
            totalExpectedSegments := more + 1 } }.setCall channelReqId
        { call with phase := .dispatching (more + 1) }

/-- The messaging layer accepted the segment. -/
def accepted (channelReqId messagingReqId : RequestId) : Traffic :=
  { t with
    channel := t.channel.markSegmentInflight channelReqId messagingReqId
    owner := Function.update t.owner messagingReqId (some channelReqId) }.addRecord channelReqId
      (.inflight messagingReqId)

/-- The messaging layer refused the segment: the error event names the channel request, and the
listener of the channel hears it too. -/
def refused (channelReqId : RequestId) : Traffic :=
  { t with
    channel := (t.channel.hear channelReqId .failed).markSegmentFailed channelReqId }.addRecord
      channelReqId .refused

/-- The final event of an id of the request. -/
def settled (channelReqId messagingReqId : RequestId) (outcome : MessagingOutcome) : Traffic :=
  { t with
    channel := t.channel.hear messagingReqId outcome
    records := Function.update t.records channelReqId
      ((t.records channelReqId).map (SegmentRecord.settle messagingReqId outcome)) }

def step : TrafficAction → Traffic
  | .send channelReqId payload ephemeral =>
      if t.isNew channelReqId then
        match t.send channelReqId payload ephemeral with
        | .ok t' => t'
        | .error _ => t
      else t
  | .prepared channelReqId preparation =>
      match t.calls channelReqId with
      | some { ephemeral, phase := .preparing } =>
          t.prepared channelReqId { ephemeral, phase := .preparing } preparation
      | _ => t
  | .answered channelReqId answer =>
      match t.calls channelReqId with
      | some { ephemeral, phase := .dispatching (left + 1) } =>
          match answer with
          | .ok messagingReqId =>
              if t.isNew messagingReqId then
                (t.accepted channelReqId messagingReqId).setCall channelReqId
                  { ephemeral, phase := .dispatching left }
              else t
          | .error _ =>
              (t.refused channelReqId).setCall channelReqId { ephemeral, phase := .dispatching left }
      | _ => t
  | .finished channelReqId =>
      match t.calls channelReqId with
      | some { ephemeral, phase := .dispatching 0 } =>
          t.setCall channelReqId { ephemeral, phase := .returned (.ok channelReqId) }
      | _ => t
  | .final messagingReqId outcome =>
      match t.owner messagingReqId with
      | some channelReqId =>
          if SegmentRecord.inflight messagingReqId ∈ t.records channelReqId then
            t.settled channelReqId messagingReqId outcome
          else t
      | none => t
  | .foreign requestId outcome =>
      if (t.owner requestId).isNone then { t with channel := t.channel.hear requestId outcome } else t

/-- The segments of a request that are not dispatched, if its send got to dispatch any. -/
def left (channelReqId : RequestId) : Option ℕ :=
  match t.calls channelReqId with
  | some { phase := .dispatching left, .. } => some left
  | some { phase := .returned (.ok _), .. } => some 0
  | _ => none

end Traffic

/-! ### The books of a request -/

namespace SegmentRecord

variable {records : List SegmentRecord} {id : RequestId} {outcome : MessagingOutcome}

/-- Every record is in flight, confirmed or failed. -/
theorem count_all (records : List SegmentRecord) :
    records.countP confirmed + records.countP failed + (records.filterMap inflightId).length =
      records.length := by
  induction records with
  | nil => rfl
  | cons record records ih =>
      rw [List.countP_cons, List.countP_cons, List.filterMap_cons, List.length_cons]
      cases record with
      | refused =>
          simp only [inflightId, confirmed, failed, Bool.false_eq_true, if_true, if_false]
          omega
      | inflight id =>
          simp only [inflightId, confirmed, failed, Bool.false_eq_true, if_false, List.length_cons]
          omega
      | final id outcome =>
          cases outcome with
          | sent =>
              simp only [inflightId, confirmed, failed, Bool.false_eq_true, if_true, if_false]
              omega
          | failed =>
              simp only [inflightId, confirmed, failed, Bool.false_eq_true, if_true, if_false]
              omega

/-- No segment is in flight if all are final. -/
theorem filterMap_eq_nil_iff :
    records.filterMap inflightId = [] ↔ ∀ record ∈ records, record.isFinal = true := by
  rw [List.filterMap_eq_nil_iff]
  refine forall₂_congr fun record _ => ?_
  cases record with
  | refused => simp [inflightId, isFinal, failed]
  | inflight id => simp [inflightId, isFinal, confirmed, failed]
  | final id outcome => cases outcome <;> simp [inflightId, isFinal, confirmed, failed]

theorem mem_filterMap_inflightId :
    id ∈ records.filterMap inflightId ↔ inflight id ∈ records := by
  rw [List.mem_filterMap]
  constructor
  · rintro ⟨record, hmem, hid⟩
    cases record with
    | inflight id' => rwa [← Option.some.inj hid]
    | refused => cases hid
    | final id' outcome => cases hid
  · exact fun hmem => ⟨_, hmem, rfl⟩

/-- The ids in flight after a final event. -/
theorem filterMap_settle (records : List SegmentRecord) :
    (records.map (settle id outcome)).filterMap inflightId =
      (records.filterMap inflightId).filter (fun id' => id' ≠ id) := by
  induction records with
  | nil => rfl
  | cons record records ih =>
      rw [List.map_cons, List.filterMap_cons, List.filterMap_cons, ih]
      cases record with
      | refused => simp [settle, inflightId]
      | final id' outcome' => simp [settle, inflightId]
      | inflight id' =>
          by_cases heq : id' = id
          · simp [settle, inflightId, heq]
          · simp [settle, inflightId, heq]

/-- A final event leaves the ids that were given. -/
theorem givenId_settle (records : List SegmentRecord) :
    (records.map (settle id outcome)).filterMap givenId = records.filterMap givenId := by
  rw [List.filterMap_map]
  refine List.filterMap_congr fun record _ => ?_
  rw [Function.comp_apply, settle]
  split_ifs with heq
  · rw [heq]
    rfl
  · rfl

/-- A count of records after a final event of the only segment with the id. -/
theorem countP_settle (p : SegmentRecord → Bool) (hp : p (inflight id) = false)
    (records : List SegmentRecord) :
    (records.map (settle id outcome)).countP p = records.countP p +
      (if p (final id outcome) then (records.filterMap inflightId).count id else 0) := by
  induction records with
  | nil => simp
  | cons record records ih =>
      rw [List.map_cons, List.countP_cons, List.countP_cons, ih]
      by_cases heq : record = inflight id
      · rw [settle, if_pos heq, heq, hp]
        cases p (final id outcome) with
        | true =>
            simp [inflightId]
            omega
        | false => simp
      · have hcount : ((record :: records).filterMap inflightId).count id =
            (records.filterMap inflightId).count id := by
          cases record with
          | inflight id' =>
              have hne : id' ≠ id := fun h => heq (congrArg inflight h)
              simp [inflightId, hne]
          | refused => rfl
          | final id' outcome' => rfl
        rw [settle, if_neg heq, hcount]
        omega

end SegmentRecord

/-- The counters of a request, with `left` segments to dispatch. -/
structure RecordCounts (records : List SegmentRecord) (left : ℕ) (state : ChannelReqState) :
    Prop where
  total : state.totalExpectedSegments = left + records.length
  confirmed : state.confirmedCount = records.countP SegmentRecord.confirmed
  failed : state.failedCount = records.countP SegmentRecord.failed
  inflight : state.inflightMessagingIds = records.filterMap SegmentRecord.inflightId

/-- A request is in `channelReqs` until all segments are dispatched and final; then its only event
is out. -/
def RecordAccount (c : ReliableChannel) (records : List SegmentRecord) (q : RequestId)
    (left : ℕ) : Prop :=
  (∃ state, c.getReq q = some state ∧ c.eventsOf q = [] ∧ RecordCounts records left state ∧
      0 < state.totalExpectedSegments ∧ (0 < left ∨ state.inflightMessagingIds ≠ [])) ∨
    (left = 0 ∧ c.getReq q = none ∧ (∀ record ∈ records, record.isFinal = true) ∧
      c.eventsOf q = [c.finalEvent q (records.countP SegmentRecord.failed)])

section RecordBooks

variable {c c' : ReliableChannel} {records : List SegmentRecord} {q id : RequestId} {left : ℕ}
  {state : ChannelReqState} {outcome : MessagingOutcome}

theorem RecordAccount.congr (h : RecordAccount c records q left)
    (hid : c'.channelId = c.channelId) (hget : c'.getReq q = c.getReq q)
    (hev : c'.eventsOf q = c.eventsOf q) : RecordAccount c' records q left := by
  rcases h with ⟨state, hstate, hnone, hrest⟩ | ⟨hleft, hnone, hfinal, hevent⟩
  · exact Or.inl ⟨state, hget.trans hstate, hev.trans hnone, hrest⟩
  · refine Or.inr ⟨hleft, hget.trans hnone, hfinal, ?_⟩
    rw [hev, hevent]
    unfold ReliableChannel.finalEvent
    rw [hid]

/-- The books are kept when a request that was just counted is tried. -/
theorem recordAccount_tryFinalize (hc : c.Keyed) (hget : c.getReq q = some state)
    (hev : c.eventsOf q = []) (hcounts : RecordCounts records left state)
    (htotal : 0 < state.totalExpectedSegments) :
    RecordAccount (c.tryFinalizeChannelReq q) records q left := by
  have hall := SegmentRecord.count_all records
  have hlen : state.totalExpectedSegments = left + records.length := hcounts.total
  rw [← hcounts.confirmed, ← hcounts.failed, ← hcounts.inflight] at hall
  rcases ReliableChannel.tryFinalize_cases hget htotal with ⟨hnil, hcount, heq⟩ | ⟨hwait, heq⟩
  · rw [hnil, List.length_nil] at hall
    rw [heq]
    refine Or.inr ⟨by omega, ReliableChannel.getReq_delReq_self hc, ?_, ?_⟩
    · rw [← SegmentRecord.filterMap_eq_nil_iff, ← hcounts.inflight]
      exact hnil
    · rw [ReliableChannel.eventsOf_emit_self (ReliableChannel.finalEvent_requestId ..),
        show (c.delReq q).eventsOf q = c.eventsOf q from rfl, hev, hcounts.failed]
      rfl
  · rw [heq]
    refine Or.inl ⟨state, hget, hev, hcounts, htotal, ?_⟩
    rcases hwait with hne | hlt
    · exact Or.inr hne
    · -- a segment is not counted: it is not dispatched, or it is in flight
      by_contra hno
      rw [not_or, not_lt, Nat.le_zero, not_ne_iff] at hno
      rw [hno.2, List.length_nil] at hall
      omega

theorem RecordCounts.refuse (h : RecordCounts records (left + 1) state) :
    RecordCounts (records ++ [.refused]) left
      { state with failedCount := state.failedCount + 1 } where
  total := by
    have htotal := h.total
    rw [List.length_append, List.length_singleton]
    dsimp only
    omega
  confirmed := by
    rw [List.countP_append]
    exact h.confirmed
  failed := by
    rw [List.countP_append]
    exact congrArg (· + 1) h.failed
  inflight := by
    rw [List.filterMap_append]
    exact h.inflight.trans (List.append_nil _).symm

theorem RecordCounts.accept (h : RecordCounts records (left + 1) state) (id : RequestId) :
    RecordCounts (records ++ [.inflight id]) left
      { state with inflightMessagingIds := state.inflightMessagingIds ++ [id] } where
  total := by
    have htotal := h.total
    rw [List.length_append, List.length_singleton]
    dsimp only
    omega
  confirmed := by
    rw [List.countP_append]
    exact h.confirmed
  failed := by
    rw [List.countP_append]
    exact h.failed
  inflight := by
    rw [List.filterMap_append]
    exact congrArg (· ++ [id]) h.inflight

/-- A final event moves its segment from those in flight to those that are counted. -/
theorem RecordCounts.settle (h : RecordCounts records left state)
    (hnodup : (records.filterMap SegmentRecord.inflightId).Nodup)
    (hmem : SegmentRecord.inflight id ∈ records) :
    RecordCounts (records.map (SegmentRecord.settle id outcome)) left (state.final id outcome) := by
  have hone : (records.filterMap SegmentRecord.inflightId).count id = 1 :=
    List.count_eq_one_of_mem hnodup (SegmentRecord.mem_filterMap_inflightId.mpr hmem)
  have herase : state.inflightMessagingIds.erase id =
      (records.map (SegmentRecord.settle id outcome)).filterMap SegmentRecord.inflightId := by
    rw [SegmentRecord.filterMap_settle, h.inflight, hnodup.erase_eq_filter]
    refine List.filter_congr fun id' _ => ?_
    rw [bne, decide_not]
    rfl
  have hconfirmed : (records.map (SegmentRecord.settle id outcome)).countP _ = _ :=
    SegmentRecord.countP_settle SegmentRecord.confirmed rfl records
  have hfailed : (records.map (SegmentRecord.settle id outcome)).countP _ = _ :=
    SegmentRecord.countP_settle SegmentRecord.failed rfl records
  rw [hone] at hconfirmed hfailed
  cases outcome with
  | sent =>
      refine ⟨?_, ?_, ?_, herase⟩
      · rw [List.length_map]
        exact h.total
      · rw [hconfirmed]
        exact congrArg (· + 1) h.confirmed
      · rw [hfailed]
        exact h.failed
  | failed =>
      refine ⟨?_, ?_, ?_, herase⟩
      · rw [List.length_map]
        exact h.total
      · rw [hconfirmed]
        exact h.confirmed
      · rw [hfailed]
        exact congrArg (· + 1) h.failed

end RecordBooks

/-! ### The books of all requests -/

namespace Traffic

variable {t t' : Traffic} {q id : RequestId} {call : SendCall}

/-- The segments that a phase of `send` leaves to dispatch. -/
def leftOf : SendPhase → Option ℕ
  | .dispatching left => some left
  | .returned (.ok _) => some 0
  | _ => none

theorem left_of_call (h : t.calls q = some call) : t.left q = leftOf call.phase := by
  obtain ⟨ephemeral, phase⟩ := call
  unfold left
  rw [h]
  cases phase with
  | preparing => rfl
  | dispatching n => rfl
  | returned result => cases result <;> rfl

theorem left_of_none (h : t.calls q = none) : t.left q = none := by
  unfold left
  rw [h]

theorem left_congr (h : t'.calls q = t.calls q) : t'.left q = t.left q := by
  unfold left
  rw [h]

/-- The books of a request: kept as long as its send dispatches or has dispatched segments, and
empty otherwise. -/
structure Booked (t : Traffic) (q : RequestId) : Prop where
  account : ∀ n, t.left q = some n → RecordAccount t.channel (t.records q) q n
  idle : t.left q = none → t.channel.getReq q = none ∧ t.channel.eventsOf q = [] ∧ t.records q = []

structure Sound (t : Traffic) : Prop where
  keyed : t.channel.Keyed
  listening : t.channel.listening = true
  owned : ∀ q record id, record ∈ t.records q → record.givenId = some id → t.owner id = some q
  apart : ∀ q, t.calls q ≠ none → t.owner q = none
  nodup : ∀ q, ((t.records q).filterMap SegmentRecord.givenId).Nodup
  booked : ∀ q, t.Booked q

theorem initial_sound (channelId : ChannelId) : Sound (initial channelId) where
  keyed := List.nodup_nil
  listening := rfl
  owned _ _ _ h := by cases h
  apart _ h := absurd rfl h
  nodup _ := List.nodup_nil
  booked _ := ⟨fun _ h => (by cases h), fun _ => ⟨rfl, rfl, rfl⟩⟩

/-- The records in flight are the ids that a request waits for. -/
theorem Sound.mem_inflight (h : Sound t) {state : ChannelReqState}
    (hget : t.channel.getReq q = some state) (hid : id ∈ state.inflightMessagingIds) :
    SegmentRecord.inflight id ∈ t.records q := by
  cases hleft : t.left q with
  | none =>
      rw [((h.booked q).idle hleft).1] at hget
      cases hget
  | some n =>
      rcases (h.booked q).account n hleft with ⟨state', hstate', -, hcounts, -⟩ | ⟨-, hnone, -⟩
      · rw [hget, Option.some.injEq] at hstate'
        rw [hstate', hcounts.inflight] at hid
        exact SegmentRecord.mem_filterMap_inflightId.mp hid
      · rw [hnone] at hget
        cases hget

/-- An event that names no segment of the channel is not counted. -/
theorem Sound.hear_foreign (h : Sound t) (howner : t.owner id = none) (outcome : MessagingOutcome) :
    t.channel.hear id outcome = t.channel := by
  rw [ReliableChannel.hear, if_pos h.listening]
  rcases ReliableChannel.onMessageFinal_cases h.keyed id outcome with
    ⟨-, heq⟩ | ⟨q, state, hget, hid, -⟩
  · exact heq
  · have hown := h.owned q _ id (h.mem_inflight hget hid) rfl
    rw [howner] at hown
    cases hown

/-- A step about one request keeps the books of the others. -/
theorem Sound.update (h : Sound t) (q : RequestId)
    (honly : ReliableChannel.Only q t.channel t'.channel)
    (hcalls : ∀ q', q' ≠ q → t'.calls q' = t.calls q')
    (hrecords : ∀ q', q' ≠ q → t'.records q' = t.records q')
    (howned : ∀ q' record id, record ∈ t'.records q' → record.givenId = some id →
      t'.owner id = some q')
    (hapart : ∀ q', t'.calls q' ≠ none → t'.owner q' = none)
    (hnodup : ((t'.records q).filterMap SegmentRecord.givenId).Nodup)
    (hbooked : t'.Booked q) : Sound t' where
  keyed := honly.keyed
  listening := honly.listening.trans h.listening
  owned := howned
  apart := hapart
  nodup q' := by
    by_cases hq : q' = q
    · rw [hq]
      exact hnodup
    · rw [hrecords q' hq]
      exact h.nodup q'
  booked q' := by
    by_cases hq : q' = q
    · rw [hq]
      exact hbooked
    · have hleft := left_congr (hcalls q' hq)
      refine ⟨fun n hn => ?_, fun hn => ?_⟩
      · rw [hleft] at hn
        rw [hrecords q' hq]
        exact ((h.booked q').account n hn).congr honly.channelId (honly.getReq q' hq)
          (honly.eventsOf q' hq)
      · rw [hleft] at hn
        rw [hrecords q' hq, honly.getReq q' hq, honly.eventsOf q' hq]
        exact (h.booked q').idle hn

/-- The calls of a step that moves the call of `q` on. -/
theorem Sound.apart_setCall (h : Sound t) {owner : RequestId → Option RequestId}
    (hnew : owner q = none) (howner : ∀ q', t.calls q' ≠ none → owner q' = t.owner q')
    {calls : RequestId → Option SendCall}
    (hcalls : calls = Function.update t.calls q (some call)) (q' : RequestId)
    (hq' : calls q' ≠ none) : owner q' = none := by
  by_cases hq : q' = q
  · rw [hq]
    exact hnew
  · rw [hcalls, Function.update_of_ne hq] at hq'
    rw [howner q' hq']
    exact h.apart q' hq'

/-- The owners of a step that adds a record of `q`. -/
theorem Sound.owned_append (h : Sound t) {records : RequestId → List SegmentRecord}
    {owner : RequestId → Option RequestId} {record : SegmentRecord}
    (hrecord : records q = t.records q ++ [record])
    (hothers : ∀ q', q' ≠ q → records q' = t.records q')
    (hkeep : ∀ q' id, t.owner id = some q' → owner id = some q')
    (hgiven : ∀ id, record.givenId = some id → owner id = some q) (q' : RequestId)
    (record' : SegmentRecord) (id : RequestId) (hmem : record' ∈ records q')
    (hid : record'.givenId = some id) : owner id = some q' := by
  by_cases hq : q' = q
  · subst hq
    rw [hrecord, List.mem_append, List.mem_singleton] at hmem
    rcases hmem with hmem | rfl
    · exact hkeep q' id (h.owned q' record' id hmem hid)
    · exact hgiven id hid
  · rw [hothers q' hq] at hmem
    exact hkeep q' id (h.owned q' record' id hmem hid)

/-- A step that only moves the call of a request on. -/
theorem Sound.setCall (h : Sound t) (hnew : t.owner q = none)
    (hleft : leftOf call.phase = t.left q) : Sound (t.setCall q call) := by
  have hcall : (t.setCall q call).calls q = some call := Function.update_self ..
  refine h.update q (ReliableChannel.Only.refl h.keyed q)
    (fun q' hq => Function.update_of_ne hq ..) (fun _ _ => rfl) h.owned
    (h.apart_setCall hnew (fun _ _ => rfl) rfl) (h.nodup q) ?_
  · have hsame : (t.setCall q call).left q = t.left q := (left_of_call hcall).trans hleft
    refine ⟨fun n hn => ?_, fun hn => ?_⟩
    · rw [hsame] at hn
      exact (h.booked q).account n hn
    · rw [hsame] at hn
      exact (h.booked q).idle hn

/-- A request whose send still dispatches is in `channelReqs`. -/
theorem Sound.dispatching (h : Sound t) {n : ℕ} (hleft : t.left q = some (n + 1)) :
    ∃ state, t.channel.getReq q = some state ∧ t.channel.eventsOf q = [] ∧
      RecordCounts (t.records q) (n + 1) state ∧ 0 < state.totalExpectedSegments := by
  rcases (h.booked q).account _ hleft with ⟨state, hget, hev, hcounts, htotal, -⟩ | ⟨hzero, -⟩
  · exact ⟨state, hget, hev, hcounts, htotal⟩
  · cases hzero

/-- The segments of a send are ready. -/
theorem Sound.prepared (h : Sound t) (hcall : t.calls q = some call)
    (hphase : call.phase = .preparing) (preparation : Preparation) :
    Sound (t.prepared q call preparation) := by
  have hnew : t.owner q = none := h.apart q (by rw [hcall]; exact Option.some_ne_none _)
  have hleft : t.left q = none := by rw [left_of_call hcall, hphase]; rfl
  have hidle := (h.booked q).idle hleft
  cases preparation with
  | segmentationFailed error => exact h.setCall hnew hleft.symm
  | wrapFailed error => exact h.setCall hnew hleft.symm
  | encryptionFailed error => exact h.setCall hnew hleft.symm
  | wireSegments more =>
      refine h.update q (ReliableChannel.only_setReq h.keyed q _)
        (fun q' hq => Function.update_of_ne hq ..) (fun _ _ => rfl) h.owned
        (h.apart_setCall hnew (fun _ _ => rfl) rfl) (h.nodup q) ?_
      · have hcall' : (t.prepared q call (.wireSegments more)).calls q =
            some { call with phase := .dispatching (more + 1) } := Function.update_self ..
        have hleft' := left_of_call hcall'
        refine ⟨fun n hn => ?_, fun hn => ?_⟩
        · rw [hleft'] at hn
          obtain rfl := Option.some.inj hn
          refine Or.inl ⟨_, ReliableChannel.getReq_setReq_self h.keyed, hidle.2.1, ?_,
            Nat.succ_pos _, Or.inl (Nat.succ_pos _)⟩
          have hrecords : (t.prepared q call (.wireSegments more)).records q = [] := hidle.2.2
          rw [hrecords]
          exact ⟨rfl, rfl, rfl, rfl⟩
        · rw [hleft'] at hn
          cases hn

/-- A segment is refused. -/
theorem Sound.refused (h : Sound t) {n : ℕ} (hcall : t.calls q = some call)
    (hphase : call.phase = .dispatching (n + 1)) :
    Sound ((t.refused q).setCall q { call with phase := .dispatching n }) := by
  have hsome : t.calls q ≠ none := by rw [hcall]; exact Option.some_ne_none _
  have hleft : t.left q = some (n + 1) := by rw [left_of_call hcall, hphase]; rfl
  obtain ⟨state, hget, hev, hcounts, htotal⟩ := h.dispatching hleft
  -- the error event names the channel request, which no segment has as its id
  have hchannel : (t.refused q).channel =
      (t.channel.setReq q { state with failedCount := state.failedCount + 1 }).tryFinalizeChannelReq
        q := by
    unfold Traffic.refused addRecord
    dsimp only
    rw [h.hear_foreign (h.apart q hsome), ReliableChannel.markSegmentFailed, hget]
  have hset := ReliableChannel.only_setReq h.keyed q
    { state with failedCount := state.failedCount + 1 }
  have hrecord : ((t.refused q).setCall q { call with phase := .dispatching n }).records q =
      t.records q ++ [.refused] := Function.update_self ..
  have hcall' : ((t.refused q).setCall q { call with phase := .dispatching n }).calls q =
      some { call with phase := .dispatching n } := Function.update_self ..
  refine h.update q ?_ (fun q' hq => Function.update_of_ne hq ..)
    (fun q' hq => Function.update_of_ne hq ..)
    (h.owned_append hrecord (fun q' hq => Function.update_of_ne hq ..) (fun _ _ hold => hold) nofun)
    (h.apart_setCall (h.apart q hsome) (fun _ _ => rfl) rfl) ?_ ?_
  · exact hchannel ▸ hset.trans (ReliableChannel.only_tryFinalize hset.keyed q)
  · rw [hrecord, List.filterMap_append]
    exact (List.append_nil _).symm ▸ h.nodup q
  · have hleft' := left_of_call hcall'
    refine ⟨fun m hm => ?_, fun hm => ?_⟩
    · rw [hleft'] at hm
      obtain rfl := Option.some.inj hm
      rw [hrecord]
      refine RecordAccount.congr ?_ rfl rfl rfl (c := (t.refused q).channel)
      rw [hchannel]
      exact recordAccount_tryFinalize hset.keyed (ReliableChannel.getReq_setReq_self h.keyed) hev
        hcounts.refuse htotal
    · rw [hleft'] at hm
      cases hm

theorem isNew_iff : t.isNew id = true ↔ t.calls id = none ∧ t.owner id = none := by
  rw [isNew, Bool.and_eq_true, Option.isNone_iff_eq_none, Option.isNone_iff_eq_none]

/-- A segment is accepted with a new id. -/
theorem Sound.accepted (h : Sound t) {n : ℕ} (hcall : t.calls q = some call)
    (hphase : call.phase = .dispatching (n + 1)) (hid : t.isNew id = true) :
    Sound ((t.accepted q id).setCall q { call with phase := .dispatching n }) := by
  obtain ⟨hidcall, hidowner⟩ := isNew_iff.mp hid
  have hsome : t.calls q ≠ none := by rw [hcall]; exact Option.some_ne_none _
  have hleft : t.left q = some (n + 1) := by rw [left_of_call hcall, hphase]; rfl
  obtain ⟨state, hget, hev, hcounts, htotal⟩ := h.dispatching hleft
  have hchannel : (t.accepted q id).channel = t.channel.setReq q
      { state with inflightMessagingIds := state.inflightMessagingIds ++ [id] } := by
    unfold Traffic.accepted addRecord
    dsimp only
    rw [ReliableChannel.markSegmentInflight, hget]
  have hrecord : ((t.accepted q id).setCall q { call with phase := .dispatching n }).records q =
      t.records q ++ [.inflight id] := Function.update_self ..
  have hcall' : ((t.accepted q id).setCall q { call with phase := .dispatching n }).calls q =
      some { call with phase := .dispatching n } := Function.update_self ..
  have howner : ((t.accepted q id).setCall q { call with phase := .dispatching n }).owner =
      Function.update t.owner id (some q) := rfl
  have hkeep : ∀ q' id', t.owner id' = some q' →
      Function.update t.owner id (some q) id' = some q' := by
    intro q' id' hold
    have hne : id' ≠ id := by
      rintro rfl
      rw [hidowner] at hold
      cases hold
    rw [Function.update_of_ne hne]
    exact hold
  have hcalled : ∀ q', t.calls q' ≠ none →
      Function.update t.owner id (some q) q' = t.owner q' := by
    intro q' hq'
    have hne : q' ≠ id := by
      rintro rfl
      exact hq' hidcall
    exact Function.update_of_ne hne ..
  refine h.update q (hchannel ▸ ReliableChannel.only_setReq h.keyed q _)
    (fun q' hq => Function.update_of_ne hq ..) (fun q' hq => Function.update_of_ne hq ..) ?_
    (h.apart_setCall ((hcalled q hsome).trans (h.apart q hsome)) hcalled rfl) ?_ ?_
  · rw [howner]
    refine h.owned_append hrecord (fun q' hq => Function.update_of_ne hq ..) hkeep ?_
    intro id' hid'
    rw [← Option.some.inj hid']
    exact Function.update_self ..
  · rw [hrecord, List.filterMap_append]
    refine Lib.nodup_append_singleton (h.nodup q) ?_
    intro hmem
    obtain ⟨record, hrecord', hgiven⟩ := List.mem_filterMap.mp hmem
    have hown := h.owned q record id hrecord' hgiven
    rw [hidowner] at hown
    cases hown
  · have hleft' := left_of_call hcall'
    refine ⟨fun m hm => ?_, fun hm => ?_⟩
    · rw [hleft'] at hm
      obtain rfl := Option.some.inj hm
      rw [hrecord]
      refine RecordAccount.congr ?_ rfl rfl rfl (c := (t.accepted q id).channel)
      rw [hchannel]
      refine Or.inl ⟨_, ReliableChannel.getReq_setReq_self h.keyed, hev, hcounts.accept id, htotal,
        Or.inr ?_⟩
      simp
    · rw [hleft'] at hm
      cases hm

/-- The ids in flight are among the ids that were given. -/
theorem nodup_inflightIds {records : List SegmentRecord}
    (h : (records.filterMap SegmentRecord.givenId).Nodup) :
    (records.filterMap SegmentRecord.inflightId).Nodup := by
  induction records with
  | nil => exact List.nodup_nil
  | cons record records ih =>
      cases record with
      | refused => exact ih h
      | final id outcome => exact ih (List.nodup_cons.mp h).2
      | inflight id =>
          obtain ⟨hnot, htail⟩ := List.nodup_cons.mp h
          refine List.nodup_cons.mpr ⟨fun hmem => hnot ?_, ih htail⟩
          exact List.mem_filterMap.mpr ⟨_, SegmentRecord.mem_filterMap_inflightId.mp hmem, rfl⟩

/-- A request with a segment in flight is in `channelReqs`. -/
theorem Sound.waiting (h : Sound t) (hmem : SegmentRecord.inflight id ∈ t.records q) :
    ∃ n state, t.left q = some n ∧ t.channel.getReq q = some state ∧ t.channel.eventsOf q = [] ∧
      RecordCounts (t.records q) n state ∧ 0 < state.totalExpectedSegments := by
  cases hleft : t.left q with
  | none =>
      rw [((h.booked q).idle hleft).2.2] at hmem
      cases hmem
  | some n =>
      rcases (h.booked q).account n hleft with
        ⟨state, hget, hev, hcounts, htotal, -⟩ | ⟨-, -, hfinal, -⟩
      · exact ⟨n, state, rfl, hget, hev, hcounts, htotal⟩
      · have hnot := hfinal _ hmem
        cases hnot

/-- The request that takes a final event is the one that the id was given to. -/
theorem Sound.hear_own (h : Sound t) {state : ChannelReqState} (howner : t.owner id = some q)
    (hget : t.channel.getReq q = some state) (hin : id ∈ state.inflightMessagingIds)
    (outcome : MessagingOutcome) :
    t.channel.hear id outcome =
      (t.channel.setReq q (state.final id outcome)).tryFinalizeChannelReq q := by
  rw [ReliableChannel.hear, if_pos h.listening]
  rcases ReliableChannel.onMessageFinal_cases h.keyed id outcome with
    ⟨hnone, -⟩ | ⟨q', state', hget', hid', heq⟩
  · exact absurd hin (hnone q state hget)
  · have hown := h.owned q' _ id (h.mem_inflight hget' hid') rfl
    rw [howner, Option.some.injEq] at hown
    rw [← hown, hget, Option.some.injEq] at hget'
    rw [heq, ← hown, ← hget']

/-- A segment of the channel gets its final event. -/
theorem Sound.settled (h : Sound t) {outcome : MessagingOutcome} (howner : t.owner id = some q)
    (hmem : SegmentRecord.inflight id ∈ t.records q) : Sound (t.settled q id outcome) := by
  obtain ⟨n, state, hleft, hget, hev, hcounts, htotal⟩ := h.waiting hmem
  have hin : id ∈ state.inflightMessagingIds := by
    rw [hcounts.inflight]
    exact SegmentRecord.mem_filterMap_inflightId.mpr hmem
  have hchannel : (t.settled q id outcome).channel =
      (t.channel.setReq q (state.final id outcome)).tryFinalizeChannelReq q :=
    h.hear_own howner hget hin outcome
  have hset := ReliableChannel.only_setReq h.keyed q (state.final id outcome)
  have hrecord : (t.settled q id outcome).records q =
      (t.records q).map (SegmentRecord.settle id outcome) := Function.update_self ..
  have hleft' : (t.settled q id outcome).left q = t.left q := left_congr rfl
  refine h.update q ?_ (fun _ _ => rfl) (fun q' hq => Function.update_of_ne hq ..) ?_ h.apart ?_ ?_
  · exact hchannel ▸ hset.trans (ReliableChannel.only_tryFinalize hset.keyed q)
  · intro q' record id' hrec hgiven
    by_cases hq : q' = q
    · rw [hq, hrecord] at hrec
      have hgiven' : id' ∈ (t.records q).filterMap SegmentRecord.givenId := by
        rw [← SegmentRecord.givenId_settle (t.records q)]
        exact List.mem_filterMap.mpr ⟨record, hrec, hgiven⟩
      obtain ⟨record', hrec', hgiven''⟩ := List.mem_filterMap.mp hgiven'
      rw [hq]
      exact h.owned q record' id' hrec' hgiven''
    · have hold : (t.settled q id outcome).records q' = t.records q' := Function.update_of_ne hq ..
      rw [hold] at hrec
      exact h.owned q' record id' hrec hgiven
  · rw [hrecord, SegmentRecord.givenId_settle]
    exact h.nodup q
  · refine ⟨fun m hm => ?_, fun hm => ?_⟩
    · rw [hleft', hleft, Option.some.injEq] at hm
      rw [hrecord, hchannel, ← hm]
      refine recordAccount_tryFinalize hset.keyed (ReliableChannel.getReq_setReq_self h.keyed) hev
        (hcounts.settle (nodup_inflightIds (h.nodup q)) hmem) ?_
      cases outcome <;> exact htotal
    · rw [hleft', hleft] at hm
      cases hm

/-- An event is counted for no request but the one that its id was given to. -/
theorem Sound.hear_other (h : Sound t) (hother : t.owner id ≠ some q)
    (outcome : MessagingOutcome) :
    (t.channel.hear id outcome).getReq q = t.channel.getReq q := by
  rw [ReliableChannel.hear, if_pos h.listening]
  rcases ReliableChannel.onMessageFinal_cases h.keyed id outcome with
    ⟨-, heq⟩ | ⟨q', state, hget, hid, heq⟩
  · rw [heq]
  · have hown := h.owned q' _ id (h.mem_inflight hget hid) rfl
    have hne : q ≠ q' := by
      rintro rfl
      exact hother hown
    have hset := ReliableChannel.only_setReq h.keyed q' (state.final id outcome)
    rw [heq]
    exact (hset.trans (ReliableChannel.only_tryFinalize hset.keyed q')).getReq q hne

/-! ### Runs -/

theorem Sound.step (h : Sound t) (a : TrafficAction) : Sound (t.step a) := by
  cases a with
  | send q payload ephemeral =>
      simp only [Traffic.step, Traffic.send]
      split_ifs with hnew hempty hclosed
      · exact h
      · exact h
      · obtain ⟨hcall, howner⟩ := isNew_iff.mp hnew
        exact h.setCall howner (left_of_none hcall).symm
      · exact h
  | prepared q preparation =>
      simp only [Traffic.step]
      split
      next ephemeral hcall => exact h.prepared hcall rfl preparation
      next => exact h
  | answered q answer =>
      simp only [Traffic.step]
      split
      next ephemeral n hcall =>
        cases answer with
        | ok id =>
            dsimp only
            split_ifs with hnew
            · exact h.accepted hcall rfl hnew
            · exact h
        | error e => exact h.refused hcall rfl
      next => exact h
  | finished q =>
      simp only [Traffic.step]
      split
      next ephemeral hcall =>
        have hsome : t.calls q ≠ none := by rw [hcall]; exact Option.some_ne_none _
        exact h.setCall (h.apart q hsome) (left_of_call hcall).symm
      next => exact h
  | final id outcome =>
      simp only [Traffic.step]
      cases howner : t.owner id with
      | none => exact h
      | some q =>
          dsimp only
          split_ifs with hmem
          · exact h.settled howner hmem
          · exact h
  | foreign id outcome =>
      simp only [Traffic.step]
      split_ifs with howner
      · rw [h.hear_foreign (Option.isNone_iff_eq_none.mp howner)]
        exact h
      · exact h

/-- The channel and its traffic after the actions. -/
def after (channelId : ChannelId) (actions : List TrafficAction) : Traffic :=
  Lib.run Traffic.step (initial channelId) actions

theorem after_sound (channelId : ChannelId) (actions : List TrafficAction) :
    Sound (after channelId actions) := by
  induction actions using List.reverseRecOn with
  | nil => exact initial_sound channelId
  | append_singleton actions a ih =>
      rw [after, Lib.run_concat]
      exact ih.step a

/-- The event reports an error. -/
def isErrorEvent : ChannelEvent → Bool
  | .channelMessageError .. => true
  | .channelMessageSent .. => false

theorem isErrorEvent_finalEvent (c : ReliableChannel) (q : RequestId) (records : List SegmentRecord) :
    isErrorEvent (c.finalEvent q (records.countP SegmentRecord.failed)) = true ↔
      ∃ record ∈ records, record.failed = true := by
  unfold ReliableChannel.finalEvent
  rw [← List.countP_pos_iff]
  split_ifs with hpos
  · exact iff_of_true rfl hpos
  · exact iff_of_false Bool.false_ne_true hpos

/-- After any sends, answers and events: the counters of a request in `channelReqs` count its own
dispatched segments, each once; a request that dispatches is gone from `channelReqs` exactly when no
segment is left to dispatch and all are final, and then it has exactly one event, an error exactly if
a segment failed, and none before; and no event is counted for a request that its id was not given
to. -/
theorem accounts_after (channelId : ChannelId) (actions : List TrafficAction) :
    let t := after channelId actions
    (∀ q state, t.channel.getReq q = some state →
      state.confirmedCount + state.failedCount + state.inflightMessagingIds.length =
          (t.records q).length ∧
        state.confirmedCount = (t.records q).countP SegmentRecord.confirmed ∧
        state.failedCount = (t.records q).countP SegmentRecord.failed ∧
        state.inflightMessagingIds = (t.records q).filterMap SegmentRecord.inflightId) ∧
    (∀ q n, t.left q = some n →
      (t.channel.getReq q = none ↔ n = 0 ∧ ∀ record ∈ t.records q, record.isFinal = true) ∧
      (t.channel.getReq q = none → ∃ e, t.channel.eventsOf q = [e] ∧
        (isErrorEvent e = true ↔ ∃ record ∈ t.records q, record.failed = true)) ∧
      (∀ state, t.channel.getReq q = some state →
        t.channel.eventsOf q = [] ∧ state.totalExpectedSegments = n + (t.records q).length)) ∧
    (∀ q, t.left q = none → t.channel.getReq q = none ∧ t.channel.eventsOf q = []) ∧
    (∀ q id outcome, t.owner id ≠ some q →
      (t.channel.hear id outcome).getReq q = t.channel.getReq q) := by
  intro t
  have ht : Sound t := after_sound channelId actions
  refine ⟨?_, ?_, ?_, fun q id outcome hother => ht.hear_other hother outcome⟩
  · intro q state hget
    cases hleft : t.left q with
    | none =>
        rw [((ht.booked q).idle hleft).1] at hget
        cases hget
    | some n =>
        rcases (ht.booked q).account n hleft with ⟨state', hget', -, hcounts, -⟩ | ⟨-, hnone, -⟩
        · rw [hget, Option.some.injEq] at hget'
          subst hget'
          refine ⟨?_, hcounts.confirmed, hcounts.failed, hcounts.inflight⟩
          rw [hcounts.confirmed, hcounts.failed, hcounts.inflight]
          exact SegmentRecord.count_all _
        · rw [hnone] at hget
          cases hget
  · intro q n hleft
    rcases (ht.booked q).account n hleft with
      ⟨state, hget, hev, hcounts, htotal, hopen⟩ | ⟨hzero, hnone, hfinal, hevent⟩
    · refine ⟨?_, ?_, ?_⟩
      · refine iff_of_false (by rw [hget]; exact Option.some_ne_none _) ?_
        rintro ⟨hzero, hfinal⟩
        rcases hopen with hpos | hwait
        · omega
        · exact hwait (hcounts.inflight.trans (SegmentRecord.filterMap_eq_nil_iff.mpr hfinal))
      · intro hnone
        rw [hget] at hnone
        cases hnone
      · intro state' hget'
        rw [hget, Option.some.injEq] at hget'
        subst hget'
        exact ⟨hev, hcounts.total⟩
    · refine ⟨iff_of_true hnone ⟨hzero, hfinal⟩, fun _ => ⟨_, hevent, ?_⟩, ?_⟩
      · exact isErrorEvent_finalEvent t.channel q (t.records q)
      · intro state hget
        rw [hnone] at hget
        cases hget
  · intro q hleft
    exact ⟨((ht.booked q).idle hleft).1, ((ht.booked q).idle hleft).2.1⟩

end Traffic

end LogosDelivery.Channels
