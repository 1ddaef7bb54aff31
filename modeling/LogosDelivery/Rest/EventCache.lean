import Mathlib

/-! # The cache of messaging events

The events of a client are kept until a poll takes them.  The statuses of the sends are in a table by
request id with a queue of the ids beside it; the received messages are in a queue and are numbered.
Both queues are bounded and lose their oldest entry.

What the table and its queue are for is one list of statuses (`Buffered`), and the cache answers every
poll as that list does. -/

namespace LogosDelivery.Rest

/-! ### The cache -/

inductive SendEventKind where
  | queued
  | sent
  | propagated
  | error
  deriving DecidableEq

structure SendEventRecord where
  kind : SendEventKind
  messageHash : String
  error : String
  timestamp : ℤ
  deriving DecidableEq

structure SendStatus where
  requestId : String
  events : List SendEventRecord
  deriving DecidableEq

inductive MessageSource where
  | live
  | history
  deriving DecidableEq

structure ReceivedMessageRecord (Message : Type) where
  seq : ℕ
  messageHash : String
  message : Message
  source : MessageSource

/-- The last two fields are the counters of what was evicted. -/
structure MessagingEventCache (Message : Type) where
  sendByReqId : String → Option SendStatus
  sendOrder : List String
  maxSendRequests : ℕ
  received : List (ReceivedMessageRecord Message)
  maxReceived : ℕ
  nextReceivedSeq : ℕ
  sendDropped : ℕ
  receivedDropped : ℕ

namespace MessagingEventCache

variable {Message : Type}

def new (maxReceived maxSendRequests : ℕ) : MessagingEventCache Message where
  sendByReqId := fun _ => none
  sendOrder := []
  maxSendRequests := maxSendRequests
  received := []
  maxReceived := maxReceived
  nextReceivedSeq := 0
  sendDropped := 0
  receivedDropped := 0

/-- The loop that evicts the oldest request ids of `sendOrder`. -/
def evictSends (self : MessagingEventCache Message) : List String → MessagingEventCache Message
  | [] => { self with sendOrder := [] }
  | evicted :: order =>
      if order.length + 1 > self.maxSendRequests then
        evictSends { self with
          sendByReqId := Function.update self.sendByReqId evicted none
          sendDropped := self.sendDropped + 1 } order
      else { self with sendOrder := evicted :: order }

/-- The event is added to the status of the id, if there is one. -/
def addToStatus (self : MessagingEventCache Message) (requestId : String) (record : SendEventRecord) :
    MessagingEventCache Message :=
  match self.sendByReqId requestId with
  | none => self
  | some status =>
      { self with
        sendByReqId := Function.update self.sendByReqId requestId
          (some { status with events := status.events ++ [record] }) }

def recordSend (self : MessagingEventCache Message) (requestId : String) (record : SendEventRecord) :
    MessagingEventCache Message :=
  if (self.sendByReqId requestId).isNone then
    (evictSends { self with
      sendByReqId := Function.update self.sendByReqId requestId (some ⟨requestId, []⟩) }
      (self.sendOrder ++ [requestId])).addToStatus requestId record
  else self.addToStatus requestId record

/-- The loop that evicts the oldest messages of `received`. -/
def evictReceived (self : MessagingEventCache Message) :
    List (ReceivedMessageRecord Message) → MessagingEventCache Message
  | [] => { self with received := [] }
  | record :: received =>
      if received.length + 1 > self.maxReceived then
        evictReceived { self with receivedDropped := self.receivedDropped + 1 } received
      else { self with received := record :: received }

def recordReceived (self : MessagingEventCache Message) (messageHash : String) (message : Message)
    (source : MessageSource) : MessagingEventCache Message :=
  -- a `uint64` is counted up
  let seq := (self.nextReceivedSeq + 1) % 2 ^ 64
  evictReceived { self with nextReceivedSeq := seq }
    (self.received ++ [⟨seq, messageHash, message, source⟩])

def pollAllSend (self : MessagingEventCache Message) : MessagingEventCache Message × List SendStatus :=
  ({ self with sendByReqId := fun _ => none, sendOrder := [] },
    self.sendOrder.filterMap self.sendByReqId)

def pollSend (self : MessagingEventCache Message) (requestId : String) :
    MessagingEventCache Message × Option SendStatus :=
  match self.sendByReqId requestId with
  | none => (self, none)
  | some status =>
      ({ self with
          sendByReqId := Function.update self.sendByReqId requestId none
          sendOrder := self.sendOrder.filter (fun reqId => reqId != requestId) }, some status)

def clear (self : MessagingEventCache Message) : MessagingEventCache Message :=
  { self with sendByReqId := fun _ => none, sendOrder := [], received := [] }

def pollReceived (self : MessagingEventCache Message) :
    MessagingEventCache Message × List (ReceivedMessageRecord Message) :=
  ({ self with received := [] }, self.received)

end MessagingEventCache

/-! ### Calls -/

inductive EventCall (Message : Type) where
  | recordSend (requestId : String) (record : SendEventRecord)
  | recordReceived (messageHash : String) (message : Message) (source : MessageSource)
  | pollAllSend
  | pollSend (requestId : String)
  | pollReceived
  | clear

/-- What a call returns. -/
inductive Polled (Message : Type) where
  | nothing
  | sends (statuses : List SendStatus)
  | send (status : Option SendStatus)
  | received (records : List (ReceivedMessageRecord Message))

variable {Message : Type}

def MessagingEventCache.step (self : MessagingEventCache Message) :
    EventCall Message → MessagingEventCache Message × Polled Message
  | .recordSend requestId record => (self.recordSend requestId record, .nothing)
  | .recordReceived messageHash message source =>
      (self.recordReceived messageHash message source, .nothing)
  | .pollAllSend => (self.pollAllSend.1, .sends self.pollAllSend.2)
  | .pollSend requestId => ((self.pollSend requestId).1, .send (self.pollSend requestId).2)
  | .pollReceived => (self.pollReceived.1, .received self.pollReceived.2)
  | .clear => (self.clear, .nothing)

/-- The cache after a run, and the answers of the run. -/
def MessagingEventCache.run (self : MessagingEventCache Message) :
    List (EventCall Message) → MessagingEventCache Message × List (Polled Message)
  | [] => (self, [])
  | call :: calls =>
      let rest := (self.step call).1.run calls
      (rest.1, (self.step call).2 :: rest.2)

/-! ### The abstract cache -/

/-- The newest entries of a list. -/
def newest {α : Type} (n : ℕ) (l : List α) : List α := l.drop (l.length - n)

theorem newest_eq_self {α : Type} {n : ℕ} {l : List α} (h : l.length ≤ n) : newest n l = l := by
  rw [newest, Nat.sub_eq_zero_of_le h, List.drop_zero]

theorem newest_cons {α : Type} {n : ℕ} {x : α} {l : List α} (h : n < l.length + 1) :
    newest n (x :: l) = newest n l := by
  obtain ⟨k, hk⟩ : ∃ k, l.length + 1 - n = k + 1 := ⟨l.length - n, by omega⟩
  have hl : l.length - n = k := by omega
  rw [newest, newest, List.length_cons, hk, hl, List.drop_succ_cons]

theorem newest_map {α β : Type} (f : α → β) (n : ℕ) (l : List α) :
    newest n (l.map f) = (newest n l).map f := by
  rw [newest, newest, List.length_map, List.map_drop]

theorem newest_suffix {α : Type} (n : ℕ) (l : List α) : newest n l <:+ l := List.drop_suffix _ _

/-- The statuses in the order of their first events, and the messages in the order of arrival. -/
structure Buffered (Message : Type) where
  sends : List SendStatus
  received : List (ReceivedMessageRecord Message)
  nextReceivedSeq : ℕ
  sendDropped : ℕ
  receivedDropped : ℕ

/-- What of a list is kept; what is not is counted. -/
structure Keeping (Message : Type) where
  sends : List SendStatus → List SendStatus
  received : List (ReceivedMessageRecord Message) → List (ReceivedMessageRecord Message)

namespace Buffered

def empty : Buffered Message := ⟨[], [], 0, 0, 0⟩

def addEvent (requestId : String) (record : SendEventRecord) (sends : List SendStatus) :
    List SendStatus :=
  if requestId ∈ sends.map SendStatus.requestId then
    sends.map fun status =>
      if status.requestId = requestId then { status with events := status.events ++ [record] } else status
  else sends ++ [⟨requestId, [record]⟩]

def keepSends (keep : Keeping Message) (b : Buffered Message) (sends : List SendStatus) :
    Buffered Message :=
  { b with sends := keep.sends sends,
           sendDropped := b.sendDropped + (sends.length - (keep.sends sends).length) }

def keepReceived (keep : Keeping Message) (b : Buffered Message)
    (received : List (ReceivedMessageRecord Message)) : Buffered Message :=
  { b with received := keep.received received,
           receivedDropped := b.receivedDropped + (received.length - (keep.received received).length) }

def step (keep : Keeping Message) (b : Buffered Message) :
    EventCall Message → Buffered Message × Polled Message
  | .recordSend requestId record => (b.keepSends keep (addEvent requestId record b.sends), .nothing)
  | .recordReceived messageHash message source =>
      let seq := (b.nextReceivedSeq + 1) % 2 ^ 64
      (keepReceived keep { b with nextReceivedSeq := seq }
        (b.received ++ [⟨seq, messageHash, message, source⟩]), .nothing)
  | .pollAllSend => ({ b with sends := [] }, .sends b.sends)
  | .pollSend requestId =>
      ({ b with sends := b.sends.filter fun status => status.requestId != requestId },
        .send (b.sends.find? fun status => status.requestId == requestId))
  | .pollReceived => ({ b with received := [] }, .received b.received)
  | .clear => ({ b with sends := [], received := [] }, .nothing)

def run (keep : Keeping Message) (b : Buffered Message) :
    List (EventCall Message) → Buffered Message × List (Polled Message)
  | [] => (b, [])
  | call :: calls =>
      let rest := (b.step keep call).1.run keep calls
      (rest.1, (b.step keep call).2 :: rest.2)

end Buffered

/-! ### The table of a list -/

/-- What a table of the statuses has under an id. -/
def lookup (sends : List SendStatus) (requestId : String) : Option SendStatus :=
  sends.find? fun status => status.requestId == requestId

section Lookup

variable {status : SendStatus} {sends : List SendStatus} {requestId : String}

theorem lookup_eq_none : lookup sends requestId = none ↔ requestId ∉ sends.map SendStatus.requestId := by
  unfold lookup
  rw [List.find?_eq_none, List.mem_map]
  constructor
  · rintro h ⟨status, hmem, rfl⟩
    exact h status hmem (beq_self_eq_true _)
  · intro h status hmem heq
    exact h ⟨status, hmem, beq_iff_eq.mp heq⟩

theorem lookup_cons (status : SendStatus) (sends : List SendStatus) (requestId : String) :
    lookup (status :: sends) requestId =
      if status.requestId = requestId then some status else lookup sends requestId := by
  unfold lookup
  rw [List.find?_cons]
  by_cases h : status.requestId = requestId
  · rw [if_pos h, beq_iff_eq.mpr h]
  · rw [if_neg h, beq_eq_false_iff_ne.mpr h]

/-- The oldest status is deleted. -/
theorem update_lookup_cons (h : ((status :: sends).map SendStatus.requestId).Nodup) :
    Function.update (lookup (status :: sends)) status.requestId none = lookup sends := by
  rw [List.map_cons, List.nodup_cons] at h
  funext id
  by_cases hid : id = status.requestId
  · rw [hid, Function.update_self]
    exact (lookup_eq_none.mpr h.1).symm
  · rw [Function.update_of_ne hid, lookup_cons, if_neg (Ne.symm hid)]

theorem nodup_append (status : SendStatus) (hnodup : (sends.map SendStatus.requestId).Nodup)
    (h : status.requestId ∉ sends.map SendStatus.requestId) :
    ((sends ++ [status]).map SendStatus.requestId).Nodup := by
  rw [List.map_append, List.nodup_append]
  refine ⟨hnodup, List.nodup_singleton _, fun id hid other hother heq => ?_⟩
  rw [List.mem_singleton.mp hother] at heq
  exact h (heq ▸ hid)

/-- A status is entered behind the others. -/
theorem update_lookup_append (status : SendStatus)
    (h : status.requestId ∉ sends.map SendStatus.requestId) :
    Function.update (lookup sends) status.requestId (some status) = lookup (sends ++ [status]) := by
  induction sends with
  | nil =>
      funext id
      rw [List.nil_append, lookup_cons]
      by_cases hid : id = status.requestId
      · rw [hid, Function.update_self, if_pos rfl]
      · rw [Function.update_of_ne hid, if_neg (Ne.symm hid)]
  | cons first sends ih =>
      rw [List.map_cons, List.mem_cons, not_or] at h
      funext id
      rw [List.cons_append, lookup_cons, ← ih h.2]
      by_cases hid : id = status.requestId
      · rw [hid, Function.update_self, Function.update_self, if_neg (Ne.symm h.1)]
      · rw [Function.update_of_ne hid, Function.update_of_ne hid, lookup_cons]

theorem lookup_map_ne (f : SendStatus → SendStatus) (hf : ∀ s, (f s).requestId = s.requestId) {id : String}
    (hid : id ≠ requestId) (sends : List SendStatus) :
    lookup (sends.map fun s => if s.requestId = requestId then f s else s) id = lookup sends id := by
  induction sends with
  | nil => rfl
  | cons first sends ih =>
      rw [List.map_cons, lookup_cons, lookup_cons, ih]
      by_cases hfirst : first.requestId = requestId
      · rw [if_pos hfirst, hf, hfirst, if_neg (Ne.symm hid), if_neg (Ne.symm hid)]
      · rw [if_neg hfirst]

/-- A status is changed in its place. -/
theorem update_lookup_map (f : SendStatus → SendStatus) (hf : ∀ s, (f s).requestId = s.requestId)
    (h : lookup sends requestId = some status) :
    Function.update (lookup sends) requestId (some (f status)) =
      lookup (sends.map fun s => if s.requestId = requestId then f s else s) := by
  induction sends with
  | nil => cases h
  | cons first sends ih =>
      rw [lookup_cons] at h
      funext id
      rw [List.map_cons, lookup_cons]
      by_cases hfirst : first.requestId = requestId
      · rw [if_pos hfirst] at h
        obtain rfl := Option.some.inj h
        rw [if_pos hfirst, hf]
        by_cases hid : id = requestId
        · rw [hid, Function.update_self, if_pos hfirst]
        · rw [Function.update_of_ne hid, lookup_cons, hfirst, if_neg (Ne.symm hid), if_neg (Ne.symm hid)]
          exact (lookup_map_ne f hf hid sends).symm
      · rw [if_neg hfirst] at h
        rw [if_neg hfirst, ← ih h]
        by_cases hid : id = requestId
        · rw [hid, Function.update_self, Function.update_self, if_neg hfirst]
        · rw [Function.update_of_ne hid, Function.update_of_ne hid, lookup_cons]

/-- A status is taken out. -/
theorem update_lookup_filter (sends : List SendStatus) (requestId : String) :
    Function.update (lookup sends) requestId none =
      lookup (sends.filter fun status => status.requestId != requestId) := by
  funext id
  by_cases hid : id = requestId
  · rw [hid, Function.update_self, eq_comm, lookup_eq_none]
    simp
  · rw [Function.update_of_ne hid]
    unfold lookup
    rw [List.find?_filter]
    congr 1
    funext status
    by_cases hstatus : status.requestId = id
    · simp [hstatus, hid]
    · simp [hstatus]

/-- Every status is in the table under its id. -/
theorem filterMap_lookup (h : (sends.map SendStatus.requestId).Nodup) :
    (sends.map SendStatus.requestId).filterMap (lookup sends) = sends := by
  induction sends with
  | nil => rfl
  | cons status sends ih =>
      rw [List.map_cons, List.nodup_cons] at h
      rw [List.map_cons, List.filterMap_cons, lookup_cons, if_pos rfl]
      dsimp only
      congr 1
      refine (List.filterMap_congr fun id hid => ?_).trans (ih h.2)
      rw [lookup_cons, if_neg]
      rintro rfl
      exact h.1 hid

end Lookup

/-! ### The cache answers as the list -/

/-- The newest entries up to the caps are kept. -/
def capped (maxReceived maxSendRequests : ℕ) : Keeping Message :=
  ⟨newest maxSendRequests, newest maxReceived⟩

namespace Buffered

/-- The cache whose table and queue are those of the list. -/
def cache (b : Buffered Message) (maxReceived maxSendRequests : ℕ) : MessagingEventCache Message where
  sendByReqId := lookup b.sends
  sendOrder := b.sends.map SendStatus.requestId
  maxSendRequests := maxSendRequests
  received := b.received
  maxReceived := maxReceived
  nextReceivedSeq := b.nextReceivedSeq
  sendDropped := b.sendDropped
  receivedDropped := b.receivedDropped

end Buffered

open MessagingEventCache

section Simulation

variable {b : Buffered Message} {maxReceived maxSendRequests : ℕ} {call : EventCall Message}

theorem length_newest {α : Type} (n : ℕ) (l : List α) : l.length - (newest n l).length = l.length - n := by
  rw [newest, List.length_drop]
  omega

/-- The loop over the ids leaves the newest statuses. -/
theorem evictSends_lookup (self : MessagingEventCache Message) (sends : List SendStatus)
    (hnodup : (sends.map SendStatus.requestId).Nodup) (h : self.sendByReqId = lookup sends) :
    self.evictSends (sends.map SendStatus.requestId) =
      { self with
        sendByReqId := lookup (newest self.maxSendRequests sends)
        sendOrder := (newest self.maxSendRequests sends).map SendStatus.requestId
        sendDropped := self.sendDropped + (sends.length - self.maxSendRequests) } := by
  induction sends generalizing self with
  | nil =>
      rw [newest_eq_self (Nat.zero_le _), ← h]
      simp [evictSends]
  | cons status sends ih =>
      rw [List.map_cons, evictSends, List.length_map]
      split_ifs with hfull
      · have hrest : (sends.map SendStatus.requestId).Nodup := (List.nodup_cons.mp hnodup).2
        rw [ih _ hrest (by rw [h, update_lookup_cons hnodup]), newest_cons hfull]
        have hcount : self.sendDropped + 1 + (sends.length - self.maxSendRequests) =
            self.sendDropped + ((status :: sends).length - self.maxSendRequests) := by
          rw [List.length_cons]
          omega
        rw [hcount]
      · have hfits : (status :: sends).length ≤ self.maxSendRequests := by
          rw [List.length_cons]
          omega
        rw [newest_eq_self hfits, ← h, Nat.sub_eq_zero_of_le hfits]
        rfl

/-- The loop over the messages leaves the newest ones. -/
theorem evictReceived_eq (self : MessagingEventCache Message)
    (received : List (ReceivedMessageRecord Message)) :
    self.evictReceived received =
      { self with
        received := newest self.maxReceived received
        receivedDropped := self.receivedDropped + (received.length - self.maxReceived) } := by
  induction received generalizing self with
  | nil => simp [evictReceived, newest]
  | cons record received ih =>
      rw [evictReceived]
      split_ifs with hfull
      · rw [ih, newest_cons hfull]
        have hcount : self.receivedDropped + 1 + (received.length - self.maxReceived) =
            self.receivedDropped + ((record :: received).length - self.maxReceived) := by
          rw [List.length_cons]
          omega
        rw [hcount]
      · have hfits : (record :: received).length ≤ self.maxReceived := by
          rw [List.length_cons]
          omega
        rw [newest_eq_self hfits, Nat.sub_eq_zero_of_le hfits]
        rfl

theorem map_requestId_change (f : SendStatus → SendStatus) (hf : ∀ s, (f s).requestId = s.requestId)
    (requestId : String) (sends : List SendStatus) :
    (sends.map fun s => if s.requestId = requestId then f s else s).map SendStatus.requestId =
      sends.map SendStatus.requestId := by
  rw [List.map_map]
  refine List.map_congr_left fun s _ => ?_
  by_cases h : s.requestId = requestId
  · rw [Function.comp_apply, if_pos h, hf]
  · rw [Function.comp_apply, if_neg h]

/-- Where there is no status of an id, none is changed. -/
theorem map_change_of_notMem (f : SendStatus → SendStatus) {requestId : String} {sends : List SendStatus}
    (h : requestId ∉ sends.map SendStatus.requestId) :
    (sends.map fun s => if s.requestId = requestId then f s else s) = sends := by
  refine (List.map_congr_left fun s hs => ?_).trans (List.map_id sends)
  exact if_neg fun heq => h (List.mem_map.mpr ⟨s, hs, heq⟩)

/-- A status gets the event where the table has it. -/
theorem addToStatus_lookup (self : MessagingEventCache Message) (sends : List SendStatus) (requestId : String)
    (record : SendEventRecord) (h : self.sendByReqId = lookup sends)
    (horder : self.sendOrder = sends.map SendStatus.requestId) :
    self.addToStatus requestId record =
      { self with
        sendByReqId := lookup (sends.map fun status =>
          if status.requestId = requestId then { status with events := status.events ++ [record] }
          else status)
        sendOrder := (sends.map fun status =>
          if status.requestId = requestId then { status with events := status.events ++ [record] }
          else status).map SendStatus.requestId } := by
  have hids := map_requestId_change
    (fun status => { status with events := status.events ++ [record] }) (fun _ => rfl) requestId sends
  rw [hids, ← horder, addToStatus]
  cases hfound : self.sendByReqId requestId with
  | none =>
      rw [h] at hfound
      rw [map_change_of_notMem _ (lookup_eq_none.mp hfound), ← h]
  | some status =>
      rw [h] at hfound
      rw [h, ← update_lookup_map (fun status => { status with events := status.events ++ [record] })
        (fun _ => rfl) hfound]

/-- An id has one status, and the statuses fit. -/
structure Buffered.Sound (b : Buffered Message) (maxSendRequests : ℕ) : Prop where
  distinct : (b.sends.map SendStatus.requestId).Nodup
  fits : b.sends.length ≤ maxSendRequests

theorem keepSends_capped (b : Buffered Message) (sends : List SendStatus) :
    b.keepSends (capped maxReceived maxSendRequests) sends =
      { b with sends := newest maxSendRequests sends,
               sendDropped := b.sendDropped + (sends.length - maxSendRequests) } := by
  rw [← length_newest]
  rfl

theorem keepReceived_capped (b : Buffered Message) (received : List (ReceivedMessageRecord Message)) :
    b.keepReceived (capped maxReceived maxSendRequests) received =
      { b with received := newest maxReceived received,
               receivedDropped := b.receivedDropped + (received.length - maxReceived) } := by
  rw [← length_newest]
  rfl

theorem recordSend_cache (hb : b.Sound maxSendRequests) (requestId : String) (record : SendEventRecord) :
    (b.cache maxReceived maxSendRequests).recordSend requestId record =
      (b.keepSends (capped maxReceived maxSendRequests)
        (Buffered.addEvent requestId record b.sends)).cache maxReceived maxSendRequests := by
  unfold recordSend
  by_cases hmem : requestId ∈ b.sends.map SendStatus.requestId
  · have hfound : ¬ ((b.cache maxReceived maxSendRequests).sendByReqId requestId).isNone = true := by
      rw [Option.isNone_iff_eq_none]
      exact fun hnone => lookup_eq_none.mp hnone hmem
    have hfits : (b.sends.map fun status =>
        if status.requestId = requestId then { status with events := status.events ++ [record] }
        else status).length ≤ maxSendRequests := by
      rw [List.length_map]
      exact hb.fits
    rw [if_neg hfound, addToStatus_lookup _ b.sends requestId record rfl rfl, Buffered.addEvent, if_pos hmem,
      keepSends_capped, newest_eq_self hfits, Nat.sub_eq_zero_of_le hfits]
    rfl
  · have hnone : ((b.cache maxReceived maxSendRequests).sendByReqId requestId).isNone = true := by
      rw [Option.isNone_iff_eq_none]
      exact lookup_eq_none.mpr hmem
    have hids : b.sends.map SendStatus.requestId ++ [requestId] =
        (b.sends ++ [(⟨requestId, []⟩ : SendStatus)]).map SendStatus.requestId := by
      rw [List.map_append]
      rfl
    have hnodup : ((b.sends ++ [(⟨requestId, []⟩ : SendStatus)]).map SendStatus.requestId).Nodup :=
      nodup_append ⟨requestId, []⟩ hb.distinct hmem
    -- what the loop leaves gets the event, so it is what is left of the list with the event
    have hadded : ((b.sends ++ [(⟨requestId, []⟩ : SendStatus)]).map fun status : SendStatus =>
        if status.requestId = requestId then { status with events := status.events ++ [record] }
        else status) = b.sends ++ [(⟨requestId, [record]⟩ : SendStatus)] := by
      rw [List.map_append,
        map_change_of_notMem (fun status => { status with events := status.events ++ [record] }) hmem]
      simp
    have htable : Function.update (lookup b.sends) requestId (some ⟨requestId, []⟩) =
        lookup (b.sends ++ [(⟨requestId, []⟩ : SendStatus)]) := update_lookup_append ⟨requestId, []⟩ hmem
    rw [if_pos hnone]
    have hloop := evictSends_lookup { b.cache maxReceived maxSendRequests with
      sendByReqId := Function.update (b.cache maxReceived maxSendRequests).sendByReqId requestId
        (some ⟨requestId, []⟩) } (b.sends ++ [(⟨requestId, []⟩ : SendStatus)]) hnodup
      htable
    rw [← hids] at hloop
    refine (congrArg (fun c => addToStatus c requestId record) hloop).trans ?_
    rw [addToStatus_lookup _ (newest maxSendRequests (b.sends ++ [(⟨requestId, []⟩ : SendStatus)])) requestId record rfl rfl,
      ← newest_map, hadded, Buffered.addEvent, if_neg hmem, keepSends_capped]
    simp [Buffered.cache]

theorem recordReceived_cache (messageHash : String) (message : Message) (source : MessageSource) :
    (b.cache maxReceived maxSendRequests).recordReceived messageHash message source =
      (b.step (capped maxReceived maxSendRequests)
        (.recordReceived messageHash message source)).1.cache maxReceived maxSendRequests := by
  rw [recordReceived, evictReceived_eq, Buffered.step, keepReceived_capped]
  rfl

theorem pollSend_cache (requestId : String) :
    (b.cache maxReceived maxSendRequests).pollSend requestId =
      ((b.step (capped maxReceived maxSendRequests) (.pollSend requestId)).1.cache maxReceived
        maxSendRequests, lookup b.sends requestId) := by
  have horder : (b.sends.filter fun status => status.requestId != requestId).map SendStatus.requestId =
      (b.sends.map SendStatus.requestId).filter (fun reqId => reqId != requestId) := by
    rw [List.filter_map]
    rfl
  have htable := update_lookup_filter b.sends requestId
  rw [pollSend, Buffered.step]
  have hsame : (b.cache maxReceived maxSendRequests).sendByReqId requestId = lookup b.sends requestId := rfl
  rw [hsame]
  unfold Buffered.cache
  cases hfound : lookup b.sends requestId with
  | none =>
      have hkeep : (b.sends.filter fun status => status.requestId != requestId) = b.sends := by
        rw [List.filter_eq_self]
        intro status hstatus
        rw [bne_iff_ne]
        exact fun heq => lookup_eq_none.mp hfound (List.mem_map.mpr ⟨status, hstatus, heq⟩)
      dsimp only
      rw [hkeep]
  | some status =>
      dsimp only
      rw [horder, ← htable]

/-- Every call does to the cache what it does to the list, and answers the same. -/
theorem step_cache (hb : b.Sound maxSendRequests) (call : EventCall Message) :
    (b.cache maxReceived maxSendRequests).step call =
      ((b.step (capped maxReceived maxSendRequests) call).1.cache maxReceived maxSendRequests,
        (b.step (capped maxReceived maxSendRequests) call).2) := by
  cases call with
  | recordSend requestId record =>
      exact congrArg (fun c => (c, Polled.nothing)) (recordSend_cache hb requestId record)
  | recordReceived messageHash message source =>
      exact congrArg (fun c => (c, Polled.nothing)) (recordReceived_cache messageHash message source)
  | pollAllSend =>
      have hall : (b.sends.map SendStatus.requestId).filterMap (lookup b.sends) = b.sends :=
        filterMap_lookup hb.distinct
      exact congrArg (fun sends => ((b.cache maxReceived maxSendRequests).pollAllSend.1, Polled.sends sends))
        hall
  | pollSend requestId =>
      rw [MessagingEventCache.step, pollSend_cache]
      rfl
  | pollReceived => rfl
  | clear => rfl

end Simulation

/-! ### Runs -/

section Runs

variable {b : Buffered Message} {maxReceived maxSendRequests : ℕ}

theorem addEvent_distinct (h : (b.sends.map SendStatus.requestId).Nodup) (requestId : String)
    (record : SendEventRecord) :
    ((Buffered.addEvent requestId record b.sends).map SendStatus.requestId).Nodup := by
  unfold Buffered.addEvent
  split_ifs with hmem
  · rw [map_requestId_change (fun status => { status with events := status.events ++ [record] })
      (fun _ => rfl)]
    exact h
  · exact nodup_append ⟨requestId, [record]⟩ h hmem

theorem Buffered.Sound.step (maxReceived : ℕ) (hb : b.Sound maxSendRequests) (call : EventCall Message) :
    (b.step (capped maxReceived maxSendRequests) call).1.Sound maxSendRequests := by
  cases call with
  | recordSend requestId record =>
      rw [Buffered.step, keepSends_capped]
      refine ⟨?_, ?_⟩
      · exact (addEvent_distinct hb.distinct requestId record).sublist
          ((newest_suffix _ _).sublist.map SendStatus.requestId)
      · dsimp only
        rw [newest, List.length_drop]
        omega
  | recordReceived messageHash message source => exact ⟨hb.distinct, hb.fits⟩
  | pollAllSend => exact ⟨List.nodup_nil, Nat.zero_le _⟩
  | pollSend requestId =>
      have hsublist : (b.sends.filter fun status => status.requestId != requestId).Sublist b.sends :=
        List.filter_sublist
      exact ⟨hb.distinct.sublist (hsublist.map SendStatus.requestId),
        Nat.le_trans hsublist.length_le hb.fits⟩
  | pollReceived => exact ⟨hb.distinct, hb.fits⟩
  | clear => exact ⟨List.nodup_nil, Nat.zero_le _⟩

theorem Buffered.Sound.run (maxReceived : ℕ) (hb : b.Sound maxSendRequests)
    (calls : List (EventCall Message)) :
    (b.run (capped maxReceived maxSendRequests) calls).1.Sound maxSendRequests := by
  induction calls generalizing b with
  | nil => exact hb
  | cons call calls ih => exact ih (hb.step maxReceived call)

theorem run_cache (maxReceived : ℕ) (hb : b.Sound maxSendRequests) (calls : List (EventCall Message)) :
    (b.cache maxReceived maxSendRequests).run calls =
      ((b.run (capped maxReceived maxSendRequests) calls).1.cache maxReceived maxSendRequests,
        (b.run (capped maxReceived maxSendRequests) calls).2) := by
  induction calls generalizing b with
  | nil => rfl
  | cons call calls ih =>
      have hrest := ih (hb.step maxReceived call)
      rw [MessagingEventCache.run, step_cache hb, Buffered.run]
      dsimp only
      rw [hrest]

/-- Nothing is evicted. -/
def keepAll : Keeping Message := ⟨id, id⟩

/-- Along the run, what is kept never gets longer than the caps. -/
def Buffered.FitsAlong (maxReceived maxSendRequests : ℕ) (b : Buffered Message) :
    List (EventCall Message) → Prop
  | [] => True
  | call :: calls =>
      ((b.step keepAll call).1.sends.length ≤ maxSendRequests ∧
        (b.step keepAll call).1.received.length ≤ maxReceived) ∧
      (b.step keepAll call).1.FitsAlong maxReceived maxSendRequests calls

theorem step_of_fits {call : EventCall Message}
    (hsends : (b.step keepAll call).1.sends.length ≤ maxSendRequests)
    (hreceived : (b.step keepAll call).1.received.length ≤ maxReceived) :
    b.step (capped maxReceived maxSendRequests) call = b.step keepAll call := by
  cases call with
  | recordSend requestId record =>
      have hkept : newest maxSendRequests (Buffered.addEvent requestId record b.sends) =
          Buffered.addEvent requestId record b.sends := newest_eq_self hsends
      simp only [Buffered.step, Buffered.keepSends, capped, keepAll, id, hkept]
  | recordReceived messageHash message source =>
      have hkept := newest_eq_self hreceived
      simp only [Buffered.step, Buffered.keepReceived, keepAll, id] at hkept
      simp only [Buffered.step, Buffered.keepReceived, capped, keepAll, id, hkept]
  | pollAllSend => rfl
  | pollSend requestId => rfl
  | pollReceived => rfl
  | clear => rfl

theorem run_of_fits (calls : List (EventCall Message))
    (h : b.FitsAlong maxReceived maxSendRequests calls) :
    b.run (capped maxReceived maxSendRequests) calls = b.run keepAll calls := by
  induction calls generalizing b with
  | nil => rfl
  | cons call calls ih =>
      obtain ⟨⟨hsends, hreceived⟩, hrest⟩ := h
      rw [Buffered.run, Buffered.run, step_of_fits hsends hreceived, ih hrest]

def EventCall.isReceived : EventCall Message → Bool
  | .recordReceived _ _ _ => true
  | _ => false

/-- The numbers of the first `n` messages that arrive. -/
def numbers (n : ℕ) : List ℕ := (List.range n).map fun i => (i + 1) % 2 ^ 64

/-- The messages that are kept are the last of `n`. -/
structure Numbered (n : ℕ) (b : Buffered Message) : Prop where
  next : b.nextReceivedSeq = n % 2 ^ 64
  received : b.received.map ReceivedMessageRecord.seq <:+ numbers n

theorem numbers_succ (n : ℕ) : numbers (n + 1) = numbers n ++ [(n + 1) % 2 ^ 64] := by
  rw [numbers, numbers, List.range_succ, List.map_append]
  rfl

theorem Numbered.step (maxReceived maxSendRequests : ℕ) {n : ℕ} (h : Numbered n b) (call : EventCall Message) :
    Numbered (n + if call.isReceived then 1 else 0) (b.step (capped maxReceived maxSendRequests) call).1 := by
  cases call with
  | recordSend requestId record => exact ⟨h.next, h.received⟩
  | recordReceived messageHash message source =>
      have hseq : (b.nextReceivedSeq + 1) % 2 ^ 64 = (n + 1) % 2 ^ 64 := by
        rw [h.next, Nat.mod_add_mod]
      rw [Buffered.step, keepReceived_capped]
      refine ⟨hseq, ?_⟩
      dsimp only
      obtain ⟨before, hbefore⟩ := h.received
      refine ((newest_suffix _ _).map ReceivedMessageRecord.seq).trans ⟨before, ?_⟩
      rw [List.map_append, ← List.append_assoc, hbefore, hseq]
      exact (numbers_succ n).symm
  | pollAllSend => exact ⟨h.next, h.received⟩
  | pollSend requestId => exact ⟨h.next, h.received⟩
  | pollReceived => exact ⟨h.next, List.nil_suffix⟩
  | clear => exact ⟨h.next, List.nil_suffix⟩

theorem Numbered.run (maxReceived maxSendRequests : ℕ) {n : ℕ} (h : Numbered n b) (calls : List (EventCall Message)) :
    Numbered (n + calls.countP EventCall.isReceived)
      (b.run (capped maxReceived maxSendRequests) calls).1 := by
  induction calls generalizing n b with
  | nil => exact h
  | cons call calls ih =>
      have hrest := ih (h.step maxReceived maxSendRequests call)
      rw [Nat.add_assoc, Nat.add_comm (if call.isReceived = true then 1 else 0),
        ← List.countP_cons] at hrest
      exact hrest

end Runs

/-- **Every poll answers from one bounded list.**  Over any run of calls, the table with its queue and
the queue of messages answer as the list of statuses, of which an id has one and no more than the
configured number are kept, and the list of the newest messages.  As long as neither list would outgrow
its cap, each poll answers with everything since the last poll or clear.  The messages that are kept
always have the last numbers given out, so to one polling client a gap in the numbers is what was
evicted or cleared. -/
theorem eventCache_exact (maxReceived maxSendRequests : ℕ) (calls : List (EventCall Message)) :
    (MessagingEventCache.new maxReceived maxSendRequests).run calls =
      ((Buffered.empty.run (capped maxReceived maxSendRequests) calls).1.cache maxReceived
          maxSendRequests,
        (Buffered.empty.run (capped maxReceived maxSendRequests) calls).2) ∧
    (Buffered.empty.run (capped maxReceived maxSendRequests) calls).1.Sound maxSendRequests ∧
    (Buffered.empty.FitsAlong maxReceived maxSendRequests calls →
      ((MessagingEventCache.new maxReceived maxSendRequests).run calls).2 =
        (Buffered.empty.run keepAll calls).2) ∧
    ((MessagingEventCache.new maxReceived maxSendRequests).run calls).1.received.map
        ReceivedMessageRecord.seq <:+ numbers (calls.countP EventCall.isReceived) := by
  have hnew : MessagingEventCache.new maxReceived maxSendRequests =
      (Buffered.empty : Buffered Message).cache maxReceived maxSendRequests := rfl
  have hsound : (Buffered.empty : Buffered Message).Sound maxSendRequests :=
    ⟨List.nodup_nil, Nat.zero_le _⟩
  have hrun := run_cache maxReceived hsound calls
  have hstart : Numbered 0 (Buffered.empty : Buffered Message) := ⟨rfl, List.nil_suffix⟩
  rw [hnew, hrun]
  refine ⟨rfl, hsound.run maxReceived calls, fun hfits => ?_, ?_⟩
  · rw [run_of_fits calls hfits]
  · have hnumbered := hstart.run maxReceived maxSendRequests calls
    rw [Nat.zero_add] at hnumbered
    exact hnumbered.received

end LogosDelivery.Rest
