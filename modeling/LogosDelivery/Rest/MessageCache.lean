import LogosDelivery.Archive.Ingress
import LogosDelivery.Rest.TopicIndex

/-! # The message cache of the REST server

`src/rest/message_cache.nim`.  The cache keeps messages with the topics they came in on, in three
sequences that refer to each other by place.  Here `entries` says what it keeps without places: each
message with the pubsub topic and the content topic it is still wanted on.  Deleting a message from
the cache is `swapDel` on its entries (`entries_removeMessage`), and with that every loop of the
cache is a loop on its entries.

`none` is an `IndexDefect`. -/

namespace LogosDelivery.Rest

open Lib
open Archive (IncomingMessage Timestamp)
open StoreSync (PubsubTopic ContentTopic)

deriving instance DecidableEq for Archive.IncomingMessage

structure MessageCache where
  pubsub : TopicIndex
  content : TopicIndex
  messages : List IncomingMessage
  capacity : ℤ
deriving DecidableEq

def DefaultMessageCacheCapacity : ℤ := 50

/-- `int64.high`. -/
def int64High : Timestamp := 2 ^ 63 - 1

namespace MessageCache

variable {c c' : MessageCache} {topic : String} {idx k m : ℕ}

def init (capacity : ℤ) : MessageCache := ⟨⟨[], []⟩, ⟨[], []⟩, [], capacity⟩

def pubsubSubscribe (c : MessageCache) (pubsubTopic : PubsubTopic) : MessageCache :=
  { c with pubsub := c.pubsub.subscribe pubsubTopic }

def contentSubscribe (c : MessageCache) (contentTopic : ContentTopic) : MessageCache :=
  { c with content := c.content.subscribe contentTopic }

def removeMessage (c : MessageCache) (idx : ℕ) : Option MessageCache :=
  (del c.messages idx).map fun messages =>
    { c with
      messages := messages
      pubsub := c.pubsub.removeMessage idx (c.messages.length - 1)
      content := c.content.removeMessage idx (c.messages.length - 1) }

/-- `sorted(SortOrder.Descending)`. -/
def descending (msgIndices : List ℕ) : List ℕ := msgIndices.insertionSort (· ≥ ·)

/-- The messages that the other index does not have are removed. -/
def removeUnlessIn (other : MessageCache → TopicIndex) (c : MessageCache) (msgIndices : List ℕ) :
    Option MessageCache :=
  (descending msgIndices).foldlM
    (fun c mId => if (other c).indexes mId then some c else c.removeMessage mId) c

def pubsubUnsubscribe (c : MessageCache) (pubsubTopic : PubsubTopic) : Option MessageCache :=
  match c.pubsub.search pubsubTopic with
  | none => some c
  | some pubsubIdx =>
      let (pubsub, msgIndices) := c.pubsub.unsubscribe pubsubIdx
      removeUnlessIn content { c with pubsub := pubsub } msgIndices

def contentUnsubscribe (c : MessageCache) (contentTopic : ContentTopic) : Option MessageCache :=
  match c.content.search contentTopic with
  | none => some c
  | some contentIdx =>
      let (content, msgIndices) := c.content.unsubscribe contentIdx
      removeUnlessIn pubsub { c with content := content } msgIndices

def reset (c : MessageCache) : MessageCache :=
  { c with messages := [], pubsub := ⟨[], []⟩, content := ⟨[], []⟩ }

/-- The loop over the reversed messages, from `oldestTime` and `oldestMsg` on. -/
def oldestFrom : List (IncomingMessage × ℕ) → Timestamp → Option ℕ → Option ℕ
  | [], _, oldestMsg => oldestMsg
  | (message, i) :: rest, oldestTime, oldestMsg =>
      if message.timestamp < oldestTime then oldestFrom rest message.timestamp (some i)
      else oldestFrom rest oldestTime oldestMsg

/-- The message that makes space.  Where no timestamp is below `int64.high` the index is that of no
message. -/
def oldest (messages : List IncomingMessage) : Option ℕ :=
  oldestFrom messages.zipIdx.reverse int64High none

/-- The oldest message makes space in a full cache. -/
def makeSpace (c : MessageCache) : Option MessageCache :=
  if c.capacity ≤ c.messages.length then (oldest c.messages).bind c.removeMessage else some c

def append (c : MessageCache) (pubsubIdx contentIdx : ℕ) (msg : IncomingMessage) : MessageCache :=
  let msgIdx := c.messages.length
  { c with
    messages := c.messages ++ [msg]
    pubsub := c.pubsub.link pubsubIdx msgIdx
    content := c.content.link contentIdx msgIdx }

/-- The part of `addMessage` behind the two returns. -/
def insert (c : MessageCache) (pubsubTopic : PubsubTopic) (msg : IncomingMessage) :
    Option MessageCache :=
  let (pubsub, pubsubIdx) := c.pubsub.place pubsubTopic
  let (content, contentIdx) := c.content.place msg.contentTopic
  (makeSpace { c with pubsub := pubsub, content := content }).map fun c =>
    c.append pubsubIdx contentIdx msg

def addMessage (c : MessageCache) (pubsubTopic : PubsubTopic) (msg : IncomingMessage) :
    Option MessageCache :=
  if msg ∈ c.messages then some c
  else if (c.pubsub.search pubsubTopic).isNone && (c.content.search msg.contentTopic).isNone then
    some c
  else c.insert pubsubTopic msg

/-- `msgIndices.mapIt(self.messages[it])`. -/
def messagesAt (c : MessageCache) (msgIndices : List ℕ) : Option (List IncomingMessage) :=
  msgIndices.mapM (fun mId => c.messages[mId]?)

def removeAll (c : MessageCache) (msgIndices : List ℕ) : Option MessageCache :=
  msgIndices.foldlM removeMessage c

/-- A call's answer: `ok` or `err` of a `Result`, and `ok` of nothing for a call without one. -/
abbrev Answer := Except String (List IncomingMessage)

/-- The messages are read and, with `clear`, removed in the order `removal`. -/
def fetch (c : MessageCache) (msgIndices removal : List ℕ) (clear : Bool) :
    Option (MessageCache × Answer) :=
  (c.messagesAt msgIndices).bind fun messages =>
    (if clear then c.removeAll removal else some c).map fun c => (c, .ok messages)

def getMessages (c : MessageCache) (pubsubTopic : PubsubTopic) (clear : Bool) :
    Option (MessageCache × Answer) :=
  if c.pubsub.topics.length = 0 then some (c, .error "not subscribed to any pubsub topics")
  else
    match c.pubsub.search pubsubTopic with
    | none => some (c, .error "not subscribed to this pubsub topic")
    | some pubsubIdx =>
        let msgIndices := c.pubsub.messagesOn pubsubIdx
        c.fetch msgIndices msgIndices.reverse clear

def getAutoMessages (c : MessageCache) (contentTopic : ContentTopic) (clear : Bool) :
    Option (MessageCache × Answer) :=
  if c.content.topics.length = 0 then some (c, .error "not subscribed to any content topics")
  else
    match c.content.search contentTopic with
    | none => some (c, .error "not subscribed to this content topic")
    | some contentIdx =>
        let msgIndices := c.content.messagesOn contentIdx
        c.fetch msgIndices (descending msgIndices) clear

/-! ### What the cache keeps -/

/-- A message, with the topics that link it. -/
structure Entry where
  msg : IncomingMessage
  pubsub : Option PubsubTopic
  content : Option ContentTopic
deriving DecidableEq

def entries (c : MessageCache) : List Entry :=
  c.messages.mapIdx fun i msg => ⟨msg, c.pubsub.topicOf i, c.content.topicOf i⟩

structure WellFormed (c : MessageCache) : Prop where
  pubsub : c.pubsub.WellFormed c.messages.length
  content : c.content.WellFormed c.messages.length

@[simp] theorem length_entries (c : MessageCache) : c.entries.length = c.messages.length :=
  List.length_mapIdx

theorem getElem?_entries (c : MessageCache) (i : ℕ) : c.entries[i]? =
    c.messages[i]?.map fun msg => ⟨msg, c.pubsub.topicOf i, c.content.topicOf i⟩ :=
  List.getElem?_mapIdx

theorem map_msg_entries (c : MessageCache) : c.entries.map Entry.msg = c.messages := by
  refine List.ext_getElem? fun i => ?_
  rw [List.getElem?_map, getElem?_entries, Option.map_map]
  exact Option.map_id_fun' ▸ rfl

/-- What is left of a cache without a message. -/
def removed (c : MessageCache) (idx : ℕ) : MessageCache :=
  { c with
    messages := swapDel c.messages idx
    pubsub := c.pubsub.removeMessage idx (c.messages.length - 1)
    content := c.content.removeMessage idx (c.messages.length - 1) }

theorem removeMessage_eq (c : MessageCache) (idx : ℕ) :
    c.removeMessage idx = if idx < c.messages.length then some (c.removed idx) else none := by
  unfold removeMessage del
  split <;> rfl

theorem WellFormed.removed (h : c.WellFormed) (hidx : idx < c.messages.length) :
    (c.removed idx).WellFormed := by
  have hlen : (c.removed idx).messages.length = c.messages.length - 1 := length_swapDel _ _
  refine ⟨?_, ?_⟩ <;> rw [hlen]
  · exact h.pubsub.removeMessage hidx
  · exact h.content.removeMessage hidx

theorem entries_removed (h : c.WellFormed) (hidx : idx < c.messages.length) :
    (c.removed idx).entries = swapDel c.entries idx := by
  refine List.ext_getElem? fun i => ?_
  rw [getElem?_entries, getElem?_swapDel ((length_entries c).symm ▸ hidx), length_entries]
  unfold MessageCache.removed
  dsimp only
  rw [getElem?_swapDel hidx]
  by_cases hi : i < c.messages.length - 1
  · rw [if_pos hi, if_pos hi, getElem?_entries, TopicIndex.topicOf_removeMessage h.pubsub hidx hi,
      TopicIndex.topicOf_removeMessage h.content hidx hi]
  · rw [if_neg hi, if_neg hi]
    rfl

/-- Removing a message from the cache is deleting its entry. -/
theorem entries_removeMessage (h : c.WellFormed) :
    (c.removeMessage idx).map entries = del c.entries idx := by
  rw [removeMessage_eq, del, length_entries]
  by_cases hidx : idx < c.messages.length
  · rw [if_pos hidx, if_pos hidx, Option.map_some, entries_removed h hidx]
  · rw [if_neg hidx, if_neg hidx, Option.map_none]

/-! ### The loops -/

/-- The loops change neither the topics nor the capacity. -/
def SameTopics (c c' : MessageCache) : Prop :=
  c'.pubsub.topics = c.pubsub.topics ∧ c'.content.topics = c.content.topics ∧
    c'.capacity = c.capacity

theorem SameTopics.refl (c : MessageCache) : c.SameTopics c := ⟨rfl, rfl, rfl⟩

theorem keeps_removeMessage {start : MessageCache} (h : c.WellFormed ∧ start.SameTopics c)
    (hstep : c.removeMessage idx = some c') : c'.WellFormed ∧ start.SameTopics c' := by
  rw [removeMessage_eq] at hstep
  split at hstep
  · rename_i hidx
    cases hstep
    exact ⟨h.1.removed hidx, h.2⟩
  · cases hstep

theorem removeAll_spec (h : c.WellFormed) (msgIndices : List ℕ) :
    (c.removeAll msgIndices).map entries = delAll c.entries msgIndices ∧
      ∀ c', c.removeAll msgIndices = some c' → c'.WellFormed ∧ c.SameTopics c' :=
  map_foldlM entries (fun c' => c'.WellFormed ∧ c.SameTopics c')
    (fun _ _ hs => entries_removeMessage hs.1) (fun _ _ _ hs hstep => keeps_removeMessage hs hstep)
    msgIndices c ⟨h, SameTopics.refl c⟩

/-- The loop of an unsubscription, where `test` is what the other index says about an entry. -/
theorem removeUnlessIn_spec {other : MessageCache → TopicIndex} {test : Entry → Bool}
    (htest : ∀ c m, WellFormed c → (other c).indexes m = c.entries[m]?.any test) (h : c.WellFormed)
    (msgIndices : List ℕ) :
    (removeUnlessIn other c msgIndices).map entries =
        delUnless test c.entries (descending msgIndices) ∧
      ∀ c', removeUnlessIn other c msgIndices = some c' → c'.WellFormed ∧ c.SameTopics c' := by
  refine map_foldlM entries (fun c' => c'.WellFormed ∧ c.SameTopics c') (fun c' m hs => ?_)
    (fun c' m c'' hs hstep => ?_) (descending msgIndices) c ⟨h, SameTopics.refl c⟩
  · rw [htest c' m hs.1]
    split
    · rfl
    · exact entries_removeMessage hs.1
  · split at hstep
    · cases hstep
      exact hs
    · exact keeps_removeMessage hs hstep

theorem descending_perm (msgIndices : List ℕ) : (descending msgIndices).Perm msgIndices :=
  List.perm_insertionSort (· ≥ ·) msgIndices

theorem pairwise_descending {msgIndices : List ℕ} (hnodup : msgIndices.Nodup) :
    (descending msgIndices).Pairwise (· > ·) := by
  have hge : (descending msgIndices).Pairwise (· ≥ ·) := List.pairwise_insertionSort _ msgIndices
  have hne : (descending msgIndices).Pairwise (· ≠ ·) :=
    (descending_perm msgIndices).nodup_iff.mpr hnodup
  exact (hge.and hne).imp fun ⟨hle, hab⟩ => lt_of_le_of_ne hle hab.symm

theorem indexes_pubsub (h : c.WellFormed) :
    c.pubsub.indexes m = c.entries[m]?.any (fun e => e.pubsub.isSome) := by
  rw [TopicIndex.indexes_eq h.pubsub, getElem?_entries]
  cases hm : c.messages[m]? with
  | some msg => rfl
  | none =>
      rw [TopicIndex.topicOf_of_le h.pubsub (List.getElem?_eq_none_iff.mp hm)]
      rfl

theorem indexes_content (h : c.WellFormed) :
    c.content.indexes m = c.entries[m]?.any (fun e => e.content.isSome) := by
  rw [TopicIndex.indexes_eq h.content, getElem?_entries]
  cases hm : c.messages[m]? with
  | some msg => rfl
  | none =>
      rw [TopicIndex.topicOf_of_le h.content (List.getElem?_eq_none_iff.mp hm)]
      rfl

end MessageCache

end LogosDelivery.Rest
