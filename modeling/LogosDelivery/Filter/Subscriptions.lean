import LogosDelivery.Lib.Table
import LogosDelivery.Lib.Runs
import LogosDelivery.StoreSync.Common

/-! # The subscriptions of a filter server

`waku_filter_v2/subscriptions.nim` and the request handlers of `waku_filter_v2/protocol.nim`.  A
filter server keeps who subscribed to what twice: `peersSubscribed` has for each peer the time it
was last seen and the number of its criteria, `subscriptions` has for each criterion the set of
its peers.  A peer disappears from the first table by an `UNSUBSCRIBE_ALL`, by leaving the peer
store or by its age; the second table follows in the `cleanUp` at the end of the same operation.

Peer ids are any type.  The counters of the code are 64-bit unsigned numbers, here natural numbers
with the wrap written out.  One operation reads the clock once; times and durations are integers,
in nanoseconds. -/

namespace LogosDelivery.Filter

open Lib
open StoreSync (PubsubTopic ContentTopic)

/-- The sum of two `uint`s. -/
def uintAdd (a b : ℕ) : ℕ := (a + b) % 2 ^ 64

/-- The difference of two `uint`s, which wraps below zero. -/
def uintSub (a b : ℕ) : ℕ := (a + 2 ^ 64 - b % 2 ^ 64) % 2 ^ 64

/-- A single filter criterion: a pubsub topic and a content topic. -/
abbrev FilterCriterion := PubsubTopic × ContentTopic

structure PeerData where
  lastSeen : ℤ
  criteriaCount : ℕ
deriving DecidableEq

structure FilterSubscriptions (P : Type) where
  peersSubscribed : Table P PeerData
  subscriptions : Table FilterCriterion (Finset P)
  subscriptionTimeout : ℤ
  maxPeers : ℕ
  maxCriteriaPerPeer : ℕ

namespace FilterSubscriptions

/-- A server without subscriptions; the limits are `uint32` numbers. -/
def new {P : Type} (subscriptionTimeout : ℤ) (maxFilterPeers maxFilterCriteriaPerPeer : UInt32) :
    FilterSubscriptions P where
  peersSubscribed := ∅
  subscriptions := ∅
  subscriptionTimeout := subscriptionTimeout
  maxPeers := maxFilterPeers.toNat
  maxCriteriaPerPeer := maxFilterCriteriaPerPeer.toNat

variable {P : Type} [DecidableEq P]

/-- The peer has been seen within the timeout. -/
def isSubscribed (s : FilterSubscriptions P) (now : ℤ) (peerId : P) : Bool :=
  match s.peersSubscribed.lookup peerId with
  | some data => decide (now - data.lastSeen ≤ s.subscriptionTimeout)
  | none => false

/-- Remove a peer from the first table only. -/
def removePeer (s : FilterSubscriptions P) (peerId : P) : FilterSubscriptions P :=
  { s with peersSubscribed := s.peersSubscribed.erase peerId }

def removePeers (s : FilterSubscriptions P) (peerIds : List P) : FilterSubscriptions P :=
  peerIds.foldl removePeer s

/-- The first part of `cleanUp`: forget the peers that have not been seen for a while. -/
def keepRecent (s : FilterSubscriptions P) (now : ℤ) : FilterSubscriptions P :=
  { s with
    peersSubscribed := s.peersSubscribed.keepIf
      (fun _ data => decide (now - data.lastSeen ≤ s.subscriptionTimeout)) }

/-- The second part of `cleanUp`: forget the peers of the criteria that the first table does not
have, and the criteria without peers. -/
def keepListed (s : FilterSubscriptions P) (now : ℤ) : FilterSubscriptions P :=
  let subscriptions := s.subscriptions.mapValues
    (fun _ peers => peers.filter (fun peerId => s.isSubscribed now peerId = true))
  { s with subscriptions := subscriptions.keepIf (fun _ peers => decide (0 < peers.card)) }

def cleanUp (s : FilterSubscriptions P) (now : ℤ) : FilterSubscriptions P :=
  (s.keepRecent now).keepListed now

/-- The peer was seen now, if it is there. -/
def refreshSubscription (s : FilterSubscriptions P) (now : ℤ) (peerId : P) :
    FilterSubscriptions P :=
  match s.peersSubscribed.lookup peerId with
  | some data =>
      { s with peersSubscribed := s.peersSubscribed.insert peerId { data with lastSeen := now } }
  | none => s

/-- One turn of the loop of `addSubscription`, on the second table and the counter of the peer.  A
criterion that was not there is put there with an empty set, which the peer then enters. -/
def addCriterion (peerId : P) (acc : Table FilterCriterion (Finset P) × ℕ)
    (filterCriterion : FilterCriterion) : Table FilterCriterion (Finset P) × ℕ :=
  let peersOfSub := (acc.1.lookup filterCriterion).getD ∅
  if peerId ∈ peersOfSub then acc
  else (acc.1.insert filterCriterion (insert peerId peersOfSub), uintAdd acc.2 1)

/-- The loop of `addSubscription`, and the entry of the peer that it leaves. -/
def addCriteria (s : FilterSubscriptions P) (now : ℤ) (peerId : P) (criteriaCount : ℕ)
    (filterCriteria : List FilterCriterion) : FilterSubscriptions P :=
  let (subscriptions, criteriaCount) :=
    filterCriteria.foldl (addCriterion peerId) (s.subscriptions, criteriaCount)
  { s with
    peersSubscribed := s.peersSubscribed.insert peerId ⟨now, criteriaCount⟩
    subscriptions := subscriptions }

/-- Subscribe a peer to criteria, given in the order of the loop.  A peer that is there is held to
the number of its criteria, a new one to the number of peers. -/
def addSubscription (s : FilterSubscriptions P) (now : ℤ) (peerId : P)
    (filterCriteria : List FilterCriterion) : FilterSubscriptions P × Except String Unit :=
  match s.peersSubscribed.lookup peerId with
  | some data =>
      if s.maxCriteriaPerPeer < uintAdd data.criteriaCount filterCriteria.length then
        (s, .error "peer has reached maximum number of filter criteria")
      else (s.addCriteria now peerId data.criteriaCount filterCriteria, .ok ())
  | none =>
      if s.maxPeers ≤ s.peersSubscribed.len then
        (s, .error ("node has reached maximum number of subscriptions: " ++ toString s.maxPeers))
      else (s.addCriteria now peerId 0 filterCriteria, .ok ())

/-- One turn of the loop of `removeSubscription`.  A criterion that the peer does not hold is
passed over. -/
def removeCriterion (peerId : P) (acc : Table FilterCriterion (Finset P) × ℕ)
    (filterCriterion : FilterCriterion) : Table FilterCriterion (Finset P) × ℕ :=
  match acc.1.lookup filterCriterion with
  | some peers =>
      if peerId ∈ peers then
        let peers := peers.erase peerId
        (if peers.card = 0 then acc.1.erase filterCriterion else acc.1.insert filterCriterion peers,
          uintSub acc.2 1)
      else acc
  | none => acc

/-- The entry of a peer goes when its last criterion went. -/
def removeSubscription (s : FilterSubscriptions P) (now : ℤ) (peerId : P)
    (filterCriteria : List FilterCriterion) : FilterSubscriptions P × Except String Unit :=
  match s.peersSubscribed.lookup peerId with
  | some data =>
      let (subscriptions, criteriaCount) :=
        filterCriteria.foldl (removeCriterion peerId) (s.subscriptions, data.criteriaCount)
      let s := { s with
        peersSubscribed := s.peersSubscribed.insert peerId ⟨now, criteriaCount⟩
        subscriptions := subscriptions }
      (if criteriaCount = 0 then s.removePeer peerId else s, .ok ())
  | none => (s, .error "Peer has no subscriptions")

end FilterSubscriptions

/-! ### Requests -/

/-- The errors that a filter server answers with. -/
inductive FilterSubscribeError where
  | badRequest (cause : String)
  | notFound (cause : String)
  | serviceUnavailable (cause : String)
deriving DecidableEq

namespace FilterSubscribeError

/-- The number of an error kind. -/
def kind : FilterSubscribeError → ℕ
  | badRequest _ => 400
  | notFound _ => 404
  | serviceUnavailable _ => 503

/-- The text of an error. -/
def text : FilterSubscribeError → String
  | badRequest cause => "BAD_REQUEST: " ++ cause
  | notFound cause => "NOT_FOUND: " ++ cause
  | serviceUnavailable cause => "SERVICE_UNAVAILABLE: " ++ cause

/-- The default cause of a `NOT_FOUND`. -/
def noSubscriptions : FilterSubscribeError := notFound "peer has no subscriptions"

end FilterSubscribeError

abbrev FilterSubscribeResult := Except FilterSubscribeError Unit

inductive FilterSubscribeType where
  | subscriberPing
  | subscribe
  | unsubscribe
  | unsubscribeAll
deriving DecidableEq

structure FilterSubscribeRequest where
  requestId : String
  filterSubscribeType : FilterSubscribeType
  pubsubTopic : Option PubsubTopic
  contentTopics : List ContentTopic
deriving DecidableEq

structure FilterSubscribeResponse where
  requestId : String
  statusCode : ℕ
  statusDesc : Option String
deriving DecidableEq

def maxContentTopicsPerRequest : ℕ := 100

namespace WakuFilter

open FilterSubscriptions

variable {P : Type} [DecidableEq P] (order : IterationOrder FilterCriterion)

/-- The checks that `subscribe` and `unsubscribe` make, and the criteria that pass them, in the
order of the loop over the set of them. -/
def filterCriteria (pubsubTopic : Option PubsubTopic) (contentTopics : List ContentTopic) :
    Except FilterSubscribeError (List FilterCriterion) :=
  if pubsubTopic.getD "" = "" ∨ contentTopics.length = 0 then
    .error (.badRequest "pubsubTopic and contentTopics must be specified")
  else if maxContentTopicsPerRequest < contentTopics.length then
    .error (.badRequest
      ("exceeds maximum content topics: " ++ toString maxContentTopicsPerRequest))
  else .ok (order.ofSeq (contentTopics.map (fun topic => (pubsubTopic.getD "", topic))))

def pingSubscriber (s : FilterSubscriptions P) (now : ℤ) (peerId : P) :
    FilterSubscriptions P × FilterSubscribeResult :=
  if s.isSubscribed now peerId = false then (s, .error .noSubscriptions)
  else (s.refreshSubscription now peerId, .ok ())

def subscribe (s : FilterSubscriptions P) (now : ℤ) (peerId : P)
    (pubsubTopic : Option PubsubTopic) (contentTopics : List ContentTopic) :
    FilterSubscriptions P × FilterSubscribeResult :=
  match filterCriteria order pubsubTopic contentTopics with
  | .error e => (s, .error e)
  | .ok criteria =>
      let (s, added) := s.addSubscription now peerId criteria
      (s, added.mapError .serviceUnavailable)

def unsubscribe (s : FilterSubscriptions P) (now : ℤ) (peerId : P)
    (pubsubTopic : Option PubsubTopic) (contentTopics : List ContentTopic) :
    FilterSubscriptions P × FilterSubscribeResult :=
  match filterCriteria order pubsubTopic contentTopics with
  | .error e => (s, .error e)
  | .ok criteria =>
      let (s, removed) := s.removeSubscription now peerId criteria
      (s, removed.mapError (fun _ => .noSubscriptions))

def unsubscribeAll (s : FilterSubscriptions P) (now : ℤ) (peerId : P) :
    FilterSubscriptions P × FilterSubscribeResult :=
  if s.isSubscribed now peerId = false then (s, .error .noSubscriptions)
  else ((s.removePeer peerId).cleanUp now, .ok ())

/-- The subscriptions after a request, and the result of it. -/
def handleByType (s : FilterSubscriptions P) (now : ℤ) (peerId : P)
    (request : FilterSubscribeRequest) : FilterSubscriptions P × FilterSubscribeResult :=
  match request.filterSubscribeType with
  | .subscriberPing => pingSubscriber s now peerId
  | .subscribe => subscribe order s now peerId request.pubsubTopic request.contentTopics
  | .unsubscribe => unsubscribe order s now peerId request.pubsubTopic request.contentTopics
  | .unsubscribeAll => unsubscribeAll s now peerId

/-- The response to a request with the given id and result. -/
def response (requestId : String) : FilterSubscribeResult → FilterSubscribeResponse
  | .ok () => ⟨requestId, 200, some "OK"⟩
  | .error e => ⟨requestId, e.kind, some e.text⟩

def handleSubscribeRequest (s : FilterSubscriptions P) (now : ℤ) (peerId : P)
    (request : FilterSubscribeRequest) : FilterSubscriptions P × FilterSubscribeResponse :=
  let (s, result) := handleByType order s now peerId request
  (s, response request.requestId result)

/-- Forget the peers that the peer store no longer has, and the old ones. -/
def maintainSubscriptions (s : FilterSubscriptions P) (now : ℤ) (hasPeer : P → Bool) :
    FilterSubscriptions P :=
  let peersToRemove := s.peersSubscribed.keys.filter (fun peerId => !hasPeer peerId)
  (s.removePeers peersToRemove).cleanUp now

/-- What the server is asked to do: a request of a peer, or a round of maintenance, in which the
peer store has the peers of a set. -/
inductive Op (P : Type) where
  | request (now : ℤ) (peerId : P) (request : FilterSubscribeRequest)
  | maintain (now : ℤ) (hasPeer : P → Bool)

def step (s : FilterSubscriptions P) : Op P → FilterSubscriptions P
  | .request now peerId request => (handleSubscribeRequest order s now peerId request).1
  | .maintain now hasPeer => maintainSubscriptions s now hasPeer

end WakuFilter

end LogosDelivery.Filter
