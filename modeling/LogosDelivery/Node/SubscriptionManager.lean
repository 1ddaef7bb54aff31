import LogosDelivery.Lib.Table
import LogosDelivery.Lib.Runs
import LogosDelivery.StoreSync.Common

/-! # The subscriptions of a node

`node/subscription_manager.nim`: which shards and content topics the node wants, and the relay
subscriptions that follow from it.  A shard is wanted for its content topics or for a direct
subscription, and is in `shards` as long as one of the two is left; the relay is subscribed with
the first of them and unsubscribed with the last.

The mesh of the relay is the `GossipSub` of libp2p, a parameter with the behaviour that the code
relies on: a topic is there while it has a handler.  Autosharding is any function from content
topics to shards.  A node without a relay runs the same code without the relay calls; there
`edgeFilterWakeup` starts the reconciliation of its filter subscriptions. -/

namespace LogosDelivery.Node

open Lib
open StoreSync (PubsubTopic ContentTopic)

/-! ### The relay -/

/-- The topics of a libp2p `GossipSub` and their handlers, which are numbered. -/
structure GossipSub (σ : Type) where
  init : σ
  topics : σ → PubsubTopic → List ℕ
  subscribe : σ → PubsubTopic → ℕ → σ
  unsubscribe : σ → PubsubTopic → ℕ → σ
  topics_init : ∀ t, topics init t = []
  topics_subscribe : ∀ s t h t', topics (subscribe s t h) t' =
    if t' = t then topics s t ++ [h] else topics s t'
  topics_unsubscribe : ∀ s t h t', topics (unsubscribe s t h) t' =
    if t' = t then (topics s t).filter (fun h' => h' ≠ h) else topics s t'

/-- A mounted relay; `handlersMade` numbers the handlers that it wrapped. -/
structure WakuRelay (σ : Type) where
  gossip : σ
  topicValidator : Finset PubsubTopic
  topicHandlers : Table PubsubTopic ℕ
  handlersMade : ℕ

namespace WakuRelay

variable {σ : Type} (G : GossipSub σ)

def new : WakuRelay σ where
  gossip := G.init
  topicValidator := ∅
  topicHandlers := ∅
  handlersMade := 0

def isSubscribed (w : WakuRelay σ) (topic : PubsubTopic) : Bool :=
  !(G.topics w.gossip topic).isEmpty

def subscribe (w : WakuRelay σ) (pubsubTopic : PubsubTopic) : WakuRelay σ where
  gossip := G.subscribe w.gossip pubsubTopic w.handlersMade
  topicValidator := insert pubsubTopic w.topicValidator
  topicHandlers := w.topicHandlers.insert pubsubTopic w.handlersMade
  handlersMade := w.handlersMade + 1

def unsubscribe (w : WakuRelay σ) (pubsubTopic : PubsubTopic) : WakuRelay σ :=
  if pubsubTopic ∉ w.topicValidator then w
  else
    match w.topicHandlers.lookup pubsubTopic with
    | none => w
    | some topicHandler =>
        { w with
          gossip := G.unsubscribe w.gossip pubsubTopic topicHandler
          topicValidator := w.topicValidator.erase pubsubTopic
          topicHandlers := w.topicHandlers.erase pubsubTopic }

end WakuRelay

/-! ### The manager -/

inductive SubscriptionEvent where
  | shardSubscribed (topic : PubsubTopic)
  | shardUnsubscribed (topic : PubsubTopic)
  | contentTopicSubscribed (shard : PubsubTopic) (contentTopic : ContentTopic)
  | contentTopicUnsubscribed (shard : PubsubTopic) (contentTopic : ContentTopic)
deriving DecidableEq

structure ShardSubscription where
  contentTopics : Finset ContentTopic
  directShardSub : Bool
deriving DecidableEq

/-- The shard has content topics or a direct subscription. -/
def ShardSubscription.wanted (entry : ShardSubscription) : Bool :=
  decide (0 < entry.contentTopics.card) || entry.directShardSub

/-- The manager, with the relay of its node if one is mounted and the events emitted so far. -/
structure SubscriptionManager (σ : Type) where
  relay : Option (WakuRelay σ)
  shards : Table PubsubTopic ShardSubscription
  edgeFilterWakeup : Bool
  events : List SubscriptionEvent

/-- The autosharding of the node, if any, and the shards on which every content topic is listened
to as well. -/
structure ShardingConf where
  wakuAutoSharding : Option (ContentTopic → Except String PubsubTopic)
  extraListenShards : List PubsubTopic

namespace SubscriptionManager

variable {σ : Type} (G : GossipSub σ)

def new (relay : Option (WakuRelay σ)) : SubscriptionManager σ where
  relay := relay
  shards := ∅
  edgeFilterWakeup := false
  events := []

def emit (m : SubscriptionManager σ) (event : SubscriptionEvent) : SubscriptionManager σ :=
  { m with events := m.events ++ [event] }

def wakeup (m : SubscriptionManager σ) : SubscriptionManager σ := { m with edgeFilterWakeup := true }

/-- Subscribe the relay, if there is one and it is not subscribed. -/
def doRelaySubscribe (m : SubscriptionManager σ) (shard : PubsubTopic) : SubscriptionManager σ :=
  match m.relay with
  | none => m
  | some relay =>
      if relay.isSubscribed G shard then m
      else { m with relay := some (relay.subscribe G shard) }.emit (.shardSubscribed shard)

/-- Unsubscribe the relay, if there is one and it is subscribed. -/
def doRelayUnsubscribe (m : SubscriptionManager σ) (shard : PubsubTopic) : SubscriptionManager σ :=
  match m.relay with
  | none => m
  | some relay =>
      if relay.isSubscribed G shard then
        { m with relay := some (relay.unsubscribe G shard) }.emit (.shardUnsubscribed shard)
      else m

def isContentSubscribed (m : SubscriptionManager σ) (shard : PubsubTopic)
    (contentTopic : ContentTopic) : Bool :=
  match m.shards.lookup shard with
  | some sub => decide (contentTopic ∈ sub.contentTopics)
  | none => false

/-- Put an entry for the shard, and wake the edge filter loop. -/
def setEntry (m : SubscriptionManager σ) (shard : PubsubTopic) (entry : ShardSubscription) :
    SubscriptionManager σ :=
  { m with shards := m.shards.insert shard entry }.wakeup

/-- Put a reduced entry for the shard, and wake the edge filter loop; an entry that nothing wants
any more goes, and the relay subscription with it. -/
def reduceEntry (m : SubscriptionManager σ) (shard : PubsubTopic) (entry : ShardSubscription) :
    SubscriptionManager σ :=
  if entry.wanted then m.setEntry shard entry
  else { m with shards := m.shards.erase shard }.wakeup.doRelayUnsubscribe G shard

def subscribeShard (m : SubscriptionManager σ) (shard : PubsubTopic) :
    SubscriptionManager σ × Except String Unit :=
  let m :=
    match m.shards.lookup shard with
    | some entry =>
        if entry.directShardSub then m else m.setEntry shard { entry with directShardSub := true }
    | none => m.setEntry shard ⟨∅, true⟩
  (m.doRelaySubscribe G shard, .ok ())

def unsubscribeShard (m : SubscriptionManager σ) (shard : PubsubTopic) :
    SubscriptionManager σ × Except String Unit :=
  match m.shards.lookup shard with
  | some entry =>
      if entry.directShardSub then
        (m.reduceEntry G shard { entry with directShardSub := false }, .ok ())
      else (m, .ok ())
  | none => (m, .ok ())

def subscribe (m : SubscriptionManager σ) (shard : PubsubTopic) (contentTopic : ContentTopic) :
    SubscriptionManager σ × Except String Unit :=
  match m.shards.lookup shard with
  | some entry =>
      if contentTopic ∈ entry.contentTopics then (m.doRelaySubscribe G shard, .ok ())
      else
        let entry := { entry with contentTopics := insert contentTopic entry.contentTopics }
        (((m.setEntry shard entry).doRelaySubscribe G shard).emit
          (.contentTopicSubscribed shard contentTopic), .ok ())
  | none =>
      (((m.setEntry shard ⟨{contentTopic}, false⟩).doRelaySubscribe G shard).emit
        (.contentTopicSubscribed shard contentTopic), .ok ())

def unsubscribe (m : SubscriptionManager σ) (shard : PubsubTopic) (contentTopic : ContentTopic) :
    SubscriptionManager σ × Except String Unit :=
  match m.shards.lookup shard with
  | some entry =>
      if contentTopic ∈ entry.contentTopics then
        let entry := { entry with contentTopics := entry.contentTopics.erase contentTopic }
        ((m.reduceEntry G shard entry).emit (.contentTopicUnsubscribed shard contentTopic), .ok ())
      else (m, .ok ())
  | none => (m, .ok ())

/-! ### Content topics with autosharding -/

variable (conf : ShardingConf)

def getShardForContentTopic (topic : ContentTopic) : Except String PubsubTopic :=
  match conf.wakuAutoSharding with
  | some getShard => getShard topic
  | none => .error "autosharding is not configured; pass an explicit shard"

/-- The shard, and the extra listen shards other than it. -/
def topicShards (shard : PubsubTopic) : List PubsubTopic :=
  shard :: conf.extraListenShards.filter (fun listenShard => listenShard ≠ shard)

/-- The loop of a content-topic subscribe.  On a failure the subscriptions that it added are
dropped. -/
def subscribeTargets (topic : ContentTopic) :
    List PubsubTopic → List PubsubTopic → SubscriptionManager σ →
      SubscriptionManager σ × Except String Unit
  | [], _, m => (m, .ok ())
  | target :: targets, added, m =>
      let isNew := !m.isContentSubscribed target topic
      match m.subscribe G target topic with
      | (m, .error e) => (added.foldl (fun m prev => (m.unsubscribe G prev topic).1) m, .error e)
      | (m, .ok _) => subscribeTargets topic targets (if isNew then added ++ [target] else added) m

def subscribeTopic (m : SubscriptionManager σ) (topic : ContentTopic) :
    SubscriptionManager σ × Except String Unit :=
  match getShardForContentTopic conf topic with
  | .error e => (m, .error e)
  | .ok shard => m.subscribeTargets G topic (topicShards conf shard) []

/-- The loop of a content-topic unsubscribe, with the first error so far. -/
def unsubscribeTargets (topic : ContentTopic) :
    List PubsubTopic → Except String Unit → SubscriptionManager σ →
      SubscriptionManager σ × Except String Unit
  | [], firstError, m => (m, firstError)
  | target :: targets, firstError, m =>
      match m.unsubscribe G target topic, firstError with
      | (m, .error e), .ok _ => unsubscribeTargets topic targets (.error e) m
      | (m, _), firstError => unsubscribeTargets topic targets firstError m

def unsubscribeTopic (m : SubscriptionManager σ) (topic : ContentTopic) :
    SubscriptionManager σ × Except String Unit :=
  match getShardForContentTopic conf topic with
  | .error e => (m, .error e)
  | .ok shard => m.unsubscribeTargets G topic (topicShards conf shard) (.ok ())

/-! ### Whole shards -/

variable (order : IterationOrder ContentTopic)

/-- The loop of `unsubscribeAll`. -/
def unsubscribeSnapshot (shard : PubsubTopic) :
    List ContentTopic → SubscriptionManager σ → SubscriptionManager σ × Except String Unit
  | [], m => m.unsubscribeShard G shard
  | contentTopic :: snapshot, m =>
      match m.unsubscribe G shard contentTopic with
      | (m, .error e) => (m, .error e)
      | (m, .ok _) => unsubscribeSnapshot shard snapshot m

def unsubscribeAll (m : SubscriptionManager σ) (shard : PubsubTopic) :
    SubscriptionManager σ × Except String Unit :=
  match m.shards.lookup shard with
  | some sub => m.unsubscribeSnapshot G shard (order.visit (sub.contentTopics.sort (· ≤ ·)))
  | none => m.unsubscribeSnapshot G shard []

def sortedTopics (topics : Finset ContentTopic) : List ContentTopic := topics.sort (· ≤ ·)

/-- The pubsub topic of a shard of a cluster. -/
def relayShard (clusterId shardId : UInt16) : PubsubTopic :=
  "/waku/2/rs/" ++ toString clusterId.toNat ++ "/" ++ toString shardId.toNat

/-- The loop of `subscribeConfiguredShards`. -/
def subscribeShards (clusterId : UInt16) :
    List UInt16 → SubscriptionManager σ → SubscriptionManager σ × Except String Unit
  | [], m => (m, .ok ())
  | shardId :: shards, m =>
      let shard := relayShard clusterId shardId
      match m.subscribeShard G shard with
      | (m, .error e) =>
          (m, .error ("could not subscribe relay to configured shard: " ++ shard ++ ": " ++ e))
      | (m, .ok _) => subscribeShards clusterId shards m

def subscribeConfiguredShards (m : SubscriptionManager σ) (clusterId : UInt16)
    (shards : List UInt16) : SubscriptionManager σ × Except String Unit :=
  if m.relay.isNone then (m, .ok ()) else m.subscribeShards G clusterId shards

/-! ### Operations -/

/-- What the manager is asked to do. -/
inductive Op where
  | subscribeShard (shard : PubsubTopic)
  | unsubscribeShard (shard : PubsubTopic)
  | subscribe (shard : PubsubTopic) (contentTopic : ContentTopic)
  | unsubscribe (shard : PubsubTopic) (contentTopic : ContentTopic)
  | subscribeTopic (topic : ContentTopic)
  | unsubscribeTopic (topic : ContentTopic)
  | unsubscribeAll (shard : PubsubTopic)
  | subscribeConfiguredShards (clusterId : UInt16) (shards : List UInt16)

/-- The manager after an operation, and the result of it. -/
def perform (m : SubscriptionManager σ) : Op → SubscriptionManager σ × Except String Unit
  | .subscribeShard shard => m.subscribeShard G shard
  | .unsubscribeShard shard => m.unsubscribeShard G shard
  | .subscribe shard contentTopic => m.subscribe G shard contentTopic
  | .unsubscribe shard contentTopic => m.unsubscribe G shard contentTopic
  | .subscribeTopic topic => m.subscribeTopic G conf topic
  | .unsubscribeTopic topic => m.unsubscribeTopic G conf topic
  | .unsubscribeAll shard => m.unsubscribeAll G order shard
  | .subscribeConfiguredShards clusterId shards => m.subscribeConfiguredShards G clusterId shards

/-- The shards on which an operation subscribes its content topic. -/
def subscribeTargetsOf : Op → List (PubsubTopic × ContentTopic)
  | .subscribe shard contentTopic => [(shard, contentTopic)]
  | .subscribeTopic topic =>
      match getShardForContentTopic conf topic with
      | .error _ => []
      | .ok shard => (topicShards conf shard).map (fun target => (target, topic))
  | _ => []

end SubscriptionManager

end LogosDelivery.Node
