import LogosDelivery.Node.SubscriptionManager

/-! # The filter subscriptions of an edge node

`node/subscription_manager.nim`, on a node without a relay: `edgeFilterSubLoop` keeps the filter
subscriptions at the service peers of each shard in step with the content topics of the manager.
A pass sends what changed since the last pass to the peers that it tracks (`syncFilterDeltas`) and
subscribes to further peers until a shard has enough of them (`subscribeFilterPeer`).  Both are
calls that send one RPC after the other, at most `MaxContentTopicsPerRequest` content topics in
each, and run on while the application subscribes and unsubscribes and while the next passes run.

No RPC fails and no peer disconnects here.  A call without an answer has one RPC in flight, and an
RPC counts at the service from the moment the filter client is called, so the RPCs to a peer take
effect in the order in which they are sent.  A cancelled call sends nothing further.  Which peers
the peer manager offers for a shard, what their metadata says and in which order a loop goes over
a hash set may differ from pass to pass (`PassInput`). -/

namespace LogosDelivery.Node

open Lib
open StoreSync (PubsubTopic ContentTopic)

def MaxContentTopicsPerRequest : ℕ := 100

def HealthyThreshold : ℕ := 2

/-! ### Requests and calls -/

inductive SendChunkedFilterRpcKind where
  | filterSubscribe
  | filterUnsubscribe
deriving DecidableEq

/-- One request to the filter service of a peer, for a shard. -/
structure FilterRpc where
  kind : SendChunkedFilterRpcKind
  topics : List ContentTopic
deriving DecidableEq

/-- The content topics of a shard at the service after the request. -/
def FilterRpc.apply (rpc : FilterRpc) (topics : Finset ContentTopic) : Finset ContentTopic :=
  match rpc.kind with
  | .filterSubscribe => topics ∪ rpc.topics.toFinset
  | .filterUnsubscribe => topics \ rpc.topics.toFinset

/-- The requests that `sendChunkedFilterRpc` sends one after the other. -/
def chunkedFilterRpcs (kind : SendChunkedFilterRpcKind) (topics : List ContentTopic) :
    List FilterRpc :=
  (List.range ((topics.length + MaxContentTopicsPerRequest - 1) / MaxContentTopicsPerRequest)).map
    (fun n =>
      let i := n * MaxContentTopicsPerRequest
      ⟨kind, (topics.take (min (i + MaxContentTopicsPerRequest) topics.length)).drop i⟩)

inductive FilterCallKind where
  | subscribeFilterPeer
  | syncFilterDeltas
  | doUnsubscribe
deriving DecidableEq

/-- A call that waits for the answer to its last request, with the requests that follow. -/
structure FilterCall (P : Type) where
  kind : FilterCallKind
  peer : P
  shard : PubsubTopic
  toSend : List FilterRpc
deriving DecidableEq

/-! ### The state -/

/-- The peers of a shard; `pending` are the numbers of the `subscribeFilterPeer` calls. -/
structure EdgeFilterSubState (P : Type) where
  peers : List P
  pending : List ℕ
  pendingPeers : Finset P

structure EdgeFilterSubscribeTask (P : Type) where
  peer : P
  shard : PubsubTopic
  topics : List ContentTopic

abbrev SyncedTopics := Table PubsubTopic (Finset ContentTopic)

/-- Where `edgeFilterSubLoop` waits: for the wake-up, for the debounce time, or in a pass for the
cancellation of a call on the first of the shards to delete. -/
inductive EdgeFilterSubLoop (P : Type) where
  | waiting
  | debouncing
  | deleting (shardsToDelete : List PubsubTopic) (subscribeTasks : List (EdgeFilterSubscribeTask P))
      (newSynced : SyncedTopics)

/-- What a pass of the loop reads from the peer manager, and its orders of iteration;
`staticFilterPeer` is the configured filter peer, where it has tries left and is not known to lack
the filter protocol. -/
structure PassInput (P : Type) where
  topicOrder : SetOrder ContentTopic
  shardOrder : IterationOrder PubsubTopic
  missesShard : P → PubsubTopic → Bool
  selectPeers : PubsubTopic → List P
  staticFilterPeer : PubsubTopic → Option P

/-- The edge part of the node, with the content topics that each service peer has for it. -/
structure EdgeFilter (σ P : Type) where
  manager : SubscriptionManager σ
  loop : EdgeFilterSubLoop P
  lastSynced : SyncedTopics
  edgeFilterSubStates : Table PubsubTopic (EdgeFilterSubState P)
  calls : Table ℕ (FilterCall P)
  callsMade : ℕ
  service : P → PubsubTopic → Finset ContentTopic

/-- The content topics that the application wants on a shard. -/
def SubscriptionManager.contentTopics {σ : Type} (m : SubscriptionManager σ) (shard : PubsubTopic) :
    Finset ContentTopic :=
  ((m.shards.lookup shard).map ShardSubscription.contentTopics).getD ∅

/-- The content topics of a shard at the last pass. -/
def SyncedTopics.topics (synced : SyncedTopics) (shard : PubsubTopic) : Finset ContentTopic :=
  (synced.lookup shard).getD ∅

/-- `peers.del(idx)`: the last element takes the place of the deleted one. -/
def seqDel {α : Type} (l : List α) (idx : ℕ) : List α :=
  match l.getLast? with
  | none => []
  | some last => (l.set idx last).dropLast

namespace EdgeFilter

variable {σ P : Type} [DecidableEq P]

def new : EdgeFilter σ P where
  manager := .new none
  loop := .waiting
  lastSynced := ∅
  edgeFilterSubStates := ∅
  calls := ∅
  callsMade := 0
  service := fun _ _ => ∅

/-- Update the state of a shard, if it has one. -/
def withState (s : EdgeFilter σ P) (shard : PubsubTopic)
    (f : EdgeFilterSubState P → EdgeFilterSubState P) : EdgeFilter σ P :=
  match s.edgeFilterSubStates.lookup shard with
  | none => s
  | some state => { s with edgeFilterSubStates := s.edgeFilterSubStates.insert shard (f state) }

/-! ### Calls -/

def send (s : EdgeFilter σ P) (peer : P) (shard : PubsubTopic) (rpc : FilterRpc) :
    EdgeFilter σ P :=
  { s with service := fun p sh =>
      if p = peer ∧ sh = shard then rpc.apply (s.service p sh) else s.service p sh }

/-- The end of a call: `subscribeFilterPeer` starts to track its peer. -/
def finish (s : EdgeFilter σ P) (kind : FilterCallKind) (peer : P) (shard : PubsubTopic) :
    EdgeFilter σ P :=
  match kind with
  | .subscribeFilterPeer =>
      s.withState shard (fun state =>
        { state with
          peers := if peer ∈ state.peers then state.peers else state.peers ++ [peer]
          pendingPeers := state.pendingPeers.erase peer })
  | .syncFilterDeltas => s
  | .doUnsubscribe => s

/-- Run a call up to its first request.  A request counts as sent when the filter client is called; that
it dials the peer first is no step of its own. -/
def startCall (s : EdgeFilter σ P) (kind : FilterCallKind) (peer : P) (shard : PubsubTopic)
    (rpcs : List FilterRpc) : EdgeFilter σ P :=
  match rpcs with
  | [] => { s with callsMade := s.callsMade + 1 }.finish kind peer shard
  | rpc :: toSend =>
      { s with
        calls := s.calls.insert s.callsMade ⟨kind, peer, shard, toSend⟩
        callsMade := s.callsMade + 1 }.send peer shard rpc

/-- The request of a call is answered: the call sends its next one or ends. -/
def answer (s : EdgeFilter σ P) (id : ℕ) : EdgeFilter σ P :=
  match s.calls.lookup id with
  | none => s
  | some call =>
      match call.toSend with
      | [] => { s with calls := s.calls.erase id }.finish call.kind call.peer call.shard
      | rpc :: toSend =>
          { s with calls := s.calls.insert id { call with toSend := toSend } }.send call.peer
            call.shard rpc

/-- A call is cancelled at the request that it waits for. -/
def cancel (s : EdgeFilter σ P) (id : ℕ) : EdgeFilter σ P :=
  match s.calls.lookup id with
  | none => s
  | some call =>
      { s with calls := s.calls.erase id }.withState call.shard (fun state =>
        { state with pendingPeers := state.pendingPeers.erase call.peer })

/-! ### One shard of a pass -/

section Pass

variable (input : PassInput P)

def removePeer (s : EdgeFilter σ P) (shard : PubsubTopic) (peer : P) : EdgeFilter σ P :=
  match s.edgeFilterSubStates.lookup shard with
  | none => s
  | some state =>
      if peer ∈ state.peers then
        let s := { s with
          edgeFilterSubStates := s.edgeFilterSubStates.insert shard
            { state with peers := seqDel state.peers (state.peers.idxOf peer) }
          manager := s.manager.wakeup }
        let ct := input.topicOrder.toSeq (s.manager.contentTopics shard)
        if 0 < ct.length then
          s.startCall .doUnsubscribe peer shard [⟨.filterUnsubscribe, ct⟩]
        else s
      else s

def selectFilterCandidates (s : EdgeFilter σ P) (shard : PubsubTopic) (exclude : Finset P)
    (needed : ℕ) (staticPeer : Option P) : List P :=
  let allCandidates := (input.selectPeers shard).filter (fun p => p ∉ exclude)
  let trackedOnOther (p : P) : Bool := s.edgeFilterSubStates.entries.any (fun other =>
    other.1 ≠ shard && decide (p ∈ other.2.peers))
  let candidates := allCandidates.filter trackedOnOther ++
    allCandidates.filter (fun p => !trackedOnOther p)
  let candidates :=
    match staticPeer with
    | none => candidates
    | some peer => peer :: candidates.filter (fun p => p ≠ peer)
  candidates.take needed

/-- The state of a shard, which `mgetOrPut` made. -/
def stateOf (s : EdgeFilter σ P) (shard : PubsubTopic) : EdgeFilterSubState P :=
  (s.edgeFilterSubStates.lookup shard).getD ⟨[], [], ∅⟩

/-- The peers that a pass subscribes to on a shard. -/
def candidates (s : EdgeFilter σ P) (shard : PubsubTopic) : List P :=
  let state := s.stateOf shard
  let needed := HealthyThreshold - state.peers.length - state.pending.length
  if needed = 0 then []
  else
    let tracked := state.peers.toFinset ∪ state.pendingPeers
    let staticPeer := (input.staticFilterPeer shard).filter (fun p =>
      decide (p ∉ tracked) && !input.missesShard p shard)
    s.selectFilterCandidates input shard tracked needed staticPeer

/-- `mgetOrPut` of the state of a shard. -/
def ensureState (s : EdgeFilter σ P) (shard : PubsubTopic) : EdgeFilter σ P :=
  { s with edgeFilterSubStates := s.edgeFilterSubStates.insert shard (s.stateOf shard) }

/-- Unsubscribe from the peers that turned out not to serve the shard. -/
def dropMissing (s : EdgeFilter σ P) (shard : PubsubTopic) : EdgeFilter σ P :=
  ((s.stateOf shard).peers.filter (fun p => input.missesShard p shard)).foldl
    (fun s p => s.removePeer input shard p) s

/-- Drop the calls that ended. -/
def prunePending (s : EdgeFilter σ P) (shard : PubsubTopic) : EdgeFilter σ P :=
  s.withState shard (fun state =>
    { state with pending := state.pending.filter (fun id => id ∈ s.calls) })

def syncFilterDeltas (s : EdgeFilter σ P) (peer : P) (shard : PubsubTopic)
    (added removed : List ContentTopic) : EdgeFilter σ P :=
  s.startCall .syncFilterDeltas peer shard
    (chunkedFilterRpcs .filterSubscribe added ++ chunkedFilterRpcs .filterUnsubscribe removed)

/-- Send what changed on a shard to the peers that it tracks. -/
def spawnDeltas (s : EdgeFilter σ P) (shard : PubsubTopic) (added removed : List ContentTopic) :
    EdgeFilter σ P :=
  if 0 < added.length ∨ 0 < removed.length then
    (s.stateOf shard).peers.foldl (fun s p => s.syncFilterDeltas p shard added removed) s
  else s

/-- The first step of a pass on one shard, without the choice of further peers. -/
def reconcile (newSynced : SyncedTopics) (s : EdgeFilter σ P) (shard : PubsubTopic) :
    EdgeFilter σ P :=
  let curr := newSynced.topics shard
  let prev := s.lastSynced.topics shard
  let addedTopics := (input.topicOrder.toSeq curr).filter (fun t => t ∉ prev)
  let removedTopics := (input.topicOrder.toSeq prev).filter (fun t => t ∉ curr)
  ((s.ensureState shard).dropMissing input shard).prunePending shard |>.spawnDeltas shard
    addedTopics removedTopics

/-- The subscriptions that a pass decides on for one shard. -/
def subscribeTasks (newSynced : SyncedTopics) (s : EdgeFilter σ P) (shard : PubsubTopic) :
    List (EdgeFilterSubscribeTask P) :=
  (s.candidates input shard).map (fun p =>
    ⟨p, shard, input.topicOrder.toSeq (newSynced.topics shard)⟩)

/-- The first step of a pass over the shards, with the tasks and the shards to delete so far. -/
def reconcileShards (newSynced : SyncedTopics) :
    List PubsubTopic → EdgeFilter σ P → List (EdgeFilterSubscribeTask P) → List PubsubTopic →
      EdgeFilter σ P × List (EdgeFilterSubscribeTask P) × List PubsubTopic
  | [], s, tasks, shardsToDelete => (s, tasks, shardsToDelete)
  | shard :: shards, s, tasks, shardsToDelete =>
      let s := s.reconcile input newSynced shard
      if shard ∈ newSynced then
        reconcileShards newSynced shards s (tasks ++ s.subscribeTasks input newSynced shard)
          shardsToDelete
      else reconcileShards newSynced shards s tasks (shardsToDelete ++ [shard])

end Pass

/-! ### The rest of a pass -/

def subscribeFilterPeer (s : EdgeFilter σ P) (task : EdgeFilterSubscribeTask P) : EdgeFilter σ P :=
  let fut := s.callsMade
  let s := s.withState task.shard (fun state =>
    { state with pendingPeers := insert task.peer state.pendingPeers })
  let s := s.startCall .subscribeFilterPeer task.peer task.shard
    (chunkedFilterRpcs .filterSubscribe task.topics)
  s.withState task.shard (fun state => { state with pending := state.pending ++ [fut] })

/-- The first of the pending calls of a shard that did not end. -/
def unfinished (s : EdgeFilter σ P) (shard : PubsubTopic) : Option ℕ :=
  (s.stateOf shard).pending.find? (fun id => id ∈ s.calls)

/-- The second step of a pass, up to a call that has to be cancelled. -/
def finishPass (tasks : List (EdgeFilterSubscribeTask P)) (newSynced : SyncedTopics) :
    List PubsubTopic → EdgeFilter σ P → EdgeFilter σ P
  | [], s =>
      { tasks.foldl subscribeFilterPeer s with
        lastSynced := newSynced
        loop := .waiting }
  | shard :: shardsToDelete, s =>
      match s.unfinished shard with
      | some _ => { s with loop := .deleting (shard :: shardsToDelete) tasks newSynced }
      | none =>
          if 0 < (s.manager.contentTopics shard).card then
            finishPass tasks newSynced shardsToDelete s
          else
            finishPass tasks newSynced shardsToDelete
              { s with edgeFilterSubStates := s.edgeFilterSubStates.erase shard }

/-- The wanted content topics, of the shards that have some. -/
def snapshot (s : EdgeFilter σ P) : SyncedTopics :=
  s.manager.shards.filterMapValues (fun _ sub =>
    if 0 < sub.contentTopics.card then some sub.contentTopics else none)

/-- A pass of `edgeFilterSubLoop` after the debounce time. -/
def pass (s : EdgeFilter σ P) (input : PassInput P) : EdgeFilter σ P :=
  let s := { s with manager := { s.manager with edgeFilterWakeup := false } }
  let newSynced := s.snapshot
  let allShards := input.shardOrder.ofSeq (newSynced.keys ++ s.lastSynced.keys)
  let (s, tasks, shardsToDelete) := reconcileShards input newSynced allShards s [] []
  finishPass tasks newSynced shardsToDelete s

/-! ### Steps -/

/-- One step of the application, of the loop or of a call; `wakeup` is a wake-up by an event of the
peer manager or by `edgeFilterConnectionLoop`. -/
inductive Action (P : Type) where
  | subscribe (shard : PubsubTopic) (contentTopic : ContentTopic)
  | unsubscribe (shard : PubsubTopic) (contentTopic : ContentTopic)
  | wakeup
  | debounce
  | pass (input : PassInput P)
  | cancelled
  | answer (id : ℕ)

def step (G : GossipSub σ) (s : EdgeFilter σ P) : Action P → EdgeFilter σ P
  | .subscribe shard contentTopic =>
      { s with manager := (s.manager.subscribe G shard contentTopic).1 }
  | .unsubscribe shard contentTopic =>
      { s with manager := (s.manager.unsubscribe G shard contentTopic).1 }
  | .wakeup => { s with manager := s.manager.wakeup }
  | .debounce =>
      match s.loop with
      | .waiting => if s.manager.edgeFilterWakeup then { s with loop := .debouncing } else s
      | _ => s
  | .pass input =>
      match s.loop with
      | .debouncing => s.pass input
      | _ => s
  | .cancelled =>
      match s.loop with
      | .deleting shardsToDelete tasks newSynced =>
          match shardsToDelete.head?.bind s.unfinished with
          | some id => (s.cancel id).finishPass tasks newSynced shardsToDelete
          | none => s.finishPass tasks newSynced shardsToDelete
      | _ => s
  | .answer id => s.answer id

/-- The state after the actions, from an edge node without subscriptions. -/
def after (G : GossipSub σ) (actions : List (Action P)) : EdgeFilter σ P :=
  run (step G) new actions

end EdgeFilter

end LogosDelivery.Node
