import LogosDelivery.Lib.Runs

/-! # The health monitor

`node/health_monitor/node_health_monitor.nim`: the states of the protocols, the connection status
that is calculated from them, and its three readers: the health loop, which reports a change as an
event, and the two health reports, which store protocol states while none are stored.  The loop and
`getNodeHealthReport` are suspended while they read the state of RLN; every other part of them runs
in one step.  What the node shows of its protocols, and what the layer above makes of the status,
may change at any time.

The name of a protocol stands for itself. -/

namespace LogosDelivery.Node.HealthMonitor

open Lib

inductive HealthStatus where
  | initializing
  | synchronizing
  | ready
  | notReady
  | notMounted
  | shuttingDown
  | eventLoopLagging
deriving DecidableEq

inductive ConnectionStatus where
  | disconnected
  | partiallyConnected
  | connected
deriving DecidableEq

inductive WakuProtocol where
  | relay
  | rlnRelay
  | store
  | filter
  | lightpush
  | legacyLightpush
  | peerExchange
  | rendezvous
  | mix
  | storeClient
  | filterClient
  | lightpushClient
  | legacyLightpushClient
deriving DecidableEq

structure ProtocolHealth where
  protocol : WakuProtocol
  health : HealthStatus
  desc : Option String
deriving DecidableEq

namespace ProtocolHealth

def init (protocol : WakuProtocol) : ProtocolHealth := ⟨protocol, .notMounted, none⟩

def notReady (p : ProtocolHealth) (desc : String) : ProtocolHealth :=
  { p with health := .notReady, desc := some desc }

def ready (p : ProtocolHealth) : ProtocolHealth := { p with health := .ready, desc := none }

def notMounted (p : ProtocolHealth) : ProtocolHealth :=
  { p with health := .notMounted, desc := none }

def synchronizing (p : ProtocolHealth) : ProtocolHealth :=
  { p with health := .synchronizing, desc := none }

end ProtocolHealth

/-! ### What the node shows -/

inductive Codec where
  | lightPush
  | legacyLightPush
  | filterSubscribe
  | store
  | peerExchange
  | rendezVous

structure RelayState where
  /-- The number of connected peers, if it can be read. -/
  connectedPubSubPeers : Option ℕ
  minMeshSize : ℤ
  dLow : ℤ

structure MixState where
  poolSize : ℤ
  selfHopUsable : Bool
  hasMixExit : Bool

/-- What a read of the readiness of RLN ends with. -/
inductive RlnReading where
  | noPlugin
  | noReadiness
  | timedOut
  | isReady (ready : Bool)
  | raised

/-- The protocols of a node, mounted or not, and what they show. -/
structure WakuNode where
  wakuRelay : Option RelayState := none
  rlnPlugin : RlnReading := .noPlugin
  wakuLightPush : Bool := false
  wakuLegacyLightPush : Bool := false
  wakuFilter : Bool := false
  wakuStore : Bool := false
  wakuLightpushClient : Bool := false
  wakuLegacyLightpushClient : Bool := false
  wakuFilterClient : Bool := false
  wakuStoreClient : Bool := false
  wakuPeerExchange : Bool := false
  wakuRendezvous : Bool := false
  wakuMix : Option MixState := none
  capablePeersCount : Codec → ℤ := fun _ => 0
  selectablePeersCount : Codec → ℤ := fun _ => 0
  edgeFilterPeerCount : Except String ℤ := .ok 0

/-- A protocol's record, and the strength that is stored with it. -/
structure Reading where
  health : ProtocolHealth
  strength : Option ℤ

def MinMixPoolSize : ℤ := 4
def HealthyThreshold : ℤ := 2

namespace WakuNode

variable (node : WakuNode)

def getRelayHealth : Reading :=
  let p := ProtocolHealth.init .relay
  match node.wakuRelay with
  | none => ⟨p.notMounted, some 0⟩
  | some relay =>
      match relay.connectedPubSubPeers with
      | none => ⟨p.notMounted, some 0⟩
      | some relayPeers =>
          if relayPeers = 0 then ⟨p.notReady "No connected peers", some relay.minMeshSize⟩
          else ⟨p.ready, some relay.minMeshSize⟩

def getRlnRelayHealth : ProtocolHealth :=
  let p := ProtocolHealth.init .rlnRelay
  match node.rlnPlugin with
  | .noPlugin => p.notMounted
  | .noReadiness => p.notReady "The mounted RLN backend does not report its readiness"
  | .timedOut => p.notReady "Ready state check timed out"
  | .isReady true => p.ready
  | .isReady false => p.synchronizing
  | .raised => p.notReady "State cannot be determined"

/-- The service protocols that depend on the relay. -/
def getServiceHealth (protocol : WakuProtocol) (mounted : Bool) (codec : Codec) (desc : String)
    (relayHealth : HealthStatus) : Reading :=
  let p := ProtocolHealth.init protocol
  if !mounted then ⟨p.notMounted, some 0⟩
  else
    let peerCount := node.capablePeersCount codec
    if relayHealth = .ready then ⟨p.ready, some peerCount⟩
    else ⟨p.notReady desc, some peerCount⟩

def getLightpushHealth (relayHealth : HealthStatus) : Reading :=
  node.getServiceHealth .lightpush node.wakuLightPush .lightPush
    "Node has no relay peers to fullfill push requests" relayHealth

def getLegacyLightpushHealth (relayHealth : HealthStatus) : Reading :=
  node.getServiceHealth .legacyLightpush node.wakuLegacyLightPush .legacyLightPush
    "Node has no relay peers to fullfill push requests" relayHealth

def getFilterHealth (relayHealth : HealthStatus) : Reading :=
  node.getServiceHealth .filter node.wakuFilter .filterSubscribe
    "Relay is not ready, filter will not be able to sort out messages" relayHealth

/-- The protocols that are ready once they are mounted. -/
def getMountedHealth (protocol : WakuProtocol) (mounted : Bool) (codec : Codec) : Reading :=
  let p := ProtocolHealth.init protocol
  if !mounted then ⟨p.notMounted, some 0⟩
  else ⟨p.ready, some (node.capablePeersCount codec)⟩

def getStoreHealth : Reading := node.getMountedHealth .store node.wakuStore .store

def getPeerExchangeHealth : Reading :=
  node.getMountedHealth .peerExchange node.wakuPeerExchange .peerExchange

/-- The protocols that need a peer. -/
def getClientHealth (protocol : WakuProtocol) (mounted : Bool) (codec : Codec) (desc : String) :
    Reading :=
  let p := ProtocolHealth.init protocol
  if !mounted then ⟨p.notMounted, some 0⟩
  else
    let peerCount := node.capablePeersCount codec
    if peerCount > 0 then ⟨p.ready, some peerCount⟩ else ⟨p.notReady desc, some peerCount⟩

def getLightpushClientHealth : Reading :=
  node.getClientHealth .lightpushClient node.wakuLightpushClient .lightPush
    "No Lightpush service peer available yet"

def getLegacyLightpushClientHealth : Reading :=
  node.getClientHealth .legacyLightpushClient node.wakuLegacyLightpushClient .legacyLightPush
    "No Lightpush service peer available yet"

/-- Without a relay the edge filter's own count comes first; that it is unknown leaves the strength
as it was. -/
def getFilterClientHealth : Reading :=
  let p := ProtocolHealth.init .filterClient
  if !node.wakuFilterClient then ⟨p.notMounted, some 0⟩
  else
    let counted := node.getClientHealth .filterClient true .filterSubscribe
      "No Filter service peer available yet"
    if node.wakuRelay.isNone then
      match node.edgeFilterPeerCount with
      | .ok peerCount => if peerCount > 0 then ⟨p.ready, some peerCount⟩ else counted
      | .error e => ⟨p.notReady ("Failed to request edge filter peer count: " ++ e), none⟩
    else counted

def getStoreClientHealth : Reading :=
  let p := ProtocolHealth.init .storeClient
  if !node.wakuStoreClient then ⟨p.notMounted, some 0⟩
  else
    let peerCount := node.selectablePeersCount .store
    if peerCount > 0 ∨ node.wakuStore then ⟨p.ready, some peerCount⟩
    else
      ⟨p.notReady
        "No Store service peer available yet, neither Store service set up for the node",
        some peerCount⟩

def getRendezvousHealth : Reading :=
  let p := ProtocolHealth.init .rendezvous
  if !node.wakuRendezvous then ⟨p.notMounted, some 0⟩
  else
    let peerCount := node.capablePeersCount .rendezVous
    if peerCount = 0 then ⟨p.notReady "No Rendezvous peers are available yet", some peerCount⟩
    else ⟨p.ready, some peerCount⟩

def getMixHealth : Reading :=
  let p := ProtocolHealth.init .mix
  match node.wakuMix with
  | none => ⟨p.notMounted, some 0⟩
  | some mix =>
      let health :=
        if !mix.selfHopUsable then
          p.notReady
            "This node's announced address is not one mix can route replies to (IPv4 TCP or QUIC-v1)"
        else if mix.poolSize < MinMixPoolSize then
          p.notReady
            ("Mix pool too small: " ++ toString mix.poolSize ++ " < " ++ toString MinMixPoolSize)
        else if !mix.hasMixExit then
          p.notReady "No mix pool member serves lightpush to exit through"
        else p.ready
      ⟨health, some mix.poolSize⟩

/-- The protocols but RLN. -/
def getSyncAllProtocolHealthInfo : List Reading :=
  let relayHealth := node.getRelayHealth.health.health
  [node.getRelayHealth, node.getLightpushHealth relayHealth,
    node.getLegacyLightpushHealth relayHealth, node.getFilterHealth relayHealth,
    node.getStoreHealth, node.getPeerExchangeHealth, node.getRendezvousHealth, node.getMixHealth,
    node.getLightpushClientHealth, node.getLegacyLightpushClientHealth, node.getStoreClientHealth,
    node.getFilterClientHealth]

end WakuNode

/-! ### The connection status -/

/-- The latest strength of each protocol; one that is not stored is `0`. -/
abbrev Strength := WakuProtocol → ℤ

def RelayProtocols : List WakuProtocol := [.relay]
def LightpushClientProtocols : List WakuProtocol := [.lightpushClient, .legacyLightpushClient]
def FilterClientProtocols : List WakuProtocol := [.filterClient]

/-- The strengths of the protocols that are ready: of the relay, of lightpush and of filter. -/
structure Counts where
  relayCount : ℤ := 0
  lightpushCount : ℤ := 0
  filterCount : ℤ := 0

def Counts.add (strength : Strength) (counts : Counts) (p : ProtocolHealth) : Counts :=
  if p.health ≠ .ready then counts
  else if p.protocol ∈ RelayProtocols then
    { counts with relayCount := max counts.relayCount (strength p.protocol) }
  else if p.protocol ∈ LightpushClientProtocols then
    { counts with lightpushCount := max counts.lightpushCount (strength p.protocol) }
  else if p.protocol ∈ FilterClientProtocols then
    { counts with filterCount := max counts.filterCount (strength p.protocol) }
  else counts

def calculateConnectionState (protocols : List ProtocolHealth) (strength : Strength)
    (dLowOpt : Option ℤ) : ConnectionStatus :=
  let counts := protocols.foldl (Counts.add strength) {}
  match dLowOpt with
  | some dLow =>
      if counts.relayCount ≥ dLow then .connected
      else if counts.relayCount > 0 then .partiallyConnected
      else .disconnected
  | none =>
      let canSend := decide (counts.lightpushCount > 0)
      let canReceive := decide (counts.filterCount > 0)
      let meetsMinimum := canSend && canReceive
      if !meetsMinimum then .disconnected
      else if counts.lightpushCount ≥ HealthyThreshold ∧ counts.filterCount ≥ HealthyThreshold then
        .connected
      else .partiallyConnected

/-! ### The monitor -/

structure HealthReport where
  nodeHealth : HealthStatus
  connectionStatus : ConnectionStatus
  protocolsHealth : List ProtocolHealth

/-- The health loop waits for a change or rests, reads the state of RLN, or waits for its handler. -/
inductive LoopPhase where
  | resting
  | reading (protocols : List ProtocolHealth)
  | handling

/-- The monitor of a node, with the events it emitted, the reports that were given, and the calls of
`getNodeHealthReport` that read the state of RLN. -/
structure NodeHealthMonitor where
  node : WakuNode
  nodeHealth : HealthStatus
  connectionStatus : ConnectionStatus
  onConnectionStatusChange : Bool
  cachedProtocols : List ProtocolHealth
  strength : Strength
  eventLoopLagExceeded : Bool
  adjustConnectionStatus : Option (ConnectionStatus → List ProtocolHealth → ConnectionStatus)
  healthLoop : LoopPhase
  reports : ℕ → Option (List ProtocolHealth)
  calls : ℕ
  protocolEvents : List ProtocolHealth
  statusEvents : List ConnectionStatus

namespace NodeHealthMonitor

def new (node : WakuNode) : NodeHealthMonitor where
  node := node
  nodeHealth := .initializing
  connectionStatus := .disconnected
  onConnectionStatusChange := false
  cachedProtocols := []
  strength := fun _ => 0
  eventLoopLagExceeded := false
  adjustConnectionStatus := none
  healthLoop := .resting
  reports := fun _ => none
  calls := 0
  protocolEvents := []
  statusEvents := []

variable (hm : NodeHealthMonitor)

/-- The strengths are stored as they are read. -/
def store (strength : Strength) (readings : List Reading) : Strength :=
  readings.foldl
    (fun strength r =>
      match r.strength with
      | some value => Function.update strength r.health.protocol value
      | none => strength)
    strength

/-- The protocols that can be read at once. -/
def getSyncAllProtocolHealthInfo : NodeHealthMonitor × List ProtocolHealth :=
  let readings := hm.node.getSyncAllProtocolHealthInfo
  ({ hm with strength := store hm.strength readings }, readings.map (·.health))

/-- Emits an event for each protocol whose status changed. -/
def publishProtocolHealth (protocols : List ProtocolHealth) : NodeHealthMonitor :=
  let previous := hm.cachedProtocols
  { hm with
    cachedProtocols := protocols
    protocolEvents := hm.protocolEvents ++ protocols.filter (fun current =>
      !previous.any (fun p =>
        decide (p.protocol = current.protocol) && decide (p.health = current.health))) }

def calculateConnectionState : ConnectionStatus :=
  let status := HealthMonitor.calculateConnectionState hm.cachedProtocols hm.strength
    (hm.node.wakuRelay.map (·.dLow))
  match hm.adjustConnectionStatus with
  | none => status
  | some adjust => adjust status hm.cachedProtocols

/-- Protocol states are stored, and the connection status with them. -/
def storeStatus (protocols : List ProtocolHealth) : NodeHealthMonitor :=
  let hm := hm.publishProtocolHealth protocols
  { hm with connectionStatus := hm.calculateConnectionState }

/-- The report of what is stored. -/
def report : HealthReport where
  nodeHealth := if hm.eventLoopLagExceeded then .eventLoopLagging else .ready
  connectionStatus := hm.connectionStatus
  protocolsHealth := hm.cachedProtocols

/-- The report of a node that is not running. -/
def reportInactive : HealthReport := ⟨hm.nodeHealth, .disconnected, []⟩

def isInactive : Bool :=
  decide (hm.nodeHealth = .initializing) || decide (hm.nodeHealth = .shuttingDown)

def getSyncNodeHealthReport : NodeHealthMonitor × HealthReport :=
  if hm.isInactive then (hm, hm.reportInactive)
  else
    let hm :=
      if hm.cachedProtocols.length = 0 then
        let read := hm.getSyncAllProtocolHealthInfo
        read.1.storeStatus read.2
      else hm
    (hm, hm.report)

/-- `getNodeHealthReport` up to its await; without a report it is suspended. -/
def getNodeHealthReport : NodeHealthMonitor × Option HealthReport :=
  if hm.isInactive then (hm, some hm.reportInactive)
  else if hm.cachedProtocols.length = 0 then
    let read := hm.getSyncAllProtocolHealthInfo
    ({ read.1 with
        reports := Function.update hm.reports hm.calls (some read.2)
        calls := hm.calls + 1 }, none)
  else (hm, some hm.report)

/-- The rest of `getNodeHealthReport`, once the state of RLN is known. -/
def finishNodeHealthReport (c : ℕ) (protocols : List ProtocolHealth) :
    NodeHealthMonitor × HealthReport :=
  let hm := { hm with reports := Function.update hm.reports c none }
  let hm := hm.storeStatus (protocols ++ [hm.node.getRlnRelayHealth])
  (hm, hm.report)

/-- A pass of the health loop up to its await. -/
def startPass : NodeHealthMonitor :=
  let read := hm.getSyncAllProtocolHealthInfo
  { read.1 with healthLoop := .reading read.2 }

/-- The rest of the pass, up to the handler. -/
def finishPass (protocols : List ProtocolHealth) : NodeHealthMonitor :=
  let hm := { hm with healthLoop := .resting }
  let hm := hm.publishProtocolHealth (protocols ++ [hm.node.getRlnRelayHealth])
  let newConnectionStatus := hm.calculateConnectionState
  if newConnectionStatus ≠ hm.connectionStatus then
    { hm with
      connectionStatus := newConnectionStatus
      statusEvents := hm.statusEvents ++ [newConnectionStatus]
      healthLoop := if hm.onConnectionStatusChange then .handling else .resting }
  else hm

inductive Action where
  /-- The protocols change, or the answer of the RLN plugin does. -/
  | nodeChanges (node : WakuNode)
  | setAdjuster (adjust : Option (ConnectionStatus → List ProtocolHealth → ConnectionStatus))
  | setHandler (handler : Bool)
  | setOverallHealth (health : HealthStatus)
  | eventLoopLag (lagTooHigh : Bool)
  | startPass
  | resumePass
  /-- The pass fails while it reads the state of RLN, or its handler ends or fails. -/
  | endPass
  | getSyncNodeHealthReport
  | getNodeHealthReport
  | resumeReport (c : ℕ)
  | cancelReport (c : ℕ)

def step (hm : NodeHealthMonitor) : Action → NodeHealthMonitor
  | .nodeChanges node => { hm with node := node }
  | .setAdjuster adjust => { hm with adjustConnectionStatus := adjust }
  | .setHandler handler => { hm with onConnectionStatusChange := handler }
  | .setOverallHealth health => { hm with nodeHealth := health }
  | .eventLoopLag lagTooHigh => { hm with eventLoopLagExceeded := lagTooHigh }
  | .startPass =>
      match hm.healthLoop with
      | .resting => hm.startPass
      | _ => hm
  | .resumePass =>
      match hm.healthLoop with
      | .reading protocols => hm.finishPass protocols
      | _ => hm
  | .endPass => { hm with healthLoop := .resting }
  | .getSyncNodeHealthReport => hm.getSyncNodeHealthReport.1
  | .getNodeHealthReport => hm.getNodeHealthReport.1
  | .resumeReport c =>
      match hm.reports c with
      | some protocols => (hm.finishNodeHealthReport c protocols).1
      | none => hm
  | .cancelReport c => { hm with reports := Function.update hm.reports c none }

/-- The monitor after the actions. -/
def after (node : WakuNode) (actions : List Action) : NodeHealthMonitor :=
  run step (new node) actions

end NodeHealthMonitor

end LogosDelivery.Node.HealthMonitor
