import LogosDelivery.Node.HealthMonitor

/-! # The events of the connection status

A listener that follows the events of the health monitor holds its connection status, as long as no
health report changes it: the reports store the status that they calculate and emit nothing, so the
health loop does not see the change any more (`complete_iff`).  They calculate it only as long as no
protocol states are stored, or were not when the call began. -/

namespace LogosDelivery.Node.HealthMonitor

open Lib

/-! ### The strengths that are read -/

namespace WakuNode

variable (node : WakuNode)

theorem exists_strength_service (protocol : WakuProtocol) (mounted : Bool) (codec : Codec)
    (desc : String) (relayHealth : HealthStatus) :
    ∃ value, (node.getServiceHealth protocol mounted codec desc relayHealth).strength =
      some value := by
  unfold getServiceHealth
  dsimp only
  split_ifs <;> exact ⟨_, rfl⟩

theorem exists_strength_mounted (protocol : WakuProtocol) (mounted : Bool) (codec : Codec) :
    ∃ value, (node.getMountedHealth protocol mounted codec).strength = some value := by
  unfold getMountedHealth
  dsimp only
  split_ifs <;> exact ⟨_, rfl⟩

theorem exists_strength_client (protocol : WakuProtocol) (mounted : Bool) (codec : Codec)
    (desc : String) :
    ∃ value, (node.getClientHealth protocol mounted codec desc).strength = some value := by
  unfold getClientHealth
  dsimp only
  split_ifs <;> exact ⟨_, rfl⟩

theorem exists_strength_relay : ∃ value, node.getRelayHealth.strength = some value := by
  unfold getRelayHealth
  cases node.wakuRelay with
  | none => exact ⟨_, rfl⟩
  | some relay =>
      dsimp only
      cases relay.connectedPubSubPeers with
      | none => exact ⟨_, rfl⟩
      | some relayPeers =>
          dsimp only
          split_ifs <;> exact ⟨_, rfl⟩

theorem exists_strength_filterClient
    (hready : node.getFilterClientHealth.health.health = .ready) :
    ∃ value, node.getFilterClientHealth.strength = some value := by
  have hclient := node.exists_strength_client .filterClient true .filterSubscribe
    "No Filter service peer available yet"
  unfold getFilterClientHealth at hready ⊢
  dsimp only at hready ⊢
  split_ifs at hready ⊢
  · exact ⟨_, rfl⟩
  · cases hedge : node.edgeFilterPeerCount with
    | error e =>
        rw [hedge] at hready
        cases hready
    | ok peerCount =>
        dsimp only
        split_ifs
        · exact ⟨_, rfl⟩
        · exact hclient
  · exact hclient

/-- A protocol that is ready is read with its strength. -/
theorem exists_strength {r : Reading} (hr : r ∈ node.getSyncAllProtocolHealthInfo)
    (hready : r.health.health = .ready) : ∃ value, r.strength = some value := by
  simp only [getSyncAllProtocolHealthInfo, List.mem_cons, List.not_mem_nil, or_false] at hr
  rcases hr with rfl | rfl | rfl | rfl | rfl | rfl | rfl | rfl | rfl | rfl | rfl | rfl
  · exact node.exists_strength_relay
  · exact node.exists_strength_service _ _ _ _ _
  · exact node.exists_strength_service _ _ _ _ _
  · exact node.exists_strength_service _ _ _ _ _
  · exact node.exists_strength_mounted _ _ _
  · exact node.exists_strength_mounted _ _ _
  · unfold getRendezvousHealth
    dsimp only
    split_ifs <;> exact ⟨_, rfl⟩
  · unfold getMixHealth
    cases node.wakuMix <;> exact ⟨_, rfl⟩
  · exact node.exists_strength_client _ _ _ _
  · exact node.exists_strength_client _ _ _ _
  · unfold getStoreClientHealth
    dsimp only
    split_ifs <;> exact ⟨_, rfl⟩
  · exact node.exists_strength_filterClient hready

end WakuNode

/-- Two tables of strengths that agree on the protocols that are ready give the same status. -/
theorem calculateConnectionState_congr {strength strength' : Strength}
    {protocols : List ProtocolHealth} (dLowOpt : Option ℤ)
    (h : ∀ p ∈ protocols, p.protocol ≠ .rlnRelay → p.health = .ready →
      strength p.protocol = strength' p.protocol) :
    calculateConnectionState protocols strength dLowOpt =
      calculateConnectionState protocols strength' dLowOpt := by
  have hcounts : ∀ counts, protocols.foldl (Counts.add strength) counts =
      protocols.foldl (Counts.add strength') counts := by
    induction protocols with
    | nil => exact fun _ => rfl
    | cons p protocols ih =>
        intro counts
        have hadd : Counts.add strength counts p = Counts.add strength' counts p := by
          unfold Counts.add
          by_cases hready : p.health = .ready
          · by_cases hrln : p.protocol = .rlnRelay
            · simp [hrln, RelayProtocols, LightpushClientProtocols, FilterClientProtocols]
            · rw [h p List.mem_cons_self hrln hready]
          · rw [if_pos hready, if_pos hready]
        rw [List.foldl_cons, List.foldl_cons, hadd]
        exact ih (fun q hq => h q (List.mem_cons_of_mem p hq)) _
  unfold calculateConnectionState
  rw [hcounts]

namespace NodeHealthMonitor

variable {hm hm' : NodeHealthMonitor}

theorem store_cons (strength : Strength) (r : Reading) (readings : List Reading) :
    store strength (r :: readings) = store (store strength [r]) readings := rfl

theorem store_of_none (strength : Strength) {readings : List Reading} {kind : WakuProtocol}
    (h : ∀ r ∈ readings, r.health.protocol = kind → r.strength = none) :
    store strength readings kind = strength kind := by
  induction readings generalizing strength with
  | nil => rfl
  | cons r readings ih =>
      rw [store_cons, ih _ (fun q hq => h q (List.mem_cons_of_mem r hq))]
      cases hvalue : r.strength with
      | none => simp [store, hvalue]
      | some value =>
          have hne : kind ≠ r.health.protocol := by
            intro heq
            rw [h r List.mem_cons_self heq.symm] at hvalue
            cases hvalue
          simp [store, hvalue, Function.update_of_ne hne]

/-- What was stored before does not matter for a protocol that is read with its strength. -/
theorem store_congr (strength strength' : Strength) {readings : List Reading}
    {kind : WakuProtocol}
    (h : ∃ r ∈ readings, r.health.protocol = kind ∧ ∃ value, r.strength = some value) :
    store strength readings kind = store strength' readings kind := by
  induction readings generalizing strength strength' with
  | nil =>
      obtain ⟨r, hr, -⟩ := h
      cases hr
  | cons q readings ih =>
      rw [store_cons strength, store_cons strength']
      by_cases hlater : ∃ r ∈ readings, r.health.protocol = kind ∧ ∃ value, r.strength = some value
      · exact ih _ _ hlater
      · have hnone : ∀ r ∈ readings, r.health.protocol = kind → r.strength = none := by
          intro r hr hkind
          cases hvalue : r.strength with
          | none => rfl
          | some value => exact absurd ⟨r, hr, hkind, value, hvalue⟩ hlater
        obtain ⟨r, hr, rfl, value, hvalue⟩ := h
        rcases List.mem_cons.mp hr with rfl | hr
        · rw [store_of_none _ hnone, store_of_none _ hnone]
          simp [store, hvalue]
        · exact absurd ⟨r, hr, rfl, value, hvalue⟩ hlater

/-! ### The status that a report calculates -/

/-- The status of protocol states, with the strengths that are stored. -/
def statusOf (hm : NodeHealthMonitor) (protocols : List ProtocolHealth) : ConnectionStatus :=
  (hm.publishProtocolHealth protocols).calculateConnectionState

/-- The status that `getSyncNodeHealthReport` calculates. -/
def syncStatus (hm : NodeHealthMonitor) : ConnectionStatus :=
  hm.getSyncAllProtocolHealthInfo.1.statusOf hm.getSyncAllProtocolHealthInfo.2

/-- The status that `getNodeHealthReport` calculates, if the state of RLN is known at once. -/
def asyncStatus (hm : NodeHealthMonitor) : ConnectionStatus :=
  hm.getSyncAllProtocolHealthInfo.1.statusOf
    (hm.getSyncAllProtocolHealthInfo.2 ++ [hm.node.getRlnRelayHealth])

/-- Only what the node shows and the adjustment matter. -/
theorem statusOf_read_congr (hnode : hm'.node = hm.node)
    (hadjust : hm'.adjustConnectionStatus = hm.adjustConnectionStatus)
    (rest : List ProtocolHealth) (hrest : ∀ p ∈ rest, p.protocol = .rlnRelay) :
    hm'.getSyncAllProtocolHealthInfo.1.statusOf (hm'.getSyncAllProtocolHealthInfo.2 ++ rest) =
      hm.getSyncAllProtocolHealthInfo.1.statusOf (hm.getSyncAllProtocolHealthInfo.2 ++ rest) := by
  have hstatus : HealthMonitor.calculateConnectionState
      (hm.node.getSyncAllProtocolHealthInfo.map (·.health) ++ rest)
      (store hm'.strength hm.node.getSyncAllProtocolHealthInfo) (hm.node.wakuRelay.map (·.dLow)) =
      HealthMonitor.calculateConnectionState
      (hm.node.getSyncAllProtocolHealthInfo.map (·.health) ++ rest)
      (store hm.strength hm.node.getSyncAllProtocolHealthInfo)
      (hm.node.wakuRelay.map (·.dLow)) := by
    apply calculateConnectionState_congr
    intro p hp hrln hready
    rcases List.mem_append.mp hp with hp | hp
    · obtain ⟨r, hr, rfl⟩ := List.mem_map.mp hp
      obtain ⟨value, hvalue⟩ := hm.node.exists_strength hr hready
      exact store_congr _ _ ⟨r, hr, rfl, value, hvalue⟩
    · exact absurd (hrest p hp) hrln
  simp only [statusOf, getSyncAllProtocolHealthInfo, publishProtocolHealth,
    calculateConnectionState, hnode, hadjust, hstatus]

theorem protocol_getRlnRelayHealth (node : WakuNode) :
    node.getRlnRelayHealth.protocol = .rlnRelay := by
  unfold WakuNode.getRlnRelayHealth
  cases node.rlnPlugin with
  | isReady ready => cases ready <;> rfl
  | _ => rfl

theorem syncStatus_congr (hnode : hm'.node = hm.node)
    (hadjust : hm'.adjustConnectionStatus = hm.adjustConnectionStatus) :
    hm'.syncStatus = hm.syncStatus := by
  have h := statusOf_read_congr hnode hadjust [] (fun p hp => by cases hp)
  rw [List.append_nil, List.append_nil] at h
  exact h

theorem asyncStatus_congr (hnode : hm'.node = hm.node)
    (hadjust : hm'.adjustConnectionStatus = hm.adjustConnectionStatus) :
    hm'.asyncStatus = hm.asyncStatus := by
  unfold asyncStatus
  rw [hnode]
  apply statusOf_read_congr hnode hadjust
  intro p hp
  rw [List.mem_singleton.mp hp]
  exact protocol_getRlnRelayHealth hm.node

/-! ### Completeness -/

/-- What a listener holds that starts from `disconnected` and follows the events. -/
def followed (hm : NodeHealthMonitor) : ConnectionStatus :=
  hm.statusEvents.foldl (fun _ event => event) .disconnected

/-- `getNodeHealthReport`, if the state of RLN is known at once. -/
def getNodeHealthReportAtOnce (hm : NodeHealthMonitor) : HealthReport :=
  match hm.getNodeHealthReport.2 with
  | some report => report
  | none =>
      (hm.getNodeHealthReport.1.finishNodeHealthReport hm.calls
        ((hm.getNodeHealthReport.1.reports hm.calls).getD [])).2

/-- The listener holds the connection status, a report called now answers it, and no event repeats
the status before it. -/
structure Complete (hm : NodeHealthMonitor) : Prop where
  followed : hm.followed = hm.connectionStatus
  reports : hm.nodeHealth = .ready →
    hm.getSyncNodeHealthReport.2.connectionStatus = hm.connectionStatus ∧
      hm.getNodeHealthReportAtOnce.connectionStatus = hm.connectionStatus
  noRepeat : List.IsChain (· ≠ ·) (.disconnected :: hm.statusEvents)

/-- A report called now would calculate the connection status. -/
def Agrees (hm : NodeHealthMonitor) : Prop :=
  hm.syncStatus = hm.connectionStatus ∧ hm.asyncStatus = hm.connectionStatus

/-- As long as no protocol states are stored, they give the connection status. -/
def Quiet (hm : NodeHealthMonitor) : Prop :=
  hm.nodeHealth = .ready → hm.cachedProtocols = [] → hm.Agrees

theorem Quiet.congr (h : hm.Quiet) (hnode : hm'.node = hm.node)
    (hadjust : hm'.adjustConnectionStatus = hm.adjustConnectionStatus)
    (hhealth : hm'.nodeHealth = hm.nodeHealth) (hcached : hm'.cachedProtocols = hm.cachedProtocols)
    (hstatus : hm'.connectionStatus = hm.connectionStatus) : hm'.Quiet := by
  intro hready hempty
  rw [hhealth] at hready
  rw [hcached] at hempty
  rw [Agrees, syncStatus_congr hnode hadjust, asyncStatus_congr hnode hadjust, hstatus]
  exact h hready hempty

theorem Quiet.of_cached (h : hm.cachedProtocols ≠ []) : hm.Quiet :=
  fun _ hempty => absurd hempty h

theorem reports_iff_quiet :
    (hm.nodeHealth = .ready →
      hm.getSyncNodeHealthReport.2.connectionStatus = hm.connectionStatus ∧
        hm.getNodeHealthReportAtOnce.connectionStatus = hm.connectionStatus) ↔ hm.Quiet := by
  refine imp_congr_right (fun hready => ?_)
  have hactive : hm.isInactive = false := by simp [isInactive, hready]
  by_cases hempty : hm.cachedProtocols = []
  · have hsync : hm.getSyncNodeHealthReport.2.connectionStatus = hm.syncStatus := by
      simp only [getSyncNodeHealthReport, hactive, hempty]
      rfl
    have hasync : hm.getNodeHealthReportAtOnce.connectionStatus = hm.asyncStatus := by
      have hnone : hm.getNodeHealthReport.2 = none := by
        simp [getNodeHealthReport, hactive, hempty]
      have hfirst : hm.getNodeHealthReport.1 = { hm.getSyncAllProtocolHealthInfo.1 with
          reports := Function.update hm.reports hm.calls (some hm.getSyncAllProtocolHealthInfo.2)
          calls := hm.calls + 1 } := by
        simp [getNodeHealthReport, hactive, hempty]
      rw [getNodeHealthReportAtOnce, hnone, hfirst]
      dsimp only
      rw [Function.update_self]
      rfl
    rw [hsync, hasync]
    exact ⟨fun h _ => h, fun h => h hempty⟩
  · have hstored : ¬ hm.cachedProtocols.length = 0 := by
      simpa using hempty
    have hsync : hm.getSyncNodeHealthReport.2.connectionStatus = hm.connectionStatus := by
      simp [getSyncNodeHealthReport, hactive, hempty, report]
    have hasync : hm.getNodeHealthReportAtOnce.connectionStatus = hm.connectionStatus := by
      simp [getNodeHealthReportAtOnce, getNodeHealthReport, hactive, hempty, report]
    exact ⟨fun _ hnone => absurd hnone hempty, fun _ => ⟨hsync, hasync⟩⟩

theorem complete_def : hm.Complete ↔
    hm.followed = hm.connectionStatus ∧ hm.Quiet ∧
      List.IsChain (· ≠ ·) (.disconnected :: hm.statusEvents) := by
  rw [← reports_iff_quiet]
  exact ⟨fun h => ⟨h.followed, h.reports, h.noRepeat⟩, fun h => ⟨h.1, h.2.1, h.2.2⟩⟩

/-- An event at the end repeats nothing if it is not what the listener holds. -/
theorem isChain_concat (event : ConnectionStatus) : ∀ (events : List ConnectionStatus)
    (status : ConnectionStatus), List.IsChain (· ≠ ·) (status :: events) →
      events.foldl (fun _ e => e) status ≠ event →
      List.IsChain (· ≠ ·) (status :: (events ++ [event]))
  | [], status, _, hne => by simpa using hne
  | e :: events, status, h, hne => by
      rw [List.cons_append]
      rw [List.isChain_cons_cons] at h ⊢
      exact ⟨h.1, isChain_concat event events e h.2 hne⟩

/-! ### The condition -/

/-- What the node shows does not give another status than the stored one as long as no protocol
states are stored, and a report that calculates a status gets the stored one. -/
def Meets (hm : NodeHealthMonitor) : Action → Prop
  | .nodeChanges node => Quiet { hm with node := node }
  | .setAdjuster adjust => Quiet { hm with adjustConnectionStatus := adjust }
  | .setOverallHealth health => Quiet { hm with nodeHealth := health }
  | .getSyncNodeHealthReport =>
      hm.isInactive = false → hm.cachedProtocols = [] → hm.syncStatus = hm.connectionStatus
  | .resumeReport c => ∀ protocols, hm.reports c = some protocols →
      hm.statusOf (protocols ++ [hm.node.getRlnRelayHealth]) = hm.connectionStatus
  | _ => True

/-- A pass of the loop reports what it changes. -/
theorem Complete.finishPass (h : hm.Complete) (protocols : List ProtocolHealth) :
    (hm.finishPass protocols).Complete := by
  rw [complete_def] at h ⊢
  obtain ⟨hfollowed, -, hchain⟩ := h
  unfold NodeHealthMonitor.finishPass
  dsimp only
  split
  next hchange =>
    refine ⟨?_, Quiet.of_cached (by simp [publishProtocolHealth]), ?_⟩
    · simp [NodeHealthMonitor.followed, publishProtocolHealth]
    · apply isChain_concat _ _ _ hchain
      intro heq
      exact hchange (heq.symm.trans hfollowed)
  next hsame =>
    exact ⟨hfollowed, Quiet.of_cached (by simp [publishProtocolHealth]), hchain⟩

/-- Neither the events nor the status change. -/
theorem Complete.congr (h : hm.Complete) (hevents : hm'.statusEvents = hm.statusEvents)
    (hstatus : hm'.connectionStatus = hm.connectionStatus) (hquiet : hm'.Quiet) :
    hm'.Complete := by
  rw [complete_def] at h ⊢
  rw [NodeHealthMonitor.followed, hevents, hstatus]
  exact ⟨h.1, hquiet, h.2.2⟩

theorem Complete.getSyncNodeHealthReport (h : hm.Complete)
    (hok : hm.isInactive = false → hm.cachedProtocols = [] →
      hm.syncStatus = hm.connectionStatus) : hm.getSyncNodeHealthReport.1.Complete := by
  unfold NodeHealthMonitor.getSyncNodeHealthReport
  split_ifs with hactive hempty
  · exact h
  · have hstatus := hok (by simpa using hactive) (List.eq_nil_of_length_eq_zero hempty)
    refine h.congr rfl hstatus (Quiet.of_cached ?_)
    simp [storeStatus, publishProtocolHealth, getSyncAllProtocolHealthInfo,
      WakuNode.getSyncAllProtocolHealthInfo]
  · exact h

theorem Complete.finishNodeHealthReport (h : hm.Complete) (c : ℕ) {protocols : List ProtocolHealth}
    (hok : hm.statusOf (protocols ++ [hm.node.getRlnRelayHealth]) = hm.connectionStatus) :
    (hm.finishNodeHealthReport c protocols).1.Complete := by
  refine h.congr rfl hok (Quiet.of_cached ?_)
  simp [NodeHealthMonitor.finishNodeHealthReport, storeStatus, publishProtocolHealth]

theorem Complete.step (h : hm.Complete) {action : Action} (hmeets : hm.Meets action) :
    (hm.step action).Complete := by
  have hquiet := (complete_def.mp h).2.1
  cases action with
  | nodeChanges node => exact h.congr rfl rfl hmeets
  | setAdjuster adjust => exact h.congr rfl rfl hmeets
  | setHandler handler => exact h.congr rfl rfl (hquiet.congr rfl rfl rfl rfl rfl)
  | setOverallHealth health => exact h.congr rfl rfl hmeets
  | eventLoopLag lagTooHigh => exact h.congr rfl rfl (hquiet.congr rfl rfl rfl rfl rfl)
  | startPass =>
      unfold NodeHealthMonitor.step
      cases hm.healthLoop with
      | resting => exact h.congr rfl rfl (hquiet.congr rfl rfl rfl rfl rfl)
      | reading protocols => exact h
      | handling => exact h
  | resumePass =>
      unfold NodeHealthMonitor.step
      cases hm.healthLoop with
      | resting => exact h
      | reading protocols => exact h.finishPass protocols
      | handling => exact h
  | endPass => exact h.congr rfl rfl (hquiet.congr rfl rfl rfl rfl rfl)
  | getSyncNodeHealthReport => exact h.getSyncNodeHealthReport hmeets
  | getNodeHealthReport =>
      change hm.getNodeHealthReport.1.Complete
      unfold NodeHealthMonitor.getNodeHealthReport
      split_ifs
      · exact h
      · exact h.congr rfl rfl (hquiet.congr rfl rfl rfl rfl rfl)
      · exact h
  | resumeReport c =>
      unfold NodeHealthMonitor.step
      cases hc : hm.reports c with
      | none => simpa [hc] using h
      | some protocols => simpa [hc] using h.finishNodeHealthReport c (hmeets protocols hc)
  | cancelReport c => exact h.congr rfl rfl (hquiet.congr rfl rfl rfl rfl rfl)

/-- The listener misses the status that a report stores. -/
theorem not_complete_of_changed (h : hm.Complete) (hevents : hm'.statusEvents = hm.statusEvents)
    (hchange : hm'.connectionStatus ≠ hm.connectionStatus) : ¬ hm'.Complete := by
  intro h'
  have hsame : hm'.followed = hm.followed := by rw [followed, followed, hevents]
  exact hchange (h'.followed.symm.trans (hsame.trans h.followed))

theorem not_complete_step (h : hm.Complete) {action : Action} (hmeets : ¬ hm.Meets action) :
    ¬ (hm.step action).Complete := by
  cases action with
  | nodeChanges node => exact fun h' => hmeets (complete_def.mp h').2.1
  | setAdjuster adjust => exact fun h' => hmeets (complete_def.mp h').2.1
  | setOverallHealth health => exact fun h' => hmeets (complete_def.mp h').2.1
  | getSyncNodeHealthReport =>
      simp only [Meets, not_forall] at hmeets
      obtain ⟨hactive, hempty, hchange⟩ := hmeets
      have hstep : hm.getSyncNodeHealthReport.1 =
          hm.getSyncAllProtocolHealthInfo.1.storeStatus hm.getSyncAllProtocolHealthInfo.2 := by
        simp [NodeHealthMonitor.getSyncNodeHealthReport, hactive, hempty]
      change ¬ hm.getSyncNodeHealthReport.1.Complete
      rw [hstep]
      exact not_complete_of_changed h rfl hchange
  | resumeReport c =>
      simp only [Meets, not_forall] at hmeets
      obtain ⟨protocols, hc, hchange⟩ := hmeets
      have hstep : hm.step (.resumeReport c) = (hm.finishNodeHealthReport c protocols).1 := by
        simp [NodeHealthMonitor.step, hc]
      rw [hstep]
      exact not_complete_of_changed h rfl hchange
  | setHandler handler => exact absurd trivial hmeets
  | eventLoopLag lagTooHigh => exact absurd trivial hmeets
  | startPass => exact absurd trivial hmeets
  | resumePass => exact absurd trivial hmeets
  | endPass => exact absurd trivial hmeets
  | getNodeHealthReport => exact absurd trivial hmeets
  | cancelReport c => exact absurd trivial hmeets

theorem complete_new (node : WakuNode) : (new node).Complete := by
  rw [complete_def]
  refine ⟨rfl, ?_, List.isChain_singleton _⟩
  intro hready
  cases hready

/-- In every state of a run the events are complete, exactly when every action of the run meets the
condition in the state before it. -/
theorem complete_iff (node : WakuNode) (actions : List Action) :
    (∀ pre, pre <+: actions → (after node pre).Complete) ↔
      AllSteps (fun pre action => (after node pre).Meets action) actions := by
  apply along_iff_allSteps (P := fun pre => (after node pre).Complete)
  · exact complete_new node
  · intro pre action hpre hmeets
    rw [after, run_concat]
    exact (hpre pre (List.prefix_refl _)).step hmeets
  · intro pre action hpre hmeets
    rw [after, run_concat]
    exact not_complete_step (hpre pre (List.prefix_refl _)) hmeets

/-- A relay with its mesh. -/
def meshed : WakuNode where
  wakuRelay := some { connectedPubSubPeers := some 6, minMeshSize := 6, dLow := 4 }
  rlnPlugin := .isReady false

/-- A report comes before the first pass of the loop is through: the loop finds nothing changed, and
no event tells that the node is connected. -/
def reportFirst : List Action :=
  [.startPass, .setOverallHealth .ready, .getSyncNodeHealthReport, .resumePass]

theorem not_complete_reportFirst :
    ¬ ∀ (node : WakuNode) (actions pre : List Action),
      pre <+: actions → (after node pre).Complete := by
  intro h
  have hfollowed := (h meshed reportFirst reportFirst (List.prefix_refl _)).followed
  have hstatus : (after meshed reportFirst).connectionStatus = .connected := by decide +kernel
  have hheld : (after meshed reportFirst).followed = .disconnected := by decide +kernel
  rw [hstatus, hheld] at hfollowed
  cases hfollowed

end NodeHealthMonitor

end LogosDelivery.Node.HealthMonitor
