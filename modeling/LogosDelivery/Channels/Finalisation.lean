import LogosDelivery.Channels.Accounts

/-! # Every accepted send is finalised

Every step keeps the accounts of an open channel, unless it leaves a request pending for ever.  In a
run without such steps every request is finalised with exactly one event once its segments left the
queue (`finalised_after`).  A segment that propagates and that no Store node is expected to confirm
leaves its request in `channelReqs` (`onePropagated_never_finalised`). -/

namespace LogosDelivery.Channels

open Messaging
open StoreSync (Byte WakuMessageHash)

/-! ### Every step -/

section Steps

variable {rng : ℕ → RequestId} {sys : ChannelSystem}

theorem closed_tryFinalize (c : ReliableChannel) (q : RequestId) :
    (c.tryFinalizeChannelReq q).closed = c.closed := by
  unfold ReliableChannel.tryFinalizeChannelReq
  cases c.getReq q with
  | none => rfl
  | some state =>
      dsimp only
      split_ifs <;> rfl

theorem closed_hear (c : ReliableChannel) (r : RequestId) (outcome : MessagingOutcome) :
    (c.hear r outcome).closed = c.closed := by
  unfold ReliableChannel.hear
  split_ifs
  · unfold ReliableChannel.onMessageFinal
    cases c.channelReqs.find? (fun e => decide (r ∈ e.2.inflightMessagingIds)) with
    | none => rfl
    | some e => exact closed_tryFinalize _ _
  · rfl

theorem closed_hearEvents (events : List (TaskId × TaskEvent)) : ∀ c : ReliableChannel,
    (events.foldl (fun c e => c.hearEvent e.2) c).closed = c.closed := by
  induction events with
  | nil => exact fun c => rfl
  | cons e events ih =>
      intro c
      rw [List.foldl_cons, ih]
      obtain ⟨id, e⟩ := e
      cases e with
      | messageSent r hash => exact closed_hear c r .sent
      | messageError r hash error => exact closed_hear c r .failed
      | _ => rfl

/-- **The invariant of the system.** -/
structure Inv (rng : ℕ → RequestId) (sys : ChannelSystem) : Prop where
  valid : sys.service.Valid
  ids : Ids rng sys
  accounts : sys.channel.closed = false → Accounts sys

theorem Inv.initial (rng : ℕ → RequestId) (cfg : SendConfig) (channelId : ChannelId) :
    Inv rng (.initial cfg channelId) where
  valid := SendService.Valid.initial cfg
  ids :=
    { task_drawn := fun _ _ h => by cases h
      call_drawn := fun _ h => absurd rfl h
      inj := fun _ _ _ h => by cases h
      apart := fun _ _ h => absurd rfl h }
  accounts _ :=
    { keyed := List.nodup_nil
      listening := rfl
      tracked := fun _ _ h => by cases h
      once := fun _ _ => Nat.zero_le _
      owner := fun _ _ _ h => by cases h
      request := fun _ => ⟨rfl, rfl, rfl⟩ }

/-- The task that a message becomes, and what else `enqueue` does to the requests of the service. -/
theorem Inv.enqueue_ids (hrng : Function.Injective rng) (h : Inv rng sys) {sys' : ChannelSystem}
    (hdrawn : sys'.drawn = sys.drawn + 1) {msgHash : WakuMessageHash} {ephemeral : Bool}
    {timestamp : ℤ}
    (hservice : sys'.service =
      (sys.service.enqueue (rng sys.drawn) msgHash ephemeral timestamp).1)
    (hcalls : ∀ q, sys'.calls q ≠ none → sys.calls q ≠ none) : Ids rng sys' := by
  rcases SendService.enqueue_cases sys.service (rng sys.drawn) msgHash ephemeral timestamp with
    ⟨_, _, _, _, heq⟩ | ⟨_, _, heq⟩ | ⟨_, _, heq⟩
  · rw [heq] at hservice
    exact h.ids.keep (by omega) (fun id => by rw [hservice]) hcalls
  · rw [heq] at hservice
    exact h.ids.keep (by omega) (fun id => by rw [hservice]) hcalls
  · rw [heq] at hservice
    have hnew : (Segment.task sys.service.nextTask).request sys'.service = some (rng sys.drawn) := by
      rw [hservice]
      show ((SendService.add _ _).tasks _).map _ = _
      rw [SendService.add_tasks, Function.update_self]
      rfl
    refine h.ids.newTask hrng hdrawn hnew ?_ hcalls
    intro id hid
    rw [hservice]
    show ((SendService.add _ _).tasks id).map _ = _
    rw [SendService.add_tasks, Function.update_of_ne hid]
    rfl

theorem setCall_ne_none {call : SendCall} {q q' : RequestId}
    (h : (sys.setCall q call).calls q' ≠ none) : q' = q ∨ sys.calls q' ≠ none := by
  by_cases hne : q' = q
  · exact Or.inl hne
  · have hold : (sys.setCall q call).calls q' = sys.calls q' := Function.update_of_ne hne _ _
    rw [hold] at h
    exact Or.inr h

/-- A send that goes on is no new call. -/
theorem setCall_known {sys₁ : ChannelSystem} {q : RequestId} {call call' : SendCall}
    (hcall : sys.calls q = some call) (hcalls : sys₁.calls = sys.calls) :
    ∀ q', (sys₁.setCall q call').calls q' ≠ none → sys.calls q' ≠ none := by
  intro q' hq'
  rcases setCall_ne_none hq' with rfl | hold
  · rw [hcall]
    simp
  · rw [← hcalls]
    exact hold

theorem Ids.setCall (h : Ids rng sys) {q : RequestId} {call : SendCall}
    (hcall : sys.calls q = some call) (call' : SendCall) : Ids rng (sys.setCall q call') :=
  h.keep le_rfl (fun _ => rfl) (setCall_known hcall rfl)

theorem Inv.send (hrng : Function.Injective rng) (h : Inv rng sys) {payload : List Byte}
    {ephemeral : Bool} {sys' : ChannelSystem} (hsend : sys.send rng payload ephemeral = .ok sys') :
    Inv rng sys' := by
  unfold ChannelSystem.send at hsend
  split_ifs at hsend
  obtain rfl := Except.ok.inj hsend
  have hnone : sys.calls (rng sys.drawn) = none := by
    by_contra hsome
    obtain ⟨n, hn, heq⟩ := h.ids.call_drawn _ hsome
    exact not_drawn hrng hn heq
  refine ⟨h.valid, h.ids.newCall hrng rfl (fun _ => rfl) (fun q hq => setCall_ne_none hq), ?_⟩
  intro hopen
  have hacc : Accounts { sys with drawn := sys.drawn + 1 } := by
    have hold := h.accounts hopen
    exact hold.quiet rfl rfl rfl (fun _ _ _ => ⟨rfl, rfl, rfl, rfl⟩) hold.tracked
  refine hacc.setCall ?_
  show none = (sys.calls _).bind _
  rw [hnone]
  rfl

theorem Inv.prepared (h : Inv rng sys) {q : RequestId} {call : SendCall}
    (hcall : sys.calls q = some call) (hphase : call.phase = .preparing) (preparation : Preparation) :
    Inv rng (sys.prepared q call preparation) := by
  have hleft : (sys.calls q).bind (·.phase.left?) = none := by
    rw [hcall, Option.bind_some, hphase]
    rfl
  cases preparation with
  | segmentationFailed error =>
      exact ⟨h.valid, h.ids.setCall hcall _, fun hopen => (h.accounts hopen).setCall hleft.symm⟩
  | wrapFailed error =>
      exact ⟨h.valid, h.ids.setCall hcall _, fun hopen => (h.accounts hopen).setCall hleft.symm⟩
  | encryptionFailed error =>
      exact ⟨h.valid, h.ids.setCall hcall _, fun hopen => (h.accounts hopen).setCall hleft.symm⟩
  | wireSegments more =>
      refine ⟨h.valid, h.ids.keep le_rfl (fun _ => rfl) (setCall_known hcall rfl), ?_⟩
      intro hopen
      have hacc := h.accounts hopen
      obtain ⟨_, hsegs, hev⟩ := (requestAccount_of_none hleft).mp (hacc.request q)
      refine hacc.update q (ReliableChannel.only_setReq hacc.keyed q _)
        (fun _ _ _ _ => ⟨rfl, rfl, rfl, rfl⟩) (fun q' hne => Function.update_of_ne hne _ _)
        (fun _ _ => rfl) hacc.tracked (hacc.once q) ?_ ?_
      · intro q' id hne hmem hmem'
        exact hne (hacc.owner q' q id hmem' hmem)
      · -- the request is new: all its segments are to be dispatched
        have hself : ((sys.prepared q call (.wireSegments more)).calls q).bind (·.phase.left?) =
            some (more + 1) := by
          show (Function.update sys.calls q _ q).bind _ = _
          rw [Function.update_self]
          rfl
        rw [requestAccount_of_some hself]
        show Account sys.service _ (sys.segments q) q (more + 1)
        rw [hsegs]
        refine Or.inl ⟨_, ReliableChannel.getReq_setReq_self hacc.keyed, hev, ?_, Nat.succ_pos _,
          Or.inl (Nat.succ_pos _)⟩
        exact ⟨rfl, rfl, rfl, List.nodup_nil, fun r => by simp⟩

theorem Inv.enqueue (hrng : Function.Injective rng) (h : Inv rng sys) (msgHash : WakuMessageHash)
    (ephemeral : Bool) (timestamp : ℤ) :
    Inv rng (sys.step rng (.enqueue msgHash ephemeral timestamp)) := by
  refine ⟨h.valid.enqueue _ _ _ _, h.enqueue_ids hrng rfl rfl (fun _ h => h), ?_⟩
  intro hopen
  have hacc := h.accounts hopen
  have hservice : (sys.step rng (.enqueue msgHash ephemeral timestamp)).service =
      (sys.service.enqueue (rng sys.drawn) msgHash ephemeral timestamp).1 := rfl
  have hsame : (sys.step rng (.enqueue msgHash ephemeral timestamp)).service = sys.service →
      Accounts (sys.step rng (.enqueue msgHash ephemeral timestamp)) := by
    intro heq
    refine hacc.quiet rfl rfl rfl ?_ ?_
    · intro q seg _
      rw [heq]
      exact ⟨rfl, rfl, rfl, rfl⟩
    · intro q seg hseg
      rw [heq]
      exact hacc.tracked q seg hseg
  rcases SendService.enqueue_cases sys.service (rng sys.drawn) msgHash ephemeral timestamp with
    ⟨_, _, _, _, heq⟩ | ⟨_, _, heq⟩ | ⟨_, _, heq⟩
  · exact hsame (by rw [hservice, heq])
  · exact hsame (by rw [hservice, heq])
  · rw [heq] at hservice
    refine hacc.quiet rfl rfl rfl ?_ ?_
    · intro q seg hseg
      rw [hservice]
      exact (hacc.same_add h.valid _ q seg hseg).1
    · intro q seg hseg
      rw [hservice]
      exact (hacc.same_add h.valid _ q seg hseg).2

/-! ### Every dispatch -/

theorem request_accepted {q r : RequestId} {ephemeral : Bool} {msgHash : WakuMessageHash}
    {timestamp : ℤ} {service : SendService}
    (heq : sys.service.enqueue (rng sys.drawn) msgHash ephemeral timestamp = (service, .ok r)) :
    sys.request rng q ephemeral (.ok (msgHash, timestamp)) =
      { sys with
        drawn := sys.drawn + 1
        service := service
        channel := sys.channel.markSegmentInflight q r
        segments := Function.update sys.segments q (sys.segments q ++
          [.task ((sys.service.lookup msgHash).getD sys.service.nextTask)]) } := by
  unfold ChannelSystem.request
  dsimp only
  rw [heq]
  rfl

theorem request_refused {q : RequestId} {ephemeral : Bool} {msgHash : WakuMessageHash}
    {timestamp : ℤ} {error : String}
    (heq : sys.service.enqueue (rng sys.drawn) msgHash ephemeral timestamp =
      (sys.service, .error error)) :
    sys.request rng q ephemeral (.ok (msgHash, timestamp)) =
      { sys with
        drawn := sys.drawn + 1
        channel := (sys.channel.hear q .failed).markSegmentFailed q
        segments := Function.update sys.segments q (sys.segments q ++ [.refused]) } := by
  unfold ChannelSystem.request
  dsimp only
  rw [heq]
  rfl

/-- A refused segment, before it had a task or because the queue is full. -/
theorem Inv.refused (h : Inv rng sys) (hopen : sys.channel.closed = false) {q : RequestId}
    {call : SendCall} {left : ℕ} (hcall : sys.calls q = some call)
    (hphase : call.phase = .dispatching (left + 1)) :
    Inv rng (ChannelSystem.setCall
      { sys with
        drawn := sys.drawn + 1
        channel := (sys.channel.hear q .failed).markSegmentFailed q
        segments := Function.update sys.segments q (sys.segments q ++ [.refused]) }
      q { call with phase := .dispatching left }) := by
  refine ⟨h.valid, h.ids.keep (Nat.le_succ _) (fun _ => rfl) (setCall_known hcall rfl), ?_⟩
  exact fun _ => (h.accounts hopen).refused h.ids h.valid hcall hphase rfl rfl rfl rfl

/-- A segment whose message is new to the queue. -/
theorem Inv.accepted (hrng : Function.Injective rng) (h : Inv rng sys)
    (hopen : sys.channel.closed = false) {q : RequestId} {call : SendCall} {left : ℕ}
    (hcall : sys.calls q = some call) (hphase : call.phase = .dispatching (left + 1))
    {msgHash : WakuMessageHash} {timestamp : ℤ}
    (hnone : (sys.service.lookup msgHash).bind sys.service.tasks = none)
    (heq : sys.service.enqueue (rng sys.drawn) msgHash call.ephemeral timestamp =
      (sys.service.add { requestId := rng sys.drawn, msgHash := msgHash,
                         ephemeral := call.ephemeral, timestamp := timestamp },
        .ok (rng sys.drawn))) :
    Inv rng ((sys.request rng q call.ephemeral (.ok (msgHash, timestamp))).setCall q
      { call with phase := .dispatching left }) := by
  have hlookup : sys.service.lookup msgHash = none := by
    by_contra hsome
    obtain ⟨id, hid⟩ := Option.ne_none_iff_exists'.mp hsome
    have hmem := (SendService.lookup_eq_some_iff h.valid.keys).mp hid
    exact h.valid.not_key hnone (List.mem_map.mpr ⟨_, hmem, rfl⟩)
  have hvalid := h.valid.enqueue (rng sys.drawn) msgHash call.ephemeral timestamp
  rw [heq] at hvalid
  rw [request_accepted heq, hlookup]
  refine ⟨hvalid, h.enqueue_ids hrng rfl (by rw [heq]; rfl) (setCall_known hcall rfl), ?_⟩
  exact fun _ => (h.accounts hopen).accepted_new hrng h.ids h.valid hcall hphase hvalid rfl rfl rfl
    rfl rfl

/-- A segment whose message is queued already. -/
theorem Inv.folded (h : Inv rng sys)
    (hopen : sys.channel.closed = false) {q : RequestId} {call : SendCall} {left : ℕ}
    (hcall : sys.calls q = some call) (hphase : call.phase = .dispatching (left + 1))
    {msgHash : WakuMessageHash} {timestamp : ℤ} {id : TaskId} {task : DeliveryTask}
    (hid : sys.service.lookup msgHash = some id) (htask : sys.service.tasks id = some task)
    (heq : sys.service.enqueue (rng sys.drawn) msgHash call.ephemeral timestamp =
      (sys.service, .ok task.requestId))
    (hgood : sys.foldsIntoSettled (.dispatch q (.ok (msgHash, timestamp))) = false) :
    Inv rng ((sys.request rng q call.ephemeral (.ok (msgHash, timestamp))).setCall q
      { call with phase := .dispatching left }) := by
  have hmem := (SendService.lookup_eq_some_iff h.valid.keys).mp hid
  have hqueued : sys.service.isQueued id task = true := by
    obtain ⟨task', htask', hhash⟩ := h.valid.entries _ hmem
    rw [htask, Option.some.injEq] at htask'
    rw [SendService.isQueued_iff h.valid.keys, htask', hhash]
    exact hmem
  simp only [ChannelSystem.foldsIntoSettled, hid, htask, Bool.or_eq_false_iff] at hgood
  rw [request_accepted heq, hid]
  refine ⟨h.valid, h.ids.keep (Nat.le_succ _) (fun _ => rfl) (setCall_known hcall rfl), ?_⟩
  exact fun _ => (h.accounts hopen).accepted_folded h.valid hcall hphase htask hqueued hgood.1
    hgood.2 rfl rfl rfl rfl

theorem Inv.dispatch (hrng : Function.Injective rng) (h : Inv rng sys) {q : RequestId}
    {call : SendCall} {left : ℕ} (hcall : sys.calls q = some call)
    (hphase : call.phase = .dispatching left) (request : Except String (WakuMessageHash × ℤ))
    (hgood : sys.foldsIntoSettled (.dispatch q request) = false) :
    Inv rng (sys.dispatch rng q call left request) := by
  unfold ChannelSystem.dispatch
  cases left with
  | zero =>
      refine ⟨h.valid, h.ids.setCall hcall _, fun hopen => (h.accounts hopen).setCall ?_⟩
      rw [hcall, Option.bind_some, hphase]
      rfl
  | succ left =>
      dsimp only
      split_ifs with hclosed
      · refine ⟨h.valid, h.ids.keep le_rfl (fun _ => rfl) (setCall_known hcall rfl), ?_⟩
        intro hopen
        have hopen' : sys.channel.closed = false := hopen
        rw [hopen'] at hclosed
        cases hclosed
      · have hopen : sys.channel.closed = false := by simpa using hclosed
        have hacc := h.accounts hopen
        cases request with
        | error error => exact h.refused hopen hcall hphase
        | ok message =>
            obtain ⟨msgHash, timestamp⟩ := message
            rcases SendService.enqueue_cases sys.service (rng sys.drawn) msgHash call.ephemeral
              timestamp with ⟨id, task, hid, htask, heq⟩ | ⟨_, _, heq⟩ | ⟨hnone, _, heq⟩
            · exact h.folded hopen hcall hphase hid htask heq hgood
            · rw [request_refused heq]
              exact h.refused hopen hcall hphase
            · exact h.accepted hrng hopen hcall hphase hnone heq

theorem Inv.serve (h : Inv rng sys) {a : Action}
    (ha : ∀ requestId msgHash ephemeral timestamp,
      a ≠ .enqueue requestId msgHash ephemeral timestamp)
    (hends : sys.endsUnconfirmed (.service a) = false) : Inv rng (sys.serve a) := by
  obtain ⟨_, _, hadv⟩ := h.valid.advances ha
  refine ⟨h.valid.step a, ?_, ?_⟩
  · exact h.ids.keep le_rfl (fun id => request_of_origin (hadv.tasks id)) (fun _ h => h)
  · intro hopen
    exact (h.accounts ((closed_hearEvents _ _).symm.trans hopen)).serve h.ids h.valid ha hends

/-- **Every step keeps the invariant**, unless it leaves a request pending for ever. -/
theorem Inv.step (hrng : Function.Injective rng) (hblank : ∀ n, rng n ≠ "") (h : Inv rng sys)
    {a : ChannelAction} (hends : sys.endsUnconfirmed a = false)
    (hfolds : sys.foldsIntoSettled a = false) : Inv rng (sys.step rng a) := by
  cases a with
  | send payload ephemeral =>
      unfold ChannelSystem.step
      dsimp only
      cases hsend : sys.send rng payload ephemeral with
      | ok sys' => exact h.send hrng hsend
      | error _ => exact h
  | prepared q preparation =>
      unfold ChannelSystem.step
      dsimp only
      split
      · exact h.prepared (by assumption) rfl preparation
      · exact h
  | dispatch q request =>
      unfold ChannelSystem.step
      dsimp only
      split
      · exact h.dispatch hrng (by assumption) rfl request hfolds
      · exact h
  | stop => exact ⟨h.valid, h.ids.keep le_rfl (fun _ => rfl) (fun _ h => h), fun hopen => by cases hopen⟩
  | dropListeners =>
      show Inv rng (if sys.channel.closed then
        { sys with channel := { sys.channel with listening := false } } else sys)
      split_ifs with hclosed
      · refine ⟨h.valid, h.ids.keep le_rfl (fun _ => rfl) (fun _ h => h), ?_⟩
        intro hopen
        have hopen' : sys.channel.closed = false := hopen
        rw [hopen'] at hclosed
        cases hclosed
      · exact h
  | enqueue msgHash ephemeral timestamp => exact h.enqueue hrng msgHash ephemeral timestamp
  | service a =>
      cases a with
      | enqueue requestId msgHash ephemeral timestamp => exact h
      | _ => exact h.serve (fun _ _ _ _ heq => by cases heq) hends
  | refusedElsewhere =>
      refine ⟨h.valid, h.ids.keep (Nat.le_succ _) (fun _ => rfl) (fun _ h => h), ?_⟩
      intro hopen
      have hacc := h.accounts ((closed_hear _ _ _).symm.trans hopen)
      refine hacc.quiet (hacc.hear_unknown ?_ _) rfl rfl (fun _ _ _ => ⟨rfl, rfl, rfl, rfl⟩)
        hacc.tracked
      intro id hr
      obtain ⟨n, hn, heq⟩ := h.ids.task_drawn id _ hr
      exact not_drawn hrng hn heq
  | ingressError =>
      refine ⟨h.valid, h.ids.keep le_rfl (fun _ => rfl) (fun _ h => h), ?_⟩
      intro hopen
      have hacc := h.accounts ((closed_hear _ _ _).symm.trans hopen)
      refine hacc.quiet (hacc.hear_unknown ?_ _) rfl rfl (fun _ _ _ => ⟨rfl, rfl, rfl, rfl⟩)
        hacc.tracked
      intro id hr
      obtain ⟨n, _, heq⟩ := h.ids.task_drawn id _ hr
      exact hblank n heq

end Steps

/-! ### Every run -/

section Runs

variable (rng : ℕ → RequestId) (cfg : SendConfig) (channelId : ChannelId)

/-- The system after the actions. -/
def ChannelSystem.after (actions : List ChannelAction) : ChannelSystem :=
  Lib.run (ChannelSystem.step rng) (.initial cfg channelId) actions

/-- A request that returned is finalised once its segments left the queue. -/
theorem Inv.finalised {rng : ℕ → RequestId} {sys : ChannelSystem} (h : Inv rng sys)
    (hopen : sys.channel.closed = false) {q : RequestId} {call : SendCall}
    (hcall : sys.calls q = some call) (hreturned : call.phase = .returned (.ok q))
    (hleft : ∀ seg ∈ sys.segments q, sys.leftQueue seg) : sys.Finalised q := by
  have hacc := h.accounts hopen
  have hreq := hacc.request q
  rw [requestAccount_of_some (by rw [hcall, Option.bind_some, hreturned]; rfl)] at hreq
  rcases hreq with ⟨state, _, _, hcounts, _, hwait⟩ | ⟨_, hnone, _, hevent⟩
  · -- a segment in flight is pending, but its task left the queue
    exfalso
    rcases hwait with hlt | hinflight
    · omega
    · obtain ⟨r, hr⟩ := List.exists_mem_of_ne_nil _ hinflight
      obtain ⟨seg, hseg, hp, hreq⟩ := (hcounts.mem r).mp hr
      cases seg with
      | refused => cases hp
      | task id =>
          obtain ⟨task, htask, hqueued⟩ := hleft _ hseg
          obtain ⟨task', htask', hquiet⟩ := hacc.tracked q _ hseg
          rw [htask, Option.some.injEq] at htask'
          subst htask'
          have hgone : .left ∈ sys.service.trace id := by
            rw [h.valid.left_iff htask, ← SendService.isQueued_iff h.valid.keys, hqueued]
            simp
          have hfinal : (sys.service.trace id).countP TaskEvent.isFinal = 0 := of_decide_eq_true hp
          obtain ⟨before, after, hsplit⟩ := List.append_of_mem hgone
          rcases (h.valid.taskLife htask).left_after before after hsplit with
            ⟨e, he, hisFinal⟩ | ⟨hexpected, e, he, hisPropagated⟩
          · have hmem : e ∈ sys.service.trace id := by
              rw [hsplit]
              exact List.mem_append_left _ he
            exact List.countP_eq_zero.mp hfinal e hmem hisFinal
          · have hmem : e ∈ sys.service.trace id := by
              rw [hsplit]
              exact List.mem_append_left _ he
            exact List.countP_eq_zero.mp (hquiet hexpected hfinal) e hmem hisPropagated
  · exact ⟨hnone, hevent⟩

/-- **Every accepted send is finalised** in every run of an open channel in which no segment ends
unconfirmed and none is folded into a settled task: once it has returned and its segments left the
queue, it is gone from `channelReqs` with exactly one event. -/
theorem finalised_after (hrng : Function.Injective rng) (hblank : ∀ n, rng n ≠ "")
    (actions : List ChannelAction)
    (hgood : Lib.AllSteps (fun done a =>
      (ChannelSystem.after rng cfg channelId done).endsUnconfirmed a = false ∧
        (ChannelSystem.after rng cfg channelId done).foldsIntoSettled a = false) actions) :
    ∀ done, done <+: actions →
      (ChannelSystem.after rng cfg channelId done).channel.closed = false →
      ∀ q call, (ChannelSystem.after rng cfg channelId done).calls q = some call →
        call.phase = .returned (.ok q) →
        (∀ seg ∈ (ChannelSystem.after rng cfg channelId done).segments q,
          (ChannelSystem.after rng cfg channelId done).leftQueue seg) →
        (ChannelSystem.after rng cfg channelId done).Finalised q := by
  intro done hdone hopen q call hcall hreturned hleft
  have hinv : Inv rng (ChannelSystem.after rng cfg channelId done) := by
    refine Lib.run_induction (P := fun done => Inv rng (ChannelSystem.after rng cfg channelId done))
      (Inv.initial rng cfg channelId) ?_ done (hgood.of_initial hdone)
    intro done a hstep hinv
    unfold ChannelSystem.after
    rw [Lib.run_concat]
    exact hinv.step hrng hblank hstep.1 hstep.2
  exact hinv.finalised hopen hcall hreturned hleft

end Runs

/-! ### A segment that propagates -/

/-- Request ids of growing length. -/
def growingIds (n : ℕ) : RequestId := String.ofList (List.replicate (n + 1) 'r')

theorem growingIds_injective : Function.Injective growingIds := by
  intro n m heq
  have hlen := congrArg (fun s => s.toList.length) heq
  simpa [growingIds] using hlen

theorem growingIds_ne_blank (n : ℕ) : growingIds n ≠ "" := by
  intro heq
  have hlen := congrArg (fun s => s.toList.length) heq
  simp [growingIds] at hlen

/-- One segment is dispatched and propagates at its first attempt. -/
def onePropagated (ephemeral : Bool) : List ChannelAction :=
  let reading : Reading := { now := 0, actual := 0, needsRlnProof := false }
  [.service .startSendService, .send [1] ephemeral, .prepared (growingIds 0) (.wireSegments 0),
    .dispatch (growingIds 0) (.ok (SendService.oneMessage, 0)),
    .dispatch (growingIds 0) (.error ""), .service (.resume 0 (.deliver reading)),
    .service (.resume 0 (.admitAndProve none)), .service (.resume 0 (.quotaState none)),
    .service (.resume 0 (.admitting true 0)), .service (.resume 0 (.attachRlnProof .attached)),
    .service (.resume 0 (.admissionEnd reading)), .service (.resume 0 .process),
    .service (.resume 0 (.sendImpl (.propagated false) true 0)),
    .service (.resume 0 (.processEnd reading)), .service (.resume 0 (.sendEnd 0))]

/-- The system after one propagated segment. -/
def afterOnePropagated (checkStoreForMessages ephemeral : Bool) : ChannelSystem :=
  ChannelSystem.after growingIds
    { SendService.oneByOne with checkStoreForMessages := checkStoreForMessages } "channel"
    (onePropagated ephemeral)

theorem returned_of_phase {sys : ChannelSystem} {q : RequestId}
    (h : (match (sys.calls q).map (·.phase) with
      | some (.returned (.ok r)) => decide (r = q)
      | _ => false) = true) :
    ∃ call, sys.calls q = some call ∧ call.phase = .returned (.ok q) := by
  cases hcall : sys.calls q with
  | none =>
      rw [hcall] at h
      cases h
  | some call =>
      refine ⟨call, rfl, ?_⟩
      rw [hcall, Option.map_some] at h
      cases hphase : call.phase with
      | returned result =>
          rw [hphase] at h
          cases result with
          | ok r =>
              dsimp only at h
              rw [of_decide_eq_true h]
          | error _ => cases h
      | _ =>
          rw [hphase] at h
          cases h

/-- The send returned and its segments left the queue, but the request is still there, with no
event. -/
def ChannelSystem.Stuck (sys : ChannelSystem) (q : RequestId) : Prop :=
  sys.channel.closed = false ∧
    (∃ call, sys.calls q = some call ∧ call.phase = .returned (.ok q)) ∧
    (∀ seg ∈ sys.segments q, sys.leftQueue seg) ∧ sys.channel.eventsOf q = [] ∧ ¬ sys.Finalised q

theorem stuck_afterOnePropagated (ephemeral : Bool) :
    (afterOnePropagated ephemeral ephemeral).Stuck (growingIds 0) := by
  have hsegments : (afterOnePropagated ephemeral ephemeral).segments (growingIds 0) = [.task 0] := by
    revert ephemeral
    decide +kernel
  have hgone : ((afterOnePropagated ephemeral ephemeral).service.tasks 0).map
      ((afterOnePropagated ephemeral ephemeral).service.isQueued 0) = some false := by
    revert ephemeral
    decide +kernel
  refine ⟨?_, returned_of_phase ?_, ?_, ?_, ?_⟩
  · revert ephemeral
    decide +kernel
  · revert ephemeral
    decide +kernel
  · intro seg hseg
    rw [hsegments, List.mem_singleton] at hseg
    subst hseg
    exact Option.map_eq_some_iff.mp hgone
  · revert ephemeral
    decide +kernel
  · rintro ⟨hnone, _⟩
    revert hnone
    revert ephemeral
    decide +kernel

/-- An ephemeral send with reliability on, and a persistent one with reliability off, are never
finalised. -/
theorem onePropagated_never_finalised :
    (afterOnePropagated true true).Stuck (growingIds 0) ∧
      (afterOnePropagated false false).Stuck (growingIds 0) :=
  ⟨stuck_afterOnePropagated true, stuck_afterOnePropagated false⟩

/-- With reliability on, a Store node confirms the segment of a persistent send. -/
def oneConfirmed : List ChannelAction :=
  onePropagated false ++
    [.service (.storeResponse [0] [SendService.oneMessage] false true),
      .service (.resume 0 (.storeEnd 1))]

theorem oneConfirmed_finalised :
    (ChannelSystem.after growingIds SendService.oneByOne "channel" oneConfirmed).channel.eventsOf
        (growingIds 0) = [.channelMessageSent "channel" (growingIds 0)] ∧
      (ChannelSystem.after growingIds SendService.oneByOne "channel" oneConfirmed).Finalised
        (growingIds 0) := by
  have hsegments : (ChannelSystem.after growingIds SendService.oneByOne "channel"
      oneConfirmed).segments (growingIds 0) = [.task 0] := by decide +kernel
  have hgone : ((ChannelSystem.after growingIds SendService.oneByOne "channel"
      oneConfirmed).service.tasks 0).map ((ChannelSystem.after growingIds SendService.oneByOne
        "channel" oneConfirmed).service.isQueued 0) = some false := by decide +kernel
  obtain ⟨call, hcall, hreturned⟩ : ∃ call, (ChannelSystem.after growingIds SendService.oneByOne
      "channel" oneConfirmed).calls (growingIds 0) = some call ∧
        call.phase = .returned (.ok (growingIds 0)) := returned_of_phase (by decide +kernel)
  refine ⟨by decide +kernel, ?_⟩
  refine finalised_after growingIds SendService.oneByOne "channel" growingIds_injective
    growingIds_ne_blank oneConfirmed (Lib.allSteps_of_get (by decide +kernel)) oneConfirmed
    (List.prefix_refl _) (by decide +kernel) (growingIds 0) call hcall hreturned ?_
  intro seg hseg
  rw [hsegments, List.mem_singleton] at hseg
  subst hseg
  exact Option.map_eq_some_iff.mp hgone

end LogosDelivery.Channels
