import LogosDelivery.Channels.Requests

/-! # The accounts of a channel

The channel counts a segment as final when a `MessageSentEvent` or a `MessageErrorEvent` of its task
comes.  The send service ends some tasks with neither: one that no Store confirmation is expected
for leaves the queue after its `MessagePropagatedEvent` (`endsUnconfirmed`).  And a segment can be
folded into a queued task that the channel already waits for, or that has no final event to come
(`foldsIntoSettled`).

Apart from these steps, the books of every request of an open channel are kept (`Accounts`): by a
step of the send service with what the channel hears of it, and by a dispatch. -/

namespace LogosDelivery.Channels

open Messaging
open StoreSync (Byte WakuMessageHash)

/-! ### The steps that leave a request pending -/

namespace ChannelSystem

variable (sys : ChannelSystem)

/-- An attempt ends with a segment propagated that no Store node is expected to confirm. -/
def endsUnconfirmed : ChannelAction → Bool
  | .service (.resume id r) =>
      match sys.service.tasks id with
      | none => false
      | some task =>
          sys.channel.awaits task.requestId && (sys.service.delivery id task).endsPropagated r &&
            !(sys.service.delivery id task).storeConfirmationExpected sys.service.toSendConfig
  | _ => false

/-- The message of a segment is queued already, in a task that the channel waits for or whose end is
reported. -/
def foldsIntoSettled : ChannelAction → Bool
  | .dispatch _ (.ok (msgHash, _)) =>
      match sys.service.lookup msgHash with
      | none => false
      | some id =>
          match sys.service.tasks id with
          | none => false
          | some task =>
              sys.channel.awaits task.requestId ||
                (task.propagatedEventEmitted &&
                  !(sys.service.delivery id task).awaitsStoreValidation sys.service.toSendConfig)
  | _ => false

/-- The segment's task left the send queue, or there is none. -/
def leftQueue : Segment → Prop
  | .refused => True
  | .task id => ∃ task, sys.service.tasks id = some task ∧ sys.service.isQueued id task = false

/-- The request is gone from `channelReqs`, and its only event says whether a segment failed. -/
def Finalised (q : RequestId) : Prop :=
  sys.channel.getReq q = none ∧
    sys.channel.eventsOf q =
      [sys.channel.finalEvent q ((sys.segments q).countP (·.failed sys.service))]

end ChannelSystem

/-! ### Request ids -/

section Ids

variable {rng : ℕ → RequestId} {sys sys' : ChannelSystem}

/-- Every request id in use was drawn, and no two uses share one. -/
structure Ids (rng : ℕ → RequestId) (sys : ChannelSystem) : Prop where
  task_drawn : ∀ id r, (Segment.task id).request sys.service = some r → ∃ n < sys.drawn, rng n = r
  call_drawn : ∀ q, sys.calls q ≠ none → ∃ n < sys.drawn, rng n = q
  inj : ∀ id id' r, (Segment.task id).request sys.service = some r →
    (Segment.task id').request sys.service = some r → id = id'
  apart : ∀ q id, sys.calls q ≠ none → (Segment.task id).request sys.service ≠ some q

/-- A step that uses no new id. -/
theorem Ids.keep (h : Ids rng sys) (hdrawn : sys.drawn ≤ sys'.drawn)
    (hreq : ∀ id, (Segment.task id).request sys'.service = (Segment.task id).request sys.service)
    (hcalls : ∀ q, sys'.calls q ≠ none → sys.calls q ≠ none) : Ids rng sys' where
  task_drawn id r hr := by
    rw [hreq] at hr
    obtain ⟨n, hn, heq⟩ := h.task_drawn id r hr
    exact ⟨n, by omega, heq⟩
  call_drawn q hq := by
    obtain ⟨n, hn, heq⟩ := h.call_drawn q (hcalls q hq)
    exact ⟨n, by omega, heq⟩
  inj id id' r hr hr' := by
    rw [hreq] at hr hr'
    exact h.inj id id' r hr hr'
  apart q id hq hr := by
    rw [hreq] at hr
    exact h.apart q id (hcalls q hq) hr

variable (hrng : Function.Injective rng)
include hrng

/-- The next id is new. -/
theorem not_drawn {n : ℕ} (hn : n < sys.drawn) : rng n ≠ rng sys.drawn := by
  intro heq
  have hlt := hrng heq
  omega

theorem Ids.newCall (h : Ids rng sys) (hdrawn : sys'.drawn = sys.drawn + 1)
    (hreq : ∀ id, (Segment.task id).request sys'.service = (Segment.task id).request sys.service)
    (hcalls : ∀ q, sys'.calls q ≠ none → q = rng sys.drawn ∨ sys.calls q ≠ none) : Ids rng sys' where
  task_drawn id r hr := by
    rw [hreq] at hr
    obtain ⟨n, hn, heq⟩ := h.task_drawn id r hr
    exact ⟨n, by omega, heq⟩
  call_drawn q hq := by
    rcases hcalls q hq with rfl | hold
    · exact ⟨sys.drawn, by omega, rfl⟩
    · obtain ⟨n, hn, heq⟩ := h.call_drawn q hold
      exact ⟨n, by omega, heq⟩
  inj id id' r hr hr' := by
    rw [hreq] at hr hr'
    exact h.inj id id' r hr hr'
  apart q id hq hr := by
    rw [hreq] at hr
    rcases hcalls q hq with rfl | hold
    · obtain ⟨n, hn, heq⟩ := h.task_drawn id _ hr
      exact not_drawn hrng hn heq
    · exact h.apart q id hold hr

theorem Ids.newTask (h : Ids rng sys) (hdrawn : sys'.drawn = sys.drawn + 1) {new : TaskId}
    (hnew : (Segment.task new).request sys'.service = some (rng sys.drawn))
    (hreq : ∀ id, id ≠ new →
      (Segment.task id).request sys'.service = (Segment.task id).request sys.service)
    (hcalls : ∀ q, sys'.calls q ≠ none → sys.calls q ≠ none) : Ids rng sys' := by
  -- a task has the new id exactly when it is the new one
  have hold : ∀ id r, (Segment.task id).request sys'.service = some r →
      (id = new ∧ r = rng sys.drawn) ∨
        (id ≠ new ∧ (Segment.task id).request sys.service = some r) := by
    intro id r hr
    by_cases hid : id = new
    · subst hid
      rw [hnew, Option.some.injEq] at hr
      exact Or.inl ⟨rfl, hr.symm⟩
    · rw [hreq id hid] at hr
      exact Or.inr ⟨hid, hr⟩
  constructor
  case task_drawn =>
      intro id r hr
      rcases hold id r hr with ⟨_, rfl⟩ | ⟨_, hr⟩
      · exact ⟨sys.drawn, by omega, rfl⟩
      · obtain ⟨n, hn, heq⟩ := h.task_drawn id r hr
        exact ⟨n, by omega, heq⟩
  case call_drawn =>
      intro q hq
      obtain ⟨n, hn, heq⟩ := h.call_drawn q (hcalls q hq)
      exact ⟨n, by omega, heq⟩
  case inj =>
      intro id id' r hr hr'
      rcases hold id r hr with ⟨rfl, rfl⟩ | ⟨_, hr⟩
      · rcases hold id' _ hr' with ⟨rfl, _⟩ | ⟨_, hr'⟩
        · rfl
        · obtain ⟨n, hn, heq⟩ := h.task_drawn id' _ hr'
          exact absurd heq (not_drawn hrng hn)
      · rcases hold id' r hr' with ⟨_, rfl⟩ | ⟨_, hr'⟩
        · obtain ⟨n, hn, heq⟩ := h.task_drawn id _ hr
          exact absurd heq (not_drawn hrng hn)
        · exact h.inj id id' r hr hr'
  case apart =>
      intro q id hq hr
      rcases hold id q hr with ⟨_, rfl⟩ | ⟨_, hr⟩
      · obtain ⟨n, hn, heq⟩ := h.call_drawn _ (hcalls _ hq)
        exact not_drawn hrng hn heq
      · exact h.apart q id (hcalls q hq) hr

end Ids

/-! ### Segments and their tasks -/

section Tracked

variable {s s' : SendService}

/-- The segment has a task, and while it is pending its task is not reported as propagated unless a
Store confirmation is expected. -/
def Tracked (s : SendService) : Segment → Prop
  | .refused => True
  | .task id => ∃ task, s.tasks id = some task ∧
      ((s.checkStoreForMessages && !task.ephemeral) = false →
        (s.trace id).countP TaskEvent.isFinal = 0 → (s.trace id).countP TaskEvent.isPropagated = 0)

theorem request_eq_some {id : TaskId} {task : DeliveryTask} (htask : s.tasks id = some task) :
    (Segment.task id).request s = some task.requestId := by
  show (s.tasks id).map (·.requestId) = _
  rw [htask]
  rfl

theorem Tracked.sound {seg : Segment} (h : Tracked s seg) (hv : s.Valid) : seg.Sound s := by
  cases seg with
  | refused => exact ⟨rfl, fun hp => by cases hp⟩
  | task id =>
      obtain ⟨task, htask, _⟩ := h
      have honce := (hv.taskLife htask).final_once
      have hsum := countP_isFinal (s.trace id)
      refine ⟨?_, fun _ => ⟨task.requestId, request_eq_some htask⟩⟩
      show (decide _).toNat + (decide _).toNat + (decide _).toNat = 1
      by_cases hsent : 0 < (s.trace id).countP TaskEvent.isSent
      · rw [decide_eq_false (by omega), decide_eq_true hsent, decide_eq_false (by omega)]
        rfl
      · by_cases herror : 0 < (s.trace id).countP TaskEvent.isError
        · rw [decide_eq_false (by omega), decide_eq_false hsent, decide_eq_true herror]
          rfl
        · rw [decide_eq_true (by omega), decide_eq_false hsent, decide_eq_false herror]
          rfl

/-- A task that got no final event is as it was. -/
theorem same_of_counts {id : TaskId}
    (hreq : (Segment.task id).request s' = (Segment.task id).request s)
    (hsent : (s'.trace id).countP TaskEvent.isSent = (s.trace id).countP TaskEvent.isSent)
    (herror : (s'.trace id).countP TaskEvent.isError = (s.trace id).countP TaskEvent.isError) :
    (Segment.task id).Same s s' := by
  have hfinal : (s'.trace id).countP TaskEvent.isFinal = (s.trace id).countP TaskEvent.isFinal := by
    rw [countP_isFinal, countP_isFinal, hsent, herror]
  refine ⟨hreq, ?_, ?_, ?_⟩
  · show decide _ = decide _
    rw [hfinal]
  · show decide _ = decide _
    rw [hsent]
  · show decide _ = decide _
    rw [herror]

theorem same_of_trace {id : TaskId}
    (hreq : (Segment.task id).request s' = (Segment.task id).request s)
    (htrace : s'.trace id = s.trace id) : (Segment.task id).Same s s' :=
  same_of_counts hreq (by rw [htrace]) (by rw [htrace])

theorem same_refused (s s' : SendService) : Segment.refused.Same s s' := ⟨rfl, rfl, rfl, rfl⟩

/-- A task whose events and message are as they were is still tracked. -/
theorem Tracked.of_trace {id : TaskId} (h : Tracked s (.task id))
    (hcfg : s'.toSendConfig = s.toSendConfig)
    (htasks : (s'.tasks id).map DeliveryTask.origin = (s.tasks id).map DeliveryTask.origin)
    (htrace : s'.trace id = s.trace id) : Tracked s' (.task id) := by
  obtain ⟨task, htask, hquiet⟩ := h
  rw [htask] at htasks
  obtain ⟨task', htask', horigin⟩ := Option.map_eq_some_iff.mp htasks
  have hephemeral : task'.ephemeral = task.ephemeral := congrArg (·.2.2) horigin
  refine ⟨task', htask', ?_⟩
  rw [htrace, hephemeral, hcfg]
  exact hquiet

theorem request_of_origin {id : TaskId}
    (htasks : (s'.tasks id).map DeliveryTask.origin = (s.tasks id).map DeliveryTask.origin) :
    (Segment.task id).request s' = (Segment.task id).request s := by
  have hmap := congrArg (Option.map (·.1)) htasks
  rw [Option.map_map, Option.map_map] at hmap
  exact hmap

end Tracked

/-! ### The accounts of a channel -/

/-- How many segments of an accepted send are not dispatched. -/
def SendPhase.left? : SendPhase → Option ℕ
  | .dispatching left => some left
  | .returned (.ok _) => some 0
  | _ => none

section Accounts

variable {sys sys' : ChannelSystem} {q : RequestId}

/-- The books of a request that was accepted; any other one has left no trace. -/
def RequestAccount (sys : ChannelSystem) (q : RequestId) : Prop :=
  match (sys.calls q).bind (·.phase.left?) with
  | none => sys.channel.getReq q = none ∧ sys.segments q = [] ∧ sys.channel.eventsOf q = []
  | some left => Account sys.service sys.channel (sys.segments q) q left

theorem requestAccount_of_none (hleft : (sys.calls q).bind (·.phase.left?) = none) :
    RequestAccount sys q ↔
      sys.channel.getReq q = none ∧ sys.segments q = [] ∧ sys.channel.eventsOf q = [] := by
  unfold RequestAccount
  rw [hleft]

theorem requestAccount_of_some {left : ℕ} (hleft : (sys.calls q).bind (·.phase.left?) = some left) :
    RequestAccount sys q ↔ Account sys.service sys.channel (sys.segments q) q left := by
  unfold RequestAccount
  rw [hleft]

/-- **The invariant of an open channel.** -/
structure Accounts (sys : ChannelSystem) : Prop where
  keyed : sys.channel.Keyed
  listening : sys.channel.listening = true
  tracked : ∀ q, ∀ seg ∈ sys.segments q, Tracked sys.service seg
  once : ∀ q id, (sys.segments q).count (.task id) ≤ 1
  owner : ∀ q q' id, .task id ∈ sys.segments q → .task id ∈ sys.segments q' → q = q'
  request : ∀ q, RequestAccount sys q

theorem RequestAccount.congr (h : RequestAccount sys q) (hcalls : sys'.calls q = sys.calls q)
    (hsegs : sys'.segments q = sys.segments q)
    (hsame : ∀ seg ∈ sys.segments q, seg.Same sys.service sys'.service)
    (hid : sys'.channel.channelId = sys.channel.channelId)
    (hget : sys'.channel.getReq q = sys.channel.getReq q)
    (hev : sys'.channel.eventsOf q = sys.channel.eventsOf q) : RequestAccount sys' q := by
  cases hleft : (sys.calls q).bind (·.phase.left?) with
  | none =>
      rw [requestAccount_of_none hleft] at h
      rw [requestAccount_of_none (by rw [hcalls, hleft]), hsegs]
      exact ⟨hget.trans h.1, h.2.1, hev.trans h.2.2⟩
  | some left =>
      rw [requestAccount_of_some hleft] at h
      rw [requestAccount_of_some (by rw [hcalls, hleft]), hsegs]
      exact Account.congr h hsame hid hget hev

/-- A step that is about one request. -/
theorem Accounts.update (h : Accounts sys) (q : RequestId)
    (honly : ReliableChannel.Only q sys.channel sys'.channel)
    (hsame : ∀ q', q' ≠ q → ∀ seg ∈ sys.segments q', seg.Same sys.service sys'.service)
    (hcalls : ∀ q', q' ≠ q → sys'.calls q' = sys.calls q')
    (hsegs : ∀ q', q' ≠ q → sys'.segments q' = sys.segments q')
    (htracked : ∀ q', ∀ seg ∈ sys'.segments q', Tracked sys'.service seg)
    (honce : ∀ id, (sys'.segments q).count (.task id) ≤ 1)
    (howner : ∀ q' id, q' ≠ q → .task id ∈ sys'.segments q → .task id ∉ sys.segments q')
    (hq : RequestAccount sys' q) : Accounts sys' where
  keyed := honly.keyed
  listening := honly.listening.trans h.listening
  tracked := htracked
  once q' id := by
    by_cases hne : q' = q
    · rw [hne]
      exact honce id
    · rw [hsegs q' hne]
      exact h.once q' id
  owner q₁ q₂ id h₁ h₂ := by
    by_cases hne₁ : q₁ = q
    · by_cases hne₂ : q₂ = q
      · rw [hne₁, hne₂]
      · rw [hsegs q₂ hne₂] at h₂
        rw [hne₁] at h₁
        exact absurd h₂ (howner q₂ id hne₂ h₁)
    · rw [hsegs q₁ hne₁] at h₁
      by_cases hne₂ : q₂ = q
      · rw [hne₂] at h₂
        exact absurd h₁ (howner q₁ id hne₁ h₂)
      · rw [hsegs q₂ hne₂] at h₂
        exact h.owner q₁ q₂ id h₁ h₂
  request q' := by
    by_cases hne : q' = q
    · rw [hne]
      exact hq
    · exact (h.request q').congr (hcalls q' hne) (hsegs q' hne) (hsame q' hne) honly.channelId
        (honly.getReq q' hne) (honly.eventsOf q' hne)

/-- A step that the channel does not notice. -/
theorem Accounts.quiet (h : Accounts sys) (hchannel : sys'.channel = sys.channel)
    (hcalls : sys'.calls = sys.calls) (hsegs : sys'.segments = sys.segments)
    (hsame : ∀ q, ∀ seg ∈ sys.segments q, seg.Same sys.service sys'.service)
    (htracked : ∀ q, ∀ seg ∈ sys.segments q, Tracked sys'.service seg) : Accounts sys' := by
  refine ⟨?_, ?_, ?_, ?_, ?_, ?_⟩
  · rw [hchannel]
    exact h.keyed
  · rw [hchannel]
    exact h.listening
  · rw [hsegs]
    exact htracked
  · rw [hsegs]
    exact h.once
  · rw [hsegs]
    exact h.owner
  · intro q
    exact (h.request q).congr (by rw [hcalls]) (by rw [hsegs]) (hsame q) (by rw [hchannel])
      (by rw [hchannel]) (by rw [hchannel])

/-- A send goes on and leaves its request as it is. -/
theorem Accounts.setCall (h : Accounts sys) {call : SendCall}
    (hleft : call.phase.left? = (sys.calls q).bind (·.phase.left?)) :
    Accounts (sys.setCall q call) := by
  refine h.update q (ReliableChannel.Only.refl h.keyed q) (fun _ _ _ _ => ⟨rfl, rfl, rfl, rfl⟩)
    (fun q' hne => Function.update_of_ne hne _ _) (fun _ _ => rfl) h.tracked (h.once q) ?_ ?_
  · intro q' id hne hmem hmem'
    exact hne (h.owner q' q id hmem' hmem)
  · have hself : ((sys.setCall q call).calls q).bind (·.phase.left?) = call.phase.left? := by
      show (Function.update sys.calls q (some call) q).bind _ = _
      rw [Function.update_self]
      rfl
    have hreq := h.request q
    cases hq : (sys.calls q).bind (·.phase.left?) with
    | none =>
        rw [requestAccount_of_none hq] at hreq
        rw [requestAccount_of_none (by rw [hself, hleft, hq])]
        exact hreq
    | some left =>
        rw [requestAccount_of_some hq] at hreq
        rw [requestAccount_of_some (by rw [hself, hleft, hq])]
        exact hreq

/-- What a request in the table waits for. -/
theorem Accounts.open (h : Accounts sys) {state : ChannelReqState}
    (hget : sys.channel.getReq q = some state) :
    ∃ left, (sys.calls q).bind (·.phase.left?) = some left ∧ sys.channel.eventsOf q = [] ∧
      Counts sys.service (sys.segments q) left state ∧ 0 < state.totalExpectedSegments := by
  have hreq := h.request q
  cases hleft : (sys.calls q).bind (·.phase.left?) with
  | none =>
      rw [requestAccount_of_none hleft, hget] at hreq
      cases hreq.1
  | some left =>
      rw [requestAccount_of_some hleft] at hreq
      rcases hreq with ⟨state', hget', hev, hcounts, htotal, _⟩ | ⟨_, hnone, _⟩
      · rw [hget, Option.some.injEq] at hget'
        subst hget'
        exact ⟨left, rfl, hev, hcounts, htotal⟩
      · rw [hget] at hnone
        cases hnone

/-- The request of a pending segment is in the table, and it waits for it. -/
theorem Accounts.pending (h : Accounts sys) {seg : Segment} {r : RequestId}
    (hseg : seg ∈ sys.segments q) (hp : seg.pending sys.service = true)
    (hr : seg.request sys.service = some r) :
    ∃ state, sys.channel.getReq q = some state ∧ r ∈ state.inflightMessagingIds := by
  have hreq := h.request q
  cases hleft : (sys.calls q).bind (·.phase.left?) with
  | none =>
      rw [requestAccount_of_none hleft] at hreq
      rw [hreq.2.1] at hseg
      cases hseg
  | some left =>
      rw [requestAccount_of_some hleft] at hreq
      rcases hreq with ⟨state, hget, _, hcounts, _⟩ | ⟨_, _, hpending, _⟩
      · exact ⟨state, hget, (hcounts.mem r).mpr ⟨seg, hseg, hp, hr⟩⟩
      · rw [hpending seg hseg] at hp
        cases hp

end Accounts

/-! ### What the channel hears -/

section Hearing

variable {c : ReliableChannel} {events : List TaskEvent}

theorem hearEvent_of_not_final {e : TaskEvent} (he : e.isFinal = false) : c.hearEvent e = c := by
  cases e <;> first | rfl | cases he

theorem foldl_hearEvent_of_none (h : events.countP TaskEvent.isFinal = 0) :
    events.foldl ReliableChannel.hearEvent c = c := by
  induction events with
  | nil => rfl
  | cons e events ih =>
      have hnot : ∀ e' ∈ e :: events, ¬ e'.isFinal = true := List.countP_eq_zero.mp h
      rw [List.foldl_cons, hearEvent_of_not_final (by simpa using hnot e (List.mem_cons_self ..))]
      exact ih (List.countP_eq_zero.mpr fun e' he' => hnot e' (List.mem_cons_of_mem _ he'))

/-- Of the events of one task the channel hears the final one. -/
theorem foldl_hearEvent_of_one {r : RequestId}
    (hnamed : ∀ e ∈ events, ∀ r', e.requestId? = some r' → r' = r)
    (h : events.countP TaskEvent.isFinal = 1) :
    ∃ outcome, events.foldl ReliableChannel.hearEvent c = c.hear r outcome ∧
      events.countP TaskEvent.isSent = (decide (outcome = .sent)).toNat ∧
      events.countP TaskEvent.isError = (decide (outcome = .failed)).toNat := by
  induction events with
  | nil => cases h
  | cons e events ih =>
      have htail : ∀ e' ∈ events, ∀ r', e'.requestId? = some r' → r' = r :=
        fun e' he' => hnamed e' (List.mem_cons_of_mem _ he')
      rw [List.countP_cons] at h
      have hsplit := countP_isFinal events
      -- the head is the final event, or it is skipped
      cases e with
      | messageSent r' hash =>
          obtain rfl : r' = r := hnamed _ (List.mem_cons_self ..) r' rfl
          have hnone : events.countP TaskEvent.isFinal = 0 := by
            have hhead : TaskEvent.isFinal (.messageSent r' hash) = true := rfl
            rw [if_pos hhead] at h
            omega
          refine ⟨.sent, foldl_hearEvent_of_none hnone, ?_, ?_⟩
          · rw [List.countP_cons_of_pos rfl, show events.countP TaskEvent.isSent = 0 by omega]
            rfl
          · rw [List.countP_cons_of_neg (by simp [TaskEvent.isError]),
              show events.countP TaskEvent.isError = 0 by omega]
            rfl
      | messageError r' hash error =>
          obtain rfl : r' = r := hnamed _ (List.mem_cons_self ..) r' rfl
          have hnone : events.countP TaskEvent.isFinal = 0 := by
            have hhead : TaskEvent.isFinal (.messageError r' hash error) = true := rfl
            rw [if_pos hhead] at h
            omega
          refine ⟨.failed, foldl_hearEvent_of_none hnone, ?_, ?_⟩
          · rw [List.countP_cons_of_neg (by simp [TaskEvent.isSent]),
              show events.countP TaskEvent.isSent = 0 by omega]
            rfl
          · rw [List.countP_cons_of_pos rfl, show events.countP TaskEvent.isError = 0 by omega]
            rfl
      | messageQueued r' hash =>
          obtain ⟨outcome, heq, hsent, herror⟩ := ih htail h
          exact ⟨outcome, heq, hsent, herror⟩
      | messagePropagated r' hash =>
          obtain ⟨outcome, heq, hsent, herror⟩ := ih htail h
          exact ⟨outcome, heq, hsent, herror⟩
      | left =>
          obtain ⟨outcome, heq, hsent, herror⟩ := ih htail h
          exact ⟨outcome, heq, hsent, herror⟩

end Hearing

/-! ### A step of the send service -/

section Serving

variable {rng : ℕ → RequestId} {sys : ChannelSystem} {a : Action} {id₀ : TaskId}
  {events : List TaskEvent}

theorem serve_channel (hadv : sys.service.Advances a (sys.service.step a) id₀ events) :
    (sys.serve a).channel = events.foldl ReliableChannel.hearEvent sys.channel := by
  show ((sys.service.step a).log.drop sys.service.log.length).foldl _ _ = _
  rw [hadv.log, List.drop_left, List.foldl_map]

/-- A pending segment is not reported as propagated when no Store node is expected to confirm it. -/
theorem Accounts.not_reported (h : Accounts sys)
    (hadv : sys.service.Advances a (sys.service.step a) id₀ events)
    (hgood : sys.endsUnconfirmed (.service a) = false) {q : RequestId} {task : DeliveryTask}
    (hseg : .task id₀ ∈ sys.segments q) (htask : sys.service.tasks id₀ = some task)
    (hexpected : (sys.service.checkStoreForMessages && !task.ephemeral) = false)
    (hp : (Segment.task id₀).pending sys.service = true) :
    events.countP TaskEvent.isPropagated = 0 := by
  by_contra hpos
  obtain ⟨e, he, hprop⟩ := List.countP_pos_iff.mp (Nat.pos_of_ne_zero hpos)
  obtain ⟨r, task', rfl, htask', hends⟩ := hadv.reported ⟨e, he, hprop⟩
  rw [htask, Option.some.injEq] at htask'
  subst htask'
  obtain ⟨state, hget, hmem⟩ := h.pending hseg hp (request_eq_some htask)
  have hawaits := ReliableChannel.awaits_of_getReq h.keyed hget hmem
  have hno : (sys.service.delivery id₀ task).storeConfirmationExpected sys.service.toSendConfig =
      false := hexpected
  simp [ChannelSystem.endsUnconfirmed, htask, hawaits, hends, hno] at hgood

/-- After the step every segment is tracked. -/
theorem Accounts.tracked_serve (h : Accounts sys)
    (hadv : sys.service.Advances a (sys.service.step a) id₀ events)
    (hgood : sys.endsUnconfirmed (.service a) = false) (q : RequestId) :
    ∀ seg ∈ sys.segments q, Tracked (sys.service.step a) seg := by
  intro seg hseg
  cases seg with
  | refused => trivial
  | task id =>
      by_cases hid : id = id₀
      · subst hid
        obtain ⟨task, htask, hquiet⟩ := h.tracked q _ hseg
        have htasks := hadv.tasks id
        rw [htask] at htasks
        obtain ⟨task', htask', horigin⟩ := Option.map_eq_some_iff.mp htasks
        have hephemeral : task'.ephemeral = task.ephemeral := congrArg (·.2.2) horigin
        refine ⟨task', htask', ?_⟩
        rw [SendService.trace_append_self hadv.log, List.countP_append, List.countP_append,
          hephemeral, hadv.config]
        intro hexpected hfinal
        have hbefore : (sys.service.trace id).countP TaskEvent.isFinal = 0 := by omega
        rw [hquiet hexpected hbefore,
          h.not_reported hadv hgood hseg htask hexpected (decide_eq_true hbefore)]
      · exact (h.tracked q _ hseg).of_trace hadv.config (hadv.tasks id)
          (SendService.trace_append_of_ne hadv.log hid)

/-- Only the segment of the resumed task can change. -/
theorem same_serve (hadv : sys.service.Advances a (sys.service.step a) id₀ events) {seg : Segment}
    (hne : seg ≠ .task id₀) : seg.Same sys.service (sys.service.step a) := by
  cases seg with
  | refused => exact same_refused _ _
  | task id =>
      have hid : id ≠ id₀ := fun heq => hne (by rw [heq])
      exact same_of_trace (request_of_origin (hadv.tasks id))
        (SendService.trace_append_of_ne hadv.log hid)

/-- A step without a final event. -/
theorem Accounts.serve_quiet (h : Accounts sys)
    (hadv : sys.service.Advances a (sys.service.step a) id₀ events)
    (hgood : sys.endsUnconfirmed (.service a) = false)
    (hnone : events.countP TaskEvent.isFinal = 0) : Accounts (sys.serve a) := by
  refine h.quiet ?_ rfl rfl ?_ (h.tracked_serve hadv hgood)
  · rw [serve_channel hadv, foldl_hearEvent_of_none hnone]
  · intro q seg hseg
    by_cases hne : seg = .task id₀
    · have hsplit := countP_isFinal events
      subst hne
      refine same_of_counts (request_of_origin (hadv.tasks id₀)) ?_ ?_
      · show ((sys.service.step a).trace id₀).countP _ = _
        rw [SendService.trace_append_self hadv.log, List.countP_append]
        omega
      · show ((sys.service.step a).trace id₀).countP _ = _
        rw [SendService.trace_append_self hadv.log, List.countP_append]
        omega
    · exact same_serve hadv hne

/-- A step with a final event that no request waits for. -/
theorem Accounts.serve_unheard (h : Accounts sys)
    (hadv : sys.service.Advances a (sys.service.step a) id₀ events)
    (hgood : sys.endsUnconfirmed (.service a) = false)
    (hchannel : (sys.serve a).channel = sys.channel)
    (hforeign : ∀ q, .task id₀ ∉ sys.segments q) : Accounts (sys.serve a) := by
  refine h.quiet hchannel rfl rfl ?_ (h.tracked_serve hadv hgood)
  intro q seg hseg
  refine same_serve hadv ?_
  rintro rfl
  exact hforeign q hseg

/-- A step with the final event of a segment. -/
theorem Accounts.serve_final (h : Accounts sys) (hids : Ids rng sys) (hv : sys.service.Valid)
    (hadv : sys.service.Advances a (sys.service.step a) id₀ events)
    (hgood : sys.endsUnconfirmed (.service a) = false) {q : RequestId} {state : ChannelReqState}
    {task : DeliveryTask} {outcome : MessagingOutcome} (htask : sys.service.tasks id₀ = some task)
    (hget : sys.channel.getReq q = some state)
    (hmem : task.requestId ∈ state.inflightMessagingIds)
    (hended : (Segment.task id₀).Ended (sys.service.step a) outcome)
    (hchannel : (sys.serve a).channel = (sys.channel.setReq q
      (state.final task.requestId outcome)).tryFinalizeChannelReq q) : Accounts (sys.serve a) := by
  obtain ⟨left, hleft, hev, hcounts, htotal⟩ := h.open hget
  -- the request id is that of one task, and so of one segment
  have hunique : ∀ seg : Segment, seg.request sys.service = some task.requestId →
      seg = .task id₀ := by
    intro seg hr
    cases seg with
    | refused => cases hr
    | task id => rw [hids.inj id id₀ _ hr (request_eq_some htask)]
  obtain ⟨seg, hseg, hp, hr⟩ := (hcounts.mem _).mp hmem
  obtain rfl := hunique seg hr
  have hone : (sys.segments q).count (.task id₀) = 1 := by
    have hle := h.once q id₀
    have hpos := List.count_pos_iff.mpr hseg
    omega
  have hother : ∀ q', ∀ seg ∈ sys.segments q', seg ≠ .task id₀ →
      seg.Same sys.service (sys.service.step a) := fun _ _ _ hne => same_serve hadv hne
  have hcounts' := hcounts.final ((h.tracked q _ hseg).sound hv) hp hone
    (fun seg' _ _ hr' => hunique seg' hr') hr hended (hother q)
  have htracked := h.tracked_serve hadv hgood
  have honly : ReliableChannel.Only q sys.channel (sys.serve a).channel := by
    rw [hchannel]
    have hset := ReliableChannel.only_setReq h.keyed q (state.final task.requestId outcome)
    exact hset.trans (ReliableChannel.only_tryFinalize hset.keyed q)
  refine h.update q honly ?_ (fun _ _ => rfl) (fun _ _ => rfl) htracked (h.once q) ?_ ?_
  · intro q' hne seg' hseg'
    refine hother q' seg' hseg' ?_
    rintro rfl
    exact hne (h.owner q' q id₀ hseg' hseg)
  · intro q' id hne hq hq'
    exact hne (h.owner q' q id hq' hq)
  · have hleft' : ((sys.serve a).calls q).bind (·.phase.left?) = some left := hleft
    rw [requestAccount_of_some hleft', hchannel]
    refine account_tryFinalize (h.keyed.setReq q _) (ReliableChannel.getReq_setReq_self h.keyed) hev
      hcounts' ?_ (fun seg' hseg' => (htracked q seg' hseg').sound (hv.step a))
    cases outcome <;> exact htotal

theorem Accounts.serve (h : Accounts sys) (hids : Ids rng sys) (hv : sys.service.Valid)
    (ha : ∀ requestId msgHash ephemeral timestamp,
      a ≠ .enqueue requestId msgHash ephemeral timestamp)
    (hgood : sys.endsUnconfirmed (.service a) = false) : Accounts (sys.serve a) := by
  obtain ⟨id₀, events, hadv⟩ := hv.advances ha
  by_cases hnone : events.countP TaskEvent.isFinal = 0
  · exact h.serve_quiet hadv hgood hnone
  · -- a final event names the request of its task, and it is the only one
    obtain ⟨e, he, hfinal⟩ := List.countP_pos_iff.mp (Nat.pos_of_ne_zero hnone)
    obtain ⟨r, hr⟩ : ∃ r, e.requestId? = some r := by
      cases e <;> first | exact ⟨_, rfl⟩ | cases hfinal
    obtain ⟨task, htask, rfl⟩ := hadv.named e he r hr
    obtain ⟨task', htask', _⟩ : ∃ task', (sys.service.step a).tasks id₀ = some task' ∧
        task'.origin = task.origin := by
      have htasks := hadv.tasks id₀
      rw [htask] at htasks
      exact Option.map_eq_some_iff.mp htasks
    have honce := ((hv.step a).taskLife htask').final_once
    rw [SendService.trace_append_self hadv.log, List.countP_append] at honce
    have hbefore : (sys.service.trace id₀).countP TaskEvent.isFinal = 0 := by omega
    have hnamed : ∀ e ∈ events, ∀ r', e.requestId? = some r' → r' = task.requestId := by
      intro e' he' r' hr'
      obtain ⟨task'', htask'', heq⟩ := hadv.named e' he' r' hr'
      rw [htask, Option.some.injEq] at htask''
      rw [heq, htask'']
    obtain ⟨outcome, hheard, hsent, herror⟩ :=
      foldl_hearEvent_of_one (c := sys.channel) hnamed (by omega)
    rw [← serve_channel hadv, ReliableChannel.hear, if_pos h.listening] at hheard
    rcases ReliableChannel.onMessageFinal_cases h.keyed task.requestId outcome with
      ⟨hnowait, heq⟩ | ⟨q, state, hget, hmem, heq⟩
    · refine h.serve_unheard hadv hgood (hheard.trans heq) ?_
      intro q hseg
      obtain ⟨state, hget, hmem⟩ := h.pending hseg (decide_eq_true hbefore) (request_eq_some htask)
      exact hnowait q state hget hmem
    · refine h.serve_final hids hv hadv hgood htask hget hmem ?_ (hheard.trans heq)
      have hsplit := countP_isFinal (sys.service.trace id₀)
      constructor
      · show decide (((sys.service.step a).trace id₀).countP _ = 0) = false
        rw [SendService.trace_append_self hadv.log, List.countP_append]
        exact decide_eq_false (by omega)
      · show decide (0 < ((sys.service.step a).trace id₀).countP _) = _
        rw [SendService.trace_append_self hadv.log, List.countP_append, hsent,
          show (sys.service.trace id₀).countP TaskEvent.isSent = 0 by omega]
        cases outcome <;> rfl
      · show decide (0 < ((sys.service.step a).trace id₀).countP _) = _
        rw [SendService.trace_append_self hadv.log, List.countP_append, herror,
          show (sys.service.trace id₀).countP TaskEvent.isError = 0 by omega]
        cases outcome <;> rfl

end Serving

/-! ### A dispatch -/

section Dispatching

variable {rng : ℕ → RequestId} {sys sys' : ChannelSystem} {q : RequestId} {call : SendCall} {left : ℕ}

/-- A send that has segments to dispatch is in the table. -/
theorem Accounts.dispatching (h : Accounts sys) (hcall : sys.calls q = some call)
    (hphase : call.phase = .dispatching (left + 1)) :
    ∃ state, sys.channel.getReq q = some state ∧ sys.channel.eventsOf q = [] ∧
      Counts sys.service (sys.segments q) (left + 1) state ∧ 0 < state.totalExpectedSegments := by
  have hreq := h.request q
  rw [requestAccount_of_some (by rw [hcall, Option.bind_some, hphase]; rfl)] at hreq
  rcases hreq with ⟨state, hget, hev, hcounts, htotal, _⟩ | ⟨hzero, _⟩
  · exact ⟨state, hget, hev, hcounts, htotal⟩
  · cases hzero

/-- The channel waits for messaging requests only. -/
theorem Accounts.waits_for_task (h : Accounts sys) {r : RequestId} {state : ChannelReqState}
    (hget : sys.channel.getReq q = some state) (hmem : r ∈ state.inflightMessagingIds) :
    ∃ id, (Segment.task id).request sys.service = some r := by
  obtain ⟨_, _, _, hcounts, _⟩ := h.open hget
  obtain ⟨seg, _, _, hr⟩ := (hcounts.mem r).mp hmem
  cases seg with
  | refused => cases hr
  | task id => exact ⟨id, hr⟩

/-- An event that names no messaging request changes nothing. -/
theorem Accounts.hear_unknown (h : Accounts sys) {r : RequestId}
    (hr : ∀ id, (Segment.task id).request sys.service ≠ some r) (outcome : MessagingOutcome) :
    sys.channel.hear r outcome = sys.channel := by
  unfold ReliableChannel.hear
  rw [if_pos h.listening]
  rcases ReliableChannel.onMessageFinal_cases h.keyed r outcome with
    ⟨_, heq⟩ | ⟨_, _, hget, hmem, _⟩
  · exact heq
  · obtain ⟨id, hid⟩ := h.waits_for_task hget hmem
    exact absurd hid (hr id)

theorem Accounts.refused (h : Accounts sys) (hids : Ids rng sys) (hv : sys.service.Valid)
    (hcall : sys.calls q = some call) (hphase : call.phase = .dispatching (left + 1))
    (hservice : sys'.service = sys.service)
    (hchannel : sys'.channel = (sys.channel.hear q .failed).markSegmentFailed q)
    (hsegs : sys'.segments = Function.update sys.segments q (sys.segments q ++ [.refused]))
    (hcalls : sys'.calls =
      Function.update sys.calls q (some { call with phase := .dispatching left })) :
    Accounts sys' := by
  obtain ⟨state, hget, hev, hcounts, htotal⟩ := h.dispatching hcall hphase
  have hunknown := fun id => hids.apart q id (by rw [hcall]; simp)
  rw [h.hear_unknown hunknown, ReliableChannel.markSegmentFailed, hget] at hchannel
  have hset := ReliableChannel.only_setReq h.keyed q
    { state with failedCount := state.failedCount + 1 }
  have hself : sys'.segments q = sys.segments q ++ [.refused] := by
    rw [hsegs, Function.update_self]
  have hothers : ∀ q', q' ≠ q → sys'.segments q' = sys.segments q' := by
    intro q' hne
    rw [hsegs, Function.update_of_ne hne]
  have htracked : ∀ q', ∀ seg ∈ sys'.segments q', Tracked sys'.service seg := by
    intro q' seg hseg
    rw [hservice]
    by_cases hne : q' = q
    · rw [hne, hself, List.mem_append, List.mem_singleton] at hseg
      rcases hseg with hold | rfl
      · exact h.tracked q seg hold
      · trivial
    · rw [hothers q' hne] at hseg
      exact h.tracked q' seg hseg
  refine h.update q ?_ ?_ ?_ hothers htracked ?_ ?_ ?_
  · rw [hchannel]
    exact hset.trans (ReliableChannel.only_tryFinalize hset.keyed q)
  · intro q' _ seg _
    rw [hservice]
    exact ⟨rfl, rfl, rfl, rfl⟩
  · intro q' hne
    rw [hcalls, Function.update_of_ne hne]
  · intro id
    rw [hself, List.count_append]
    exact h.once q id
  · intro q' id hne hmem hmem'
    rw [hself, List.mem_append, List.mem_singleton] at hmem
    rcases hmem with hold | hnew
    · exact hne (h.owner q' q id hmem' hold)
    · cases hnew
  · rw [requestAccount_of_some (by rw [hcalls, Function.update_self]; rfl), hself, hchannel,
      hservice]
    refine account_tryFinalize hset.keyed (ReliableChannel.getReq_setReq_self h.keyed) hev
      hcounts.refuse htotal ?_
    intro seg hseg
    rw [← hself] at hseg
    have hsound := htracked q seg hseg
    rw [hservice] at hsound
    exact hsound.sound hv

theorem Accounts.accepted (h : Accounts sys) (hv : sys'.service.Valid)
    (hcall : sys.calls q = some call) (hphase : call.phase = .dispatching (left + 1))
    {id : TaskId} {r : RequestId}
    (hsame : ∀ q', ∀ seg ∈ sys.segments q', seg.Same sys.service sys'.service)
    (htrackedOld : ∀ q', ∀ seg ∈ sys.segments q', Tracked sys'.service seg)
    (htrackedNew : Tracked sys'.service (.task id))
    (hpending : (Segment.task id).pending sys'.service = true)
    (hr : (Segment.task id).request sys'.service = some r)
    (hforeign : ∀ q', .task id ∉ sys.segments q') (hawaits : sys.channel.awaits r = false)
    (hchannel : sys'.channel = sys.channel.markSegmentInflight q r)
    (hsegs : sys'.segments = Function.update sys.segments q (sys.segments q ++ [.task id]))
    (hcalls : sys'.calls =
      Function.update sys.calls q (some { call with phase := .dispatching left })) :
    Accounts sys' := by
  obtain ⟨state, hget, hev, hcounts, htotal⟩ := h.dispatching hcall hphase
  rw [ReliableChannel.markSegmentInflight, hget] at hchannel
  have hset := ReliableChannel.only_setReq h.keyed q
    { state with inflightMessagingIds := state.inflightMessagingIds ++ [r] }
  have hself : sys'.segments q = sys.segments q ++ [.task id] := by
    rw [hsegs, Function.update_self]
  have hothers : ∀ q', q' ≠ q → sys'.segments q' = sys.segments q' := by
    intro q' hne
    rw [hsegs, Function.update_of_ne hne]
  refine h.update q ?_ (fun q' _ => hsame q') ?_ hothers ?_ ?_ ?_ ?_
  · rw [hchannel]
    exact hset
  · intro q' hne
    rw [hcalls, Function.update_of_ne hne]
  · intro q' seg hseg
    by_cases hne : q' = q
    · rw [hne, hself, List.mem_append, List.mem_singleton] at hseg
      rcases hseg with hold | rfl
      · exact htrackedOld q seg hold
      · exact htrackedNew
    · rw [hothers q' hne] at hseg
      exact htrackedOld q' seg hseg
  · intro id'
    rw [hself, List.count_append, List.count_singleton]
    by_cases hid : id' = id
    · rw [hid, List.count_eq_zero.mpr (hforeign q)]
      split_ifs <;> omega
    · have hne : ¬ ((Segment.task id == Segment.task id') = true) := by
        rw [beq_iff_eq]
        intro heq
        exact hid (Segment.task.inj heq).symm
      rw [if_neg hne]
      exact h.once q id'
  · intro q' id' hne hmem hmem'
    rw [hself, List.mem_append, List.mem_singleton] at hmem
    rcases hmem with hold | hnew
    · exact hne (h.owner q' q id' hmem' hold)
    · rw [hnew] at hmem'
      exact hforeign q' hmem'
  · rw [requestAccount_of_some (by rw [hcalls, Function.update_self]; rfl), hself, hchannel]
    refine Or.inl ⟨_, ReliableChannel.getReq_setReq_self h.keyed, hev, ?_, htotal, ?_⟩
    · refine (hcounts.congr (hsame q)).inflight (htrackedNew.sound hv) hpending hr ?_
      intro hmem
      rw [ReliableChannel.awaits_of_getReq h.keyed hget hmem] at hawaits
      cases hawaits
    · exact Or.inr (by simp)

/-- The queue gets one more task. -/
theorem add_tasks_of_some {s : SendService} (hv : s.Valid) (new : DeliveryTask) {id : TaskId}
    {task : DeliveryTask} (htask : s.tasks id = some task) : (s.add new).tasks id = some task := by
  rw [SendService.add_tasks, Function.update_of_ne, htask]
  rintro rfl
  rw [hv.fresh _ le_rfl] at htask
  cases htask

theorem Accounts.same_add (h : Accounts sys) (hv : sys.service.Valid) (new : DeliveryTask)
    (q' : RequestId) : ∀ seg ∈ sys.segments q',
      seg.Same sys.service (sys.service.add new) ∧ Tracked (sys.service.add new) seg := by
  intro seg hseg
  cases seg with
  | refused => exact ⟨same_refused _ _, trivial⟩
  | task id =>
      obtain ⟨task, htask, _⟩ := h.tracked q' _ hseg
      have hadd := add_tasks_of_some hv new htask
      refine ⟨same_of_trace ?_ rfl, (h.tracked q' _ hseg).of_trace rfl ?_ rfl⟩
      · rw [request_eq_some hadd, request_eq_some htask]
      · rw [hadd, htask]

/-- A segment in a task of its own. -/
theorem Accounts.accepted_new (hrng : Function.Injective rng) (h : Accounts sys)
    (hids : Ids rng sys) (hv : sys.service.Valid)
    (hcall : sys.calls q = some call) (hphase : call.phase = .dispatching (left + 1))
    {new : DeliveryTask} (hnew : (sys.service.add new).Valid) (hr : new.requestId = rng sys.drawn)
    (hservice : sys'.service = sys.service.add new)
    (hchannel : sys'.channel = sys.channel.markSegmentInflight q (rng sys.drawn))
    (hsegs : sys'.segments = Function.update sys.segments q
      (sys.segments q ++ [.task sys.service.nextTask]))
    (hcalls : sys'.calls =
      Function.update sys.calls q (some { call with phase := .dispatching left })) :
    Accounts sys' := by
  have hfresh := hv.fresh _ le_rfl
  have htask : (sys.service.add new).tasks sys.service.nextTask = some new :=
    Function.update_self _ _ _
  have htrace : (sys.service.add new).trace sys.service.nextTask = [] := hv.silent _ hfresh
  refine h.accepted (by rw [hservice]; exact hnew) hcall hphase ?_ ?_ ?_ ?_ ?_ ?_ ?_ hchannel hsegs
    hcalls
  · intro q' seg hseg
    rw [hservice]
    exact (h.same_add hv new q' seg hseg).1
  · intro q' seg hseg
    rw [hservice]
    exact (h.same_add hv new q' seg hseg).2
  · rw [hservice]
    refine ⟨new, htask, ?_⟩
    rw [htrace]
    exact fun _ _ => rfl
  · rw [hservice]
    show decide (((sys.service.add new).trace _).countP _ = 0) = true
    rw [htrace]
    rfl
  · rw [hservice, request_eq_some htask, hr]
  · intro q' hseg
    obtain ⟨task, htask', _⟩ := h.tracked q' _ hseg
    rw [hfresh] at htask'
    cases htask'
  · -- the new id is the id of no task
    by_contra hawaits
    rw [Bool.not_eq_false, ReliableChannel.awaits, List.any_eq_true] at hawaits
    obtain ⟨⟨q', state⟩, hmem, hin⟩ := hawaits
    rw [decide_eq_true_eq] at hin
    obtain ⟨id, hreq⟩ :=
      h.waits_for_task ((ReliableChannel.getReq_eq_some_iff h.keyed).mpr hmem) hin
    obtain ⟨n, hn, heq⟩ := hids.task_drawn id _ hreq
    exact not_drawn hrng hn heq

/-- A segment in a queued task that has its final event before it, and that the channel does not wait
for. -/
theorem Accounts.accepted_folded (h : Accounts sys) (hv : sys.service.Valid)
    (hcall : sys.calls q = some call) (hphase : call.phase = .dispatching (left + 1))
    {id : TaskId} {task : DeliveryTask} (htask : sys.service.tasks id = some task)
    (hqueued : sys.service.isQueued id task = true)
    (hawaits : sys.channel.awaits task.requestId = false)
    (hsettled : (task.propagatedEventEmitted &&
      !(sys.service.delivery id task).awaitsStoreValidation sys.service.toSendConfig) = false)
    (hservice : sys'.service = sys.service)
    (hchannel : sys'.channel = sys.channel.markSegmentInflight q task.requestId)
    (hsegs : sys'.segments = Function.update sys.segments q (sys.segments q ++ [.task id]))
    (hcalls : sys'.calls =
      Function.update sys.calls q (some { call with phase := .dispatching left })) :
    Accounts sys' := by
  have hbooked := (hv.consistent id task htask).booked
  unfold BookedDelivery at hbooked
  rw [show sys.service.trace id ++ (sys.service.delivery id task).events = sys.service.trace id
    from List.append_nil _, show (sys.service.delivery id task).queued = true from hqueued] at hbooked
  -- when it is reported as propagated, it waits for a Store node
  have hwaits : task.propagatedEventEmitted = true →
      (sys.service.delivery id task).awaitsStoreValidation sys.service.toSendConfig = true := by
    intro hemitted
    rw [hemitted, Bool.true_and, Bool.not_eq_false'] at hsettled
    exact hsettled
  have hpending : (sys.service.trace id).countP TaskEvent.isFinal = 0 := by
    refine hbooked.final_count ?_
    cases hemitted : (sys.service.delivery id task).task.propagatedEventEmitted with
    | false => rfl
    | true => exact awaits_not_mixed (hwaits hemitted)
  refine h.accepted (by rw [hservice]; exact hv) hcall hphase ?_ ?_ ?_ ?_ ?_ ?_ hawaits hchannel
    hsegs hcalls
  · intro q' seg _
    rw [hservice]
    exact ⟨rfl, rfl, rfl, rfl⟩
  · intro q' seg hseg
    rw [hservice]
    exact h.tracked q' seg hseg
  · rw [hservice]
    refine ⟨task, htask, ?_⟩
    intro hexpected _
    rw [hbooked.propagated_count]
    cases hemitted : (sys.service.delivery id task).task.propagatedEventEmitted with
    | false => rfl
    | true =>
        have hw := hwaits hemitted
        unfold Delivery.awaitsStoreValidation at hw
        rw [show (sys.service.delivery id task).storeConfirmationExpected sys.service.toSendConfig =
          false from hexpected] at hw
        cases hw
  · rw [hservice]
    exact decide_eq_true hpending
  · rw [hservice, request_eq_some htask]
  · intro q' hseg
    obtain ⟨state, hget, hmem⟩ := h.pending hseg (decide_eq_true hpending) (request_eq_some htask)
    rw [ReliableChannel.awaits_of_getReq h.keyed hget hmem] at hawaits
    cases hawaits

end Dispatching

end LogosDelivery.Channels
