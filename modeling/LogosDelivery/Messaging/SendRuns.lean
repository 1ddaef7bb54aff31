import LogosDelivery.Messaging.SendEvents

/-! # Runs of the send service

A step of the service resumes at most one coroutine, and what it does to the other tasks is nothing
that `Consistent` speaks of.  So the invariant of a delivery holds of every task along every run
(`Valid`), together with what the table of queued tasks needs: its keys are the hashes of its tasks,
no key occurs twice, and it is never larger than the capacity. -/

namespace LogosDelivery.Messaging

open StoreSync (WakuMessageHash)

/-! ### What a task keeps -/

/-- What no step changes of a task. -/
def DeliveryTask.origin (task : DeliveryTask) : RequestId × WakuMessageHash × Bool :=
  (task.requestId, task.msgHash, task.ephemeral)

/-- The request that an event names. -/
def TaskEvent.requestId? : TaskEvent → Option RequestId
  | messageQueued requestId _ => some requestId
  | messagePropagated requestId _ => some requestId
  | messageSent requestId _ => some requestId
  | messageError requestId _ _ => some requestId
  | left => none

/-- The resumption ends an attempt after which the task is propagated. -/
def Delivery.endsPropagated (d : Delivery) (r : Delivery.Resumption) : Bool :=
  decide (d.task.state = .successfullyPropagated) &&
    match r, d.task.phase with
    | .processEnd _, .processEnded => true
    | .admissionEnd _, .admissionEnded admitted => !admitted
    | _, _ => false

/-- What can become of `before`: it stays the delivery of its message, its new events name its
request, and it does not enter the queue.  It is reported as propagated only when `reports`. -/
structure Delivery.Of (d before : Delivery) (reports : Prop) : Prop where
  origin : d.task.origin = before.task.origin
  queued : d.queued = true → before.queued = true
  emitted : d.task.propagatedEventEmitted = true →
    before.task.propagatedEventEmitted = true ∨ reports
  events : ∀ e ∈ d.events, ∀ r, e.requestId? = some r → r = before.task.requestId

namespace Delivery.Of

variable {before d : Delivery} {reports : Prop}

theorem start (h : d.events = []) : d.Of d reports :=
  ⟨rfl, id, Or.inl, by rw [h]; simp⟩

/-- A step that keeps the request, the message and the events. -/
theorem congr {d' : Delivery} (h : d.Of before reports)
    (horigin : d'.task.origin = d.task.origin) (hqueued : d'.queued = d.queued)
    (hemitted : d'.task.propagatedEventEmitted = d.task.propagatedEventEmitted)
    (hevents : d'.events = d.events) :
    d'.Of before reports :=
  ⟨horigin.trans h.origin, hqueued ▸ h.queued, hemitted ▸ h.emitted, hevents ▸ h.events⟩

theorem await (h : d.Of before reports) (phase : Phase) :
    (d.await phase).Of before reports := h.congr rfl rfl rfl rfl

theorem ended (h : d.Of before reports) : d.ended.Of before reports :=
  h.congr rfl rfl rfl rfl

theorem emit (h : d.Of before reports) {e : TaskEvent}
    (he : ∀ r, e.requestId? = some r → r = d.task.requestId) :
    (d.emit e).Of before reports := by
  refine ⟨h.origin, h.queued, h.emitted, ?_⟩
  intro e' he' r hr
  rcases List.mem_append.mp he' with hold | hnew
  · exact h.events e' hold r hr
  · obtain rfl := List.mem_singleton.mp hnew
    exact (he r hr).trans (congrArg (·.1) h.origin)

/-- An event that names the request of the task. -/
theorem report (h : d.Of before reports) {e : TaskEvent}
    (he : e.requestId? = some d.task.requestId) : (d.emit e).Of before reports := by
  refine h.emit ?_
  intro r hr
  rw [he] at hr
  exact (Option.some.inj hr).symm

theorem finish (h : d.Of before reports) : d.finish.Of before reports := by
  unfold Delivery.finish
  split_ifs
  · have hleft := h.emit (e := .left) (fun r hr => by cases hr)
    exact ⟨h.origin, (fun hq => by cases hq), h.emitted,
      hleft.events⟩
  · exact h

theorem refuse (h : d.Of before reports) (errorDesc : String) :
    (d.refuse errorDesc).Of before reports := h.congr rfl rfl rfl rfl

theorem fail (h : d.Of before reports) (errorDesc : String) :
    (d.fail errorDesc).Of before reports :=
  ((h.refuse errorDesc).report rfl).finish

theorem reportPropagated (h : d.Of before reports) (cfg : SendConfig)
    (hreports : reports) : (d.reportPropagated cfg).Of before reports := by
  have hp := h.report (e := .messagePropagated d.task.requestId d.task.msgHash) rfl
  have hp' : Delivery.Of
      { d.emit (.messagePropagated d.task.requestId d.task.msgHash) with
        task := { d.task with propagatedEventEmitted := true } } before reports :=
    ⟨hp.origin, hp.queued, fun _ => Or.inr hreports, hp.events⟩
  unfold Delivery.reportPropagated
  dsimp only
  split_ifs
  · exact hp'.report rfl
  · exact hp'

theorem reportTaskQueued (h : d.Of before reports) :
    d.reportTaskQueued.Of before reports := by
  unfold Delivery.reportTaskQueued
  split_ifs
  · exact h
  · have hq := h.report (e := .messageQueued d.task.requestId d.task.msgHash) rfl
    exact hq.congr rfl rfl rfl rfl

theorem beginAttempt (h : d.Of before reports) (reading : Reading) :
    (d.beginAttempt reading).Of before reports := by
  unfold Delivery.beginAttempt
  split_ifs
  · exact h.await _
  · exact h.await _

theorem awaitRetry (h : d.Of before reports) (cfg : SendConfig) (reading : Reading) :
    (d.awaitRetry cfg reading).Of before reports := by
  have hs : Delivery.Of { d with task := { d.task with state := .nextRoundRetry } } before reports :=
    h.congr rfl rfl rfl rfl
  unfold Delivery.awaitRetry
  dsimp only
  rcases failExpired_cases cfg _ reading with ⟨errorDesc, hfail⟩ | hkeep
  · rw [hfail]
    exact (hs.fail errorDesc).await _
  · rw [hkeep]
    exact hs.await .retryTick

theorem endAttempt (h : d.Of before reports) (cfg : SendConfig) (reading : Reading)
    (hreports : d.task.state = .successfullyPropagated → reports) :
    (d.endAttempt cfg reading).Of before reports := by
  have hretry := h.awaitRetry cfg reading
  unfold Delivery.endAttempt
  cases hstate : d.task.state with
  | successfullyPropagated => exact (h.reportPropagated cfg (hreports hstate)).await _
  | failedToDeliver => exact (h.fail _).await _
  | entry => exact hretry
  | successfullyValidated => exact hretry
  | fallbackRetry => exact hretry
  | nextRoundRetry => exact hretry

theorem awaitNextRound (h : d.Of before reports) :
    Delivery.Of { d with task := d.task.awaitNextRound } before reports := by
  unfold DeliveryTask.awaitNextRound
  split_ifs
  · exact h.congr rfl rfl rfl rfl
  · exact h

theorem onSendImpl (h : d.Of before reports) (outcome : SendOutcome) (last : Bool)
    (now : ℤ) : (d.onSendImpl outcome last now).Of before reports := by
  have hs : Delivery.Of { d with task := d.task.sendImpl outcome now } before reports := by
    cases outcome <;> exact h.congr rfl rfl rfl rfl
  unfold Delivery.onSendImpl
  dsimp only
  split_ifs
  · exact hs
  · exact hs.awaitNextRound.await _

theorem endStoreWait (h : d.Of before reports) (started now : ℤ) :
    (d.endStoreWait started now).Of before reports := h.congr rfl rfl rfl rfl

theorem confirmed (h : d.Of before reports) :
    d.confirmed.Of before reports := by
  have hv : Delivery.Of { d with task := { d.task with state := .successfullyValidated } } before reports := h.congr rfl rfl rfl rfl
  exact (hv.report rfl).finish

theorem afterSend (h : d.Of before reports) (cfg : SendConfig) (now : ℤ) :
    (d.afterSend cfg now).Of before reports := by
  unfold Delivery.afterSend
  split_ifs
  · unfold Delivery.waitForStoreValidation
    split_ifs
    · exact h.congr rfl rfl rfl rfl
    · exact ((h.fail _).endStoreWait now now).ended
  · exact h.finish.ended

theorem onStoreAnswer (h : d.Of before reports) (started now : ℤ) :
    (d.onStoreAnswer started now).Of before reports := by
  unfold Delivery.onStoreAnswer
  cases d.task.storeAnswer with
  | none => exact h
  | some answer =>
      cases answer with
      | pending => exact h
      | completed => exact (h.confirmed.endStoreWait started now).ended
      | cancelled => exact ((h.fail _).endStoreWait started now).ended

theorem cancelled (h : d.Of before reports) (now : ℤ) :
    (d.cancelled now).Of before reports := by
  unfold Delivery.cancelled
  cases d.task.phase with
  | storeAnswer started => exact (h.endStoreWait started now).awaitNextRound.ended
  | _ => exact h.awaitNextRound.ended

theorem resume (h : d.Of before reports) {cfg : SendConfig} {r : Delivery.Resumption} {d' : Delivery}
    (hr : d.resume cfg r = some d') (hreports : d.endsPropagated r = true → reports) :
    d'.Of before reports := by
  cases r with
  | deliver reading =>
      obtain ⟨_, rfl⟩ := of_ite_some hr
      unfold Delivery.deliver
      split_ifs
      · exact h.afterSend cfg _
      · exact h.beginAttempt reading
  | admitAndProve failure =>
      obtain ⟨_, rfl⟩ := of_ite_some hr
      unfold Delivery.admitAndProve
      cases failure with
      | some errorDesc => exact (h.refuse errorDesc).await _
      | none =>
          dsimp only
          split_ifs
          · exact h.await _
          · exact h.await _
          · exact h.await _
  | quotaState quotaState =>
      obtain ⟨_, rfl⟩ := of_ite_some hr
      cases quotaState with
      | none => exact h.await _
      | some quota => exact (h.refuse _).await _
  | admitting admitted now =>
      obtain ⟨_, rfl⟩ := of_ite_some hr
      unfold Delivery.onAdmit
      split_ifs
      · exact h.congr rfl rfl rfl rfl
      · exact h.reportTaskQueued.await _
  | attachRlnProof result =>
      obtain ⟨_, rfl⟩ := of_ite_some hr
      cases result with
      | attached => exact h.await _
      | permanent error => exact (h.refuse _).await _
      | transient => exact h.await _
  | admissionError =>
      obtain ⟨_, rfl⟩ := of_ite_some hr
      exact h.await _
  | admissionEnd reading =>
      obtain ⟨admitted, hphase, rfl⟩ := resume_admissionEnd hr
      unfold Delivery.onAdmissionEnd
      split_ifs with hadmitted
      · exact h.await _
      · refine h.endAttempt cfg reading (fun hstate => hreports ?_)
        simp [Delivery.endsPropagated, hphase, hstate, hadmitted]
  | process =>
      obtain ⟨_, rfl⟩ := of_ite_some hr
      exact h.await _
  | sendImpl outcome last now =>
      obtain ⟨_, rfl⟩ := of_ite_some hr
      exact h.onSendImpl outcome last now
  | processError =>
      obtain ⟨_, rfl⟩ := of_ite_some hr
      exact h.await _
  | processEnd reading =>
      obtain ⟨hphase, rfl⟩ := of_ite_some hr
      refine h.endAttempt cfg reading (fun hstate => hreports ?_)
      simp [Delivery.endsPropagated, hphase, hstate]
  | retry reading =>
      obtain ⟨_, rfl⟩ := of_ite_some hr
      exact h.beginAttempt reading
  | sendEnd now =>
      obtain ⟨propagated, hphase, rfl⟩ := resume_sendEnd hr
      unfold Delivery.onSendEnd
      split_ifs
      · exact h.afterSend cfg now
      · exact h.ended
  | storeTimeout =>
      obtain ⟨_, rfl⟩ := of_ite_some hr
      exact h.congr rfl rfl rfl rfl
  | storeEnd now =>
      obtain ⟨started, hphase, rfl⟩ := resume_storeEnd hr
      exact h.onStoreAnswer started now
  | cancel now =>
      obtain ⟨_, rfl⟩ := of_ite_some hr
      exact h.cancelled now

end Delivery.Of

/-! ### The table and the log -/

namespace SendService

/-- The service after its creation. -/
def initial (cfg : SendConfig) : SendService := { toSendConfig := cfg }

/-- The tasks of the queue. -/
def queuedTasks (s : SendService) : List DeliveryTask :=
  s.deliveryTasks.filterMap (fun e => s.tasks e.2)

/-- A task as its coroutine finds it. -/
def delivery (s : SendService) (id : TaskId) (task : DeliveryTask) : Delivery :=
  { task := task, queued := s.isQueued id task }

variable {s s' : SendService}

theorem lookup_eq_some_iff (hkeys : (s.deliveryTasks.map (·.1)).Nodup) {msgHash : WakuMessageHash}
    {id : TaskId} : s.lookup msgHash = some id ↔ (msgHash, id) ∈ s.deliveryTasks :=
  Lib.lookup_eq_some_iff hkeys

theorem isQueued_iff (hkeys : (s.deliveryTasks.map (·.1)).Nodup) {id : TaskId} {task : DeliveryTask} :
    s.isQueued id task = true ↔ (task.msgHash, id) ∈ s.deliveryTasks := by
  unfold isQueued
  rw [decide_eq_true_eq, lookup_eq_some_iff hkeys]

theorem trace_append {new : List (TaskId × TaskEvent)} (hlog : s'.log = s.log ++ new) (id : TaskId) :
    s'.trace id = s.trace id ++ (new.filter (fun e => decide (e.1 = id))).map (·.2) := by
  unfold trace
  rw [hlog, List.filter_append, List.map_append]

/-- Events of one task. -/
theorem trace_append_self {id : TaskId} {events : List TaskEvent}
    (hlog : s'.log = s.log ++ events.map (fun e => (id, e))) : s'.trace id = s.trace id ++ events := by
  rw [trace_append hlog]
  congr 1
  rw [List.filter_map, List.map_map, List.filter_eq_self.mpr ?_]
  · exact List.map_id' _
  · simp

theorem trace_append_of_ne {id id' : TaskId} {events : List TaskEvent}
    (hlog : s'.log = s.log ++ events.map (fun e => (id, e))) (hne : id' ≠ id) :
    s'.trace id' = s.trace id' := by
  rw [trace_append hlog, List.filter_eq_nil_iff.mpr ?_]
  · exact List.append_nil _
  · intro e he
    obtain ⟨_, _, rfl⟩ := List.mem_map.mp he
    simpa using hne.symm

/-! ### The invariant of a service -/

/-- **The invariant of the service.** -/
structure Valid (s : SendService) : Prop where
  fresh : ∀ id, s.nextTask ≤ id → s.tasks id = none
  silent : ∀ id, s.tasks id = none → s.trace id = []
  keys : (s.deliveryTasks.map (·.1)).Nodup
  entries : ∀ e ∈ s.deliveryTasks, ∃ task, s.tasks e.2 = some task ∧ task.msgHash = e.1
  capacity : s.deliveryTasks.length ≤ s.sendQueueCapacity
  consistent : ∀ id task, s.tasks id = some task →
    Consistent s.toSendConfig (s.trace id) (s.delivery id task)

theorem Valid.initial (cfg : SendConfig) : (initial cfg).Valid where
  fresh _ _ := rfl
  silent _ _ := rfl
  keys := List.nodup_nil
  entries e he := by cases he
  capacity := Nat.zero_le _
  consistent id task h := by cases h

/-- A step that changes the tasks in no other way than the invariant of a delivery allows, and keeps
the queue and the log. -/
structure Updates (s s' : SendService) (f : TaskId → DeliveryTask → DeliveryTask) : Prop where
  config : s'.toSendConfig = s.toSendConfig
  next : s'.nextTask = s.nextTask
  table : s'.deliveryTasks = s.deliveryTasks
  log : s'.log = s.log
  tasks : ∀ id, s'.tasks id = (s.tasks id).map (f id)
  origin : ∀ id task, (f id task).origin = task.origin
  keeps : ∀ id task trace queued,
    Consistent s.toSendConfig trace { task := task, queued := queued } →
      Consistent s.toSendConfig trace { task := f id task, queued := queued }

variable {f : TaskId → DeliveryTask → DeliveryTask}

theorem Updates.valid (hu : Updates s s' f) (h : s.Valid) : s'.Valid := by
  have htrace : ∀ id, s'.trace id = s.trace id := by
    intro id
    unfold trace
    rw [hu.log]
  have hhash : ∀ id task, (f id task).msgHash = task.msgHash :=
    fun id task => congrArg (·.2.1) (hu.origin id task)
  have hqueued : ∀ id task, s'.isQueued id (f id task) = s.isQueued id task := by
    intro id task
    unfold isQueued lookup
    rw [hu.table, hhash]
  constructor
  case fresh =>
      intro id hid
      rw [hu.next] at hid
      rw [hu.tasks, h.fresh id hid]
      rfl
  case silent =>
      intro id hid
      rw [hu.tasks, Option.map_eq_none_iff] at hid
      rw [htrace, h.silent id hid]
  case keys =>
      rw [hu.table]
      exact h.keys
  case entries =>
      intro e he
      rw [hu.table] at he
      obtain ⟨task, htask, hkey⟩ := h.entries e he
      exact ⟨f e.2 task, by rw [hu.tasks, htask]; rfl, (hhash _ _).trans hkey⟩
  case capacity =>
      rw [hu.table, hu.config]
      exact h.capacity
  case consistent =>
      intro id task htask
      rw [hu.tasks, Option.map_eq_some_iff] at htask
      obtain ⟨old, hold, rfl⟩ := htask
      have hc := hu.keeps id old _ _ (h.consistent id old hold)
      rw [hu.config, htrace]
      unfold delivery
      rw [hqueued]
      exact hc

/-- A step that changes neither the tasks nor the queue. -/
theorem Updates.of_eq (hcfg : s'.toSendConfig = s.toSendConfig) (hnext : s'.nextTask = s.nextTask)
    (htable : s'.deliveryTasks = s.deliveryTasks) (hlog : s'.log = s.log)
    (htasks : s'.tasks = s.tasks) : Updates s s' (fun _ task => task) where
  config := hcfg
  next := hnext
  table := htable
  log := hlog
  tasks id := by rw [htasks, Option.map_id']
  origin _ _ := rfl
  keeps _ _ _ _ hc := hc

theorem updates_startSendService (s : SendService) :
    Updates s s.startSendService (fun _ task => task) := by
  unfold SendService.startSendService
  split_ifs
  · exact Updates.of_eq rfl rfl rfl rfl rfl
  · exact Updates.of_eq rfl rfl rfl rfl rfl

theorem updates_take (s : SendService) (id : TaskId) (r : Delivery.Resumption) :
    Updates s (s.take id r) (fun _ task => task) := by
  cases r <;> exact Updates.of_eq rfl rfl rfl rfl rfl

theorem updates_stopSendService (s : SendService) :
    Updates s s.stopSendService (fun id task =>
      if s.isQueued id task ∧ task.phase ≠ .idle then { task with cancelling := true } else task) := by
  refine ⟨rfl, rfl, rfl, rfl, fun _ => rfl, ?_, ?_⟩
  · intro id task
    split_ifs <;> rfl
  · intro id task trace queued hc
    split_ifs
    · exact hc.congr rfl rfl rfl rfl rfl rfl rfl rfl
    · exact hc

theorem updates_retryNow (s : SendService) :
    Updates s s.retryNow (fun _ task =>
      if task.phase = .retryTick then { task with phase := .retryFired } else task) := by
  refine ⟨rfl, rfl, rfl, rfl, fun _ => rfl, ?_, ?_⟩
  · intro id task
    split_ifs <;> rfl
  · intro id task trace queued hc
    split_ifs with hphase
    · -- both are phases of `sendUntilPropagated`
      have hs := hc.sending (by rw [hphase]; rfl)
      exact Sending.consistent ⟨hs.booked, hs.emitted, hs.queued⟩ rfl
    · exact hc

theorem consistent_answered {cfg : SendConfig} {reported : List WakuMessageHash} {id : TaskId}
    {task : DeliveryTask} {trace : List TaskEvent} {queued : Bool}
    (h : Consistent cfg trace { task := task, queued := queued }) :
    Consistent cfg trace { task := s.answered reported id task, queued := queued } := by
  unfold answered
  split_ifs
  · exact h.congr rfl rfl rfl rfl rfl rfl rfl rfl
  · exact h

theorem answered_origin (reported : List WakuMessageHash) (id : TaskId) (task : DeliveryTask) :
    (s.answered reported id task).origin = task.origin := by
  unfold answered
  split_ifs <;> rfl

theorem updates_storeResponse (s : SendService) (batch : List TaskId)
    (reported : List WakuMessageHash) (paginated canResend : Bool) :
    Updates s (s.storeResponse batch reported paginated canResend) (fun id task =>
      let task := s.answered reported id task
      if !paginated && canResend && s.startsResend batch reported id task then
        { task with resendCount := task.resendCount + 1 } else task) := by
  refine ⟨rfl, rfl, rfl, rfl, fun _ => rfl, ?_, ?_⟩
  · intro id task
    dsimp only
    split_ifs
    · exact answered_origin reported id task
    · exact answered_origin reported id task
  · intro id task trace queued hc
    have ha : Consistent s.toSendConfig trace
        { task := s.answered reported id task, queued := queued } := consistent_answered hc
    dsimp only
    split_ifs
    · exact ha.congr rfl rfl rfl rfl rfl rfl rfl rfl
    · exact ha

/-! ### Enqueue -/

/-- What `enqueue` does: it names a queued task, refuses the message, or adds a task. -/
theorem enqueue_cases (s : SendService) (requestId : RequestId) (msgHash : WakuMessageHash)
    (ephemeral : Bool) (timestamp : ℤ) :
    (∃ id task, s.lookup msgHash = some id ∧ s.tasks id = some task ∧
      s.enqueue requestId msgHash ephemeral timestamp = (s, .ok task.requestId)) ∨
    ((s.lookup msgHash).bind s.tasks = none ∧ s.isFull = true ∧
      s.enqueue requestId msgHash ephemeral timestamp =
        (s, .error "Send queue full, retry later")) ∨
    ((s.lookup msgHash).bind s.tasks = none ∧ s.isFull = false ∧
      s.enqueue requestId msgHash ephemeral timestamp =
        (s.add { requestId := requestId, msgHash := msgHash, ephemeral := ephemeral,
                 timestamp := timestamp }, .ok requestId)) := by
  unfold enqueue
  cases hqueued : (s.lookup msgHash).bind s.tasks with
  | some task =>
      obtain ⟨id, hid, htask⟩ := Option.bind_eq_some_iff.mp hqueued
      exact Or.inl ⟨id, task, hid, htask, rfl⟩
  | none =>
      cases hfull : s.isFull with
      | true => exact Or.inr (Or.inl ⟨rfl, rfl, rfl⟩)
      | false => exact Or.inr (Or.inr ⟨rfl, rfl, rfl⟩)

/-- A hash that no queued task has is no key of the table. -/
theorem Valid.not_key (h : s.Valid) {msgHash : WakuMessageHash}
    (hnone : (s.lookup msgHash).bind s.tasks = none) : msgHash ∉ s.deliveryTasks.map (·.1) := by
  intro hmem
  obtain ⟨⟨key, id⟩, he, rfl⟩ := List.mem_map.mp hmem
  obtain ⟨task, htask, _⟩ := h.entries _ he
  rw [(lookup_eq_some_iff h.keys).mpr he, Option.bind_some, htask] at hnone
  cases hnone

theorem add_tasks (s : SendService) (task : DeliveryTask) :
    (s.add task).tasks = Function.update s.tasks s.nextTask (some task) := rfl

theorem add_deliveryTasks (s : SendService) (task : DeliveryTask) :
    (s.add task).deliveryTasks = s.deliveryTasks ++ [(task.msgHash, s.nextTask)] := rfl

/-- A new task has no coroutine and no event. -/
theorem consistent_new (cfg : SendConfig) (requestId : RequestId) (msgHash : WakuMessageHash)
    (ephemeral : Bool) (timestamp : ℤ) :
    Consistent cfg []
      { task := { requestId := requestId, msgHash := msgHash, ephemeral := ephemeral,
                  timestamp := timestamp }
        queued := true } := by
  refine Or.inl ⟨?_, rfl, rfl⟩
  exact ⟨taskLife_nil, rfl, rfl, fun _ => rfl, fun _ => rfl, by simp⟩

theorem Valid.add (h : s.Valid) {task : DeliveryTask}
    (hkey : task.msgHash ∉ s.deliveryTasks.map (·.1))
    (hlt : s.deliveryTasks.length < s.sendQueueCapacity)
    (hnew : Consistent s.toSendConfig [] { task := task, queued := true }) :
    (s.add task).Valid := by
  have hfresh : s.tasks s.nextTask = none := h.fresh _ le_rfl
  have hkeys : ((s.add task).deliveryTasks.map (·.1)).Nodup := by
    rw [add_deliveryTasks, List.map_append]
    exact Lib.nodup_append_singleton h.keys hkey
  constructor
  case fresh =>
      intro id hid
      have hlt : s.nextTask < id := hid
      rw [add_tasks, Function.update_of_ne hlt.ne']
      exact h.fresh id hlt.le
  case silent =>
      intro id hid
      by_cases hne : id = s.nextTask
      · subst hne
        exact h.silent _ hfresh
      · rw [add_tasks, Function.update_of_ne hne] at hid
        exact h.silent id hid
  case keys => exact hkeys
  case entries =>
      intro e he
      rw [add_deliveryTasks] at he
      rcases List.mem_append.mp he with hold | hlast
      · obtain ⟨task', htask, hhash⟩ := h.entries e hold
        refine ⟨task', ?_, hhash⟩
        rw [add_tasks, Function.update_of_ne, htask]
        intro heq
        rw [heq, hfresh] at htask
        cases htask
      · obtain rfl := List.mem_singleton.mp hlast
        exact ⟨task, Function.update_self _ _ _, rfl⟩
  case capacity =>
      rw [add_deliveryTasks, List.length_append, List.length_singleton]
      exact hlt
  case consistent =>
      intro id task' htask
      rcases Lib.mem_table_set htask with ⟨rfl, rfl⟩ | ⟨hne, hold⟩
      · unfold delivery
        rw [(isQueued_iff hkeys).mpr (List.mem_append_right _ (List.mem_singleton_self _))]
        show Consistent s.toSendConfig (s.trace s.nextTask) _
        rw [h.silent _ hfresh]
        exact hnew
      · -- the new entry is that of another task
        have hqueued : (s.add task).isQueued id task' = s.isQueued id task' := by
          rw [Bool.eq_iff_iff, isQueued_iff hkeys, isQueued_iff h.keys, add_deliveryTasks,
            List.mem_append, List.mem_singleton, Prod.mk.injEq]
          constructor
          · rintro (hmem | ⟨_, heq⟩)
            · exact hmem
            · exact absurd heq hne
          · exact Or.inl
        exact (h.consistent id task' hold).congr rfl rfl rfl rfl rfl rfl hqueued rfl

theorem Valid.enqueue (h : s.Valid) (requestId : RequestId) (msgHash : WakuMessageHash)
    (ephemeral : Bool) (timestamp : ℤ) :
    (s.enqueue requestId msgHash ephemeral timestamp).1.Valid := by
  rcases enqueue_cases s requestId msgHash ephemeral timestamp with
    ⟨_, _, _, _, heq⟩ | ⟨_, _, heq⟩ | ⟨hnone, hfull, heq⟩
  · rw [heq]
    exact h
  · rw [heq]
    exact h
  · rw [heq]
    refine h.add (h.not_key hnone) ?_ (consistent_new _ _ _ _ _)
    simpa [isFull] using hfull

/-! ### Resuming a coroutine -/

theorem commit_tasks (s : SendService) (id : TaskId) (d : Delivery) :
    (s.commit id d).tasks = Function.update s.tasks id (some d.task) := rfl

theorem commit_deliveryTasks (s : SendService) (id : TaskId) (d : Delivery) :
    (s.commit id d).deliveryTasks =
      if d.queued then s.deliveryTasks
      else s.deliveryTasks.filter (fun e => decide (e.2 ≠ id)) := rfl

theorem mem_commit_deliveryTasks {id : TaskId} {d : Delivery} {e : WakuMessageHash × TaskId} :
    e ∈ (s.commit id d).deliveryTasks ↔ e ∈ s.deliveryTasks ∧ (d.queued = true ∨ e.2 ≠ id) := by
  rw [commit_deliveryTasks]
  split_ifs with hq
  · simp [hq]
  · simp [hq]

theorem commit_deliveryTasks_sublist (s : SendService) (id : TaskId) (d : Delivery) :
    (s.commit id d).deliveryTasks.Sublist s.deliveryTasks := by
  rw [commit_deliveryTasks]
  split_ifs
  · exact List.Sublist.refl _
  · exact List.filter_sublist

/-- What a coroutine may write back: it cannot put its task into the queue again. -/
theorem Valid.commit (h : s.Valid) {id : TaskId} {task : DeliveryTask} (htask : s.tasks id = some task)
    {d : Delivery} (hhash : d.task.msgHash = task.msgHash)
    (hqueued : d.queued = true → s.isQueued id task = true)
    (hd : Consistent s.toSendConfig (s.trace id) d) : (s.commit id d).Valid := by
  have hkeys : ((s.commit id d).deliveryTasks.map (·.1)).Nodup :=
    h.keys.sublist ((commit_deliveryTasks_sublist s id d).map _)
  constructor
  case fresh =>
      intro id' hid
      have hold := h.fresh id' hid
      rw [commit_tasks, Function.update_of_ne, hold]
      rintro rfl
      rw [htask] at hold
      cases hold
  case silent =>
      intro id' hid
      by_cases hne : id' = id
      · rw [hne, commit_tasks, Function.update_self] at hid
        cases hid
      · rw [commit_tasks, Function.update_of_ne hne] at hid
        rw [trace_append_of_ne (s := s) rfl hne, h.silent id' hid]
  case keys => exact hkeys
  case entries =>
      intro e he
      obtain ⟨task', htask', hkey⟩ := h.entries e (mem_commit_deliveryTasks.mp he).1
      by_cases hne : e.2 = id
      · rw [hne, htask, Option.some.injEq] at htask'
        subst htask'
        rw [hne]
        exact ⟨d.task, Function.update_self _ _ _, hhash.trans hkey⟩
      · exact ⟨task', by rw [commit_tasks, Function.update_of_ne hne, htask'], hkey⟩
  case capacity => exact (commit_deliveryTasks_sublist s id d).length_le.trans h.capacity
  case consistent =>
      intro id' task' htask'
      rcases Lib.mem_table_set htask' with ⟨rfl, rfl⟩ | ⟨hne, hold⟩
      · have hq : (s.commit id' d).isQueued id' d.task = d.queued := by
          rw [Bool.eq_iff_iff, isQueued_iff hkeys, mem_commit_deliveryTasks, hhash,
            ← isQueued_iff h.keys]
          constructor
          · rintro ⟨_, hq | hne⟩
            · exact hq
            · exact absurd rfl hne
          · exact fun hq => ⟨hqueued hq, Or.inl hq⟩
        rw [trace_append_self (s := s) rfl]
        exact hd.congr rfl rfl rfl rfl rfl rfl hq (List.append_nil _)
      · have hq : (s.commit id d).isQueued id' task' = s.isQueued id' task' := by
          rw [Bool.eq_iff_iff, isQueued_iff hkeys, isQueued_iff h.keys, mem_commit_deliveryTasks]
          exact ⟨fun hm => hm.1, fun hm => ⟨hm, Or.inr hne⟩⟩
        rw [trace_append_of_ne (s := s) rfl hne]
        exact (h.consistent id' task' hold).congr rfl rfl rfl rfl rfl rfl hq rfl

theorem take_eq (s : SendService) (id : TaskId) (r : Delivery.Resumption) :
    ∃ soon, s.take id r = { s with soon := soon } := by
  cases r with
  | deliver reading => exact ⟨_, rfl⟩
  | _ => exact ⟨s.soon, rfl⟩

/-- A resumption of the service: nothing but a callback is used up, or a coroutine runs. -/
theorem resume_cases (s : SendService) (id : TaskId) (r : Delivery.Resumption) :
    Updates s (s.resume id r) (fun _ task => task) ∨
      ∃ task d soon, s.tasks id = some task ∧ (s.delivery id task).resume s.toSendConfig r = some d ∧
        s.grants id task r = true ∧ s.resume id r = { s with soon := soon }.commit id d := by
  unfold SendService.resume
  cases htask : s.tasks id with
  | none => exact Or.inl (Updates.of_eq rfl rfl rfl rfl rfl)
  | some task =>
      dsimp only
      split_ifs with hgrant
      · cases hr : Delivery.resume s.toSendConfig { task := task, queued := s.isQueued id task } r with
        | none => exact Or.inl (updates_take s id r)
        | some d =>
            obtain ⟨soon, hsoon⟩ := take_eq s id r
            rw [hsoon]
            exact Or.inr ⟨task, d, soon, rfl, hr, hgrant, rfl⟩
      · exact Or.inl (updates_take s id r)

theorem Valid.resumed (h : s.Valid) {id : TaskId} {task : DeliveryTask} {r : Delivery.Resumption}
    {d : Delivery} (htask : s.tasks id = some task)
    (hr : (s.delivery id task).resume s.toSendConfig r = some d) (hgrant : s.grants id task r = true) :
    Consistent s.toSendConfig (s.trace id) d := by
  refine (h.consistent id task htask).resume hr ?_
  rintro reading rfl
  simp only [grants, Bool.and_eq_true] at hgrant
  exact hgrant.2

theorem Valid.resume (h : s.Valid) (id : TaskId) (r : Delivery.Resumption) :
    (s.resume id r).Valid := by
  rcases resume_cases s id r with hu | ⟨task, d, soon, htask, hr, hgrant, heq⟩
  · exact hu.valid h
  · have hof := (Delivery.Of.start rfl).resume hr (fun h => h)
    have hd := h.resumed htask hr hgrant
    have hsoon : Updates s { s with soon := soon } (fun _ task => task) :=
      Updates.of_eq rfl rfl rfl rfl rfl
    rw [heq]
    exact (hsoon.valid h).commit htask (congrArg (·.2.1) hof.origin) hof.queued hd

/-- What a step does: a message is enqueued, a coroutine is resumed, or the tasks are updated. -/
theorem step_cases (s : SendService) (a : Action) :
    (∃ requestId msgHash ephemeral timestamp, a = .enqueue requestId msgHash ephemeral timestamp) ∨
      (∃ id r, a = .resume id r) ∨ ∃ f, Updates s (s.step a) f := by
  cases a with
  | enqueue requestId msgHash ephemeral timestamp => exact Or.inl ⟨_, _, _, _, rfl⟩
  | resume id r => exact Or.inr (Or.inl ⟨_, _, rfl⟩)
  | startSendService => exact Or.inr (Or.inr ⟨_, updates_startSendService s⟩)
  | stopSendService => exact Or.inr (Or.inr ⟨_, updates_stopSendService s⟩)
  | retryNow => exact Or.inr (Or.inr ⟨_, updates_retryNow s⟩)
  | storeResponse batch reported paginated canResend =>
      exact Or.inr (Or.inr ⟨_, updates_storeResponse s batch reported paginated canResend⟩)
  | resendEnd msgHash => exact Or.inr (Or.inr ⟨_, Updates.of_eq rfl rfl rfl rfl rfl⟩)

theorem Valid.step (h : s.Valid) (a : Action) : (s.step a).Valid := by
  rcases step_cases s a with ⟨_, _, _, _, rfl⟩ | ⟨id, r, rfl⟩ | ⟨f, hu⟩
  · exact h.enqueue _ _ _ _
  · exact h.resume id r
  · exact hu.valid h

theorem step_config (s : SendService) (a : Action) : (s.step a).toSendConfig = s.toSendConfig := by
  rcases step_cases s a with ⟨requestId, msgHash, ephemeral, timestamp, rfl⟩ | ⟨id, r, rfl⟩ | ⟨f, hu⟩
  · show (s.enqueue requestId msgHash ephemeral timestamp).1.toSendConfig = _
    rcases enqueue_cases s requestId msgHash ephemeral timestamp with
      ⟨_, _, _, _, heq⟩ | ⟨_, _, heq⟩ | ⟨_, _, heq⟩
    · rw [heq]
    · rw [heq]
    · rw [heq]
      rfl
  · show (s.resume id r).toSendConfig = _
    rcases resume_cases s id r with hu | ⟨_, _, _, _, _, _, heq⟩
    · exact hu.config
    · rw [heq]
      rfl
  · exact hu.config

/-! ### Every run -/

/-- The service after the actions. -/
def after (cfg : SendConfig) (actions : List Action) : SendService :=
  Lib.run step (initial cfg) actions

theorem valid_after (cfg : SendConfig) (actions : List Action) : (after cfg actions).Valid := by
  induction actions using List.reverseRecOn with
  | nil => exact Valid.initial cfg
  | append_singleton actions a ih =>
      unfold after
      rw [Lib.run_concat]
      exact ih.step a

theorem after_config (cfg : SendConfig) (actions : List Action) :
    (after cfg actions).toSendConfig = cfg := by
  induction actions using List.reverseRecOn with
  | nil => rfl
  | append_singleton actions a ih =>
      unfold after
      rw [Lib.run_concat, step_config]
      exact ih

end SendService

/-- In every phase the books of a delivery are kept. -/
theorem Consistent.booked {cfg : SendConfig} {trace : List TaskEvent} {d : Delivery}
    (h : Consistent cfg trace d) :
    BookedDelivery cfg trace d d.task.propagatedEventEmitted d.queued := by
  have hs : Sending cfg trace d → BookedDelivery cfg trace d d.task.propagatedEventEmitted d.queued := by
    intro hs
    rw [hs.emitted, hs.queued]
    exact hs.booked
  have hp : Propagated cfg trace d →
      BookedDelivery cfg trace d d.task.propagatedEventEmitted d.queued := by
    intro hp
    rw [hp.emitted, hp.queued]
    exact hp.booked
  have hg : Gone cfg trace d → BookedDelivery cfg trace d d.task.propagatedEventEmitted d.queued := by
    intro hg
    rw [hg.queued]
    exact hg.booked
  unfold Consistent at h
  split at h
  · rcases h with h | h | h
    · exact hs h
    · exact hp h
    · exact hg h
  · exact hp h
  · exact hg h
  · exact hp h.1
  · exact hs h

namespace SendService

variable {s : SendService}

theorem Valid.taskLife (h : s.Valid) {id : TaskId} {task : DeliveryTask}
    (htask : s.tasks id = some task) :
    TaskLife (s.checkStoreForMessages && !task.ephemeral) (s.trace id) := by
  have hlife := (h.consistent id task htask).booked.life
  rw [show s.trace id ++ (s.delivery id task).events = s.trace id from List.append_nil _] at hlife
  exact hlife

/-- The log says when a task left the queue. -/
theorem Valid.left_iff (h : s.Valid) {id : TaskId} {task : DeliveryTask}
    (htask : s.tasks id = some task) :
    .left ∈ s.trace id ↔ (task.msgHash, id) ∉ s.deliveryTasks := by
  have hleft := (h.consistent id task htask).booked.left_iff
  rw [show s.trace id ++ (s.delivery id task).events = s.trace id from List.append_nil _] at hleft
  rw [hleft, ← isQueued_iff h.keys, Bool.not_eq_true]
  rfl

/-! ### What a step adds to the log -/

/-- A step other than `enqueue`: its events belong to one task and name its request, and no task
changes its message. -/
structure Advances (s : SendService) (a : Action) (s' : SendService) (id : TaskId)
    (events : List TaskEvent) : Prop where
  config : s'.toSendConfig = s.toSendConfig
  log : s'.log = s.log ++ events.map (fun e => (id, e))
  tasks : ∀ id', (s'.tasks id').map DeliveryTask.origin = (s.tasks id').map DeliveryTask.origin
  named : ∀ e ∈ events, ∀ r, e.requestId? = some r → ∃ task, s.tasks id = some task ∧ r = task.requestId
  /-- Only the end of an attempt reports a task as propagated. -/
  reported : (∃ e ∈ events, e.isPropagated) → ∃ r task, a = .resume id r ∧ s.tasks id = some task ∧
    (s.delivery id task).endsPropagated r = true

theorem Updates.advances {s' : SendService} {f : TaskId → DeliveryTask → DeliveryTask}
    (hu : Updates s s' f) (a : Action) : Advances s a s' 0 [] where
  config := hu.config
  log := by simpa using hu.log
  tasks id := by
    rw [hu.tasks, Option.map_map]
    congr 1
    exact funext (hu.origin id)
  named e he := by cases he
  reported h := by
    obtain ⟨e, he, _⟩ := h
    cases he

theorem Valid.advances_resume (h : s.Valid) (id : TaskId) (r : Delivery.Resumption) :
    ∃ id' events, Advances s (.resume id r) (s.resume id r) id' events := by
  rcases resume_cases s id r with hu | ⟨task, d, soon, htask, hr, hgrant, heq⟩
  · exact ⟨0, [], hu.advances _⟩
  · have hof : d.Of (s.delivery id task) ((s.delivery id task).endsPropagated r = true) :=
      (Delivery.Of.start rfl).resume hr (fun h => h)
    refine ⟨id, d.events, ?_⟩
    rw [heq]
    constructor
    case config => rfl
    case log => rfl
    case tasks =>
        intro id'
        by_cases hne : id' = id
        · rw [hne, commit_tasks, Function.update_self, htask]
          exact congrArg some hof.origin
        · rw [commit_tasks, Function.update_of_ne hne]
    case named => exact fun e he r' hr' => ⟨task, htask, hof.events e he r' hr'⟩
    case reported =>
        rintro ⟨e, he, hprop⟩
        refine ⟨r, task, rfl, htask, ?_⟩
        -- the books of the task say that it was not reported before
        have hbefore := (h.consistent id task htask).booked.propagated_count
        have hafter := (h.resumed htask hr hgrant).booked.propagated_count
        rw [show (s.delivery id task).events = [] from rfl, List.append_nil] at hbefore
        rw [List.countP_append, hbefore] at hafter
        have hpos : 0 < d.events.countP TaskEvent.isPropagated :=
          List.countP_pos_iff.mpr ⟨e, he, hprop⟩
        have hle := Bool.toNat_le d.task.propagatedEventEmitted
        have hemitted : d.task.propagatedEventEmitted = true := by
          cases hd : d.task.propagatedEventEmitted with
          | true => rfl
          | false =>
              rw [hd, Bool.toNat_false] at hafter
              omega
        rcases hof.emitted hemitted with hold | hends
        · rw [hold, Bool.toNat_true] at hafter
          omega
        · exact hends

theorem Valid.advances (h : s.Valid) {a : Action}
    (ha : ∀ requestId msgHash ephemeral timestamp,
      a ≠ .enqueue requestId msgHash ephemeral timestamp) :
    ∃ id events, Advances s a (s.step a) id events := by
  rcases step_cases s a with ⟨_, _, _, _, rfl⟩ | ⟨id, r, rfl⟩ | ⟨f, hu⟩
  · exact absurd rfl (ha _ _ _ _)
  · exact h.advances_resume id r
  · exact ⟨0, [], hu.advances a⟩

/-! ### The life of every task -/

/-- The keys of the table are the hashes of its tasks. -/
theorem Valid.queuedTasks_hashes (h : s.Valid) :
    s.queuedTasks.map (·.msgHash) = s.deliveryTasks.map (·.1) := by
  unfold queuedTasks
  rw [List.map_filterMap]
  have hall : ∀ e ∈ s.deliveryTasks, (s.tasks e.2).map (·.msgHash) = some e.1 := by
    intro e he
    obtain ⟨task, htask, hhash⟩ := h.entries e he
    rw [htask, Option.map_some, hhash]
  rw [List.filterMap_congr hall, List.filterMap_eq_map']

/-- **Send events follow the life of a task**, in every run of the service; a task left the queue
exactly when its trace says so, and the queue holds no message twice and is within its capacity. -/
theorem taskLife_after (cfg : SendConfig) (actions : List Action) :
    (∀ id task, (after cfg actions).tasks id = some task →
      TaskLife (cfg.checkStoreForMessages && !task.ephemeral) ((after cfg actions).trace id) ∧
        (.left ∈ (after cfg actions).trace id ↔
          (task.msgHash, id) ∉ (after cfg actions).deliveryTasks)) ∧
      ((after cfg actions).queuedTasks.map (·.msgHash)).Nodup ∧
      (after cfg actions).queuedTasks.length = (after cfg actions).deliveryTasks.length ∧
      (after cfg actions).deliveryTasks.length ≤ cfg.sendQueueCapacity := by
  have hvalid := valid_after cfg actions
  have hcfg := after_config cfg actions
  refine ⟨?_, ?_, ?_, ?_⟩
  · intro id task htask
    have hlife := hvalid.taskLife htask
    rw [hcfg] at hlife
    exact ⟨hlife, hvalid.left_iff htask⟩
  · rw [hvalid.queuedTasks_hashes]
    exact hvalid.keys
  · have hlen := congrArg List.length hvalid.queuedTasks_hashes
    rwa [List.length_map, List.length_map] at hlen
  · have hcap := hvalid.capacity
    rwa [hcfg] at hcap

def oneMessage : WakuMessageHash := StoreSync.constFingerprint 7

/-- The second attempt of a task propagates, the service is stopped and started again, and a Store
peer then reports the message. -/
def confirmedAfterRestart : List Action :=
  let reading : Reading := { now := 0, actual := 0, needsRlnProof := false }
  [.startSendService, .enqueue "request" oneMessage false 0,
    .resume 0 (.deliver reading), .resume 0 (.admitAndProve none), .resume 0 (.admitting false 0),
    .resume 0 (.admissionEnd reading), .retryNow, .resume 0 (.retry reading),
    .resume 0 (.admitAndProve none), .resume 0 (.admitting true 0),
    .resume 0 (.attachRlnProof .attached), .resume 0 (.admissionEnd reading), .resume 0 .process,
    .resume 0 (.sendImpl (.propagated false) true 0), .resume 0 (.processEnd reading),
    .resume 0 (.sendEnd 0), .stopSendService, .resume 0 (.cancel 5), .startSendService,
    .resume 0 (.deliver reading), .storeResponse [0] [oneMessage] false true,
    .resume 0 (.storeEnd 9)]

def oneByOne : SendConfig where
  checkStoreForMessages := true
  maxDeliveryTime := 60
  maxParkedAge := 60
  maxValidationAge := 60
  sendQueueCapacity := 1
  maxSendsInFlight := 1

theorem taskLife_confirmedAfterRestart :
    (after oneByOne confirmedAfterRestart).trace 0 =
        [.messageQueued "request" oneMessage, .messagePropagated "request" oneMessage,
          .messageSent "request" oneMessage, .left] ∧
      TaskLife true ((after oneByOne confirmedAfterRestart).trace 0) := by
  refine ⟨by decide +kernel, ?_⟩
  have hephemeral : ((after oneByOne confirmedAfterRestart).tasks 0).map (·.ephemeral) =
      some false := by decide +kernel
  obtain ⟨task, htask, hfalse⟩ := Option.map_eq_some_iff.mp hephemeral
  have hlife := ((taskLife_after oneByOne confirmedAfterRestart).1 0 task htask).1
  rw [hfalse] at hlife
  exact hlife

end SendService

end LogosDelivery.Messaging
