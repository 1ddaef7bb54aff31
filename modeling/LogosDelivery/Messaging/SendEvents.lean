import LogosDelivery.Lib.Runs
import LogosDelivery.Messaging.SendService

/-! # The events of a task

`TaskLife` says which events a task may get and when it may leave the queue.  It follows from an
invariant of a single delivery (`Consistent`): the two flags of the task count its events, while it
is queued it has no final event unless it went out over mix, and the phase of its coroutine says
which part of its life it is in.  Every resumption keeps the invariant (`Consistent.resume`), and a
step of the service changes at most one delivery in any other way than the invariant ignores. -/

namespace LogosDelivery.Messaging

open StoreSync (WakuMessageHash)

namespace TaskEvent

def isQueued : TaskEvent → Bool
  | messageQueued _ _ => true
  | _ => false

def isPropagated : TaskEvent → Bool
  | messagePropagated _ _ => true
  | _ => false

def isSent : TaskEvent → Bool
  | messageSent _ _ => true
  | _ => false

def isError : TaskEvent → Bool
  | messageError _ _ _ => true
  | _ => false

/-- The event that says how the send ended. -/
def isFinal (e : TaskEvent) : Bool := e.isSent || e.isError

theorem not_isQueued_of_isFinal {e : TaskEvent} (he : e.isFinal = true) : e.isQueued = false := by
  cases e <;> first | rfl | cases he

theorem not_isPropagated_of_isFinal {e : TaskEvent} (he : e.isFinal = true) :
    e.isPropagated = false := by
  cases e <;> first | rfl | cases he

end TaskEvent

/-- The life of a task that a Store confirmation is expected for, or not. -/
structure TaskLife (expected : Bool) (trace : List TaskEvent) : Prop where
  queued_once : trace.countP TaskEvent.isQueued ≤ 1
  propagated_once : trace.countP TaskEvent.isPropagated ≤ 1
  final_once : trace.countP TaskEvent.isFinal ≤ 1
  /-- A `MessageSentEvent` comes after the `MessagePropagatedEvent`. -/
  sent_after : ∀ pre e post, trace = pre ++ e :: post → e.isSent → ∃ e' ∈ pre, e'.isPropagated
  left_last : ∀ pre post, trace = pre ++ .left :: post → post = []
  /-- The task leaves the queue after its final event, or propagated when no confirmation is
  expected. -/
  left_after : ∀ pre post, trace = pre ++ .left :: post →
    (∃ e ∈ pre, e.isFinal) ∨ (expected = false ∧ ∃ e ∈ pre, e.isPropagated)

/-! ### Traces that grow -/

section Growing

variable {expected : Bool} {trace : List TaskEvent}

theorem taskLife_nil : TaskLife expected [] := by
  constructor <;> simp

/-- What an event must meet to be the next one. -/
structure Allowed (expected : Bool) (trace : List TaskEvent) (e : TaskEvent) : Prop where
  not_left : .left ∉ trace
  queued : e.isQueued → trace.countP TaskEvent.isQueued = 0
  propagated : e.isPropagated → trace.countP TaskEvent.isPropagated = 0
  final : e.isFinal → trace.countP TaskEvent.isFinal = 0
  sent : e.isSent → ∃ e' ∈ trace, e'.isPropagated
  left : e = .left → (∃ e' ∈ trace, e'.isFinal) ∨ (expected = false ∧ ∃ e' ∈ trace, e'.isPropagated)

/-- An element of a list with one more is the last one, or an element from before. -/
theorem split_concat {α : Type} {x y : α} {post : List α} : ∀ {pre l : List α},
    l ++ [x] = pre ++ y :: post →
    (l = pre ∧ x = y ∧ post = []) ∨ ∃ post', post = post' ++ [x] ∧ l = pre ++ y :: post'
  | [], [], h => by simpa [eq_comm] using h
  | [], a :: l, h => by
      obtain ⟨rfl, rfl⟩ := List.cons.inj h
      exact Or.inr ⟨l, rfl, rfl⟩
  | a :: pre, [], h => by simp at h
  | a :: pre, b :: l, h => by
      obtain ⟨rfl, htail⟩ := List.cons.inj h
      rcases split_concat htail with ⟨rfl, hxy, hpost⟩ | ⟨post', hpost, rfl⟩
      · exact Or.inl ⟨rfl, hxy, hpost⟩
      · exact Or.inr ⟨post', hpost, rfl⟩

theorem countP_concat_le {α : Type} {l : List α} {x : α} {p : α → Bool} (h : l.countP p ≤ 1)
    (hx : p x → l.countP p = 0) : (l ++ [x]).countP p ≤ 1 := by
  rw [List.countP_append, List.countP_singleton]
  split_ifs with hp
  · rw [hx hp]
  · exact h

theorem TaskLife.concat (h : TaskLife expected trace) {e : TaskEvent} (he : Allowed expected trace e) :
    TaskLife expected (trace ++ [e]) where
  queued_once := countP_concat_le h.queued_once he.queued
  propagated_once := countP_concat_le h.propagated_once he.propagated
  final_once := countP_concat_le h.final_once he.final
  sent_after := by
    intro pre e' post hsplit hsent
    rcases split_concat hsplit with ⟨rfl, rfl, rfl⟩ | ⟨post', rfl, hsplit'⟩
    · exact he.sent hsent
    · exact h.sent_after pre e' post' hsplit' hsent
  left_last := by
    intro pre post hsplit
    rcases split_concat hsplit with ⟨rfl, rfl, rfl⟩ | ⟨post', rfl, hsplit'⟩
    · rfl
    · exact absurd (by simp [hsplit']) he.not_left
  left_after := by
    intro pre post hsplit
    rcases split_concat hsplit with ⟨rfl, rfl, rfl⟩ | ⟨post', rfl, hsplit'⟩
    · exact he.left rfl
    · exact h.left_after pre post' hsplit'

theorem exists_of_countP_pos {p : TaskEvent → Bool} (h : 0 < trace.countP p) : ∃ e ∈ trace, p e := by
  simpa using List.countP_pos_iff.mp h

/-- Sent and error events are the final ones. -/
theorem countP_isFinal (trace : List TaskEvent) :
    trace.countP TaskEvent.isFinal =
      trace.countP TaskEvent.isSent + trace.countP TaskEvent.isError := by
  induction trace with
  | nil => rfl
  | cons e trace ih =>
      rw [List.countP_cons, List.countP_cons, List.countP_cons, ih]
      cases e <;> simp [TaskEvent.isFinal, TaskEvent.isSent, TaskEvent.isError] <;> omega

theorem Allowed.of_queued (hleft : .left ∉ trace) (h : trace.countP TaskEvent.isQueued = 0)
    (requestId : RequestId) (hash : WakuMessageHash) :
    Allowed expected trace (.messageQueued requestId hash) := by
  refine ⟨hleft, fun _ => h, ?_, ?_, ?_, ?_⟩ <;> intro he <;> cases he

theorem Allowed.of_propagated (hleft : .left ∉ trace) (h : trace.countP TaskEvent.isPropagated = 0)
    (requestId : RequestId) (hash : WakuMessageHash) :
    Allowed expected trace (.messagePropagated requestId hash) := by
  refine ⟨hleft, ?_, fun _ => h, ?_, ?_, ?_⟩ <;> intro he <;> cases he

theorem Allowed.of_final (hleft : .left ∉ trace) (h : trace.countP TaskEvent.isFinal = 0)
    {e : TaskEvent} (he : e.isFinal = true) (hsent : e.isSent → ∃ e' ∈ trace, e'.isPropagated) :
    Allowed expected trace e := by
  refine ⟨hleft, ?_, ?_, fun _ => h, hsent, ?_⟩
  · simp [TaskEvent.not_isQueued_of_isFinal he]
  · simp [TaskEvent.not_isPropagated_of_isFinal he]
  · rintro rfl
    cases he

theorem Allowed.of_left (hleft : .left ∉ trace)
    (h : (∃ e ∈ trace, e.isFinal) ∨ (expected = false ∧ ∃ e ∈ trace, e.isPropagated)) :
    Allowed expected trace .left := by
  refine ⟨hleft, ?_, ?_, ?_, ?_, fun _ => h⟩ <;> intro he <;> cases he

end Growing

/-! ### The books of a task -/

/-- The flags of a task count its events, and while it is queued its only final event can be that
of a send over mix. -/
structure Booked (expected queuedEmitted propagatedEmitted anonymously queued : Bool)
    (trace : List TaskEvent) : Prop where
  life : TaskLife expected trace
  queued_count : trace.countP TaskEvent.isQueued = queuedEmitted.toNat
  propagated_count : trace.countP TaskEvent.isPropagated = propagatedEmitted.toNat
  sent_count : queued = true →
    trace.countP TaskEvent.isSent = (propagatedEmitted && anonymously && expected).toNat
  error_count : queued = true → trace.countP TaskEvent.isError = 0
  left_iff : .left ∈ trace ↔ queued = false

namespace Booked

variable {expected qe pe anonymously queued : Bool} {trace : List TaskEvent}

theorem not_left (h : Booked expected qe pe anonymously true trace) : .left ∉ trace := by
  rw [h.left_iff]
  simp

theorem exists_propagated (h : Booked expected qe true anonymously queued trace) :
    ∃ e ∈ trace, e.isPropagated := by
  apply exists_of_countP_pos
  rw [h.propagated_count]
  decide

/-- Unless it went out over mix, a queued task has no final event. -/
theorem final_count (h : Booked expected qe pe anonymously true trace)
    (hmix : (pe && anonymously && expected) = false) : trace.countP TaskEvent.isFinal = 0 := by
  rw [countP_isFinal, h.sent_count rfl, h.error_count rfl, hmix]
  rfl

/-- How a task propagates does not matter before it is reported. -/
theorem attempt (h : Booked expected qe false anonymously queued trace) (anonymously' : Bool) :
    Booked expected qe false anonymously' queued trace :=
  ⟨h.life, h.queued_count, h.propagated_count, h.sent_count, h.error_count, h.left_iff⟩

theorem messageQueued (h : Booked expected false pe anonymously true trace) (requestId : RequestId)
    (hash : WakuMessageHash) :
    Booked expected true pe anonymously true (trace ++ [.messageQueued requestId hash]) where
  life := h.life.concat (.of_queued h.not_left h.queued_count requestId hash)
  queued_count := by
    rw [List.countP_append, h.queued_count]
    rfl
  propagated_count := by
    rw [List.countP_append, h.propagated_count]
    rfl
  sent_count _ := by
    rw [List.countP_append, h.sent_count rfl]
    rfl
  error_count _ := by
    rw [List.countP_append, h.error_count rfl]
    rfl
  left_iff := by simpa using h.left_iff

theorem messagePropagated (h : Booked expected qe false anonymously true trace)
    (hmix : (anonymously && expected) = false) (requestId : RequestId) (hash : WakuMessageHash) :
    Booked expected qe true anonymously true (trace ++ [.messagePropagated requestId hash]) where
  life := h.life.concat (.of_propagated h.not_left h.propagated_count requestId hash)
  queued_count := by
    rw [List.countP_append, h.queued_count]
    rfl
  propagated_count := by
    rw [List.countP_append, h.propagated_count]
    rfl
  sent_count _ := by
    rw [List.countP_append, h.sent_count rfl, Bool.true_and, hmix]
    rfl
  error_count _ := by
    rw [List.countP_append, h.error_count rfl]
    rfl
  left_iff := by simpa using h.left_iff

/-- A send over mix that a plain one would wait for. -/
theorem messageMixed (h : Booked true qe false true true trace) (requestId : RequestId)
    (hash : WakuMessageHash) :
    Booked true qe true true true
      (trace ++ [.messagePropagated requestId hash] ++ [.messageSent requestId hash]) where
  life := by
    refine (h.life.concat (.of_propagated h.not_left h.propagated_count requestId hash)).concat
      (.of_final ?_ ?_ rfl ?_)
    · simpa using h.not_left
    · rw [List.countP_append, h.final_count rfl]
      rfl
    · exact fun _ => ⟨_, List.mem_append_right _ (List.mem_singleton_self _), rfl⟩
  queued_count := by
    rw [List.countP_append, List.countP_append, h.queued_count]
    rfl
  propagated_count := by
    rw [List.countP_append, List.countP_append, h.propagated_count]
    rfl
  sent_count _ := by
    rw [List.countP_append, List.countP_append, h.sent_count rfl]
    rfl
  error_count _ := by
    rw [List.countP_append, List.countP_append, h.error_count rfl]
    rfl
  left_iff := by simpa using h.left_iff

/-- A task whose send is reported to have ended leaves the queue. -/
theorem left (h : Booked expected qe pe anonymously true trace)
    (hend : (∃ e ∈ trace, e.isFinal) ∨ (expected = false ∧ ∃ e ∈ trace, e.isPropagated)) :
    Booked expected qe pe anonymously false (trace ++ [.left]) where
  life := h.life.concat (.of_left h.not_left hend)
  queued_count := by
    rw [List.countP_append, h.queued_count]
    rfl
  propagated_count := by
    rw [List.countP_append, h.propagated_count]
    rfl
  sent_count hq := by cases hq
  error_count hq := by cases hq
  left_iff := by simp

/-- The last event of a task, and its removal from the queue. -/
theorem last (h : Booked expected qe pe anonymously true trace)
    (hmix : (pe && anonymously && expected) = false) {e : TaskEvent} (he : e.isFinal = true)
    (hsent : e.isSent → pe = true) :
    Booked expected qe pe anonymously false (trace ++ [e] ++ [.left]) where
  life := by
    refine (h.life.concat (.of_final h.not_left (h.final_count hmix) he ?_)).concat (.of_left ?_ ?_)
    · intro hs
      obtain rfl := hsent hs
      exact h.exists_propagated
    · rw [List.mem_append, List.mem_singleton, not_or]
      refine ⟨h.not_left, ?_⟩
      rintro rfl
      cases he
    · exact Or.inl ⟨e, List.mem_append_right _ (List.mem_singleton_self e), he⟩
  queued_count := by
    rw [List.countP_append, List.countP_append, h.queued_count, List.countP_singleton,
      TaskEvent.not_isQueued_of_isFinal he]
    rfl
  propagated_count := by
    rw [List.countP_append, List.countP_append, h.propagated_count, List.countP_singleton,
      TaskEvent.not_isPropagated_of_isFinal he]
    rfl
  sent_count hq := by cases hq
  error_count hq := by cases hq
  left_iff := by simp

end Booked

/-! ### The stages of a delivery -/

section Stages

variable (cfg : SendConfig) (trace : List TaskEvent) (d : Delivery)

/-- The books of a delivery that had the events `trace` before its coroutine was resumed. -/
def BookedDelivery (emitted queued : Bool) : Prop :=
  Booked (d.storeConfirmationExpected cfg) d.task.queuedEventEmitted emitted
    d.task.propagatedAnonymously queued (trace ++ d.events)

/-- Queued and not propagated, as far as was reported. -/
structure Sending : Prop where
  booked : BookedDelivery cfg trace d false true
  emitted : d.task.propagatedEventEmitted = false
  queued : d.queued = true

/-- Queued and reported as propagated. -/
structure Propagated : Prop where
  booked : BookedDelivery cfg trace d true true
  emitted : d.task.propagatedEventEmitted = true
  queued : d.queued = true
  state : d.task.state = .successfullyPropagated

/-- Not in the queue any more. -/
structure Gone : Prop where
  booked : BookedDelivery cfg trace d d.task.propagatedEventEmitted false
  queued : d.queued = false

/-- **The invariant of a delivery**: the phase of the coroutine says how far the task is.  Without a
coroutine it can be anywhere. -/
def Consistent : Prop :=
  match d.task.phase with
  | .idle => Sending cfg trace d ∨ Propagated cfg trace d ∨ Gone cfg trace d
  | .sendEnded true => Propagated cfg trace d
  | .sendEnded false => Gone cfg trace d
  | .storeAnswer _ => Propagated cfg trace d ∧ d.awaitsStoreValidation cfg = true
  | _ => Sending cfg trace d

end Stages

section Resuming

variable {cfg : SendConfig} {trace : List TaskEvent} {d : Delivery}

theorem finish_of_queued (h : d.queued = true) :
    d.finish = { d with queued := false, events := d.events ++ [.left] } := if_pos h

theorem fail_of_queued (h : d.queued = true) (errorDesc : String) :
    d.fail errorDesc =
      { task := { d.task with state := .failedToDeliver, errorDesc := errorDesc }
        queued := false
        events := d.events ++ [.messageError d.task.requestId d.task.msgHash errorDesc] ++ [.left] } :=
  if_pos h

theorem confirmed_of_queued (h : d.queued = true) :
    d.confirmed =
      { task := { d.task with state := .successfullyValidated }
        queued := false
        events := d.events ++ [.messageSent d.task.requestId d.task.msgHash] ++ [.left] } :=
  if_pos h

/-- The phases of `sendUntilPropagated`. -/
def Phase.isSending : Phase → Bool
  | .idle | .sendEnded _ | .storeAnswer _ => false
  | _ => true

theorem Sending.consistent (h : Sending cfg trace d) (hphase : d.task.phase.isSending = true) :
    Consistent cfg trace d := by
  unfold Consistent
  cases hp : d.task.phase with
  | idle => rw [hp] at hphase; cases hphase
  | sendEnded propagated => rw [hp] at hphase; cases hphase
  | storeAnswer started => rw [hp] at hphase; cases hphase
  | _ => exact h

theorem Consistent.sending (h : Consistent cfg trace d) (hphase : d.task.phase.isSending = true) :
    Sending cfg trace d := by
  unfold Consistent at h
  cases hp : d.task.phase with
  | idle => rw [hp] at hphase; cases hphase
  | sendEnded propagated => rw [hp] at hphase; cases hphase
  | storeAnswer started => rw [hp] at hphase; cases hphase
  | _ =>
      rw [hp] at h
      exact h

/-- A queued task fails before it is reported as propagated, or after a plain send. -/
theorem gone_fail {emitted : Bool} (h : BookedDelivery cfg trace d emitted true)
    (hemitted : d.task.propagatedEventEmitted = emitted) (hqueued : d.queued = true)
    (hmix : (emitted && d.task.propagatedAnonymously && d.storeConfirmationExpected cfg) = false)
    (errorDesc : String) : Gone cfg trace (d.fail errorDesc) := by
  have hlast := Booked.last h hmix (e := .messageError d.task.requestId d.task.msgHash errorDesc) rfl
    (fun hs => by cases hs)
  rw [List.append_assoc, List.append_assoc, ← List.append_assoc d.events] at hlast
  rw [fail_of_queued hqueued]
  subst hemitted
  exact ⟨hlast, rfl⟩

theorem Sending.fail (h : Sending cfg trace d) (errorDesc : String) :
    Gone cfg trace (d.fail errorDesc) :=
  gone_fail h.booked h.emitted h.queued rfl errorDesc

theorem Sending.reportTaskQueued (h : Sending cfg trace d) : Sending cfg trace d.reportTaskQueued := by
  unfold Delivery.reportTaskQueued
  split_ifs with hq
  · exact h
  · have hbooked := h.booked
    unfold BookedDelivery at hbooked
    rw [Bool.not_eq_true] at hq
    rw [hq] at hbooked
    refine ⟨?_, h.emitted, h.queued⟩
    unfold BookedDelivery
    dsimp only [Delivery.emit]
    rw [← List.append_assoc]
    exact hbooked.messageQueued _ _

theorem Sending.reportPropagated (h : Sending cfg trace d)
    (hstate : d.task.state = .successfullyPropagated) :
    Propagated cfg trace (d.reportPropagated cfg) := by
  have hbooked := h.booked
  unfold BookedDelivery at hbooked
  unfold Delivery.reportPropagated
  dsimp only [Delivery.emit]
  split_ifs with hmix
  · rw [Bool.and_eq_true] at hmix
    obtain ⟨hanon, hexpected⟩ := hmix
    replace hexpected : d.storeConfirmationExpected cfg = true := hexpected
    rw [hanon, hexpected] at hbooked
    refine ⟨?_, rfl, h.queued, hstate⟩
    show Booked (d.storeConfirmationExpected cfg) _ true d.task.propagatedAnonymously true
      (trace ++ (d.events ++ [_] ++ [_]))
    rw [hanon, hexpected, ← List.append_assoc, ← List.append_assoc]
    exact hbooked.messageMixed _ _
  · rw [Bool.not_eq_true] at hmix
    refine ⟨?_, rfl, h.queued, hstate⟩
    show Booked (d.storeConfirmationExpected cfg) _ true d.task.propagatedAnonymously true
      (trace ++ (d.events ++ [_]))
    rw [← List.append_assoc]
    exact hbooked.messagePropagated hmix _ _

/-- A propagated task leaves the queue when it does not wait for the Store. -/
theorem Propagated.finish (h : Propagated cfg trace d) (hwait : d.awaitsStoreValidation cfg = false) :
    Gone cfg trace d.finish := by
  have hbooked := h.booked
  unfold BookedDelivery at hbooked
  rw [finish_of_queued h.queued]
  refine ⟨?_, rfl⟩
  show Booked (d.storeConfirmationExpected cfg) _ d.task.propagatedEventEmitted _ false
    (trace ++ (d.events ++ [_]))
  rw [h.emitted, ← List.append_assoc]
  refine hbooked.left ?_
  unfold Delivery.awaitsStoreValidation at hwait
  rw [h.state, decide_eq_true rfl, Bool.and_true] at hwait
  cases hexpected : d.storeConfirmationExpected cfg with
  | false => exact Or.inr ⟨rfl, hbooked.exists_propagated⟩
  | true =>
      -- then it went out over mix, and its end is already reported
      rw [hexpected, Bool.true_and, Bool.not_eq_false'] at hwait
      have hsent := hbooked.sent_count rfl
      rw [hwait, hexpected] at hsent
      obtain ⟨e, he, hs⟩ := exists_of_countP_pos (by rw [hsent]; decide)
      exact Or.inl ⟨e, he, by rw [TaskEvent.isFinal, hs]; rfl⟩

theorem awaits_not_mixed (hwait : d.awaitsStoreValidation cfg = true) :
    (true && d.task.propagatedAnonymously && d.storeConfirmationExpected cfg) = false := by
  unfold Delivery.awaitsStoreValidation at hwait
  simp only [Bool.and_eq_true, Bool.not_eq_true'] at hwait
  rw [hwait.2]
  rfl

theorem Propagated.notConfirmed (h : Propagated cfg trace d)
    (hwait : d.awaitsStoreValidation cfg = true) : Gone cfg trace d.notConfirmed :=
  gone_fail h.booked h.emitted h.queued (awaits_not_mixed hwait) _

theorem Propagated.confirmed (h : Propagated cfg trace d)
    (hwait : d.awaitsStoreValidation cfg = true) : Gone cfg trace d.confirmed := by
  have hbooked := h.booked
  have hlast := Booked.last hbooked (awaits_not_mixed hwait)
    (e := .messageSent d.task.requestId d.task.msgHash) rfl (fun _ => rfl)
  rw [List.append_assoc, List.append_assoc, ← List.append_assoc d.events] at hlast
  rw [confirmed_of_queued h.queued]
  refine ⟨?_, rfl⟩
  show Booked _ _ d.task.propagatedEventEmitted _ false _
  rw [h.emitted]
  exact hlast

/-! ### Resuming a coroutine -/

theorem Gone.idle (h : Gone cfg trace d) (hphase : d.task.phase = .idle) : Consistent cfg trace d := by
  unfold Consistent
  rw [hphase]
  exact Or.inr (Or.inr h)

theorem Sending.await (h : Sending cfg trace d) (phase : Phase) (hphase : phase.isSending = true) :
    Consistent cfg trace (d.await phase) :=
  Sending.consistent ⟨h.booked, h.emitted, h.queued⟩ hphase

theorem Sending.beginAttempt (h : Sending cfg trace d) (reading : Reading) :
    Consistent cfg trace (d.beginAttempt reading) := by
  unfold Delivery.beginAttempt
  split_ifs
  · exact h.await _ rfl
  · exact h.await _ rfl

theorem Sending.refuse (h : Sending cfg trace d) (errorDesc : String) :
    Sending cfg trace (d.refuse errorDesc) := ⟨h.booked, h.emitted, h.queued⟩

theorem failExpired_cases (cfg : SendConfig) (d : Delivery) (reading : Reading) :
    (∃ errorDesc, d.failExpired cfg reading = (d.fail errorDesc, true)) ∨
      d.failExpired cfg reading = (d, false) := by
  unfold Delivery.failExpired
  by_cases htime : d.task.isDeliveryTimedOut reading.now cfg.maxDeliveryTime = true
  · rw [if_pos htime]
    exact Or.inl ⟨_, rfl⟩
  · rw [if_neg htime]
    by_cases hparked : d.task.isParkedExpired reading.actual cfg.maxParkedAge = true
    · rw [if_pos hparked]
      exact Or.inl ⟨_, rfl⟩
    · rw [if_neg hparked]
      exact Or.inr rfl

theorem Sending.awaitRetry (h : Sending cfg trace d) (reading : Reading) :
    Consistent cfg trace (d.awaitRetry cfg reading) := by
  have hs : Sending cfg trace { d with task := { d.task with state := .nextRoundRetry } } :=
    ⟨h.booked, h.emitted, h.queued⟩
  unfold Delivery.awaitRetry
  dsimp only
  rcases failExpired_cases cfg _ reading with ⟨errorDesc, hfail⟩ | hkeep
  · rw [hfail]
    have hg := hs.fail errorDesc
    exact ⟨hg.booked, hg.queued⟩
  · rw [hkeep]
    exact hs.await .retryTick rfl

theorem Sending.endAttempt (h : Sending cfg trace d) (reading : Reading) :
    Consistent cfg trace (d.endAttempt cfg reading) := by
  have hretry := h.awaitRetry reading
  unfold Delivery.endAttempt
  cases hstate : d.task.state with
  | successfullyPropagated =>
      have hp := h.reportPropagated hstate
      exact ⟨hp.booked, hp.emitted, hp.queued, hp.state⟩
  | failedToDeliver =>
      have hg := h.fail d.task.errorDesc
      exact ⟨hg.booked, hg.queued⟩
  | entry => exact hretry
  | successfullyValidated => exact hretry
  | fallbackRetry => exact hretry
  | nextRoundRetry => exact hretry

theorem Sending.sendImpl (h : Sending cfg trace d) (outcome : SendOutcome) (now : ℤ) :
    Sending cfg trace { d with task := d.task.sendImpl outcome now } := by
  cases outcome with
  | propagated anonymously => exact ⟨Booked.attempt h.booked _, h.emitted, h.queued⟩
  | fallback errorDesc => exact ⟨h.booked, h.emitted, h.queued⟩
  | nextRound errorDesc => exact ⟨h.booked, h.emitted, h.queued⟩
  | failed errorDesc => exact ⟨h.booked, h.emitted, h.queued⟩
  | parkForRlnProofRefresh => exact ⟨h.booked, h.emitted, h.queued⟩

theorem Sending.awaitNextRound (h : Sending cfg trace d) :
    Sending cfg trace { d with task := d.task.awaitNextRound } := by
  unfold DeliveryTask.awaitNextRound
  split_ifs
  · exact ⟨h.booked, h.emitted, h.queued⟩
  · exact h

theorem Sending.onSendImpl (h : Sending cfg trace d) (hphase : d.task.phase = .processing)
    (outcome : SendOutcome) (last : Bool) (now : ℤ) :
    Consistent cfg trace (d.onSendImpl outcome last now) := by
  have hs := h.sendImpl outcome now
  unfold Delivery.onSendImpl
  dsimp only
  split_ifs
  · refine hs.consistent ?_
    have hkeep : (d.task.sendImpl outcome now).phase = .processing := by
      cases outcome <;> exact hphase
    show (d.task.sendImpl outcome now).phase.isSending = true
    rw [hkeep]
    rfl
  · exact hs.awaitNextRound.await _ rfl

theorem Propagated.afterSend (h : Propagated cfg trace d) (now : ℤ) :
    Consistent cfg trace (d.afterSend cfg now) := by
  unfold Delivery.afterSend
  split_ifs with hwait
  · unfold Delivery.waitForStoreValidation
    split_ifs
    · exact ⟨⟨h.booked, h.emitted, h.queued, h.state⟩, hwait⟩
    · have hg := h.notConfirmed hwait
      exact Gone.idle ⟨hg.booked, hg.queued⟩ rfl
  · have hg := h.finish (by simpa using hwait)
    exact Gone.idle ⟨hg.booked, hg.queued⟩ rfl

theorem Consistent.cancelled (h : Consistent cfg trace d) (hphase : d.task.phase ≠ .idle) (now : ℤ) :
    Consistent cfg trace (d.cancelled now) := by
  by_cases hsending : d.task.phase.isSending = true
  · have hs := (h.sending hsending).awaitNextRound
    have heq : d.cancelled now = Delivery.ended { d with task := d.task.awaitNextRound } := by
      unfold Delivery.cancelled
      cases hp : d.task.phase with
      | storeAnswer started => rw [hp] at hsending; cases hsending
      | _ => rfl
    rw [heq]
    exact Or.inl ⟨hs.booked, hs.emitted, hs.queued⟩
  · unfold Consistent at h
    unfold Delivery.cancelled
    cases hp : d.task.phase with
    | idle => exact absurd hp hphase
    | sendEnded propagated =>
        rw [hp] at h
        cases propagated with
        | true =>
            have hstate := h.state
            have hkeep : d.task.awaitNextRound = d.task := by
              unfold DeliveryTask.awaitNextRound
              rw [hstate]
              rfl
            dsimp only
            rw [hkeep]
            exact Or.inr (Or.inl ⟨h.booked, h.emitted, h.queued, h.state⟩)
        | false =>
            refine Gone.idle ?_ rfl
            dsimp only
            unfold DeliveryTask.awaitNextRound
            split_ifs
            · exact ⟨h.booked, h.queued⟩
            · exact ⟨h.booked, h.queued⟩
    | storeAnswer started =>
        rw [hp] at h
        have hstate := h.1.state
        have hkeep : (d.endStoreWait started now).task.awaitNextRound =
            (d.endStoreWait started now).task := by
          unfold DeliveryTask.awaitNextRound
          rw [show (d.endStoreWait started now).task.state = .successfullyPropagated from hstate]
          rfl
        dsimp only
        rw [hkeep]
        exact Or.inr (Or.inl ⟨h.1.booked, h.1.emitted, h.1.queued, h.1.state⟩)
    | _ =>
        rw [hp] at hsending
        exact absurd rfl hsending

theorem Propagated.onStoreAnswer (h : Propagated cfg trace d)
    (hwait : d.awaitsStoreValidation cfg = true) {started : ℤ}
    (hphase : d.task.phase = .storeAnswer started) (now : ℤ) :
    Consistent cfg trace (d.onStoreAnswer started now) := by
  have hkeep : Consistent cfg trace d := by
    unfold Consistent
    rw [hphase]
    exact ⟨h, hwait⟩
  unfold Delivery.onStoreAnswer
  cases hanswer : d.task.storeAnswer with
  | none => exact hkeep
  | some answer =>
      cases answer with
      | pending => exact hkeep
      | completed =>
          have hg := h.confirmed hwait
          exact Gone.idle ⟨hg.booked, hg.queued⟩ rfl
      | cancelled =>
          have hg := h.notConfirmed hwait
          exact Gone.idle ⟨hg.booked, hg.queued⟩ rfl

/-- Only the flags, the state and the phase of a task matter, and all its events. -/
theorem Consistent.congr {trace' : List TaskEvent} {d' : Delivery} (h : Consistent cfg trace d)
    (hphase : d'.task.phase = d.task.phase) (hstate : d'.task.state = d.task.state)
    (hephemeral : d'.task.ephemeral = d.task.ephemeral)
    (hq : d'.task.queuedEventEmitted = d.task.queuedEventEmitted)
    (hp : d'.task.propagatedEventEmitted = d.task.propagatedEventEmitted)
    (ha : d'.task.propagatedAnonymously = d.task.propagatedAnonymously)
    (hqueued : d'.queued = d.queued) (hevents : trace' ++ d'.events = trace ++ d.events) :
    Consistent cfg trace' d' := by
  have hexpected : d'.storeConfirmationExpected cfg = d.storeConfirmationExpected cfg := by
    rw [Delivery.storeConfirmationExpected, hephemeral]
    rfl
  have hawaits : d'.awaitsStoreValidation cfg = d.awaitsStoreValidation cfg := by
    rw [Delivery.awaitsStoreValidation, hexpected, hstate, ha]
    rfl
  have hbooked : ∀ emitted queued, BookedDelivery cfg trace d emitted queued →
      BookedDelivery cfg trace' d' emitted queued := by
    intro emitted queued hb
    unfold BookedDelivery
    rw [hexpected, hq, ha, hevents]
    exact hb
  have hsending : Sending cfg trace d → Sending cfg trace' d' :=
    fun hs => ⟨hbooked _ _ hs.booked, hp.trans hs.emitted, hqueued.trans hs.queued⟩
  have hpropagated : Propagated cfg trace d → Propagated cfg trace' d' :=
    fun hs => ⟨hbooked _ _ hs.booked, hp.trans hs.emitted, hqueued.trans hs.queued,
      hstate.trans hs.state⟩
  have hgone : Gone cfg trace d → Gone cfg trace' d' :=
    fun hs => ⟨hp ▸ hbooked _ _ hs.booked, hqueued.trans hs.queued⟩
  unfold Consistent at h ⊢
  rw [hphase, hawaits]
  cases hphase' : d.task.phase with
  | idle =>
      rw [hphase'] at h
      exact h.imp hsending (Or.imp hpropagated hgone)
  | sendEnded propagated =>
      rw [hphase'] at h
      cases propagated with
      | true => exact hpropagated h
      | false => exact hgone h
  | storeAnswer started =>
      rw [hphase'] at h
      exact ⟨hpropagated h.1, h.2⟩
  | _ =>
      rw [hphase'] at h
      exact hsending h

/-- A coroutine is resumed only at the await where it is suspended. -/
theorem of_ite_some {p : Prop} [Decidable p] {d₁ d₂ : Delivery}
    (h : (if p then some d₁ else none) = some d₂) : p ∧ d₁ = d₂ := by
  rwa [Option.ite_none_right_eq_some, Option.some.injEq] at h

theorem resume_admissionEnd {reading : Reading} {d' : Delivery}
    (hr : d.resume cfg (.admissionEnd reading) = some d') :
    ∃ admitted, d.task.phase = .admissionEnded admitted ∧ d.onAdmissionEnd cfg admitted reading = d' := by
  cases hphase : d.task.phase with
  | admissionEnded admitted =>
      simp only [Delivery.resume, hphase, Option.some.injEq] at hr
      exact ⟨admitted, rfl, hr⟩
  | _ => simp [Delivery.resume, hphase] at hr

theorem resume_sendEnd {now : ℤ} {d' : Delivery}
    (hr : d.resume cfg (.sendEnd now) = some d') :
    ∃ propagated, d.task.phase = .sendEnded propagated ∧ d.onSendEnd cfg propagated now = d' := by
  cases hphase : d.task.phase with
  | sendEnded propagated =>
      simp only [Delivery.resume, hphase, Option.some.injEq] at hr
      exact ⟨propagated, rfl, hr⟩
  | _ => simp [Delivery.resume, hphase] at hr

theorem resume_storeEnd {now : ℤ} {d' : Delivery}
    (hr : d.resume cfg (.storeEnd now) = some d') :
    ∃ started, d.task.phase = .storeAnswer started ∧ d.onStoreAnswer started now = d' := by
  cases hphase : d.task.phase with
  | storeAnswer started =>
      simp only [Delivery.resume, hphase, Option.some.injEq] at hr
      exact ⟨started, rfl, hr⟩
  | _ => simp [Delivery.resume, hphase] at hr

/-- **Every resumption keeps the invariant.**  A coroutine is only started for a queued task. -/
theorem Consistent.resume (h : Consistent cfg trace d) {r : Delivery.Resumption} {d' : Delivery}
    (hr : d.resume cfg r = some d') (hstart : ∀ reading, r = .deliver reading → d.queued = true) :
    Consistent cfg trace d' := by
  have hsending : d.task.phase.isSending = true → Sending cfg trace d := h.sending
  cases r with
  | deliver reading =>
      have hqueued := hstart reading rfl
      obtain ⟨hphase, rfl⟩ := of_ite_some hr
      unfold Consistent at h
      rw [hphase] at h
      unfold Delivery.deliver
      rcases h with hs | hp | hg
      · rw [hs.emitted]
        exact hs.beginAttempt reading
      · rw [hp.emitted]
        exact hp.afterSend reading.now
      · rw [hg.queued] at hqueued
        cases hqueued
  | admitAndProve failure =>
      obtain ⟨hphase, rfl⟩ := of_ite_some hr
      have hs := hsending (by rw [hphase]; rfl)
      unfold Delivery.admitAndProve
      cases failure with
      | some errorDesc => exact (hs.refuse errorDesc).await _ rfl
      | none =>
          dsimp only
          split_ifs
          · exact hs.await _ rfl
          · exact hs.await _ rfl
          · exact hs.await _ rfl
  | quotaState quotaState =>
      obtain ⟨hphase, rfl⟩ := of_ite_some hr
      have hs := hsending (by rw [hphase]; rfl)
      cases quotaState with
      | none => exact hs.await _ rfl
      | some quota => exact (hs.refuse _).await _ rfl
  | admitting admitted now =>
      obtain ⟨hphase, rfl⟩ := of_ite_some hr
      have hs := hsending (by rw [hphase]; rfl)
      unfold Delivery.onAdmit
      split_ifs
      · have hadmitted : Sending cfg trace
            { d with task := { d.task with firstAdmittedTime := some now } } :=
          ⟨hs.booked, hs.emitted, hs.queued⟩
        exact hadmitted.await .attachRlnProof rfl
      · exact hs.reportTaskQueued.await _ rfl
  | attachRlnProof result =>
      obtain ⟨hphase, rfl⟩ := of_ite_some hr
      have hs := hsending (by rw [hphase]; rfl)
      cases result with
      | attached => exact hs.await _ rfl
      | permanent error => exact (hs.refuse _).await _ rfl
      | transient => exact hs.await _ rfl
  | admissionError =>
      obtain ⟨hlock, rfl⟩ := of_ite_some hr
      have hphase : d.task.phase.isSending = true := by
        cases hp : d.task.phase <;> rw [hp] at hlock <;> first | rfl | cases hlock
      exact (hsending hphase).await _ rfl
  | admissionEnd reading =>
      obtain ⟨admitted, hphase, rfl⟩ := resume_admissionEnd hr
      have hs := hsending (by rw [hphase]; rfl)
      unfold Delivery.onAdmissionEnd
      split_ifs
      · exact hs.await _ rfl
      · exact hs.endAttempt reading
  | process =>
      obtain ⟨hphase, rfl⟩ := of_ite_some hr
      exact (hsending (by rw [hphase]; rfl)).await _ rfl
  | sendImpl outcome last now =>
      obtain ⟨hphase, rfl⟩ := of_ite_some hr
      exact (hsending (by rw [hphase]; rfl)).onSendImpl hphase outcome last now
  | processError =>
      obtain ⟨hphase, rfl⟩ := of_ite_some hr
      exact (hsending (by rw [hphase]; rfl)).await _ rfl
  | processEnd reading =>
      obtain ⟨hphase, rfl⟩ := of_ite_some hr
      exact (hsending (by rw [hphase]; rfl)).endAttempt reading
  | retry reading =>
      obtain ⟨hphase, rfl⟩ := of_ite_some hr
      exact (hsending (by rw [hphase]; rfl)).beginAttempt reading
  | sendEnd now =>
      obtain ⟨propagated, hphase, rfl⟩ := resume_sendEnd hr
      unfold Consistent at h
      rw [hphase] at h
      cases propagated with
      | true => exact Propagated.afterSend h now
      | false =>
          have hg : Gone cfg trace d := h
          exact Gone.idle ⟨hg.booked, hg.queued⟩ rfl
  | storeTimeout =>
      obtain ⟨_, rfl⟩ := of_ite_some hr
      exact h.congr rfl rfl rfl rfl rfl rfl rfl rfl
  | storeEnd now =>
      obtain ⟨started, hphase, rfl⟩ := resume_storeEnd hr
      unfold Consistent at h
      rw [hphase] at h
      exact Propagated.onStoreAnswer h.1 h.2 hphase now
  | cancel now =>
      obtain ⟨hcancel, rfl⟩ := of_ite_some hr
      exact h.cancelled hcancel.2 now

end Resuming

end LogosDelivery.Messaging
