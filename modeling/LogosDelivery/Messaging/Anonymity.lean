import LogosDelivery.Messaging.SendPath

/-! # The send path breaks no anonymity

A task that propagated over mix is reported as propagated before its coroutine can be cancelled, and
then nothing sends it again; no Store confirmation is expected of it, so it is in no Store query and
is not resent.  `Veiled` is this invariant of a task, with what holds at the `Required` level, where
the chain has no processor but mix.  `anonymity_after` is what follows for every run. -/

namespace LogosDelivery.Messaging

open StoreSync (WakuMessageHash)

/-! ### One task -/

/-- Where a task that propagated over mix can be, and what the `Required` level excludes. -/
structure Veiled (required : Bool) (task : DeliveryTask) : Prop where
  answering : task.storeAnswer ≠ none → ∃ started, task.phase = .storeAnswer started
  mixed : task.propagatedAnonymously = true →
    (task.phase = .processEnded ∧ task.state = .successfullyPropagated) ∨
      (task.propagatedEventEmitted = true ∧
        (task.phase = .idle ∨ ∃ propagated, task.phase = .sendEnded propagated))
  never : required = true →
    (task.state = .successfullyPropagated → task.propagatedAnonymously = true) ∧
      ∀ started, task.phase ≠ .storeAnswer started

/-- A task that did not propagate over mix and awaits no Store answer. -/
structure Plain (required : Bool) (task : DeliveryTask) : Prop where
  clear : task.propagatedAnonymously = false
  unanswered : task.storeAnswer = none
  never : required = true → task.state ≠ .successfullyPropagated

variable {required : Bool} {task : DeliveryTask} {d : Delivery} {cfg : SendConfig}

theorem Plain.veiled (h : Plain required task)
    (hphase : ∀ started, task.phase ≠ .storeAnswer started) : Veiled required task where
  answering hanswer := absurd h.unanswered hanswer
  mixed hmixed := by
    rw [h.clear] at hmixed
    cases hmixed
  never hrequired := ⟨fun hstate => absurd hstate (h.never hrequired), hphase⟩

theorem Plain.congr {task' : DeliveryTask} (h : Plain required task)
    (hmixed : task'.propagatedAnonymously = task.propagatedAnonymously)
    (hanswer : task'.storeAnswer = task.storeAnswer)
    (hstate : task'.state = task.state ∨ task'.state ≠ .successfullyPropagated) :
    Plain required task' where
  clear := hmixed.trans h.clear
  unanswered := hanswer.trans h.unanswered
  never hrequired := by
    rcases hstate with heq | hne
    · rw [heq]
      exact h.never hrequired
    · exact hne

theorem Veiled.unanswered (h : Veiled required task)
    (hphase : ∀ started, task.phase ≠ .storeAnswer started) : task.storeAnswer = none := by
  by_contra hanswer
  obtain ⟨started, hp⟩ := h.answering hanswer
  exact hphase started hp

/-- Outside the phases that follow a send over mix nothing went out over mix. -/
theorem Veiled.clear (h : Veiled required task) (hended : task.phase ≠ .processEnded)
    (hidle : task.phase ≠ .idle) (hsent : ∀ propagated, task.phase ≠ .sendEnded propagated) :
    task.propagatedAnonymously = false := by
  by_contra hmixed
  rcases h.mixed (by simpa using hmixed) with ⟨hp, -⟩ | ⟨-, hp | ⟨propagated, hp⟩⟩
  · exact hended hp
  · exact hidle hp
  · exact hsent propagated hp

/-- A task that is sending, and has not just been processed, is plain. -/
theorem Veiled.plain (h : Veiled required task) (hphase : task.phase.isSending = true)
    (hended : task.phase ≠ .processEnded) : Plain required task := by
  have hclear : task.propagatedAnonymously = false := by
    refine h.clear hended (fun hp => ?_) (fun propagated hp => ?_)
    · rw [hp] at hphase
      cases hphase
    · rw [hp] at hphase
      cases hphase
  refine ⟨hclear, ?_, ?_⟩
  · refine h.unanswered (fun started hp => ?_)
    rw [hp] at hphase
    cases hphase
  · intro hrequired hstate
    rw [(h.never hrequired).1 hstate] at hclear
    cases hclear

namespace Delivery

@[simp] theorem emit_task (e : TaskEvent) : (d.emit e).task = d.task := rfl

@[simp] theorem finish_task : d.finish.task = d.task := by
  unfold finish
  split_ifs <;> rfl

@[simp] theorem fail_task (errorDesc : String) :
    (d.fail errorDesc).task = { d.task with state := .failedToDeliver, errorDesc := errorDesc } := by
  simp [fail]

theorem reportPropagated_task :
    (d.reportPropagated cfg).task = { d.task with propagatedEventEmitted := true } := by
  unfold reportPropagated
  simp only
  split_ifs <;> rfl

theorem reportTaskQueued_task : d.reportTaskQueued.task =
    { d.task with queuedEventEmitted := d.reportTaskQueued.task.queuedEventEmitted } := by
  unfold reportTaskQueued
  split_ifs <;> rfl

end Delivery

/-! ### The steps of a delivery -/

theorem Plain.await (h : Plain required d.task) {phase : Phase}
    (hphase : ∀ started, phase ≠ .storeAnswer started) : Veiled required (d.await phase).task :=
  have htask : Plain required (d.await phase).task := h.congr rfl rfl (Or.inl rfl)
  htask.veiled hphase

/-- A refused task goes on to the end of its admission. -/
theorem Plain.refuse (h : Plain required d.task) (errorDesc : String) {phase : Phase}
    (hphase : ∀ started, phase ≠ .storeAnswer started) :
    Veiled required ((d.refuse errorDesc).await phase).task := by
  have htask : Plain required (d.refuse errorDesc).task :=
    h.congr rfl rfl (Or.inr (by simp [Delivery.refuse]))
  exact htask.await hphase

theorem Plain.ended (h : Plain required d.task) : Veiled required d.ended.task := by
  have htask : Plain required d.ended.task := h.congr rfl rfl (Or.inl rfl)
  exact htask.veiled nofun

theorem Plain.fail (h : Plain required d.task) (errorDesc : String) :
    Plain required (d.fail errorDesc).task := by
  rw [Delivery.fail_task]
  exact h.congr rfl rfl (Or.inr nofun)

theorem Plain.awaitRetry (h : Plain required d.task) (reading : Reading) :
    Veiled required (d.awaitRetry cfg reading).task := by
  have hnext : Plain required ({ d with task := { d.task with state := .nextRoundRetry } } :
      Delivery).task := h.congr rfl rfl (Or.inr nofun)
  unfold Delivery.awaitRetry
  dsimp only
  rcases failExpired_cases cfg _ reading with ⟨errorDesc, hfail⟩ | hkeep
  · rw [hfail]
    exact (hnext.fail errorDesc).await nofun
  · rw [hkeep]
    exact hnext.await nofun

theorem Plain.beginAttempt (h : Plain required d.task) (reading : Reading) :
    Veiled required (d.beginAttempt reading).task := by
  unfold Delivery.beginAttempt
  split_ifs
  · exact h.await nofun
  · exact h.await nofun

/-- The end of an attempt after which the task is not propagated over mix without its report. -/
theorem endAttempt_veiled (reading : Reading)
    (hmixed : d.task.propagatedAnonymously = true → d.task.state = .successfullyPropagated)
    (hanswer : d.task.storeAnswer = none)
    (hnever : required = true → d.task.state = .successfullyPropagated →
      d.task.propagatedAnonymously = true) :
    Veiled required (d.endAttempt cfg reading).task := by
  have hplain : d.task.state ≠ .successfullyPropagated → Plain required d.task := fun hstate =>
    ⟨by simpa using fun hm => hstate (hmixed hm), hanswer, fun _ => hstate⟩
  unfold Delivery.endAttempt
  cases hstate : d.task.state with
  | successfullyPropagated =>
      have htask : ((d.reportPropagated cfg).await (.sendEnded true)).task =
          { d.task with propagatedEventEmitted := true, phase := .sendEnded true } := by
        simp [Delivery.await, Delivery.reportPropagated_task]
      rw [htask]
      exact ⟨fun h => absurd hanswer h, fun _ => Or.inr ⟨rfl, Or.inr ⟨true, rfl⟩⟩,
        fun hrequired => ⟨fun _ => hnever hrequired hstate, nofun⟩⟩
  | failedToDeliver =>
      exact ((hplain (by rw [hstate]; nofun)).fail d.task.errorDesc).await nofun
  | entry => exact (hplain (by rw [hstate]; nofun)).awaitRetry reading
  | successfullyValidated => exact (hplain (by rw [hstate]; nofun)).awaitRetry reading
  | fallbackRetry => exact (hplain (by rw [hstate]; nofun)).awaitRetry reading
  | nextRoundRetry => exact (hplain (by rw [hstate]; nofun)).awaitRetry reading

/-- Only a task that propagated in clear awaits a Store confirmation. -/
theorem awaits_clear (h : d.awaitsStoreValidation cfg = true) :
    d.task.state = .successfullyPropagated ∧ d.task.propagatedAnonymously = false := by
  simp only [Delivery.awaitsStoreValidation, Bool.and_eq_true, decide_eq_true_eq,
    Bool.not_eq_true'] at h
  exact ⟨h.1.2, h.2⟩

/-- `deliver` after its send: a task that propagated over mix is finished. -/
theorem afterSend_veiled (now : ℤ) (hanswer : d.task.storeAnswer = none)
    (hmixed : d.task.propagatedAnonymously = true → d.task.propagatedEventEmitted = true)
    (hnever : required = true → d.task.state = .successfullyPropagated →
      d.task.propagatedAnonymously = true) :
    Veiled required (d.afterSend cfg now).task := by
  unfold Delivery.afterSend
  split_ifs with hawaits
  · -- a Store confirmation is expected, so the task went out in clear
    obtain ⟨hstate, hclear⟩ := awaits_clear hawaits
    have hplain : required = false := by
      by_contra hrequired
      rw [hnever (by simpa using hrequired) hstate] at hclear
      cases hclear
    subst hplain
    unfold Delivery.waitForStoreValidation
    split_ifs
    · refine ⟨fun _ => ⟨now, rfl⟩, fun hm => ?_, nofun⟩
      have hm' : d.task.propagatedAnonymously = true := hm
      rw [hclear] at hm'
      cases hm'
    · refine Plain.veiled ⟨?_, rfl, nofun⟩ nofun
      simp [Delivery.ended, Delivery.endStoreWait, Delivery.notConfirmed, hclear]
  · have htask : d.finish.ended.task = { d.task with phase := .idle, cancelling := false } := by
      simp [Delivery.ended]
    rw [htask]
    exact ⟨fun h => absurd hanswer h, fun hm => Or.inr ⟨hmixed hm, Or.inl rfl⟩,
      fun hrequired => ⟨hnever hrequired, nofun⟩⟩

theorem Plain.awaitNextRound (h : Plain required task) : Plain required task.awaitNextRound := by
  unfold DeliveryTask.awaitNextRound
  split_ifs
  · exact h.congr rfl rfl (Or.inr nofun)
  · exact h

theorem Plain.sendImpl (h : Plain required task) {outcome : SendOutcome}
    (houtcome : ∀ anonymously, outcome ≠ .propagated anonymously) (now : ℤ) :
    Plain required (task.sendImpl outcome now) := by
  cases outcome with
  | propagated anonymously => exact absurd rfl (houtcome anonymously)
  | fallback errorDesc => exact h.congr rfl rfl (Or.inr nofun)
  | nextRound errorDesc => exact h.congr rfl rfl (Or.inr nofun)
  | failed errorDesc => exact h.congr rfl rfl (Or.inr nofun)
  | parkForRlnProofRefresh => exact h.congr rfl rfl (Or.inr nofun)

theorem sendImpl_phase (outcome : SendOutcome) (now : ℤ) :
    (task.sendImpl outcome now).phase = task.phase := by
  cases outcome <;> rfl

/-- One processor is done: what propagates over mix leaves `process` at once. -/
theorem onSendImpl_veiled (h : Plain required d.task) (hphase : d.task.phase = .processing)
    (outcome : SendOutcome) (last : Bool) (now : ℤ)
    (houtcome : required = true → outcome ≠ .propagated false) :
    Veiled required (d.onSendImpl outcome last now).task := by
  by_cases hpropagated : ∃ anonymously, outcome = .propagated anonymously
  · obtain ⟨anonymously, rfl⟩ := hpropagated
    have htask : (d.onSendImpl (.propagated anonymously) last now).task =
        { d.task with
          state := .successfullyPropagated
          propagatedAnonymously := anonymously
          firstPropagatedTime := some (d.task.firstPropagatedTime.getD now)
          phase := .processEnded } := by
      simp [Delivery.onSendImpl, DeliveryTask.sendImpl, DeliveryTask.awaitNextRound,
        Delivery.await, h.clear]
    rw [htask]
    refine ⟨fun hanswer => absurd h.unanswered hanswer, fun _ => Or.inl ⟨rfl, rfl⟩, ?_⟩
    intro hrequired
    refine ⟨fun _ => ?_, nofun⟩
    cases anonymously with
    | true => rfl
    | false => exact absurd rfl (houtcome hrequired)
  · rw [not_exists] at hpropagated
    have hsent := h.sendImpl hpropagated now
    unfold Delivery.onSendImpl
    dsimp only
    split_ifs
    · refine hsent.veiled (fun started hp => ?_)
      rw [sendImpl_phase, hphase] at hp
      cases hp
    · exact Plain.await (d := { d with task := (d.task.sendImpl outcome now).awaitNextRound })
        hsent.awaitNextRound nofun

/-- A cancelled task that is sending or waits for a Store answer. -/
theorem cancelled_veiled (h : Veiled required d.task) (hpending : d.task.phase.isPending = true)
    (hidle : d.task.phase ≠ .idle) (now : ℤ) : Veiled required (d.cancelled now).task := by
  have hclear : d.task.propagatedAnonymously = false := by
    refine h.clear (fun hp => ?_) hidle (fun propagated hp => ?_)
    · rw [hp] at hpending
      cases hpending
    · rw [hp] at hpending
      cases hpending
  have hnever : required = true → d.task.state ≠ .successfullyPropagated := by
    intro hrequired hstate
    rw [(h.never hrequired).1 hstate] at hclear
    cases hclear
  by_cases hwaits : ∃ started, d.task.phase = .storeAnswer started
  · obtain ⟨started, hp⟩ := hwaits
    have hplain : Plain required (d.endStoreWait started now).task := ⟨hclear, rfl, hnever⟩
    have htask : d.cancelled now = { d.endStoreWait started now with
        task := (d.endStoreWait started now).task.awaitNextRound }.ended := by
      simp only [Delivery.cancelled, hp]
    rw [htask]
    exact Plain.ended (d := { d.endStoreWait started now with
      task := (d.endStoreWait started now).task.awaitNextRound }) hplain.awaitNextRound
  · have hanswer : d.task.storeAnswer = none :=
      h.unanswered (fun started hp => hwaits ⟨started, hp⟩)
    have hplain : Plain required d.task := ⟨hclear, hanswer, hnever⟩
    have htask : d.cancelled now = { d with task := d.task.awaitNextRound }.ended := by
      unfold Delivery.cancelled
      cases hp : d.task.phase with
      | storeAnswer started => exact absurd ⟨started, hp⟩ hwaits
      | _ => rfl
    rw [htask]
    exact Plain.ended (d := { d with task := d.task.awaitNextRound }) hplain.awaitNextRound

theorem onStoreAnswer_veiled (h : Veiled required d.task) {started now : ℤ}
    (hphase : d.task.phase = .storeAnswer started) :
    Veiled required (d.onStoreAnswer started now).task := by
  have hclear : d.task.propagatedAnonymously = false :=
    h.clear (by rw [hphase]; nofun) (by rw [hphase]; nofun) (by rw [hphase]; nofun)
  have hplain : required = false := by
    by_contra hrequired
    exact (h.never (by simpa using hrequired)).2 started hphase
  subst hplain
  unfold Delivery.onStoreAnswer
  split
  · refine Plain.ended ⟨?_, rfl, nofun⟩
    simp [Delivery.endStoreWait, Delivery.confirmed, hclear]
  · refine Plain.ended ⟨?_, rfl, nofun⟩
    simp [Delivery.endStoreWait, Delivery.notConfirmed, hclear]
  · exact h

/-- A send over mix is reported when the attempt is over. -/
theorem Veiled.emitted_of_mixed (h : Veiled required d.task) (hphase : d.task.phase ≠ .processEnded)
    (hmixed : d.task.propagatedAnonymously = true) : d.task.propagatedEventEmitted = true := by
  rcases h.mixed hmixed with ⟨hp, -⟩ | ⟨hemitted, -⟩
  · exact absurd hp hphase
  · exact hemitted

theorem isSending_of_holdsLock {phase : Phase} (h : phase.holdsLock = true) :
    phase.isSending = true := by
  cases phase <;> first | rfl | cases h

theorem ne_processEnded_of_holdsLock {phase : Phase} (h : phase.holdsLock = true) :
    phase ≠ .processEnded := by
  rintro rfl
  cases h

/-- Every resumption keeps a task veiled, where a cancellation reaches it at a pending await and, at
the `Required` level, nothing propagates in clear. -/
theorem Veiled.resume (h : Veiled required d.task) {r : Delivery.Resumption} {d' : Delivery}
    (hr : d.resume cfg r = some d')
    (hcancel : ∀ now, r = .cancel now → d.task.phase.isPending = true)
    (hsend : ∀ outcome last now, r = .sendImpl outcome last now → required = true →
      outcome ≠ .propagated false) : Veiled required d'.task := by
  have hplain : ∀ {p : Phase}, d.task.phase = p → p.isSending = true → p ≠ .processEnded →
      Plain required d.task :=
    fun hphase hsending hended => h.plain (hphase ▸ hsending) (hphase ▸ hended)
  cases r with
  | deliver reading =>
      obtain ⟨hphase, rfl⟩ := of_ite_some hr
      have hanswer := h.unanswered (by rw [hphase]; simp)
      have hmixed := h.emitted_of_mixed (by rw [hphase]; simp)
      unfold Delivery.deliver
      split_ifs with hemitted
      · exact afterSend_veiled _ hanswer hmixed (fun hrequired => (h.never hrequired).1)
      · have hclear : d.task.propagatedAnonymously = false := by
          simpa using fun hm => hemitted (hmixed hm)
        refine Plain.beginAttempt ⟨hclear, hanswer, fun hrequired hstate => ?_⟩ reading
        rw [(h.never hrequired).1 hstate] at hclear
        cases hclear
  | admitAndProve failure =>
      obtain ⟨hphase, rfl⟩ := of_ite_some hr
      have hp := hplain hphase rfl (by simp)
      unfold Delivery.admitAndProve
      cases failure with
      | some errorDesc =>
          exact hp.refuse errorDesc (by simp)
      | none =>
          dsimp only
          split_ifs <;> exact hp.await (by simp)
  | quotaState quotaState =>
      obtain ⟨hphase, rfl⟩ := of_ite_some hr
      have hp := hplain hphase rfl (by simp)
      cases quotaState with
      | none => exact hp.await (by simp)
      | some quota =>
          exact hp.refuse _ (by simp)
  | admitting admitted now =>
      obtain ⟨hphase, rfl⟩ := of_ite_some hr
      have hp := hplain hphase rfl (by simp)
      unfold Delivery.onAdmit
      split_ifs
      · exact Plain.await (d := { d with task := { d.task with firstAdmittedTime := some now } })
          (hp.congr rfl rfl (Or.inl rfl)) (by simp)
      · refine Plain.await (d := d.reportTaskQueued) ?_ (by simp)
        rw [Delivery.reportTaskQueued_task]
        exact hp.congr rfl rfl (Or.inl rfl)
  | attachRlnProof result =>
      obtain ⟨hphase, rfl⟩ := of_ite_some hr
      have hp := hplain hphase rfl (by simp)
      cases result with
      | attached => exact hp.await (by simp)
      | permanent error =>
          exact hp.refuse _ (by simp)
      | transient => exact hp.await (by simp)
  | admissionError =>
      obtain ⟨hlock, rfl⟩ := of_ite_some hr
      exact (hplain rfl (isSending_of_holdsLock hlock) (ne_processEnded_of_holdsLock hlock)).await
        (by simp)
  | admissionEnd reading =>
      obtain ⟨admitted, hphase, rfl⟩ := resume_admissionEnd hr
      have hp := hplain hphase rfl (by simp)
      unfold Delivery.onAdmissionEnd
      split_ifs
      · exact hp.await (by simp)
      · refine endAttempt_veiled reading (fun hm => ?_) hp.unanswered
          (fun hrequired => (h.never hrequired).1)
        rw [hp.clear] at hm
        cases hm
  | process =>
      obtain ⟨hphase, rfl⟩ := of_ite_some hr
      exact (hplain hphase rfl (by simp)).await (by simp)
  | sendImpl outcome last now =>
      obtain ⟨hphase, rfl⟩ := of_ite_some hr
      exact onSendImpl_veiled (hplain hphase rfl (by simp)) hphase outcome
        last now (hsend outcome last now rfl)
  | processError =>
      obtain ⟨hphase, rfl⟩ := of_ite_some hr
      exact (hplain hphase rfl (by simp)).await (by simp)
  | processEnd reading =>
      obtain ⟨hphase, rfl⟩ := of_ite_some hr
      refine endAttempt_veiled reading (fun hm => ?_) (h.unanswered (by rw [hphase]; simp))
        (fun hrequired => (h.never hrequired).1)
      rcases h.mixed hm with ⟨-, hstate⟩ | ⟨-, hp | ⟨propagated, hp⟩⟩
      · exact hstate
      · rw [hphase] at hp
        cases hp
      · rw [hphase] at hp
        cases hp
  | retry reading =>
      obtain ⟨hphase, rfl⟩ := of_ite_some hr
      exact (hplain hphase rfl (by simp)).beginAttempt reading
  | sendEnd now =>
      obtain ⟨propagated, hphase, rfl⟩ := resume_sendEnd hr
      have hanswer := h.unanswered (by rw [hphase]; simp)
      have hmixed := h.emitted_of_mixed (by rw [hphase]; simp)
      unfold Delivery.onSendEnd
      split_ifs
      · exact afterSend_veiled now hanswer hmixed (fun hrequired => (h.never hrequired).1)
      · exact ⟨fun hne => absurd hanswer hne, fun hm => Or.inr ⟨hmixed hm, Or.inl rfl⟩,
          fun hrequired => ⟨(h.never hrequired).1, by simp [Delivery.ended]⟩⟩
  | storeTimeout =>
      obtain ⟨hpending, rfl⟩ := of_ite_some hr
      refine ⟨fun _ => h.answering ?_, h.mixed, h.never⟩
      rw [of_decide_eq_true hpending]
      simp
  | storeEnd now =>
      obtain ⟨started, hphase, rfl⟩ := resume_storeEnd hr
      exact onStoreAnswer_veiled h hphase
  | cancel now =>
      obtain ⟨hphase, rfl⟩ := of_ite_some hr
      exact cancelled_veiled h (hcancel now rfl) hphase.2 now

/-- A task that propagated over mix stays so. -/
theorem Veiled.resume_mixed (h : Veiled required d.task) {r : Delivery.Resumption} {d' : Delivery}
    (hr : d.resume cfg r = some d')
    (hcancel : ∀ now, r = .cancel now → d.task.phase.isPending = true)
    (hmixed : d.task.propagatedAnonymously = true) : d'.task.propagatedAnonymously = true := by
  have hafter : ∀ now, (d.afterSend cfg now).task.propagatedAnonymously = true := by
    intro now
    unfold Delivery.afterSend
    split_ifs with hawaits
    · rw [(awaits_clear hawaits).2] at hmixed
      cases hmixed
    · simpa [Delivery.ended] using hmixed
  rcases h.mixed hmixed with ⟨hphase, hstate⟩ | ⟨hemitted, hphase | ⟨propagated, hphase⟩⟩
  · cases r with
    | processEnd reading =>
        obtain ⟨-, rfl⟩ := of_ite_some hr
        simpa [Delivery.endAttempt, hstate, Delivery.await, Delivery.reportPropagated_task]
          using hmixed
    | storeTimeout =>
        obtain ⟨-, rfl⟩ := of_ite_some hr
        exact hmixed
    | cancel now =>
        have hpending := hcancel now rfl
        rw [hphase] at hpending
        cases hpending
    | _ => simp [Delivery.resume, hphase, Phase.holdsLock] at hr
  · cases r with
    | deliver reading =>
        obtain ⟨-, rfl⟩ := of_ite_some hr
        unfold Delivery.deliver
        rw [if_pos hemitted]
        exact hafter _
    | storeTimeout =>
        obtain ⟨-, rfl⟩ := of_ite_some hr
        exact hmixed
    | _ => simp [Delivery.resume, hphase, Phase.holdsLock] at hr
  · cases r with
    | sendEnd now =>
        simp only [Delivery.resume, hphase, Option.some.injEq] at hr
        subst hr
        unfold Delivery.onSendEnd
        split_ifs
        · exact hafter now
        · exact hmixed
    | storeTimeout =>
        obtain ⟨-, rfl⟩ := of_ite_some hr
        exact hmixed
    | cancel now =>
        have hpending := hcancel now rfl
        rw [hphase] at hpending
        cases hpending
    | _ => simp [Delivery.resume, hphase, Phase.holdsLock] at hr

/-! ### The service -/

namespace SendService

variable {s s' : SendService}

/-- The tasks of the service are veiled, and those that propagated over mix before still did. -/
structure Keeps (required : Bool) (s s' : SendService) : Prop where
  veiled : ∀ id task, s'.tasks id = some task → Veiled required task
  mixed : ∀ id task, s.tasks id = some task → task.propagatedAnonymously = true →
    ∃ task', s'.tasks id = some task' ∧ task'.propagatedAnonymously = true

theorem Keeps.of_map (hs : ∀ id task, s.tasks id = some task → Veiled required task)
    {f : TaskId → DeliveryTask → DeliveryTask} (htasks : ∀ id, s'.tasks id = (s.tasks id).map (f id))
    (hveiled : ∀ id task, Veiled required task → Veiled required (f id task))
    (hmixed : ∀ id task, (f id task).propagatedAnonymously = task.propagatedAnonymously) :
    Keeps required s s' where
  veiled id task htask := by
    rw [htasks] at htask
    obtain ⟨before, hbefore, rfl⟩ := Option.map_eq_some_iff.mp htask
    exact hveiled id before (hs id before hbefore)
  mixed id task htask hm := by
    refine ⟨f id task, ?_, ?_⟩
    · rw [htasks, htask]
      rfl
    · rw [hmixed]
      exact hm

theorem keeps_stopSendService (hs : ∀ id task, s.tasks id = some task → Veiled required task) :
    Keeps required s s.stopSendService := by
  refine Keeps.of_map hs (updates_stopSendService s).tasks ?_ ?_
  · intro id task h
    split_ifs
    · exact ⟨h.answering, h.mixed, h.never⟩
    · exact h
  · intro id task
    split_ifs <;> rfl

theorem keeps_retryNow (hs : ∀ id task, s.tasks id = some task → Veiled required task) :
    Keeps required s s.retryNow := by
  refine Keeps.of_map hs (updates_retryNow s).tasks ?_ ?_
  · intro id task h
    split_ifs with hphase
    · have hp := h.plain (by rw [hphase]; rfl) (by rw [hphase]; nofun)
      exact Plain.veiled ⟨hp.clear, hp.unanswered, hp.never⟩ nofun
    · exact h
  · intro id task
    split_ifs <;> rfl

theorem answered_veiled {reported : List WakuMessageHash} {id : TaskId} {task : DeliveryTask}
    (h : Veiled required task) : Veiled required (s.answered reported id task) := by
  unfold answered
  split_ifs with hlisted
  · refine ⟨fun _ => h.answering ?_, h.mixed, h.never⟩
    rw [Bool.and_eq_true] at hlisted
    rw [of_decide_eq_true hlisted.2]
    nofun
  · exact h

theorem answered_mixed (reported : List WakuMessageHash) (id : TaskId) (task : DeliveryTask) :
    (s.answered reported id task).propagatedAnonymously = task.propagatedAnonymously := by
  unfold answered
  split_ifs <;> rfl

theorem keeps_storeResponse (hs : ∀ id task, s.tasks id = some task → Veiled required task)
    (batch : List TaskId) (reported : List WakuMessageHash) (paginated canResend : Bool) :
    Keeps required s (s.storeResponse batch reported paginated canResend) := by
  refine Keeps.of_map hs (updates_storeResponse s batch reported paginated canResend).tasks ?_ ?_
  · intro id task h
    have ha : Veiled required (s.answered reported id task) := answered_veiled h
    dsimp only
    split_ifs
    · exact ⟨ha.answering, ha.mixed, ha.never⟩
    · exact ha
  · intro id task
    dsimp only
    split_ifs
    · exact answered_mixed reported id task
    · exact answered_mixed reported id task

theorem keeps_enqueue (hs : ∀ id task, s.tasks id = some task → Veiled required task)
    (hfresh : s.tasks s.nextTask = none) (requestId : RequestId) (msgHash : WakuMessageHash)
    (ephemeral : Bool) (timestamp : ℤ) :
    Keeps required s (s.enqueue requestId msgHash ephemeral timestamp).1 := by
  rcases enqueue_cases s requestId msgHash ephemeral timestamp with
    ⟨_, _, _, _, heq⟩ | ⟨_, _, heq⟩ | ⟨_, _, heq⟩
  · rw [heq]
    exact ⟨hs, fun id task htask hm => ⟨task, htask, hm⟩⟩
  · rw [heq]
    exact ⟨hs, fun id task htask hm => ⟨task, htask, hm⟩⟩
  · rw [heq]
    constructor
    · intro id task htask
      rw [add_tasks] at htask
      rcases Lib.mem_table_set htask with ⟨-, rfl⟩ | ⟨-, hold⟩
      · exact Plain.veiled ⟨rfl, rfl, fun _ => nofun⟩ nofun
      · exact hs id task hold
    · intro id task htask hm
      refine ⟨task, ?_, hm⟩
      rw [add_tasks, Function.update_of_ne]
      · exact htask
      · rintro rfl
        rw [hfresh] at htask
        cases htask

theorem keeps_resume (hs : ∀ id task, s.tasks id = some task → Veiled required task) (id : TaskId)
    (r : Delivery.Resumption)
    (hcancel : ∀ task now, s.tasks id = some task → r = .cancel now → task.phase.isPending = true)
    (hsend : ∀ outcome last now, r = .sendImpl outcome last now → required = true →
      outcome ≠ .propagated false) : Keeps required s (s.resume id r) := by
  rcases resume_cases s id r with hu | ⟨task, d, soon, htask, hr, -, heq⟩
  · refine Keeps.of_map hs hu.tasks (fun _ _ h => h) (fun _ _ => rfl)
  · have hveiled : Veiled required (s.delivery id task).task := hs id task htask
    have hcancel' : ∀ now, r = .cancel now → (s.delivery id task).task.phase.isPending = true :=
      fun now => hcancel task now htask
    rw [heq]
    constructor
    · intro id' task' htask'
      rw [commit_tasks] at htask'
      rcases Lib.mem_table_set htask' with ⟨-, rfl⟩ | ⟨-, hold⟩
      · exact hveiled.resume hr hcancel' hsend
      · exact hs id' task' hold
    · intro id' task' htask' hm
      rw [commit_tasks]
      by_cases hid : id' = id
      · subst hid
        rw [htask, Option.some.injEq] at htask'
        subst htask'
        exact ⟨d.task, Function.update_self _ _ _, hveiled.resume_mixed hr hcancel' hm⟩
      · refine ⟨task', ?_, hm⟩
        rw [Function.update_of_ne hid]
        exact htask'

theorem keeps_same (hs : ∀ id task, s.tasks id = some task → Veiled required task)
    (htasks : s'.tasks = s.tasks) : Keeps required s s' := by
  refine Keeps.of_map hs (f := fun _ task => task) ?_ (fun _ _ h => h) (fun _ _ => rfl)
  intro id
  rw [htasks, Option.map_id']

end SendService

/-! ### The path -/

namespace SendPath

open SendService

variable {p p' : SendPath}

/-- The path is at the `Required` level. -/
def isRequired (p : SendPath) : Bool := p.level = .required

/-- The processors are all mix. -/
def OnlyMix (processors : List SendProcessor) : Prop :=
  ∀ processor ∈ processors, ∃ fallbackAllowed, processor = .mix fallbackAllowed

structure Guarded (p : SendPath) : Prop where
  valid : p.service.Valid
  tasks : ∀ id task, p.service.tasks id = some task → Veiled p.isRequired task
  chain : p.isRequired = true → OnlyMix p.chain
  processing : p.isRequired = true → ∀ id, OnlyMix (p.processing id).processors

/-- What a step may expose: nothing at the `Required` level, and only tasks that did not propagate
over mix. -/
def MayExpose (p : SendPath) (id : TaskId) : Prop :=
  p.isRequired = false ∧
    ∃ task, p.service.tasks id = some task ∧ task.propagatedAnonymously = false

/-- A step of the path keeps the invariant and exposes only what it may. -/
structure Discreet (p p' : SendPath) : Prop where
  guarded : Guarded p'
  level : p'.level = p.level
  mixed : ∀ id task, p.service.tasks id = some task → task.propagatedAnonymously = true →
    ∃ task', p'.service.tasks id = some task' ∧ task'.propagatedAnonymously = true
  exposed : ∃ new, p'.exposed = p.exposed ++ new ∧ ∀ e ∈ new, MayExpose p e.1
  autoSubscribed : p.isRequired = true → p'.autoSubscribed = p.autoSubscribed

theorem Guarded.discreet (h : Guarded p) (hlevel : p'.level = p.level) (hchain : p'.chain = p.chain)
    (hvalid : p'.service.Valid) (hkeeps : Keeps p.isRequired p.service p'.service)
    (hprocessing : p.isRequired = true → ∀ id, OnlyMix (p'.processing id).processors)
    (hexposed : ∃ new, p'.exposed = p.exposed ++ new ∧ ∀ e ∈ new, MayExpose p e.1)
    (hsubscribed : p.isRequired = true → p'.autoSubscribed = p.autoSubscribed) :
    Discreet p p' := by
  have hrequired : p'.isRequired = p.isRequired := by
    unfold isRequired
    rw [hlevel]
  refine ⟨⟨hvalid, ?_, ?_, ?_⟩, hlevel, hkeeps.mixed, hexposed, hsubscribed⟩
  · rw [hrequired]
    exact hkeeps.veiled
  · rw [hrequired, hchain]
    exact h.chain
  · rw [hrequired]
    exact hprocessing

/-- A step of the service alone. -/
theorem Guarded.serve (h : Guarded p) {s' : SendService} (hvalid : s'.Valid)
    (hkeeps : Keeps p.isRequired p.service s') : Discreet p { p with service := s' } :=
  h.discreet rfl rfl hvalid hkeeps h.processing ⟨[], by simp, nofun⟩ (fun _ => rfl)

theorem Guarded.nothing (h : Guarded p) : Discreet p p :=
  h.serve h.valid (keeps_same h.tasks rfl)

/-! ### Processors -/

theorem decision_ne_propagated {processor : SendProcessor} {task : DeliveryTask}
    {reading : ProcessorReading} {outcome : SendOutcome}
    (h : processor.decision task reading = some outcome) (anonymously : Bool) :
    outcome ≠ .propagated anonymously := by
  rintro rfl
  cases processor with
  | mix fallbackAllowed =>
      simp only [SendProcessor.decision, SendProcessor.decideTooLarge,
        SendProcessor.decideWithoutMix] at h
      split_ifs at h <;> cases h
  | relay state => cases h
  | lightpush =>
      simp only [SendProcessor.decision] at h
      split_ifs at h
      cases h

theorem mix_outcome_ne_clear (fallbackAllowed refreshed : Bool) (result : WakuLightPushResult) :
    (SendProcessor.mix fallbackAllowed).outcome refreshed result ≠ .propagated false := by
  cases result with
  | ok peers =>
      simp only [SendProcessor.outcome]
      split_ifs <;> nofun
  | error code desc rlnMarker =>
      simp only [SendProcessor.outcome, SendProcessor.parkForRlnProofRefresh]
      split_ifs <;> nofun

theorem OnlyMix.tail {processor : SendProcessor} {rest : List SendProcessor}
    (h : OnlyMix (processor :: rest)) : OnlyMix rest :=
  fun other hother => h other (List.mem_cons_of_mem _ hother)

/-- The processors of the tasks after those of one task were set. -/
theorem onlyMix_update {processing : TaskId → Processing} (h : ∀ id, OnlyMix (processing id).processors)
    {id : TaskId} {new : Processing} (hnew : OnlyMix new.processors) :
    ∀ id', OnlyMix (Function.update processing id new id').processors := by
  intro id'
  by_cases hid : id' = id
  · rw [hid, Function.update_self]
    exact hnew
  · rw [Function.update_of_ne hid]
    exact h id'

theorem Guarded.endProcessor (h : Guarded p) {id : TaskId} {outcome : SendOutcome}
    {rest : List SendProcessor} {now : ℤ} (hrest : p.isRequired = true → OnlyMix rest)
    (houtcome : p.isRequired = true → outcome ≠ .propagated false) :
    Discreet p (p.endProcessor id outcome rest now) := by
  refine h.discreet rfl rfl (h.valid.resume id _) ?_ ?_ ⟨[], by simp [SendPath.endProcessor], nofun⟩
    (fun _ => rfl)
  · refine keeps_resume h.tasks id _ (fun _ _ _ heq => by cases heq) ?_
    rintro outcome' last now' heq hrequired
    cases heq
    exact houtcome hrequired
  · intro hrequired
    exact onlyMix_update (h.processing hrequired) (hrest hrequired)

/-- The processors that a task has still to try. -/
theorem Guarded.onlyMix (h : Guarded p) {id : TaskId} {processing : Processing}
    (hprocessing : p.processing id = processing) :
    p.isRequired = true → OnlyMix processing.processors := by
  intro hrequired
  have hid := h.processing hrequired id
  rwa [hprocessing] at hid

theorem Guarded.beginImpl (h : Guarded p) {id : TaskId} {task : DeliveryTask}
    (htask : p.service.tasks id = some task) (hphase : task.phase = .processing)
    (reading : ProcessorReading) : Discreet p (p.beginImpl id task reading) := by
  unfold SendPath.beginImpl
  split
  · rename_i processor rest hprocessing
    have honly : p.isRequired = true → OnlyMix (processor :: rest) := h.onlyMix hprocessing
    split
    · rename_i outcome hdecision
      exact h.endProcessor (fun hrequired => (honly hrequired).tail)
        (fun _ => decision_ne_propagated hdecision false)
    · -- a plain processor publishes: the level allows it, and the task did not propagate over mix
      have hplain := (h.tasks id task htask).plain (by rw [hphase]; rfl) (by rw [hphase]; nofun)
      refine h.discreet rfl rfl h.valid (keeps_same h.tasks rfl) ?_ ⟨_, rfl, ?_⟩ (fun _ => rfl)
      · intro hrequired
        exact onlyMix_update (h.processing hrequired) (honly hrequired)
      · intro e he
        obtain ⟨exposure, hexposure, rfl⟩ := List.mem_map.mp he
        refine ⟨?_, task, htask, hplain.clear⟩
        by_contra hrequired
        obtain ⟨fallbackAllowed, rfl⟩ := honly (by simpa using hrequired) processor
          List.mem_cons_self
        cases hexposure
  · exact h.nothing

theorem Guarded.endImpl (h : Guarded p) (id : TaskId) (result : WakuLightPushResult)
    (refreshed : Bool) (now : ℤ) : Discreet p (p.endImpl id result refreshed now) := by
  unfold SendPath.endImpl
  split
  · rename_i processor rest hprocessing
    have honly : p.isRequired = true → OnlyMix (processor :: rest) := h.onlyMix hprocessing
    refine h.endProcessor (fun hrequired => (honly hrequired).tail) (fun hrequired => ?_)
    obtain ⟨fallbackAllowed, rfl⟩ := honly hrequired processor List.mem_cons_self
    exact mix_outcome_ne_clear fallbackAllowed refreshed result
  · exact h.nothing

/-! ### Store validation -/

/-- A task that is asked about in Store propagated in clear. -/
theorem Guarded.mayExpose_of_eligible (h : Guarded p) {now : ℤ} {id : TaskId}
    (helig : p.isEligible now id = true) : MayExpose p id := by
  unfold isEligible at helig
  cases htask : p.service.tasks id with
  | none =>
      rw [htask] at helig
      cases helig
  | some task =>
      rw [htask] at helig
      simp only [Bool.and_eq_true] at helig
      obtain ⟨hstate, hclear⟩ := awaits_clear helig.1.1
      refine ⟨?_, task, htask, hclear⟩
      by_contra hrequired
      have hmixed := ((h.tasks id task htask).never (by simpa using hrequired)).1 hstate
      have hclear' : task.propagatedAnonymously = false := hclear
      rw [hmixed] at hclear'
      cases hclear'

theorem mem_nextStoreValidationBatch {tasks : List TaskId} {now : ℤ} {id : TaskId}
    (h : id ∈ p.nextStoreValidationBatch tasks now) : p.isEligible now id = true := by
  have hsorted := List.mem_of_mem_take h
  rw [List.mem_mergeSort] at hsorted
  exact (List.mem_filter.mp hsorted).2

/-- A task that is resent awaits a Store answer, so it propagated in clear. -/
theorem Guarded.mayExpose_of_resent (h : Guarded p) {batch : List TaskId}
    {reported : List WakuMessageHash} {paginated canResend : Bool} {id : TaskId}
    (hresent : id ∈ p.resent batch reported paginated canResend) : MayExpose p id := by
  obtain ⟨-, hcond⟩ := List.mem_filter.mp hresent
  rw [Bool.and_eq_true, Option.any_eq_true] at hcond
  obtain ⟨-, task, htask, hstarts⟩ := hcond
  have hveiled : Veiled p.isRequired (p.service.answered reported id task) :=
    answered_veiled (h.tasks id task htask)
  simp only [startsResend, Bool.and_eq_true] at hstarts
  obtain ⟨started, hphase⟩ := hveiled.answering (by
    rw [of_decide_eq_true hstarts.1.2]
    nofun)
  refine ⟨?_, task, htask, ?_⟩
  · by_contra hrequired
    exact (hveiled.never (by simpa using hrequired)).2 started hphase
  · by_contra hmixed
    have hmixed' : (p.service.answered reported id task).propagatedAnonymously = true := by
      rw [answered_mixed]
      simpa using hmixed
    rcases hveiled.mixed hmixed' with ⟨hp, -⟩ | ⟨-, hp | ⟨propagated, hp⟩⟩ <;>
      rw [hphase] at hp <;> cases hp

theorem exposes_new {ids : List TaskId} {exposure : Exposure} (h : ∀ id ∈ ids, MayExpose p id) :
    ∃ new, (p.exposes ids exposure).exposed = p.exposed ++ new ∧ ∀ e ∈ new, MayExpose p e.1 := by
  refine ⟨_, rfl, fun e he => ?_⟩
  obtain ⟨id, hid, rfl⟩ := List.mem_map.mp he
  exact h id hid

/-- Every action of the path exposes only what it may. -/
theorem Guarded.step (h : Guarded p) (a : PathAction) : Discreet p (p.step a) := by
  cases a with
  | send requestId msgHash ephemeral timestamp isSubbed subscribes =>
      have henqueue : Discreet p
          { p with service := (p.service.enqueue requestId msgHash ephemeral timestamp).1 } :=
        h.serve (h.valid.enqueue requestId msgHash ephemeral timestamp)
          (keeps_enqueue h.tasks (h.valid.fresh _ (le_refl _)) requestId msgHash ephemeral timestamp)
      simp only [SendPath.step, enqueueSend]
      split_ifs with hsubscribes
      · refine ⟨⟨henqueue.guarded.valid, henqueue.guarded.tasks, henqueue.guarded.chain,
          henqueue.guarded.processing⟩, henqueue.level, henqueue.mixed, henqueue.exposed, ?_⟩
        intro hrequired
        simp only [Bool.and_eq_true, subscribesOnSend, decide_eq_true_eq] at hsubscribes
        simp [isRequired, hsubscribes.1.2] at hrequired
      · exact h.nothing
      · exact henqueue
  | startSendService =>
      refine h.serve (h.valid.step .startSendService) ?_
      exact Keeps.of_map h.tasks (updates_startSendService p.service).tasks (fun _ _ hv => hv)
        (fun _ _ => rfl)
  | stopSendService => exact h.serve (h.valid.step .stopSendService) (keeps_stopSendService h.tasks)
  | retryNow => exact h.serve (h.valid.step .retryNow) (keeps_retryNow h.tasks)
  | resume id r =>
      simp only [SendPath.step]
      split_ifs with hresumable
      · refine h.serve (h.valid.resume id r) (keeps_resume h.tasks id r ?_ ?_)
        · rintro task now htask rfl
          simpa [resumable, phase, htask] using hresumable
        · rintro outcome last now rfl
          cases hresumable
      · exact h.nothing
  | process id =>
      simp only [SendPath.step]
      split_ifs
      · refine h.discreet rfl rfl (h.valid.resume id _) ?_ ?_ ⟨[], by simp, nofun⟩ (fun _ => rfl)
        · exact keeps_resume h.tasks id _ (fun _ _ _ heq => by cases heq)
            (fun _ _ _ heq => by cases heq)
        · intro hrequired
          exact onlyMix_update (h.processing hrequired) (h.chain hrequired)
      · exact h.nothing
  | beginImpl id reading =>
      cases htask : p.service.tasks id with
      | none =>
          simp only [SendPath.step, htask]
          exact h.nothing
      | some task =>
          simp only [SendPath.step, htask]
          split_ifs with hphase
          · exact h.beginImpl htask hphase reading
          · exact h.nothing
  | endImpl id result refreshed now =>
      simp only [SendPath.step]
      split_ifs
      · exact h.endImpl id result refreshed now
      · exact h.nothing
  | storeQuery now =>
      simp only [SendPath.step]
      split_ifs
      · exact h.nothing
      · refine h.discreet rfl rfl h.valid (keeps_same h.tasks rfl) h.processing ?_ (fun _ => rfl)
        exact exposes_new (fun id hid => h.mayExpose_of_eligible (mem_nextStoreValidationBatch hid))
  | storeAnswer i reported paginated peerAvailable =>
      simp only [SendPath.step]
      split
      · exact h.nothing
      · refine h.discreet rfl rfl (h.valid.step (.storeResponse _ _ _ _))
          (keeps_storeResponse h.tasks _ _ _ _) h.processing ?_ (fun _ => rfl)
        exact exposes_new (fun id hid => h.mayExpose_of_resent hid)
  | storeQueryEnds i =>
      exact h.discreet rfl rfl h.valid (keeps_same h.tasks rfl) h.processing ⟨[], by simp [SendPath.step], nofun⟩
        (fun _ => rfl)
  | resendEnd msgHash =>
      exact h.serve (h.valid.step (.resendEnd msgHash)) (keeps_same h.tasks rfl)

/-! ### Every run -/

/-- The path of a new service after the actions. -/
def after (cfg : SendConfig) (archiveTime : ℤ) (level : AnonymityLevel) (chain : List SendProcessor)
    (actions : List PathAction) : SendPath :=
  Lib.run SendPath.step (initial cfg archiveTime level chain) actions

variable {isRelayAvail isLightPushAvail : Bool} {level : AnonymityLevel}
  {chain : List SendProcessor}

theorem onlyMix_of_required
    (h : setupSendProcessorChain isRelayAvail isLightPushAvail .required = .ok chain) :
    OnlyMix chain := by
  simp only [setupSendProcessorChain] at h
  split_ifs at h
  cases h
  intro processor hprocessor
  exact ⟨false, List.mem_singleton.mp hprocessor⟩

theorem initial_guarded (cfg : SendConfig) (archiveTime : ℤ)
    (h : setupSendProcessorChain isRelayAvail isLightPushAvail level = .ok chain) :
    Guarded (initial cfg archiveTime level chain) where
  valid := Valid.initial cfg
  tasks id task htask := by cases htask
  chain hrequired := by
    obtain rfl : level = .required := of_decide_eq_true hrequired
    exact onlyMix_of_required h
  processing _ _ processor hprocessor := by cases hprocessor

theorem run_guarded (h : Guarded p) (actions : List PathAction) :
    Guarded (Lib.run SendPath.step p actions) := by
  induction actions using List.reverseRecOn with
  | nil => exact h
  | append_singleton actions a ih =>
      rw [Lib.run_concat]
      exact (ih.step a).guarded

/-- At the `Required` level nothing is exposed. -/
theorem run_required (h : Guarded p) (hrequired : p.isRequired = true) (actions : List PathAction) :
    (Lib.run SendPath.step p actions).isRequired = true ∧
      (Lib.run SendPath.step p actions).exposed = p.exposed ∧
      (Lib.run SendPath.step p actions).autoSubscribed = p.autoSubscribed := by
  induction actions using List.reverseRecOn with
  | nil => exact ⟨hrequired, rfl, rfl⟩
  | append_singleton actions a ih =>
      obtain ⟨hreq, hexposed, hsubscribed⟩ := ih
      have hstep := (run_guarded h actions).step a
      rw [Lib.run_concat]
      refine ⟨?_, ?_, (hstep.autoSubscribed hreq).trans hsubscribed⟩
      · unfold isRequired
        rw [hstep.level]
        exact hreq
      · obtain ⟨new, hnew, hmay⟩ := hstep.exposed
        have hnil : new = [] := by
          rw [List.eq_nil_iff_forall_not_mem]
          intro e he
          rw [(hmay e he).1] at hreq
          cases hreq
        rw [hnew, hnil, List.append_nil]
        exact hexposed

/-- Nothing more is exposed of a task that propagated over mix. -/
theorem run_mixed (h : Guarded p) {id : TaskId} {task : DeliveryTask}
    (htask : p.service.tasks id = some task) (hmixed : task.propagatedAnonymously = true)
    (actions : List PathAction) :
    (∃ task', (Lib.run SendPath.step p actions).service.tasks id = some task' ∧
      task'.propagatedAnonymously = true) ∧
      (Lib.run SendPath.step p actions).exposuresOf id = p.exposuresOf id := by
  induction actions using List.reverseRecOn with
  | nil => exact ⟨⟨task, htask, hmixed⟩, rfl⟩
  | append_singleton actions a ih =>
      obtain ⟨⟨task', htask', hmixed'⟩, hexposures⟩ := ih
      have hstep := (run_guarded h actions).step a
      rw [Lib.run_concat]
      refine ⟨hstep.mixed id task' htask' hmixed', ?_⟩
      obtain ⟨new, hnew, hmay⟩ := hstep.exposed
      have hnone : new.filter (fun e => decide (e.1 = id)) = [] := by
        rw [List.filter_eq_nil_iff]
        intro e he heq
        obtain ⟨-, task'', htask'', hclear⟩ := hmay e he
        rw [of_decide_eq_true heq, htask', Option.some.injEq] at htask''
        rw [← htask'', hmixed'] at hclear
        cases hclear
      unfold exposuresOf at hexposures ⊢
      rw [hnew, List.filter_append, hnone, List.append_nil]
      exact hexposures

/-- In every run with the chain of `setupSendProcessorChain`: at the `Required` level no task is ever
exposed and no send subscribes; and at every level nothing more is exposed of a task from the moment
on at which it propagated over mix. -/
theorem anonymity_after
    (hchain : setupSendProcessorChain isRelayAvail isLightPushAvail level = .ok chain)
    (cfg : SendConfig) (archiveTime : ℤ) (actions : List PathAction) :
    (level = .required → (after cfg archiveTime level chain actions).exposed = [] ∧
      (after cfg archiveTime level chain actions).autoSubscribed = []) ∧
    (∀ pre post, actions = pre ++ post → ∀ id task,
      (after cfg archiveTime level chain pre).service.tasks id = some task →
      task.propagatedAnonymously = true →
      (after cfg archiveTime level chain actions).exposuresOf id =
        (after cfg archiveTime level chain pre).exposuresOf id) := by
  have hinitial := initial_guarded cfg archiveTime hchain
  constructor
  · rintro rfl
    obtain ⟨-, hexposed, hsubscribed⟩ := run_required hinitial rfl actions
    exact ⟨hexposed, hsubscribed⟩
  · rintro pre post rfl id task htask hmixed
    have hrun : after cfg archiveTime level chain (pre ++ post) =
        Lib.run SendPath.step (after cfg archiveTime level chain pre) post := by
      simp [after, Lib.run]
    rw [hrun]
    exact (run_mixed (run_guarded hinitial pre) htask hmixed post).2

/-- Mix can carry the message, or is not mounted. -/
def mixReading (mounted : Bool) : ProcessorReading where
  now := 0
  size := 1
  limit := 2
  mixReady := mounted
  mixMounted := mounted
  mixSelfHopUsable := mounted
  mixExit := mounted
  lightpushPeerAvailable := false

/-- Mix is not mounted at the first attempt, which relay publishes to no peer; the second attempt
propagates over mix. -/
def mixedAtSecondAttempt : List PathAction :=
  let reading : Reading := { now := 0, actual := 0, needsRlnProof := false }
  [.startSendService, .send "request" SendService.oneMessage false 0 false true,
    .resume 0 (.deliver reading), .resume 0 (.admitAndProve none), .resume 0 (.admitting true 0),
    .resume 0 (.attachRlnProof .attached), .resume 0 (.admissionEnd reading), .process 0,
    .beginImpl 0 (mixReading false), .beginImpl 0 (mixReading false),
    .endImpl 0 (.error .noPeersToRelay "no peers" false) false 0, .beginImpl 0 (mixReading false),
    .resume 0 (.processEnd reading), .retryNow, .resume 0 (.retry reading), .process 0,
    .beginImpl 0 (mixReading true), .endImpl 0 (.ok 1) false 0]

/-- A stop, the rest of the delivery, and a restart. -/
def stoppedAndRestarted : List PathAction :=
  let reading : Reading := { now := 0, actual := 0, needsRlnProof := false }
  [.stopSendService, .resume 0 (.cancel 0), .resume 0 (.processEnd reading), .resume 0 (.sendEnd 0),
    .startSendService, .resume 0 (.deliver reading), .storeQuery 10]

/-- At the `Preferred` level the clear publish of the first attempt stays the only one. -/
theorem anonymity_secondAttempt :
    (after SendService.oneByOne 3 .preferred [.mix true, .relay .fallbackRetry, .lightpush]
      (mixedAtSecondAttempt ++ stoppedAndRestarted)).exposuresOf 0 = [.relay] := by
  have hmixed : ((after SendService.oneByOne 3 .preferred
      [.mix true, .relay .fallbackRetry, .lightpush] mixedAtSecondAttempt).service.tasks 0).map
      (·.propagatedAnonymously) = some true := by decide +kernel
  have hexposed : (after SendService.oneByOne 3 .preferred
      [.mix true, .relay .fallbackRetry, .lightpush] mixedAtSecondAttempt).exposuresOf 0 =
      [.relay] := by decide +kernel
  obtain ⟨task, htask, htrue⟩ := Option.map_eq_some_iff.mp hmixed
  have hchain : setupSendProcessorChain true true .preferred =
      .ok [.mix true, .relay .fallbackRetry, .lightpush] := rfl
  rw [(anonymity_after hchain SendService.oneByOne 3
    (mixedAtSecondAttempt ++ stoppedAndRestarted)).2 _ _ rfl 0 task htask htrue]
  exact hexposed

end SendPath

end LogosDelivery.Messaging
