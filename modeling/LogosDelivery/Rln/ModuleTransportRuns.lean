import LogosDelivery.Rln.ModuleTransport

/-! # Answers of the external RLN module

Every call that is not given up gets its own answer, unless a callback is removed between the
answer and the waiter, or the host answers a request after its removal: clearing a request makes it
look unanswered, so that its caller gets an error in place of the accepted response and a further
response is accepted (`own_answers`, `answer_clear_answer`). -/

namespace LogosDelivery.Rln.ModuleTransport

open Lib

variable {p : Pending} {result : Except String String}

/-! ### One request -/

namespace Pending

/-- What the waiter of a request has seen. -/
def WaiterSound (p : Pending) : Waiter → Prop
  | .waiting => p.cleared = true → p.completed = false ∧ p.accepted = []
  | .reading => p.clearedUnanswered = false ∧ ∃ resultJson,
      p.accepted = [resultJson] ∧ p.resultBuf = some resultJson
  | .leaving result false =>
      (p.accepted = [] ∧ p.cleared = true ∧ ∃ e, result = .error e) ∨
        (p.clearedUnanswered = false ∧ ∃ resultJson,
          p.accepted = [resultJson] ∧ result = .ok resultJson)
  | .leaving _ true => True

/-- The invariant of a request. -/
structure Sound (p : Pending) : Prop where
  accepted_le : p.accepted.length ≤ 1
  completed : p.completed = true → ∃ resultJson,
    p.accepted = [resultJson] ∧ p.resultBuf = some resultJson
  unanswered : p.completed = false → p.cleared = false → p.accepted = []
  fired : p.fired = true ↔ p.completed = true ∨ p.cleared = true
  clearedUnanswered : p.clearedUnanswered = true → p.cleared = true
  waiter : p.WaiterSound p.waiter

/-- No response is accepted any more for a cleared request, unless its caller gave up and none was
accepted before. -/
def Answerable (p : Pending) : Prop :=
  p.cleared = true → p.accepted = [] ∧ ∃ result, p.waiter = .leaving result true

theorem Sound.new (request : ℕ) (reqId : UInt64) (mixRequest : Bool) :
    (new request reqId mixRequest).Sound where
  accepted_le := Nat.zero_le _
  completed h := by cases h
  unanswered _ _ := rfl
  fired := by simp [Pending.new]
  clearedUnanswered h := by cases h
  waiter h := by cases h

theorem Sound.answer (h : p.Sound) (hopen : p.completed = false) (hok : p.Answerable)
    (resultJson : String) : (p.answer resultJson).Sound := by
  have hnone : p.accepted = [] := by
    cases hcleared : p.cleared with
    | false => exact h.unanswered hopen hcleared
    | true => exact (hok hcleared).1
  have hwaiter := h.waiter
  refine ⟨?_, ?_, ?_, ?_, h.clearedUnanswered, ?_⟩
  · simp [Pending.answer, hnone]
  · exact fun _ => ⟨resultJson, by simp [Pending.answer, hnone], rfl⟩
  · exact fun hcompleted => by cases hcompleted
  · simp [Pending.answer]
  · cases hcleared : p.cleared with
    | true =>
        obtain ⟨-, result, hleaving⟩ := hok hcleared
        simp [WaiterSound, Pending.answer, hleaving]
    | false =>
        cases hw : p.waiter with
        | waiting => simp [WaiterSound, Pending.answer, hw, hcleared]
        | reading =>
            rw [hw] at hwaiter
            obtain ⟨-, resultJson, haccepted, -⟩ := hwaiter
            rw [hnone] at haccepted
            cases haccepted
        | leaving result abandoned =>
            cases abandoned with
            | true => simp [WaiterSound, Pending.answer, hw]
            | false =>
                rw [hw] at hwaiter
                rcases hwaiter with ⟨-, hyes, -⟩ | ⟨-, resultJson, haccepted, -⟩
                · rw [hcleared] at hyes
                  cases hyes
                · rw [hnone] at haccepted
                  cases haccepted

theorem Sound.clear (h : p.Sound) (hok : p.waiter = .waiting → p.completed = false) :
    p.clear.Sound := by
  have hwaiter := h.waiter
  refine ⟨h.accepted_le, ?_, ?_, ?_, fun _ => rfl, ?_⟩
  · exact fun hcompleted => by cases hcompleted
  · exact fun _ hcleared => by cases hcleared
  · simp [Pending.clear]
  · cases hw : p.waiter with
    | waiting =>
        have hopen := hok hw
        have hnone : p.accepted = [] := by
          cases hcleared : p.cleared with
          | false => exact h.unanswered hopen hcleared
          | true =>
              rw [hw] at hwaiter
              exact (hwaiter hcleared).2
        simp [WaiterSound, Pending.clear, hw, hnone]
    | reading =>
        rw [hw] at hwaiter
        obtain ⟨hunanswered, resultJson, haccepted, hbuf⟩ := hwaiter
        simp [WaiterSound, Pending.clear, hw, hunanswered, haccepted, hbuf]
    | leaving result abandoned =>
        cases abandoned with
        | true => simp [WaiterSound, Pending.clear, hw]
        | false =>
            rw [hw] at hwaiter
            rcases hwaiter with ⟨hnone, -, e, rfl⟩ | ⟨hunanswered, resultJson, haccepted, rfl⟩
            · simp [WaiterSound, Pending.clear, hw, hnone]
            · simp [WaiterSound, Pending.clear, hw, hunanswered, haccepted]

/-- Only the waiter changes. -/
theorem Sound.setWaiter (h : p.Sound) (waiter : Waiter) (hwaiter : p.WaiterSound waiter) :
    Sound { p with waiter := waiter } where
  accepted_le := h.accepted_le
  completed := h.completed
  unanswered := h.unanswered
  fired := h.fired
  clearedUnanswered := h.clearedUnanswered
  waiter := by
    cases waiter with
    | waiting => exact hwaiter
    | reading => exact hwaiter
    | leaving result abandoned => cases abandoned <;> exact hwaiter

theorem Sound.wake (h : p.Sound) : p.wake.Sound := by
  have hwaiter := h.waiter
  unfold Pending.wake
  cases hw : p.waiter with
  | reading => exact h
  | leaving result abandoned => exact h
  | waiting =>
      rw [hw] at hwaiter
      dsimp only
      split_ifs with hidle hopen
      · exact h
      · have hcompleted : p.completed = false := by simpa using hopen
        have hcleared : p.cleared = true := by
          have hfired : p.fired = true := by simpa using hidle
          simpa [hcompleted] using h.fired.mp hfired
        exact h.setWaiter (.leaving (.error _) false)
          (Or.inl ⟨(hwaiter hcleared).2, hcleared, _, rfl⟩)
      · have hcompleted : p.completed = true := by simpa using hopen
        have hcleared : ¬ p.cleared = true := by
          intro hcleared
          rw [(hwaiter hcleared).1] at hcompleted
          cases hcompleted
        have hunanswered : p.clearedUnanswered = false := by
          simpa using fun hunanswered => hcleared (h.clearedUnanswered hunanswered)
        exact h.setWaiter .reading ⟨hunanswered, h.completed hcompleted⟩

theorem Sound.read (h : p.Sound) : p.read.Sound := by
  have hwaiter := h.waiter
  unfold Pending.read
  cases hw : p.waiter with
  | waiting => exact h
  | leaving result abandoned => exact h
  | reading =>
      rw [hw] at hwaiter
      obtain ⟨hunanswered, resultJson, haccepted, hbuf⟩ := hwaiter
      have hresult : p.resultBuf.getD "" = resultJson := by rw [hbuf, Option.getD_some]
      exact h.setWaiter (.leaving (.ok _) false)
        (Or.inr ⟨hunanswered, resultJson, haccepted, by rw [hresult]⟩)

theorem Sound.abandon (h : p.Sound) (cause : String) : (p.abandon cause).Sound := by
  unfold Pending.abandon
  cases hw : p.waiter with
  | waiting => exact h.setWaiter _ trivial
  | reading => exact h
  | leaving result abandoned => exact h

/-- A request that was cleared before it was answered. -/
theorem Sound.failed (h : p.Sound) (hcleared : p.clearedUnanswered = true)
    (hwaiting : p.waiter = .waiting) : ∃ e, p.wake.waiter = .leaving (.error e) false := by
  have hwaiter := h.waiter
  rw [hwaiting] at hwaiter
  have hc := h.clearedUnanswered hcleared
  refine ⟨"RLN module unregistered while awaiting response", ?_⟩
  simp [Pending.wake, hwaiting, h.fired.mpr (.inr hc), (hwaiter hc).1]

end Pending

/-! ### The requests of a state -/

/-- What a call that returned has seen. -/
structure Finished.Sound (f : Finished) : Prop where
  accepted_le : f.accepted.length ≤ 1
  result : f.abandoned = false →
    (f.accepted = [] ∧ ∃ e, f.result = .error e) ∨
      (f.clearedUnanswered = false ∧ ∃ resultJson,
        f.accepted = [resultJson] ∧ f.result = .ok resultJson)

/-- A call that was not given up gets the response that was accepted for it, or an error if none
was, also if its request was cleared before it was answered. -/
structure GetsItsOwn {J : Type} (parseJson : String → Except String J) (f : Finished) : Prop where
  answered : ∀ resultJson, f.accepted = [resultJson] →
    f.reply parseJson = replyTo parseJson f.mixRequest resultJson
  unanswered : f.accepted = [] → ∃ e, f.reply parseJson = .error e
  cleared : f.clearedUnanswered = true → ∃ e, f.reply parseJson = .error e

theorem Finished.Sound.getsItsOwn {J : Type} (parseJson : String → Except String J) {f : Finished}
    (h : f.Sound) (hkept : f.abandoned = false) : GetsItsOwn parseJson f := by
  rcases h.result hkept with ⟨hnone, e, herror⟩ | ⟨hunanswered, resultJson, haccepted, hok⟩
  · have hreply : f.reply parseJson = .error e := by rw [Finished.reply, herror]
    refine ⟨?_, fun _ => ⟨e, hreply⟩, fun _ => ⟨e, hreply⟩⟩
    intro resultJson haccepted
    rw [hnone] at haccepted
    cases haccepted
  · have hreply : f.reply parseJson = replyTo parseJson f.mixRequest resultJson := by
      rw [Finished.reply, hok]
    refine ⟨?_, ?_, ?_⟩
    · intro resultJson' haccepted'
      rw [haccepted] at haccepted'
      rw [hreply, (List.singleton_inj.mp haccepted')]
    · intro hnone
      rw [haccepted] at hnone
      cases hnone
    · intro hcleared
      rw [hunanswered] at hcleared
      cases hcleared

namespace Transport

variable {s : Transport} {reqId : UInt64} {resultJson : String} {request : ℕ}

/-- The invariant of the transport. -/
structure Sound (s : Transport) : Prop where
  nextReqId : s.gNextReqId = UInt64.ofNat s.linked
  reqIds : ∀ p ∈ s.gPending, p.reqId = UInt64.ofNat p.request ∧ p.request < s.linked
  requests : (s.gPending.map (·.request)).Nodup
  pending : ∀ p ∈ s.gPending, p.Sound
  finished : ∀ f ∈ s.finished, f.Sound

theorem Sound.new : new.Sound where
  nextReqId := rfl
  reqIds _ hp := by cases hp
  requests := List.nodup_nil
  pending _ hp := by cases hp
  finished _ hf := by cases hf

/-- Requests get different ids, as long as the ids do not run out. -/
theorem Sound.reqIds_nodup (h : s.Sound) (hlinked : s.linked ≤ 2 ^ 64) :
    (s.gPending.map (·.reqId)).Nodup := by
  have hrequests := List.pairwise_map.mp h.requests
  refine List.pairwise_map.mpr (hrequests.imp_of_mem ?_)
  intro p q hp hq hne heq
  obtain ⟨hpid, hplt⟩ := h.reqIds p hp
  obtain ⟨hqid, hqlt⟩ := h.reqIds q hq
  rw [hpid, hqid] at heq
  have hnat := congrArg UInt64.toNat heq
  have hsize : UInt64.size = 2 ^ 64 := rfl
  rw [UInt64.toNat_ofNat_of_lt' (by omega), UInt64.toNat_ofNat_of_lt' (by omega)] at hnat
  exact hne hnat

/-- A response reaches the one request with its id. -/
theorem respond_eq (reqId : UInt64) (resultJson : String) : ∀ ps : List Pending,
    (ps.map (·.reqId)).Nodup →
      respond reqId resultJson ps =
        (ps.map (fun p =>
            if p.reqId = reqId ∧ p.completed = false then p.answer resultJson else p),
          if ∃ p ∈ ps, p.reqId = reqId ∧ p.completed = false then 0 else 1)
  | [], _ => by simp [respond]
  | p :: ps, hids => by
      obtain ⟨hnew, hids⟩ := List.nodup_cons.mp hids
      by_cases hid : p.reqId = reqId
      · have hothers : ∀ q ∈ ps, ¬ q.reqId = reqId := by
          intro q hq hqid
          exact hnew (List.mem_map.mpr ⟨q, hq, hqid.trans hid.symm⟩)
        have hrest : ps.map (fun p =>
            if p.reqId = reqId ∧ p.completed = false then p.answer resultJson else p) = ps := by
          refine (List.map_congr_left ?_).trans (List.map_id ps)
          intro q hq
          rw [if_neg (fun hqopen => hothers q hq hqopen.1), id]
        have hnone : ¬ ∃ q ∈ ps, q.reqId = reqId ∧ q.completed = false :=
          fun ⟨q, hq, hqid, _⟩ => hothers q hq hqid
        rw [List.map_cons, hrest]
        cases hcompleted : p.completed with
        | true => simp [respond, hid, hcompleted, hnone]
        | false => simp [respond, hid, hcompleted]
      · simp [respond, hid, respond_eq reqId resultJson ps hids]

/-- Requests are changed one by one, and none is linked or unlinked. -/
theorem Sound.mapPending (h : s.Sound) {s' : Transport} {f : Pending → Pending}
    (hnext : s'.gNextReqId = s.gNextReqId) (hlinked : s'.linked = s.linked)
    (hfinished : s'.finished = s.finished) (hpending : s'.gPending = s.gPending.map f)
    (hrequest : ∀ p, (f p).request = p.request ∧ (f p).reqId = p.reqId)
    (hsound : ∀ p ∈ s.gPending, (f p).Sound) : s'.Sound where
  nextReqId := by rw [hnext, hlinked, h.nextReqId]
  reqIds p' hp' := by
    rw [hpending] at hp'
    obtain ⟨p, hp, rfl⟩ := List.mem_map.mp hp'
    rw [(hrequest p).1, (hrequest p).2, hlinked]
    exact h.reqIds p hp
  requests := by
    have hsame : s'.gPending.map (·.request) = s.gPending.map (·.request) := by
      rw [hpending, List.map_map]
      exact List.map_congr_left (fun p _ => (hrequest p).1)
    rw [hsame]
    exact h.requests
  pending p' hp' := by
    rw [hpending] at hp'
    obtain ⟨p, hp, rfl⟩ := List.mem_map.mp hp'
    exact hsound p hp
  finished := by
    rw [hfinished]
    exact h.finished

theorem Sound.refuse (h : s.Sound) (mixRequest : Bool) (e : String) :
    (s.refuse mixRequest e).Sound where
  nextReqId := h.nextReqId
  reqIds := h.reqIds
  requests := h.requests
  pending := h.pending
  finished f hf := by
    rcases List.mem_append.mp hf with hf | hf
    · exact h.finished f hf
    · rw [List.mem_singleton.mp hf]
      exact ⟨Nat.zero_le _, fun _ => .inl ⟨rfl, e, rfl⟩⟩

theorem Sound.linkPending (h : s.Sound) (mixRequest : Bool) : (s.linkPending mixRequest).Sound where
  nextReqId := by
    change s.gNextReqId + 1 = UInt64.ofNat (s.linked + 1)
    rw [h.nextReqId, UInt64.ofNat_add]
    rfl
  reqIds p hp := by
    rcases List.mem_cons.mp hp with rfl | hp
    · exact ⟨h.nextReqId, Nat.lt_succ_self _⟩
    · exact ⟨(h.reqIds p hp).1, Nat.lt_succ_of_lt (h.reqIds p hp).2⟩
  requests := by
    refine List.nodup_cons.mpr ⟨?_, h.requests⟩
    intro hmem
    obtain ⟨p, hp, heq⟩ := List.mem_map.mp hmem
    have hlt := (h.reqIds p hp).2
    change p.request = s.linked at heq
    omega
  pending p hp := by
    rcases List.mem_cons.mp hp with rfl | hp
    · exact Pending.Sound.new _ _ _
    · exact h.pending p hp
  finished := h.finished

theorem Sound.clearPending (h : s.Sound) {mixRequest : Bool}
    (hok : ∀ p ∈ s.gPending, p.mixRequest = mixRequest → p.waiter = .waiting →
      p.completed = false) : (s.clearPending mixRequest).Sound := by
  refine h.mapPending rfl rfl rfl rfl ?_ ?_
  · intro p
    split_ifs <;> exact ⟨rfl, rfl⟩
  · intro p hp
    split_ifs with hkind
    · exact (h.pending p hp).clear (hok p hp hkind)
    · exact h.pending p hp

theorem Sound.respond (h : s.Sound) (hlinked : s.linked ≤ 2 ^ 64)
    (hok : ∀ p ∈ s.gPending, p.reqId = reqId → p.completed = false → p.Answerable) :
    (s.logosdelivery_rln_response reqId resultJson).1.Sound := by
  have hpending : (s.logosdelivery_rln_response reqId resultJson).1.gPending = s.gPending.map
      (fun p => if p.reqId = reqId ∧ p.completed = false then p.answer resultJson else p) := by
    rw [logosdelivery_rln_response, respond_eq reqId resultJson _ (h.reqIds_nodup hlinked)]
  refine h.mapPending rfl rfl rfl hpending ?_ ?_
  · intro p
    split_ifs <;> exact ⟨rfl, rfl⟩
  · intro p hp
    split_ifs with hopen
    · exact (h.pending p hp).answer hopen.2 (hok p hp hopen.1 hopen.2) resultJson
    · exact h.pending p hp

theorem Sound.atRequest (h : s.Sound) (request : ℕ) {f : Pending → Pending}
    (hrequest : ∀ p, (f p).request = p.request ∧ (f p).reqId = p.reqId)
    (hsound : ∀ p, p.Sound → (f p).Sound) : (s.atRequest request f).Sound := by
  refine h.mapPending rfl rfl rfl rfl ?_ ?_
  · intro p
    split_ifs
    · exact hrequest p
    · exact ⟨rfl, rfl⟩
  · intro p hp
    split_ifs
    · exact hsound p (h.pending p hp)
    · exact h.pending p hp

theorem Sound.unlinkPending (h : s.Sound) (request : ℕ) : (s.unlinkPending request).Sound := by
  unfold Transport.unlinkPending
  cases hfind : s.gPending.find? (fun p => decide (p.request = request)) with
  | none => exact h
  | some p =>
      have hp := h.pending p (List.mem_of_find?_eq_some hfind)
      have hwaiter := hp.waiter
      dsimp only
      cases hw : p.waiter with
      | waiting => exact h
      | reading => exact h
      | leaving result abandoned =>
          rw [hw] at hwaiter
          refine ⟨h.nextReqId, ?_, ?_, ?_, ?_⟩
          · exact fun q hq => h.reqIds q (List.mem_of_mem_filter hq)
          · exact h.requests.sublist (List.filter_sublist.map _)
          · exact fun q hq => h.pending q (List.mem_of_mem_filter hq)
          · intro f hf
            rcases List.mem_append.mp hf with hf | hf
            · exact h.finished f hf
            · rw [List.mem_singleton.mp hf]
              refine ⟨hp.accepted_le, ?_⟩
              rintro rfl
              rcases hwaiter with ⟨hnone, -, herror⟩ | hanswered
              · exact .inl ⟨hnone, herror⟩
              · exact .inr hanswered

/-- No callback is removed while a request of its kind is answered and its waiter has not seen that,
and no cleared request is answered. -/
def Meets (s : Transport) : Action → Prop
  | .response reqId _ =>
      ∀ p ∈ s.gPending, p.reqId = reqId → p.completed = false → p.Answerable
  | .setPlugin none =>
      ∀ p ∈ s.gPending, p.mixRequest = false → p.waiter = .waiting → p.completed = false
  | .setMixCallback false =>
      ∀ p ∈ s.gPending, p.mixRequest = true → p.waiter = .waiting → p.completed = false
  | _ => True

theorem Sound.step (h : s.Sound) (hlinked : s.linked ≤ 2 ^ 64) {action : Action}
    (hmeets : s.Meets action) : (s.step action).Sound := by
  cases action with
  | rlnCall fn allocated =>
      change (s.rlnCall fn allocated).Sound
      unfold Transport.rlnCall
      split_ifs
      · exact h.refuse false _
      · exact h.refuse false _
      · exact h.linkPending false
  | rlnMixCall allocated =>
      change (s.rlnMixCall allocated).Sound
      unfold Transport.rlnMixCall
      split_ifs
      · exact h.refuse true _
      · exact h.refuse true _
      · exact h.refuse true _
      · exact h.linkPending true
  | response reqId resultJson => exact h.respond hlinked hmeets
  | setPlugin plugin =>
      cases plugin with
      | none =>
          have h' : Sound { s with gPlugin := {}, gRegistered := false } :=
            ⟨h.nextReqId, h.reqIds, h.requests, h.pending, h.finished⟩
          exact h'.clearPending hmeets
      | some plugin => exact ⟨h.nextReqId, h.reqIds, h.requests, h.pending, h.finished⟩
  | setMixCallback callback =>
      have h' : Sound { s with gMixCall := callback } :=
        ⟨h.nextReqId, h.reqIds, h.requests, h.pending, h.finished⟩
      cases callback with
      | false => exact h'.clearPending hmeets
      | true => exact h'
  | wake request =>
      refine h.atRequest request ?_ (fun p hp => hp.wake)
      intro p
      unfold Pending.wake
      split
      · split_ifs <;> exact ⟨rfl, rfl⟩
      · exact ⟨rfl, rfl⟩
  | read request =>
      refine h.atRequest request ?_ (fun p hp => hp.read)
      intro p
      unfold Pending.read
      split <;> exact ⟨rfl, rfl⟩
  | timeout request =>
      refine h.atRequest request ?_ (fun p hp => hp.abandon _)
      intro p
      unfold Pending.abandon
      split <;> exact ⟨rfl, rfl⟩
  | cancel request =>
      refine h.atRequest request ?_ (fun p hp => hp.abandon _)
      intro p
      unfold Pending.abandon
      split <;> exact ⟨rfl, rfl⟩
  | unlink request => exact h.unlinkPending request

/-! ### Runs -/

def Action.isRequest : Action → Bool
  | .rlnCall _ _ | .rlnMixCall _ => true
  | _ => false

/-- How many requests the actions make. -/
def requests (actions : List Action) : ℕ := actions.countP Action.isRequest

theorem linked_unlinkPending : (s.unlinkPending request).linked = s.linked := by
  unfold unlinkPending
  split
  · rfl
  · split <;> rfl

theorem linked_step (s : Transport) (action : Action) :
    (s.step action).linked ≤ s.linked + requests [action] := by
  cases action with
  | rlnCall fn allocated =>
      change (s.rlnCall fn allocated).linked ≤ _
      unfold rlnCall
      split_ifs <;> simp [refuse, linkPending, requests, Action.isRequest]
  | rlnMixCall allocated =>
      change (s.rlnMixCall allocated).linked ≤ _
      unfold rlnMixCall
      split_ifs <;> simp [refuse, linkPending, requests, Action.isRequest]
  | setPlugin plugin => cases plugin <;> exact Nat.le_add_right _ _
  | setMixCallback callback => cases callback <;> exact Nat.le_add_right _ _
  | unlink request =>
      change (s.unlinkPending request).linked ≤ _
      rw [linked_unlinkPending]
      exact Nat.le_add_right _ _
  | response reqId resultJson => exact Nat.le_add_right _ _
  | wake request => exact Nat.le_add_right _ _
  | read request => exact Nat.le_add_right _ _
  | timeout request => exact Nat.le_add_right _ _
  | cancel request => exact Nat.le_add_right _ _

theorem linked_after (actions : List Action) : (after actions).linked ≤ requests actions := by
  induction actions using List.reverseRecOn with
  | nil => exact Nat.le_refl 0
  | append_singleton actions action ih =>
      have hstep := linked_step (after actions) action
      rw [after, run_concat]
      simp only [requests, List.countP_append] at ih hstep ⊢
      exact hstep.trans (Nat.add_le_add_right ih _)

theorem sound_after (actions : List Action) (hrequests : requests actions < 2 ^ 64)
    (hmeets : AllSteps (fun pre action => (after pre).Meets action) actions) :
    (after actions).Sound := by
  induction actions using List.reverseRecOn with
  | nil => exact Sound.new
  | append_singleton actions action ih =>
      have hle : requests actions ≤ requests (actions ++ [action]) := by
        simp only [requests, List.countP_append]
        omega
      have hlinked := linked_after actions
      rw [after, run_concat]
      exact (ih (by omega) hmeets.init).step (by omega) hmeets.last

/-! ### Every caller gets its own answer -/

structure OwnAnswers {J : Type} (parseJson : String → Except String J) (s : Transport) : Prop where
  reqIds : (s.gPending.map (·.reqId)).Nodup
  /-- A response changes the pending request with its id and no other, and is accepted if it does. -/
  response : ∀ reqId resultJson,
    (s.logosdelivery_rln_response reqId resultJson).1 =
      { s with gPending := s.gPending.map (fun p =>
          if p.reqId = reqId ∧ p.completed = false then p.answer resultJson else p) } ∧
    ((s.logosdelivery_rln_response reqId resultJson).2 = 0 ↔
      ∃ p ∈ s.gPending, p.reqId = reqId ∧ p.completed = false)
  /-- At most one response of a request is accepted. -/
  accepted : (∀ p ∈ s.gPending, p.accepted.length ≤ 1) ∧ ∀ f ∈ s.finished, f.accepted.length ≤ 1
  callers : ∀ f ∈ s.finished, f.abandoned = false → GetsItsOwn parseJson f
  /-- A request that was cleared before it was answered fails when its waiter goes on. -/
  failed : ∀ p ∈ s.gPending, p.clearedUnanswered = true → p.waiter = .waiting →
    ∃ e, p.wake.waiter = .leaving (.error e) false
  /-- The plugin's removal clears its own requests, and the Mix callback's removal its own. -/
  setPlugin : (s.logosdelivery_rln_set_plugin none).gPending =
      s.gPending.map (fun p => if p.mixRequest then p else p.clear) ∧
    ∀ plugin, (s.logosdelivery_rln_set_plugin (some plugin)).gPending = s.gPending
  setMixCallback : (s.logosdelivery_mix_rln_set_callback false).gPending =
      s.gPending.map (fun p => if p.mixRequest then p.clear else p) ∧
    (s.logosdelivery_mix_rln_set_callback true).gPending = s.gPending

theorem own_answers {J : Type} (parseJson : String → Except String J) (actions : List Action)
    (hrequests : requests actions < 2 ^ 64)
    (hmeets : AllSteps (fun pre action => (after pre).Meets action) actions) :
    OwnAnswers parseJson (after actions) := by
  have h := sound_after actions hrequests hmeets
  have hlinked := linked_after actions
  have hids := h.reqIds_nodup (by omega)
  refine ⟨hids, ?_, ?_, ?_, ?_, ⟨?_, fun _ => rfl⟩, ⟨?_, rfl⟩⟩
  · intro reqId resultJson
    rw [logosdelivery_rln_response, respond_eq reqId resultJson _ hids]
    refine ⟨rfl, ?_⟩
    dsimp only
    split_ifs with hany
    · exact ⟨fun _ => hany, fun _ => rfl⟩
    · exact ⟨fun hone => absurd hone (by decide), fun hyes => absurd hyes hany⟩
  · exact ⟨fun p hp => (h.pending p hp).accepted_le, fun f hf => (h.finished f hf).accepted_le⟩
  · exact fun f hf hkept => (h.finished f hf).getsItsOwn parseJson hkept
  · exact fun p hp hcleared hwaiting => (h.pending p hp).failed hcleared hwaiting
  · refine List.map_congr_left ?_
    intro p _
    cases p.mixRequest <;> rfl
  · rfl

/-- Two requests, one of each kind: the Mix request is answered, and the other one is cleared before
the waiters unlink them. -/
def answerMixThenClear : List Action :=
  [.setPlugin (some { getMembershipState := true }), .setMixCallback true,
    .rlnCall .getMembershipState true, .rlnMixCall true, .response 1 "{}", .wake 1, .read 1,
    .setPlugin none, .wake 0, .unlink 0, .unlink 1]

theorem own_answers_answerMixThenClear :
    OwnAnswers (Except.ok : String → Except String String) (after answerMixThenClear) := by
  have hunclear : ∀ p ∈ (after (answerMixThenClear.take 4)).gPending, p.cleared = false := by
    decide +kernel
  have hopen : ∀ p ∈ (after (answerMixThenClear.take 7)).gPending,
      p.mixRequest = false → p.completed = false := by decide +kernel
  refine own_answers Except.ok answerMixThenClear (by decide) (allSteps_of_get (fun i => ?_))
  fin_cases i
  · trivial
  · trivial
  · trivial
  · trivial
  · intro p hp _ _ hcleared
    rw [hunclear p hp] at hcleared
    cases hcleared
  · trivial
  · trivial
  · exact fun p hp hkind _ => hopen p hp hkind
  · trivial
  · trivial
  · trivial

/-- The plugin is removed behind the answer, and the host answers again before the waiter runs. -/
def answerClearAnswer : List Action :=
  [.setPlugin (some { getMembershipState := true }), .rlnCall .getMembershipState true,
    .response 0 "first", .setPlugin none, .response 0 "second"]

theorem answer_clear_answer : ¬ ∀ (J : Type) (parseJson : String → Except String J)
    (actions : List Action), requests actions < 2 ^ 64 → OwnAnswers parseJson (after actions) := by
  intro h
  have haccepted := (h String Except.ok answerClearAnswer (by decide)).accepted.1
  have htwo : ¬ ∀ p ∈ (after answerClearAnswer).gPending, p.accepted.length ≤ 1 := by
    decide +kernel
  exact htwo haccepted

end Transport

end LogosDelivery.Rln.ModuleTransport
