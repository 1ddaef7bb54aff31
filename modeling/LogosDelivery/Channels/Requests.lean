import LogosDelivery.Channels.ReliableChannel

/-! # The requests of a channel

`channelReqs` as a table, and what each operation of a channel does to one request and to all
others. -/

namespace LogosDelivery.Channels

open Messaging

namespace ReliableChannel

variable {c : ReliableChannel} {q q' : RequestId} {state state' : ChannelReqState}

/-- Every request has one entry. -/
def Keyed (c : ReliableChannel) : Prop := (c.channelReqs.map (·.1)).Nodup

theorem getReq_eq_some_iff (hc : c.Keyed) : c.getReq q = some state ↔ (q, state) ∈ c.channelReqs :=
  Lib.lookup_eq_some_iff hc

theorem getReq_eq_none_iff (hc : c.Keyed) :
    c.getReq q = none ↔ ∀ state, (q, state) ∉ c.channelReqs := by
  rw [Option.eq_none_iff_forall_ne_some]
  exact forall_congr' fun state => not_congr (getReq_eq_some_iff hc)

/-! ### Writing a request -/

theorem mem_setReq (hc : c.Keyed) :
    (q', state') ∈ (c.setReq q state).channelReqs ↔
      (q' = q ∧ state' = state) ∨ (q' ≠ q ∧ (q', state') ∈ c.channelReqs) := by
  unfold setReq
  cases hold : c.getReq q with
  | none =>
      have hnone := (getReq_eq_none_iff hc).mp hold
      simp only [Option.isSome_none, Bool.false_eq_true, if_false, List.mem_append,
        List.mem_singleton, Prod.mk.injEq]
      constructor
      · rintro (hmem | heq)
        · refine Or.inr ⟨?_, hmem⟩
          rintro rfl
          exact hnone _ hmem
        · exact Or.inl heq
      · rintro (heq | ⟨_, hmem⟩)
        · exact Or.inr heq
        · exact Or.inl hmem
  | some old =>
      have hmem := (getReq_eq_some_iff hc).mp hold
      simp only [Option.isSome_some, if_true, List.mem_map]
      constructor
      · rintro ⟨e, he, heq⟩
        split_ifs at heq with hkey
        · obtain ⟨rfl, rfl⟩ := Prod.mk.inj heq
          exact Or.inl ⟨hkey, rfl⟩
        · subst heq
          exact Or.inr ⟨hkey, he⟩
      · rintro (⟨rfl, rfl⟩ | ⟨hne, hmem'⟩)
        · exact ⟨_, hmem, if_pos rfl⟩
        · exact ⟨_, hmem', if_neg hne⟩

theorem Keyed.setReq (hc : c.Keyed) (q : RequestId) (state : ChannelReqState) :
    (c.setReq q state).Keyed := by
  unfold Keyed ReliableChannel.setReq
  cases hold : c.getReq q with
  | none =>
      have hnone := (getReq_eq_none_iff hc).mp hold
      simp only [Option.isSome_none, Bool.false_eq_true, if_false, List.map_append,
        List.map_singleton]
      refine Lib.nodup_append_singleton hc ?_
      intro hkey
      obtain ⟨⟨_, old⟩, hmem, rfl⟩ := List.mem_map.mp hkey
      exact hnone old hmem
  | some old =>
      simp only [Option.isSome_some, if_true, List.map_map]
      have hkeys : c.channelReqs.map
          ((·.1) ∘ fun e => if e.1 = q then (e.1, state) else e) = c.channelReqs.map (·.1) := by
        refine List.map_congr_left ?_
        intro e _
        dsimp only [Function.comp]
        split_ifs <;> rfl
      rw [hkeys]
      exact hc

theorem getReq_setReq_self (hc : c.Keyed) : (c.setReq q state).getReq q = some state := by
  rw [getReq_eq_some_iff (hc.setReq q state), mem_setReq hc]
  exact Or.inl ⟨rfl, rfl⟩

theorem getReq_setReq_of_ne (hc : c.Keyed) (hne : q' ≠ q) :
    (c.setReq q state).getReq q' = c.getReq q' := by
  refine Option.ext fun state' => ?_
  rw [getReq_eq_some_iff (hc.setReq q state), getReq_eq_some_iff hc, mem_setReq hc]
  constructor
  · rintro (⟨heq, _⟩ | ⟨_, hmem⟩)
    · exact absurd heq hne
    · exact hmem
  · exact fun hmem => Or.inr ⟨hne, hmem⟩

/-! ### Removing a request -/

theorem mem_delReq :
    (q', state') ∈ (c.delReq q).channelReqs ↔ q' ≠ q ∧ (q', state') ∈ c.channelReqs := by
  unfold delReq
  rw [List.mem_filter, decide_eq_true_eq, and_comm]

theorem Keyed.delReq (hc : c.Keyed) (q : RequestId) : (c.delReq q).Keyed :=
  hc.sublist (List.filter_sublist.map _)

theorem getReq_delReq_self (hc : c.Keyed) : (c.delReq q).getReq q = none := by
  rw [getReq_eq_none_iff (hc.delReq q)]
  intro state hmem
  exact (mem_delReq.mp hmem).1 rfl

theorem getReq_delReq_of_ne (hc : c.Keyed) (hne : q' ≠ q) :
    (c.delReq q).getReq q' = c.getReq q' := by
  refine Option.ext fun state' => ?_
  rw [getReq_eq_some_iff (hc.delReq q), getReq_eq_some_iff hc, mem_delReq]
  exact ⟨fun h => h.2, fun h => ⟨hne, h⟩⟩

/-! ### What an operation leaves alone -/

/-- A step of the channel that is about the request `q` alone. -/
structure Only (q : RequestId) (c c' : ReliableChannel) : Prop where
  channelId : c'.channelId = c.channelId
  closed : c'.closed = c.closed
  listening : c'.listening = c.listening
  keyed : c'.Keyed
  getReq : ∀ q', q' ≠ q → c'.getReq q' = c.getReq q'
  eventsOf : ∀ q', q' ≠ q → c'.eventsOf q' = c.eventsOf q'

theorem Only.refl (hc : c.Keyed) (q : RequestId) : Only q c c :=
  ⟨rfl, rfl, rfl, hc, fun _ _ => rfl, fun _ _ => rfl⟩

theorem Only.trans {c₁ c₂ c₃ : ReliableChannel} (h₁ : Only q c₁ c₂) (h₂ : Only q c₂ c₃) :
    Only q c₁ c₃ where
  channelId := h₂.channelId.trans h₁.channelId
  closed := h₂.closed.trans h₁.closed
  listening := h₂.listening.trans h₁.listening
  keyed := h₂.keyed
  getReq q' hne := (h₂.getReq q' hne).trans (h₁.getReq q' hne)
  eventsOf q' hne := (h₂.eventsOf q' hne).trans (h₁.eventsOf q' hne)

theorem only_setReq (hc : c.Keyed) (q : RequestId) (state : ChannelReqState) :
    Only q c (c.setReq q state) :=
  ⟨rfl, rfl, rfl, hc.setReq q state, fun _ hne => getReq_setReq_of_ne hc hne, fun _ _ => rfl⟩

theorem eventsOf_emit_self {e : ChannelEvent} (he : e.requestId = q) :
    (c.emit e).eventsOf q = c.eventsOf q ++ [e] := by
  unfold ReliableChannel.eventsOf emit
  rw [List.filter_append, List.filter_singleton, he, decide_eq_true rfl]
  rfl

theorem eventsOf_emit_of_ne {e : ChannelEvent} (he : e.requestId ≠ q) :
    (c.emit e).eventsOf q = c.eventsOf q := by
  unfold ReliableChannel.eventsOf emit
  rw [List.filter_append, List.filter_singleton, decide_eq_false he]
  exact List.append_nil _

theorem finalEvent_requestId (c : ReliableChannel) (q : RequestId) (failedCount : ℕ) :
    (c.finalEvent q failedCount).requestId = q := by
  unfold finalEvent
  split_ifs <;> rfl

theorem tryFinalize_cases (hget : c.getReq q = some state) (htotal : 0 < state.totalExpectedSegments) :
    (state.inflightMessagingIds = [] ∧
        state.totalExpectedSegments ≤ state.confirmedCount + state.failedCount ∧
        c.tryFinalizeChannelReq q = (c.delReq q).emit (c.finalEvent q state.failedCount)) ∨
      ((state.inflightMessagingIds ≠ [] ∨
          state.confirmedCount + state.failedCount < state.totalExpectedSegments) ∧
        c.tryFinalizeChannelReq q = c) := by
  unfold tryFinalizeChannelReq
  rw [hget]
  dsimp only
  rw [if_neg htotal.ne']
  split_ifs with hinflight hcount
  · refine Or.inr ⟨Or.inl ?_, rfl⟩
    rwa [ne_eq, List.length_eq_zero_iff] at hinflight
  · exact Or.inr ⟨Or.inr hcount, rfl⟩
  · rw [not_ne_iff, List.length_eq_zero_iff] at hinflight
    exact Or.inl ⟨hinflight, not_lt.mp hcount, rfl⟩

theorem only_tryFinalize (hc : c.Keyed) (q : RequestId) : Only q c (c.tryFinalizeChannelReq q) := by
  unfold tryFinalizeChannelReq
  cases c.getReq q with
  | none => exact Only.refl hc q
  | some state =>
      dsimp only
      split_ifs
      · exact Only.refl hc q
      · exact Only.refl hc q
      · exact Only.refl hc q
      · refine ⟨rfl, rfl, rfl, hc.delReq q, fun _ hne => getReq_delReq_of_ne hc hne, ?_⟩
        intro q' hne
        refine eventsOf_emit_of_ne ?_
        rw [finalEvent_requestId]
        exact hne.symm

/-- A final event finds no request, or one that waits for it. -/
theorem onMessageFinal_cases (hc : c.Keyed) (r : RequestId) (outcome : MessagingOutcome) :
    ((∀ q state, c.getReq q = some state → r ∉ state.inflightMessagingIds) ∧
        c.onMessageFinal r outcome = c) ∨
      ∃ q state, c.getReq q = some state ∧ r ∈ state.inflightMessagingIds ∧
        c.onMessageFinal r outcome =
          (c.setReq q (state.final r outcome)).tryFinalizeChannelReq q := by
  unfold onMessageFinal
  cases hfind : c.channelReqs.find? (fun e => decide (r ∈ e.2.inflightMessagingIds)) with
  | none =>
      refine Or.inl ⟨?_, rfl⟩
      intro q state hget
      simpa using List.find?_eq_none.mp hfind _ ((getReq_eq_some_iff hc).mp hget)
  | some e =>
      obtain ⟨q, state⟩ := e
      refine Or.inr ⟨q, state, ?_, ?_, rfl⟩
      · exact (getReq_eq_some_iff hc).mpr (List.mem_of_find?_eq_some hfind)
      · simpa using List.find?_some hfind

theorem awaits_of_getReq (hc : c.Keyed) (hget : c.getReq q = some state) {r : RequestId}
    (hr : r ∈ state.inflightMessagingIds) : c.awaits r = true := by
  unfold awaits
  rw [List.any_eq_true]
  exact ⟨_, (getReq_eq_some_iff hc).mp hget, decide_eq_true hr⟩

end ReliableChannel

/-! ### The books of a request -/

namespace Segment

variable (s : SendService)

/-- No final event of its task came. -/
def pending : Segment → Bool
  | refused => false
  | task id => decide ((s.trace id).countP TaskEvent.isFinal = 0)

def confirmed : Segment → Bool
  | refused => false
  | task id => decide (0 < (s.trace id).countP TaskEvent.isSent)

def failed : Segment → Bool
  | refused => true
  | task id => decide (0 < (s.trace id).countP TaskEvent.isError)

/-- The messaging request of the segment. -/
def request : Segment → Option RequestId
  | refused => none
  | task id => (s.tasks id).map (·.requestId)

/-- A segment is pending, confirmed or failed, and it is the segment of a request while it is
pending. -/
structure Sound (seg : Segment) : Prop where
  status : (seg.pending s).toNat + (seg.confirmed s).toNat + (seg.failed s).toNat = 1
  request : seg.pending s = true → ∃ r, seg.request s = some r

/-- Nothing happened to the segment. -/
structure Same (s s' : SendService) (seg : Segment) : Prop where
  request : seg.request s' = seg.request s
  pending : seg.pending s' = seg.pending s
  confirmed : seg.confirmed s' = seg.confirmed s
  failed : seg.failed s' = seg.failed s

end Segment

/-- The counters of a request, with `left` segments to dispatch. -/
structure Counts (s : SendService) (segs : List Segment) (left : ℕ) (state : ChannelReqState) :
    Prop where
  total : state.totalExpectedSegments = left + segs.length
  confirmed : state.confirmedCount = segs.countP (·.confirmed s)
  failed : state.failedCount = segs.countP (·.failed s)
  nodup : state.inflightMessagingIds.Nodup
  mem : ∀ r, r ∈ state.inflightMessagingIds ↔
    ∃ seg ∈ segs, seg.pending s = true ∧ seg.request s = some r

/-- A request is in `channelReqs` until all segments are dispatched and final; then its last event
is out. -/
def Account (s : SendService) (c : ReliableChannel) (segs : List Segment) (q : RequestId)
    (left : ℕ) : Prop :=
  (∃ state, c.getReq q = some state ∧ c.eventsOf q = [] ∧ Counts s segs left state ∧
      0 < state.totalExpectedSegments ∧ (0 < left ∨ state.inflightMessagingIds ≠ [])) ∨
    (left = 0 ∧ c.getReq q = none ∧ (∀ seg ∈ segs, seg.pending s = false) ∧
      c.eventsOf q = [c.finalEvent q (segs.countP (·.failed s))])

section Books

variable {s s' : SendService} {c c' : ReliableChannel} {segs : List Segment} {q : RequestId}
  {left : ℕ} {state : ChannelReqState}

theorem Counts.congr (h : Counts s segs left state) (hsame : ∀ seg ∈ segs, seg.Same s s') :
    Counts s' segs left state where
  total := h.total
  confirmed := h.confirmed.trans (List.countP_congr fun seg hseg => by rw [(hsame seg hseg).confirmed])
  failed := h.failed.trans (List.countP_congr fun seg hseg => by rw [(hsame seg hseg).failed])
  nodup := h.nodup
  mem r := by
    rw [h.mem]
    refine exists_congr fun seg => and_congr_right fun hseg => ?_
    rw [(hsame seg hseg).pending, (hsame seg hseg).request]

theorem Account.congr (h : Account s c segs q left) (hsame : ∀ seg ∈ segs, seg.Same s s')
    (hid : c'.channelId = c.channelId) (hget : c'.getReq q = c.getReq q)
    (hev : c'.eventsOf q = c.eventsOf q) : Account s' c' segs q left := by
  rcases h with ⟨state, hstate, hnone, hcounts, htotal, hopen⟩ | ⟨hleft, hnone, hpending, hevent⟩
  · exact Or.inl ⟨state, hget.trans hstate, hev.trans hnone, hcounts.congr hsame, htotal, hopen⟩
  · refine Or.inr ⟨hleft, hget.trans hnone, ?_, ?_⟩
    · intro seg hseg
      rw [(hsame seg hseg).pending]
      exact hpending seg hseg
    · have hfailed : segs.countP (·.failed s') = segs.countP (·.failed s) :=
        List.countP_congr fun seg hseg => by rw [(hsame seg hseg).failed]
      rw [hev, hevent, hfailed]
      unfold ReliableChannel.finalEvent
      rw [hid]

/-- Without a pending segment, every segment is counted. -/
theorem countP_settled (hsound : ∀ seg ∈ segs, seg.Sound s)
    (hpending : ∀ seg ∈ segs, seg.pending s = false) :
    segs.countP (·.confirmed s) + segs.countP (·.failed s) = segs.length := by
  induction segs with
  | nil => rfl
  | cons seg segs ih =>
      have htail := ih (fun x hx => hsound x (List.mem_cons_of_mem _ hx))
        (fun x hx => hpending x (List.mem_cons_of_mem _ hx))
      have hhead := (hsound seg (List.mem_cons_self ..)).status
      rw [hpending seg (List.mem_cons_self ..), Bool.toNat_false] at hhead
      rw [List.countP_cons, List.countP_cons, List.length_cons]
      cases hconfirmed : seg.confirmed s <;> cases hfailed : seg.failed s <;>
        simp [hconfirmed, hfailed] at hhead ⊢ <;> omega

theorem Counts.not_pending (h : Counts s segs left state) (hsound : ∀ seg ∈ segs, seg.Sound s)
    (hnil : state.inflightMessagingIds = []) : ∀ seg ∈ segs, seg.pending s = false := by
  intro seg hseg
  by_contra hp
  rw [Bool.not_eq_false] at hp
  obtain ⟨r, hr⟩ := (hsound seg hseg).request hp
  have hmem := (h.mem r).mpr ⟨seg, hseg, hp, hr⟩
  rw [hnil] at hmem
  cases hmem

/-- The books are kept when a request that was just counted is tried. -/
theorem account_tryFinalize (hc : c.Keyed) (hget : c.getReq q = some state)
    (hev : c.eventsOf q = []) (hcounts : Counts s segs left state)
    (htotal : 0 < state.totalExpectedSegments) (hsound : ∀ seg ∈ segs, seg.Sound s) :
    Account s (c.tryFinalizeChannelReq q) segs q left := by
  rcases ReliableChannel.tryFinalize_cases hget htotal with
    ⟨hnil, hcount, heq⟩ | ⟨hwait, heq⟩
  · have hpending := hcounts.not_pending hsound hnil
    have hsettled := countP_settled hsound hpending
    rw [hcounts.total, hcounts.confirmed, hcounts.failed, hsettled] at hcount
    rw [heq]
    refine Or.inr ⟨by omega, ReliableChannel.getReq_delReq_self hc, hpending, ?_⟩
    rw [ReliableChannel.eventsOf_emit_self (ReliableChannel.finalEvent_requestId ..),
      show (c.delReq q).eventsOf q = c.eventsOf q from rfl, hev, hcounts.failed]
    rfl
  · rw [heq]
    refine Or.inl ⟨state, hget, hev, hcounts, htotal, ?_⟩
    rcases hwait with hne | hlt
    · exact Or.inr hne
    · -- a segment is not counted: it is not dispatched, or it is in flight
      by_contra hno
      rw [not_or, not_lt, Nat.le_zero, not_ne_iff] at hno
      obtain ⟨hleft, hnil⟩ := hno
      have hsettled := countP_settled hsound (hcounts.not_pending hsound hnil)
      rw [hcounts.total, hcounts.confirmed, hcounts.failed, hsettled] at hlt
      omega

/-! ### One more segment, and one more final event -/

theorem Segment.Sound.pending_only {seg : Segment} (h : seg.Sound s) (hp : seg.pending s = true) :
    seg.confirmed s = false ∧ seg.failed s = false := by
  have hstatus := h.status
  rw [hp, Bool.toNat_true] at hstatus
  cases hc : seg.confirmed s <;> cases hf : seg.failed s <;> simp [hc, hf] at hstatus ⊢

theorem Counts.refuse (h : Counts s segs (left + 1) state) :
    Counts s (segs ++ [.refused]) left { state with failedCount := state.failedCount + 1 } where
  total := by
    have htotal := h.total
    rw [List.length_append, List.length_singleton]
    dsimp only
    omega
  confirmed := by
    rw [List.countP_append]
    exact h.confirmed
  failed := by
    rw [List.countP_append]
    exact congrArg (· + 1) h.failed
  nodup := h.nodup
  mem r := by
    rw [h.mem]
    constructor
    · rintro ⟨seg, hseg, hp, hr⟩
      exact ⟨seg, List.mem_append_left _ hseg, hp, hr⟩
    · rintro ⟨seg, hseg, hp, hr⟩
      rcases List.mem_append.mp hseg with hold | hnew
      · exact ⟨seg, hold, hp, hr⟩
      · obtain rfl := List.mem_singleton.mp hnew
        cases hp

theorem Counts.inflight (h : Counts s segs (left + 1) state) {seg : Segment} {r : RequestId}
    (hsound : seg.Sound s) (hp : seg.pending s = true) (hr : seg.request s = some r)
    (hnew : r ∉ state.inflightMessagingIds) :
    Counts s (segs ++ [seg]) left
      { state with inflightMessagingIds := state.inflightMessagingIds ++ [r] } where
  total := by
    have htotal := h.total
    rw [List.length_append, List.length_singleton]
    dsimp only
    omega
  confirmed := by
    rw [List.countP_append, List.countP_singleton, (hsound.pending_only hp).1]
    exact h.confirmed
  failed := by
    rw [List.countP_append, List.countP_singleton, (hsound.pending_only hp).2]
    exact h.failed
  nodup := Lib.nodup_append_singleton h.nodup hnew
  mem r' := by
    rw [List.mem_append, List.mem_singleton, h.mem]
    constructor
    · rintro (⟨seg', hseg, hp', hr'⟩ | rfl)
      · exact ⟨seg', List.mem_append_left _ hseg, hp', hr'⟩
      · exact ⟨seg, List.mem_append_right _ (List.mem_singleton_self _), hp, hr⟩
    · rintro ⟨seg', hseg, hp', hr'⟩
      rcases List.mem_append.mp hseg with hold | hlast
      · exact Or.inl ⟨seg', hold, hp', hr'⟩
      · obtain rfl := List.mem_singleton.mp hlast
        rw [hr, Option.some.injEq] at hr'
        exact Or.inr hr'.symm

/-- One element of a list starts to count. -/
theorem countP_update {α : Type} [DecidableEq α] {p p' : α → Bool} {x : α} :
    ∀ {l : List α}, l.count x = 1 → p x = false → p' x = true →
      (∀ y ∈ l, y ≠ x → p' y = p y) → l.countP p' = l.countP p + 1
  | [], hcount, _, _, _ => by cases hcount
  | y :: l, hcount, hx, hx', hother => by
      rw [List.countP_cons, List.countP_cons]
      by_cases hy : y = x
      · subst hy
        have hnot : y ∉ l := by
          rw [List.count_cons_self] at hcount
          exact List.count_eq_zero.mp (by omega)
        have htail : l.countP p' = l.countP p := by
          refine List.countP_congr fun z hz => ?_
          rw [hother z (List.mem_cons_of_mem _ hz) (fun h => hnot (h ▸ hz))]
        rw [hx, hx', htail]
        rfl
      · rw [List.count_cons_of_ne hy] at hcount
        rw [hother y (List.mem_cons_self ..) hy,
          countP_update hcount hx hx' (fun z hz => hother z (List.mem_cons_of_mem _ hz))]
        omega

theorem countP_update_of_eq {α : Type} {p p' : α → Bool} {x : α} {l : List α} (hx : p' x = p x)
    (hother : ∀ y ∈ l, y ≠ x → p' y = p y) : l.countP p' = l.countP p := by
  refine List.countP_congr fun y hy => ?_
  by_cases hyx : y = x
  · rw [hyx, hx]
  · rw [hother y hy hyx]

/-- The status that a final event gives to its segment. -/
structure Segment.Ended (s' : SendService) (outcome : MessagingOutcome) (seg : Segment) : Prop where
  pending : seg.pending s' = false
  confirmed : seg.confirmed s' = decide (outcome = .sent)
  failed : seg.failed s' = decide (outcome = .failed)

/-- A final event moves its segment from the segments in flight to those that are counted. -/
theorem Counts.final (h : Counts s segs left state) {seg : Segment} {r : RequestId}
    {outcome : MessagingOutcome} (hsound : seg.Sound s) (hp : seg.pending s = true)
    (hone : segs.count seg = 1)
    (hr : ∀ seg' ∈ segs, seg'.pending s = true → seg'.request s = some r → seg' = seg)
    (hreq : seg.request s = some r) (hended : seg.Ended s' outcome)
    (hother : ∀ seg' ∈ segs, seg' ≠ seg → seg'.Same s s') :
    Counts s' segs left (state.final r outcome) := by
  obtain ⟨hconfirmed, hfailed⟩ := hsound.pending_only hp
  have hmem : ∀ r', (r' ∈ state.inflightMessagingIds.erase r ↔
      ∃ seg' ∈ segs, seg'.pending s' = true ∧ seg'.request s' = some r') := by
    intro r'
    rw [h.nodup.mem_erase_iff, h.mem]
    constructor
    · rintro ⟨hne, seg', hseg', hp', hr'⟩
      have hne' : seg' ≠ seg := by
        rintro rfl
        rw [hreq, Option.some.injEq] at hr'
        exact hne hr'.symm
      have hsame := hother seg' hseg' hne'
      exact ⟨seg', hseg', hsame.pending.trans hp', hsame.request.trans hr'⟩
    · rintro ⟨seg', hseg', hp', hr'⟩
      have hne' : seg' ≠ seg := by
        rintro rfl
        rw [hended.pending] at hp'
        cases hp'
      have hsame := hother seg' hseg' hne'
      rw [hsame.pending] at hp'
      rw [hsame.request] at hr'
      refine ⟨?_, seg', hseg', hp', hr'⟩
      rintro rfl
      exact hne' (hr seg' hseg' hp' hr')
  cases outcome with
  | sent =>
      refine ⟨h.total, ?_, ?_, h.nodup.erase r, hmem⟩
      · rw [countP_update hone hconfirmed hended.confirmed
          (fun y hy hne => (hother y hy hne).confirmed)]
        exact congrArg (· + 1) h.confirmed
      · rw [countP_update_of_eq (hended.failed.trans hfailed.symm)
          (fun y hy hne => (hother y hy hne).failed)]
        exact h.failed
  | failed =>
      refine ⟨h.total, ?_, ?_, h.nodup.erase r, hmem⟩
      · rw [countP_update_of_eq (hended.confirmed.trans hconfirmed.symm)
          (fun y hy hne => (hother y hy hne).confirmed)]
        exact h.confirmed
      · rw [countP_update hone hfailed hended.failed
          (fun y hy hne => (hother y hy hne).failed)]
        exact congrArg (· + 1) h.failed

end Books

end LogosDelivery.Channels
