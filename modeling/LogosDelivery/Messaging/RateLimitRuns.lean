import LogosDelivery.Messaging.RateLimit

/-! # Admissions within one RLN epoch

Runs of the rate limit manager.  The RLN epoch is a function of the time; a call sees a snapshot of
the quota of that epoch, or none and then the epoch of the wall clock, whose period is the
configuration's own.  The window is rolled whenever the index is not that of the call before, so an
index of the other kind forgets what was admitted.

As long as no call does that within an RLN epoch, no more than the configured number of messages is
admitted in it (`admitted_le`). -/

namespace LogosDelivery.Messaging.RateLimit

/-- The manager with the calls behind it. -/
structure Tally where
  manager : RateLimitManager
  /-- The RLN epochs of the admitted messages. -/
  admitted : List UInt64 := []
  /-- The time of the last call. -/
  lastTime : Option UInt64 := none

namespace Tally

def start (config : RateLimitConfig) : Tally := { manager := { config := config } }

variable (rlnEpoch : UInt64 → UInt64)

/-- The next call. -/
def serve (s : Tally) (c : Call) : Tally where
  manager := s.manager.serve c
  admitted :=
    if c.admits ∧ (s.manager.admitMessage c.quota c.unixTime).1.isOk then
      s.admitted ++ [rlnEpoch c.unixTime]
    else s.admitted
  lastTime := some c.unixTime

/-- Within the RLN epoch of the call before, the call does not roll a window in which something was
counted. -/
def KeepsWindow (s : Tally) (c : Call) : Prop :=
  s.lastTime.map rlnEpoch = some (rlnEpoch c.unixTime) →
    c.epochIndex s.manager.config = s.manager.currentEpochIndex ∨ s.manager.sentInCurrentEpoch = 0

/-- Every call of a run keeps its window. -/
def WindowsKept : Tally → List Call → Prop
  | _, [] => True
  | s, c :: calls => s.KeepsWindow rlnEpoch c ∧ WindowsKept (s.serve rlnEpoch c) calls

/-- What was admitted so far, at most `m` messages in each RLN epoch; those of the last epoch are
counted in the window, and there are none of a later one. -/
structure Counted (m : ℕ) (s : Tally) : Prop where
  bounded : ∀ epoch, s.admitted.count epoch ≤ m
  window : ∀ time, s.lastTime = some time →
    s.admitted.count (rlnEpoch time) ≤ s.manager.sentInCurrentEpoch.toNat
  later : ∀ time, s.lastTime = some time → ∀ epoch, rlnEpoch time < epoch →
    s.admitted.count epoch = 0
  fresh : s.lastTime = none → s.admitted = []

variable {rlnEpoch}

theorem limit_le (manager : RateLimitManager) (quota : Option EpochQuota) :
    (manager.limit quota).toNat ≤ manager.config.messagesPerEpoch.toNat := by
  unfold RateLimitManager.limit
  cases quota with
  | none => exact le_rfl
  | some q =>
      dsimp only
      rw [RateLimitManager.min_toNat]
      exact min_le_left _ _

/-- Before the call is answered, the rolled window covers what was admitted in its RLN epoch. -/
theorem Counted.rolled {m : ℕ} {s : Tally} {c : Call}
    (hepoch : ∀ t t', t ≤ t' → rlnEpoch t ≤ rlnEpoch t') (h : Counted rlnEpoch m s)
    (htime : ∀ time, s.lastTime = some time → time ≤ c.unixTime)
    (hkeeps : s.KeepsWindow rlnEpoch c) :
    s.admitted.count (rlnEpoch c.unixTime) ≤
      (s.manager.refreshEpoch c.quota c.unixTime).sentInCurrentEpoch.toNat := by
  cases hlast : s.lastTime with
  | none =>
      rw [h.fresh hlast]
      exact Nat.zero_le _
  | some time =>
      by_cases hsame : rlnEpoch time = rlnEpoch c.unixTime
      · have hwindow := h.window time hlast
        rw [hsame] at hwindow
        rcases hkeeps (by rw [hlast, Option.map_some, hsame]) with hindex | hzero
        · rwa [RateLimitManager.refreshEpoch_same hindex]
        · rw [hzero] at hwindow
          exact hwindow.trans (Nat.zero_le _)
      · have hlt : rlnEpoch time < rlnEpoch c.unixTime :=
          UInt64.lt_of_le_of_ne (hepoch _ _ (htime time hlast)) hsame
        rw [h.later time hlast _ hlt]
        exact Nat.zero_le _

/-- No message of a later epoch has been admitted. -/
theorem Counted.none_later {m : ℕ} {s : Tally} {c : Call}
    (hepoch : ∀ t t', t ≤ t' → rlnEpoch t ≤ rlnEpoch t') (h : Counted rlnEpoch m s)
    (htime : ∀ time, s.lastTime = some time → time ≤ c.unixTime) {epoch : UInt64}
    (hlater : rlnEpoch c.unixTime < epoch) : s.admitted.count epoch = 0 := by
  cases hlast : s.lastTime with
  | none =>
      rw [h.fresh hlast]
      rfl
  | some time =>
      refine h.later time hlast epoch ?_
      exact UInt64.lt_of_le_of_lt (hepoch _ _ (htime time hlast)) hlater

/-- One call. -/
theorem Counted.serve {s : Tally} {c : Call} (henabled : s.manager.config.enabled = true)
    (hepoch : ∀ t t', t ≤ t' → rlnEpoch t ≤ rlnEpoch t')
    (h : Counted rlnEpoch s.manager.config.messagesPerEpoch.toNat s)
    (htime : ∀ time, s.lastTime = some time → time ≤ c.unixTime)
    (hkeeps : s.KeepsWindow rlnEpoch c) :
    Counted rlnEpoch s.manager.config.messagesPerEpoch.toNat (s.serve rlnEpoch c) := by
  have hrolled := h.rolled hepoch htime hkeeps
  have hnone : ∀ epoch, rlnEpoch c.unixTime < epoch → s.admitted.count epoch = 0 :=
    fun epoch hlater => h.none_later hepoch htime hlater
  have hmanager : (s.serve rlnEpoch c).manager = s.manager.serve c := rfl
  -- a call that admits nothing leaves the rolled window
  have hquiet : (s.serve rlnEpoch c).admitted = s.admitted →
      s.manager.serve c = s.manager.refreshEpoch c.quota c.unixTime →
      Counted rlnEpoch s.manager.config.messagesPerEpoch.toNat (s.serve rlnEpoch c) := by
    intro hadmitted hserve
    refine ⟨fun epoch => ?_, fun time hlast => ?_, fun time hlast epoch hlater => ?_,
      fun hlast => nomatch hlast⟩
    · rw [hadmitted]
      exact h.bounded epoch
    · obtain rfl := Option.some.inj hlast
      rw [hadmitted, hmanager, hserve]
      exact hrolled
    · obtain rfl := Option.some.inj hlast
      rw [hadmitted]
      exact hnone epoch hlater
  cases hadmits : c.admits with
  | false =>
      refine hquiet (if_neg fun hboth => ?_) ?_
      · rw [hadmits] at hboth
        exact Bool.false_ne_true hboth.1
      · rw [RateLimitManager.serve, hadmits, if_neg Bool.false_ne_true,
          RateLimitManager.quotaState_snd henabled]
  | true =>
      rcases RateLimitManager.admit_cases henabled c.quota c.unixTime with
        hrefused | ⟨admitted, hone, -, -, hsent, hlimit⟩
      · refine hquiet (if_neg fun hboth => ?_) ?_
        · rw [hrefused] at hboth
          exact Bool.false_ne_true hboth.2
        · rw [RateLimitManager.serve, hadmits, if_pos rfl, hrefused]
      · have hserve : s.manager.serve c = admitted := by
          rw [RateLimitManager.serve, hadmits, if_pos rfl, hone]
        have hadmitted : (s.serve rlnEpoch c).admitted = s.admitted ++ [rlnEpoch c.unixTime] := by
          refine if_pos ⟨hadmits, ?_⟩
          rw [hone]
          rfl
        have hcount : (s.admitted ++ [rlnEpoch c.unixTime]).count (rlnEpoch c.unixTime) =
            s.admitted.count (rlnEpoch c.unixTime) + 1 := by
          rw [List.count_append, List.count_singleton_self]
        have hother : ∀ epoch, epoch ≠ rlnEpoch c.unixTime →
            (s.admitted ++ [rlnEpoch c.unixTime]).count epoch = s.admitted.count epoch := by
          intro epoch hne
          rw [List.count_append, List.count_singleton, if_neg (by simpa using hne.symm), Nat.add_zero]
        refine ⟨fun epoch => ?_, fun time hlast => ?_, fun time hlast epoch hlater => ?_,
          fun hlast => nomatch hlast⟩
        · rw [hadmitted]
          by_cases hsame : epoch = rlnEpoch c.unixTime
          · subst hsame
            rw [hcount]
            have hm := limit_le s.manager c.quota
            omega
          · rw [hother epoch hsame]
            exact h.bounded epoch
        · obtain rfl := Option.some.inj hlast
          rw [hadmitted, hmanager, hserve, hcount]
          omega
        · obtain rfl := Option.some.inj hlast
          rw [hadmitted, hother epoch (UInt64.ne_of_lt hlater).symm]
          exact hnone epoch hlater

theorem Counted.run (hepoch : ∀ t t', t ≤ t' → rlnEpoch t ≤ rlnEpoch t') : ∀ (calls : List Call)
    (s : Tally), s.manager.config.enabled = true →
    Counted rlnEpoch s.manager.config.messagesPerEpoch.toNat s →
    (∀ time, s.lastTime = some time → ∀ c ∈ calls, time ≤ c.unixTime) →
    calls.Pairwise (fun c c' => c.unixTime ≤ c'.unixTime) → WindowsKept rlnEpoch s calls →
    Counted rlnEpoch s.manager.config.messagesPerEpoch.toNat (calls.foldl (Tally.serve rlnEpoch) s)
  | [], _, _, h, _, _, _ => h
  | c :: calls, s, henabled, h, htime, hsorted, hkept => by
      obtain ⟨hfirst, hrest⟩ := List.pairwise_cons.mp hsorted
      have hconfig : (s.serve rlnEpoch c).manager.config = s.manager.config :=
        RateLimitManager.serve_config henabled c
      have hserve := h.serve henabled hepoch
        (fun time hlast => htime time hlast c List.mem_cons_self) hkept.1
      have ih := Counted.run hepoch calls (s.serve rlnEpoch c) (by rw [hconfig, henabled])
        (by rw [hconfig]; exact hserve)
        (fun time hlast c' hc' => by
          obtain rfl := Option.some.inj hlast
          exact hfirst c' hc') hrest hkept.2
      rw [hconfig] at ih
      exact ih

/-- **No epoch is over-admitted**: in a run at non-decreasing times whose calls keep their window
within an RLN epoch, at most the configured number of messages is admitted in any RLN epoch. -/
theorem admitted_le (config : RateLimitConfig) (henabled : config.enabled = true)
    (hepoch : ∀ t t', t ≤ t' → rlnEpoch t ≤ rlnEpoch t') (calls : List Call)
    (hsorted : calls.Pairwise (fun c c' => c.unixTime ≤ c'.unixTime))
    (hkept : WindowsKept rlnEpoch (start config) calls) (epoch : UInt64) :
    (calls.foldl (Tally.serve rlnEpoch) (start config)).admitted.count epoch ≤
      config.messagesPerEpoch.toNat := by
  have hstart : Counted rlnEpoch config.messagesPerEpoch.toNat (start config) :=
    ⟨fun _ => Nat.zero_le _, fun _ hlast => (nomatch hlast), fun _ hlast => (nomatch hlast),
      fun _ => rfl⟩
  exact (Counted.run hepoch calls (start config) henabled hstart (fun _ hlast => nomatch hlast)
    hsorted hkept).bounded epoch

/-- Every snapshot is of the RLN epoch of its time. -/
def SnapshotsOf (rlnEpoch : UInt64 → UInt64) (calls : List Call) : Prop :=
  ∀ c ∈ calls, ∀ q, c.quota = some q → q.epochIndex = rlnEpoch c.unixTime

/-- A window is kept as long as RLN answers every call. -/
theorem windowsKept_of_snapshots : ∀ (calls : List Call) (s : Tally),
    s.manager.config.enabled = true → SnapshotsOf rlnEpoch calls →
    (∀ c ∈ calls, c.quota.isSome = true) →
    (∀ time, s.lastTime = some time → s.manager.currentEpochIndex = rlnEpoch time) →
    WindowsKept rlnEpoch s calls
  | [], _, _, _, _, _ => trivial
  | c :: calls, s, henabled, hsnapshots, hsome, hindex => by
      have hcall : c.epochIndex s.manager.config = rlnEpoch c.unixTime := by
        obtain ⟨q, hq⟩ := Option.isSome_iff_exists.mp (hsome c List.mem_cons_self)
        rw [Call.epochIndex, hq]
        exact hsnapshots c List.mem_cons_self q hq
      have hserve : (s.serve rlnEpoch c).manager.currentEpochIndex = rlnEpoch c.unixTime :=
        (RateLimitManager.serve_index henabled c).trans hcall
      refine ⟨fun hsame => Or.inl ?_, windowsKept_of_snapshots calls _ ?_ ?_ ?_ ?_⟩
      · cases hlast : s.lastTime with
        | none =>
            rw [hlast] at hsame
            cases hsame
        | some time =>
            rw [hlast, Option.map_some, Option.some.injEq] at hsame
            rw [hcall, hindex time hlast, hsame]
      · rw [← henabled]
        exact congrArg RateLimitConfig.enabled (RateLimitManager.serve_config henabled c)
      · exact fun c' hc' => hsnapshots c' (List.mem_cons_of_mem _ hc')
      · exact fun c' hc' => hsome c' (List.mem_cons_of_mem _ hc')
      · intro time hlast
        obtain rfl := Option.some.inj hlast
        exact hserve

theorem epochOf_le {period : UInt64} (t t' : UInt64) (h : t ≤ t') : t / period ≤ t' / period := by
  rw [UInt64.le_iff_toNat_le] at h ⊢
  rw [UInt64.toNat_div, UInt64.toNat_div]
  exact Nat.div_le_div_right h

/-- A snapshot and a fallback of the same period. -/
theorem admitted_samePeriod :
    (([⟨true, some ⟨10, 5, 5⟩, 6000⟩, ⟨true, none, 6100⟩] : List Call).foldl
      (Tally.serve (· / 600)) (start ⟨true, 600, 1, 0⟩)).admitted.count 10 ≤ 1 := by
  refine @admitted_le (· / 600) ⟨true, 600, 1, 0⟩ rfl epochOf_le _ ?_ ?_ 10
  · exact List.pairwise_cons.mpr ⟨by decide, List.pairwise_singleton _ _⟩
  · exact ⟨fun hlast => (nomatch hlast), fun _ => Or.inl (by decide), trivial⟩

/-- RLN epochs of a minute, wall clock epochs of ten, and one call without a snapshot between two
admissions. -/
theorem admitted_twice : ¬ ∀ (rlnEpoch : UInt64 → UInt64) (config : RateLimitConfig)
    (calls : List Call), config.enabled = true → 0 < config.epochPeriodSec →
    (∀ t t', t ≤ t' → rlnEpoch t ≤ rlnEpoch t') →
    calls.Pairwise (fun c c' => c.unixTime ≤ c'.unixTime) → SnapshotsOf rlnEpoch calls →
    ∀ epoch, (calls.foldl (Tally.serve rlnEpoch) (start config)).admitted.count epoch ≤
      config.messagesPerEpoch.toNat := by
  intro hall
  have hcount := hall (· / 60) ⟨true, 600, 1, 0⟩
    [⟨true, some ⟨100, 5, 5⟩, 6000⟩, ⟨false, none, 6000⟩, ⟨true, some ⟨100, 5, 5⟩, 6000⟩] rfl
    (by decide) epochOf_le (by decide)
    (by
      intro c hc q hq
      simp only [List.mem_cons, List.not_mem_nil, or_false] at hc
      rcases hc with rfl | rfl | rfl <;> cases hq <;> decide) 100
  revert hcount
  decide

end Tally

end LogosDelivery.Messaging.RateLimit
