import Mathlib

/-! # The rate limit manager

`rate_limit_manager.nim`.  Admission is limited by a local count of the epoch and, with a snapshot
of the RLN quota, by what RLN has left; the epoch is that of the snapshot, or of the wall clock
without one.  The snapshot and the time of a call are parameters.

`quotaState` combines the two budgets by another formula than `admit`, and still says that nothing
is left exactly when `admit` refuses (`quotaState_eq_exhausted_iff`). -/

namespace LogosDelivery.Messaging.RateLimit

inductive RateLimitError where
  | overBudget
deriving DecidableEq

structure RateLimitConfig where
  enabled : Bool := false
  epochPeriodSec : UInt64
  messagesPerEpoch : UInt64
  approachedThresholdPercent : UInt64

def DefaultApproachedThresholdPercent : UInt64 := 80

/-- One consistent snapshot of the current epoch budget. -/
structure EpochQuota where
  epochIndex : UInt64
  rateLimit : UInt64
  remaining : UInt64

inductive QuotaState where
  | normal
  | approached
  | exhausted
deriving DecidableEq

namespace QuotaState

/-- The order of the enumeration. -/
def ord : QuotaState → ℕ
  | normal => 0
  | approached => 1
  | exhausted => 2

theorem ord_injective : Function.Injective ord := by
  intro a b h
  cases a <;> cases b <;> first | rfl | cases h

instance : LinearOrder QuotaState := LinearOrder.lift' ord ord_injective

theorem le_exhausted (s : QuotaState) : s ≤ exhausted := by
  cases s <;> decide

theorem max_eq_exhausted_iff {s t : QuotaState} :
    max s t = exhausted ↔ s = exhausted ∨ t = exhausted := by
  cases s <;> cases t <;> decide

end QuotaState

/-- Absolute epoch. -/
def wallClockEpochIndex (unixTime epochPeriodSec : UInt64) : UInt64 := unixTime / epochPeriodSec

structure RateLimitManager where
  config : RateLimitConfig
  currentEpochIndex : UInt64 := 0
  sentInCurrentEpoch : UInt64 := 0

namespace RateLimitManager

def new (config : RateLimitConfig) : Except String RateLimitManager :=
  if config.enabled ∧ config.epochPeriodSec = 0 then
    .error "rate limit config: epochPeriodSec must be positive when enabled"
  else if config.enabled ∧ 100 < config.approachedThresholdPercent then
    .error "rate limit config: approachedThresholdPercent must be at most 100"
  else .ok { config := config }

/-- The epoch of a call. -/
def epochIndex (self : RateLimitManager) (quota : Option EpochQuota) (unixTime : UInt64) : UInt64 :=
  match quota with
  | some q => q.epochIndex
  | none => wallClockEpochIndex unixTime self.config.epochPeriodSec

/-- The limit of the local count. -/
def limit (self : RateLimitManager) (quota : Option EpochQuota) : UInt64 :=
  match quota with
  | some q => min self.config.messagesPerEpoch q.rateLimit
  | none => self.config.messagesPerEpoch

/-- Rolls the window. -/
def refreshEpoch (self : RateLimitManager) (quota : Option EpochQuota) (unixTime : UInt64) :
    RateLimitManager :=
  if self.epochIndex quota unixTime ≠ self.currentEpochIndex then
    { self with currentEpochIndex := self.epochIndex quota unixTime, sentInCurrentEpoch := 0 }
  else self

/-- The percent of the configuration, or its default. -/
def percent (self : RateLimitManager) : UInt64 :=
  if self.config.approachedThresholdPercent = 0 then DefaultApproachedThresholdPercent
  else self.config.approachedThresholdPercent

/-- Sent count at which the quota is approached. -/
def approachedAt (self : RateLimitManager) (limit : UInt64) : UInt64 :=
  (limit / 100) * self.percent + ((limit % 100) * self.percent + 99) / 100

def stateOf (self : RateLimitManager) (used limit : UInt64) : QuotaState :=
  if limit ≤ used then .exhausted
  else if self.approachedAt limit ≤ used then .approached
  else .normal

/-- RLN's consumption of its own limit. -/
def EpochQuota.rlnUsed (q : EpochQuota) : UInt64 := q.rateLimit - min q.remaining q.rateLimit

def quotaState (self : RateLimitManager) (quota : Option EpochQuota) (unixTime : UInt64) :
    QuotaState × RateLimitManager :=
  if !self.config.enabled then (.normal, self)
  else
    let self := self.refreshEpoch quota unixTime
    let state := self.stateOf self.sentInCurrentEpoch (self.limit quota)
    match quota with
    | none => (state, self)
    | some q => (max state (self.stateOf (EpochQuota.rlnUsed q) q.rateLimit), self)

def admitMessage (self : RateLimitManager) (quota : Option EpochQuota) (unixTime : UInt64) :
    Except RateLimitError Unit × RateLimitManager :=
  if !self.config.enabled then (.ok (), self)
  else
    let self := self.refreshEpoch quota unixTime
    let spent : Bool :=
      match quota with
      | some q => decide (q.remaining = 0)
      | none => false
    if self.limit quota ≤ self.sentInCurrentEpoch ∨ spent then (.error .overBudget, self)
    else (.ok (), { self with sentInCurrentEpoch := self.sentInCurrentEpoch + 1 })

/-! ### The threshold -/

section Threshold

variable {config : RateLimitConfig} {self : RateLimitManager}

/-- A percentage, as `new` checks it. -/
theorem percent_le (henabled : self.config.enabled = true) {fresh : RateLimitManager}
    (hnew : new self.config = .ok fresh) : self.percent.toNat ≤ 100 := by
  unfold new at hnew
  split_ifs at hnew with hperiod hpercent
  have hle : self.config.approachedThresholdPercent ≤ 100 :=
    UInt64.not_lt.mp fun h => hpercent ⟨henabled, h⟩
  unfold percent
  split_ifs
  · decide
  · exact UInt64.le_iff_toNat_le.mp hle

/-- The two products of the threshold, the second one rounded up, and their sum stay below the
limits of the word. -/
theorem approachedAt_bounds (hp : self.percent.toNat ≤ 100) (limit : UInt64) :
    limit.toNat / 100 * self.percent.toNat < 2 ^ 64 ∧
      limit.toNat % 100 * self.percent.toNat + 99 < 2 ^ 64 ∧
      limit.toNat / 100 * self.percent.toNat +
        (limit.toNat % 100 * self.percent.toNat + 99) / 100 < 2 ^ 64 := by
  have hlimit := limit.toNat_lt
  have hquot : limit.toNat / 100 * self.percent.toNat ≤ limit.toNat / 100 * 100 :=
    Nat.mul_le_mul_left _ hp
  have hrem : limit.toNat % 100 * self.percent.toNat ≤ limit.toNat % 100 * 100 :=
    Nat.mul_le_mul_left _ hp
  omega

theorem approachedAt_toNat (hp : self.percent.toNat ≤ 100) (limit : UInt64) :
    (self.approachedAt limit).toNat = limit.toNat / 100 * self.percent.toNat +
      (limit.toNat % 100 * self.percent.toNat + 99) / 100 := by
  obtain ⟨hquot, hrem, hsum⟩ := approachedAt_bounds hp limit
  have hrem' : limit.toNat % 100 * self.percent.toNat < 2 ^ 64 := by omega
  unfold approachedAt
  rw [UInt64.toNat_add, UInt64.toNat_mul, UInt64.toNat_div, UInt64.toNat_div, UInt64.toNat_add,
    UInt64.toNat_mul, UInt64.toNat_mod]
  simp only [UInt64.reduceToNat]
  rw [Nat.mod_eq_of_lt hquot, Nat.mod_eq_of_lt hrem', Nat.mod_eq_of_lt hrem, Nat.mod_eq_of_lt hsum]

/-- The threshold is the share of the limit, rounded up. -/
theorem approachedAt_eq_ceil (hp : self.percent.toNat ≤ 100) (limit : UInt64) :
    (self.approachedAt limit).toNat =
      ⌈(limit.toNat * self.percent.toNat : ℚ) / 100⌉₊ := by
  rw [approachedAt_toNat hp]
  have hceil : ⌈(limit.toNat * self.percent.toNat : ℚ) / 100⌉₊ =
      (limit.toNat * self.percent.toNat + 99) / 100 := by
    refine eq_of_forall_ge_iff fun c => ?_
    rw [Nat.ceil_le, div_le_iff₀ (by norm_num)]
    constructor
    · intro h
      have hcast : limit.toNat * self.percent.toNat ≤ c * 100 := by exact_mod_cast h
      omega
    · intro h
      have hcast : limit.toNat * self.percent.toNat ≤ c * 100 := by omega
      exact_mod_cast hcast
  rw [hceil]
  have hsplit : limit.toNat * self.percent.toNat =
      100 * (limit.toNat / 100 * self.percent.toNat) + limit.toNat % 100 * self.percent.toNat := by
    calc limit.toNat * self.percent.toNat
        = (100 * (limit.toNat / 100) + limit.toNat % 100) * self.percent.toNat := by
          rw [Nat.div_add_mod]
      _ = 100 * (limit.toNat / 100 * self.percent.toNat) +
            limit.toNat % 100 * self.percent.toNat := by ring
  omega

end Threshold

/-! ### The two answers -/

section Answers

variable {self : RateLimitManager}

theorem stateOf_eq_exhausted_iff (used limit : UInt64) :
    self.stateOf used limit = .exhausted ↔ limit ≤ used := by
  unfold stateOf
  split_ifs with hlimit happroached
  · exact iff_of_true rfl hlimit
  · exact iff_of_false (by decide) hlimit
  · exact iff_of_false (by decide) hlimit

theorem min_toNat (a b : UInt64) : (min a b).toNat = min a.toNat b.toNat := by
  show (if a ≤ b then a else b).toNat = _
  split_ifs with h
  · exact (min_eq_left (UInt64.le_iff_toNat_le.mp h)).symm
  · exact (min_eq_right (UInt64.le_iff_toNat_le.mp (UInt64.le_of_lt (UInt64.not_le.mp h)))).symm

theorem uint64_min_le_right (a b : UInt64) : min a b ≤ b := by
  rw [UInt64.le_iff_toNat_le, min_toNat]
  exact min_le_right _ _

theorem rlnUsed_toNat (q : EpochQuota) :
    (EpochQuota.rlnUsed q).toNat = q.rateLimit.toNat - min q.remaining.toNat q.rateLimit.toNat := by
  unfold EpochQuota.rlnUsed
  rw [UInt64.toNat_sub_of_le _ _ (uint64_min_le_right _ _), min_toNat]

/-- RLN's own budget is used up when nothing remains of it, or when it is zero. -/
theorem rateLimit_le_rlnUsed_iff (q : EpochQuota) :
    q.rateLimit ≤ EpochQuota.rlnUsed q ↔ q.remaining = 0 ∨ q.rateLimit = 0 := by
  rw [UInt64.le_iff_toNat_le, rlnUsed_toNat, ← UInt64.toNat_inj, ← UInt64.toNat_inj]
  simp only [UInt64.toNat_zero]
  omega

@[simp] theorem refreshEpoch_config (quota : Option EpochQuota) (unixTime : UInt64) :
    (self.refreshEpoch quota unixTime).config = self.config := by
  unfold refreshEpoch
  split_ifs <;> rfl

theorem refreshEpoch_limit (quota quota' : Option EpochQuota) (unixTime : UInt64) :
    (self.refreshEpoch quota unixTime).limit quota' = self.limit quota' := by
  unfold limit
  rw [refreshEpoch_config]

/-- **The two answers agree**: nothing is left exactly when a message is refused. -/
theorem quotaState_eq_exhausted_iff (henabled : self.config.enabled = true)
    (quota : Option EpochQuota) (unixTime : UInt64) :
    (self.quotaState quota unixTime).1 = .exhausted ↔
      (self.admitMessage quota unixTime).1 = .error .overBudget := by
  unfold quotaState admitMessage
  simp only [henabled, Bool.not_true, Bool.false_eq_true, if_false]
  generalize hfresh : self.refreshEpoch quota unixTime = fresh
  cases quota with
  | none =>
      rw [stateOf_eq_exhausted_iff]
      by_cases hspent : fresh.limit none ≤ fresh.sentInCurrentEpoch
      · rw [if_pos (Or.inl hspent)]
        exact iff_of_true hspent rfl
      · rw [if_neg (by simpa using hspent)]
        exact iff_of_false hspent fun h => nomatch h
  | some q =>
      dsimp only
      rw [QuotaState.max_eq_exhausted_iff, stateOf_eq_exhausted_iff, stateOf_eq_exhausted_iff,
        rateLimit_le_rlnUsed_iff]
      -- a rate limit of zero is the limit of the local count too
      have hzero : q.rateLimit = 0 → fresh.limit (some q) ≤ fresh.sentInCurrentEpoch := by
        intro h
        show min fresh.config.messagesPerEpoch q.rateLimit ≤ fresh.sentInCurrentEpoch
        rw [h]
        exact UInt64.le_trans (uint64_min_le_right _ _) (UInt64.le_iff_toNat_le.mpr (Nat.zero_le _))
      by_cases hrefused : fresh.limit (some q) ≤ fresh.sentInCurrentEpoch ∨
          decide (q.remaining = 0) = true
      · rw [if_pos hrefused]
        rw [decide_eq_true_eq] at hrefused
        exact iff_of_true (hrefused.imp_right Or.inl) rfl
      · rw [if_neg hrefused]
        rw [decide_eq_true_eq] at hrefused
        refine iff_of_false (fun h => hrefused ?_) fun h => nomatch h
        rcases h with h | h | h
        · exact Or.inl h
        · exact Or.inr h
        · exact Or.inl (hzero h)

/-- What `admit` does: a refusal leaves the rolled window, an admission counts one more. -/
theorem admit_cases (henabled : self.config.enabled = true) (quota : Option EpochQuota)
    (unixTime : UInt64) :
    self.admitMessage quota unixTime = (.error .overBudget, self.refreshEpoch quota unixTime) ∨
    ∃ admitted : RateLimitManager, self.admitMessage quota unixTime = (.ok (), admitted) ∧
      admitted.config = self.config ∧
      admitted.currentEpochIndex = (self.refreshEpoch quota unixTime).currentEpochIndex ∧
      admitted.sentInCurrentEpoch.toNat =
        (self.refreshEpoch quota unixTime).sentInCurrentEpoch.toNat + 1 ∧
      admitted.sentInCurrentEpoch.toNat ≤ (self.limit quota).toNat := by
  unfold admitMessage
  simp only [henabled, Bool.not_true, Bool.false_eq_true, if_false]
  have hlimit : (self.refreshEpoch quota unixTime).limit quota = self.limit quota :=
    refreshEpoch_limit quota quota unixTime
  have hconfig : (self.refreshEpoch quota unixTime).config = self.config :=
    refreshEpoch_config quota unixTime
  generalize self.refreshEpoch quota unixTime = fresh at *
  split_ifs with hrefused
  · exact Or.inl rfl
  · refine Or.inr ⟨_, rfl, hconfig, rfl, ?_⟩
    have hbelow : fresh.sentInCurrentEpoch.toNat < (self.limit quota).toNat := by
      rw [← hlimit, ← UInt64.lt_iff_toNat_lt]
      exact UInt64.not_le.mp fun h => hrefused (Or.inl h)
    have hword := (self.limit quota).toNat_lt
    have hnext : (fresh.sentInCurrentEpoch + 1).toNat = fresh.sentInCurrentEpoch.toNat + 1 := by
      rw [UInt64.toNat_add, UInt64.toNat_one, Nat.mod_eq_of_lt (by omega)]
    have hle : (fresh.sentInCurrentEpoch + 1).toNat ≤ (self.limit quota).toNat := by omega
    exact ⟨hnext, hle⟩

theorem quotaState_snd (henabled : self.config.enabled = true) (quota : Option EpochQuota)
    (unixTime : UInt64) :
    (self.quotaState quota unixTime).2 = self.refreshEpoch quota unixTime := by
  unfold quotaState
  simp only [henabled, Bool.not_true, Bool.false_eq_true, if_false]
  cases quota <;> rfl

end Answers

/-! ### Calls within one epoch -/

end RateLimitManager

/-- A call, with the snapshot and the time that it sees. -/
structure Call where
  /-- `admit`, and otherwise `quotaState`. -/
  admits : Bool
  quota : Option EpochQuota
  unixTime : UInt64

/-- The epoch of a call under a configuration. -/
def Call.epochIndex (config : RateLimitConfig) (c : Call) : UInt64 :=
  match c.quota with
  | some q => q.epochIndex
  | none => wallClockEpochIndex c.unixTime config.epochPeriodSec

/-- A snapshot after another one with the same limits, of which RLN has no more left.  Without a
snapshot RLN has used nothing yet. -/
def FollowsQuota (config : RateLimitConfig) : Option EpochQuota → Option EpochQuota → Prop
  | none, none => True
  | none, some q => config.messagesPerEpoch ≤ q.rateLimit
  | some q, some q' => q'.rateLimit = q.rateLimit ∧ q'.remaining ≤ q.remaining
  | some _, none => False

namespace RateLimitManager

/-- The manager after a call. -/
def serve (self : RateLimitManager) (c : Call) : RateLimitManager :=
  if c.admits then (self.admitMessage c.quota c.unixTime).2 else (self.quotaState c.quota c.unixTime).2

section Epoch

variable {self : RateLimitManager}

theorem epochIndex_eq (self : RateLimitManager) (c : Call) :
    self.epochIndex c.quota c.unixTime = c.epochIndex self.config := by
  unfold epochIndex Call.epochIndex
  cases c.quota <;> rfl

theorem refreshEpoch_index (c : Call) :
    (self.refreshEpoch c.quota c.unixTime).currentEpochIndex = c.epochIndex self.config := by
  unfold refreshEpoch
  rw [epochIndex_eq]
  split_ifs with h
  · rfl
  · exact (not_not.mp h).symm

/-- In the epoch of the window nothing is rolled. -/
theorem refreshEpoch_same {c : Call} (h : c.epochIndex self.config = self.currentEpochIndex) :
    self.refreshEpoch c.quota c.unixTime = self := by
  unfold refreshEpoch
  rw [epochIndex_eq, if_neg (not_not.mpr h)]

theorem serve_config (henabled : self.config.enabled = true) (c : Call) :
    (self.serve c).config = self.config := by
  unfold serve
  split_ifs
  · rcases admit_cases henabled c.quota c.unixTime with h | ⟨admitted, h, hconfig, -⟩
    · rw [h, refreshEpoch_config]
    · rw [h, hconfig]
  · rw [quotaState_snd henabled, refreshEpoch_config]

theorem serve_index (henabled : self.config.enabled = true) (c : Call) :
    (self.serve c).currentEpochIndex = c.epochIndex self.config := by
  unfold serve
  split_ifs
  · rcases admit_cases henabled c.quota c.unixTime with h | ⟨admitted, h, -, hindex, -⟩
    · rw [h, refreshEpoch_index]
    · rw [h, hindex, refreshEpoch_index]
  · rw [quotaState_snd henabled, refreshEpoch_index]

/-- A call in the epoch of the window never takes a message off the count. -/
theorem le_serve (henabled : self.config.enabled = true) {c : Call}
    (h : c.epochIndex self.config = self.currentEpochIndex) :
    self.sentInCurrentEpoch.toNat ≤ (self.serve c).sentInCurrentEpoch.toNat := by
  have hsame := refreshEpoch_same h
  unfold serve
  split_ifs
  · rcases admit_cases henabled c.quota c.unixTime with hrefused | ⟨admitted, hone, -, -, hsent, -⟩
    · rw [hrefused, hsame]
    · rw [hone, hsent, hsame]
      exact Nat.le_succ _
  · rw [quotaState_snd henabled, hsame]

/-- A run of calls in the epoch of the window. -/
theorem le_run : ∀ (calls : List Call) (self : RateLimitManager), self.config.enabled = true →
    (∀ c ∈ calls, c.epochIndex self.config = self.currentEpochIndex) →
    (calls.foldl serve self).config = self.config ∧
      (calls.foldl serve self).currentEpochIndex = self.currentEpochIndex ∧
      self.sentInCurrentEpoch.toNat ≤ (calls.foldl serve self).sentInCurrentEpoch.toNat
  | [], _, _, _ => ⟨rfl, rfl, le_rfl⟩
  | c :: calls, self, henabled, h => by
      have hc := h c List.mem_cons_self
      have hconfig := serve_config henabled c
      have hindex : (self.serve c).currentEpochIndex = self.currentEpochIndex :=
        (serve_index henabled c).trans hc
      obtain ⟨h1, h2, h3⟩ := le_run calls (self.serve c) (by rw [hconfig, henabled])
        fun c' hc' => by
          rw [hconfig, hindex]
          exact h c' (List.mem_cons_of_mem _ hc')
      exact ⟨h1.trans hconfig, h2.trans hindex, (le_serve henabled hc).trans h3⟩

theorem stateOf_mono {used used' limit : UInt64} (h : used.toNat ≤ used'.toNat) :
    self.stateOf used limit ≤ self.stateOf used' limit := by
  have hle : used ≤ used' := UInt64.le_iff_toNat_le.mpr h
  by_cases hlimit' : limit ≤ used'
  · rw [(stateOf_eq_exhausted_iff used' limit).mpr hlimit']
    exact QuotaState.le_exhausted _
  have hlimit : ¬ limit ≤ used := fun hl => hlimit' (UInt64.le_trans hl hle)
  unfold stateOf
  rw [if_neg hlimit, if_neg hlimit']
  by_cases happroached : self.approachedAt limit ≤ used
  · rw [if_pos happroached, if_pos (UInt64.le_trans happroached hle)]
  · rw [if_neg happroached]
    split_ifs <;> decide

theorem rlnUsed_mono {q q' : EpochQuota} (hlimit : q'.rateLimit = q.rateLimit)
    (hremaining : q'.remaining ≤ q.remaining) :
    (EpochQuota.rlnUsed q).toNat ≤ (EpochQuota.rlnUsed q').toNat := by
  rw [rlnUsed_toNat, rlnUsed_toNat, hlimit]
  have hle := UInt64.le_iff_toNat_le.mp hremaining
  omega

theorem followsQuota_trans {config : RateLimitConfig} {a b c : Option EpochQuota}
    (h : FollowsQuota config a b) (h' : FollowsQuota config b c) : FollowsQuota config a c := by
  match a, b, c, h, h' with
  | none, none, _, _, h' => exact h'
  | none, some q, some q', h, h' =>
      show config.messagesPerEpoch ≤ q'.rateLimit
      rw [h'.1]
      exact h
  | some q, some q', some q'', h, h' =>
      exact ⟨h'.1.trans h.1, UInt64.le_trans h'.2 h.2⟩

instance (config : RateLimitConfig) : IsTrans (Option EpochQuota) (FollowsQuota config) :=
  ⟨fun _ _ _ => followsQuota_trans⟩

/-- What `quotaState` answers in the epoch of the window. -/
theorem quotaState_fst (henabled : self.config.enabled = true) {c : Call}
    (h : c.epochIndex self.config = self.currentEpochIndex) :
    (self.quotaState c.quota c.unixTime).1 =
      match c.quota with
      | none => self.stateOf self.sentInCurrentEpoch self.config.messagesPerEpoch
      | some q => max (self.stateOf self.sentInCurrentEpoch (min self.config.messagesPerEpoch q.rateLimit))
          (self.stateOf (EpochQuota.rlnUsed q) q.rateLimit) := by
  unfold quotaState
  simp only [henabled, Bool.not_true, Bool.false_eq_true, if_false, refreshEpoch_same h]
  cases c.quota <;> rfl

/-- More sent, and RLN with less left of the same limit. -/
theorem quotaState_mono {self' : RateLimitManager} (henabled : self.config.enabled = true)
    (hconfig : self'.config = self.config) {c c' : Call}
    (hc : c.epochIndex self.config = self.currentEpochIndex)
    (hc' : c'.epochIndex self'.config = self'.currentEpochIndex)
    (hsent : self.sentInCurrentEpoch.toNat ≤ self'.sentInCurrentEpoch.toNat)
    (hquota : FollowsQuota self.config c.quota c'.quota) :
    (self.quotaState c.quota c.unixTime).1 ≤ (self'.quotaState c'.quota c'.unixTime).1 := by
  have hstate : ∀ used limit, self'.stateOf used limit = self.stateOf used limit := by
    intro used limit
    unfold stateOf approachedAt percent
    rw [hconfig]
  rw [quotaState_fst henabled hc, quotaState_fst (by rw [hconfig, henabled]) hc', hconfig]
  simp only [hstate]
  match hq : c.quota, hq' : c'.quota, hquota with
  | none, none, _ => exact stateOf_mono hsent
  | none, some q, hm =>
      have hmin : min self.config.messagesPerEpoch q.rateLimit = self.config.messagesPerEpoch :=
        if_pos hm
      dsimp only
      rw [hmin]
      exact (stateOf_mono hsent).trans (le_max_left _ _)
  | some q, some q', hm =>
      dsimp only
      rw [hm.1]
      exact max_le_max (stateOf_mono hsent) (stateOf_mono (rlnUsed_mono hm.1 hm.2))

end Epoch

/-- **The reported state agrees with admission**: nothing is left exactly when a message would be
refused; the threshold is the share of the limit, rounded up, without overflow; and within an epoch
with fixed limits and no more left of RLN's budget the state does not go down. -/
theorem quotaState_agrees (self : RateLimitManager) (henabled : self.config.enabled = true)
    {fresh : RateLimitManager} (hnew : new self.config = .ok fresh) :
    (∀ quota unixTime, (self.quotaState quota unixTime).1 = .exhausted ↔
      (self.admitMessage quota unixTime).1 = .error .overBudget) ∧
    (∀ limit : UInt64,
      (self.approachedAt limit).toNat = ⌈(limit.toNat * self.percent.toNat : ℚ) / 100⌉₊ ∧
        limit.toNat / 100 * self.percent.toNat < 2 ^ 64 ∧
        limit.toNat % 100 * self.percent.toNat + 99 < 2 ^ 64 ∧
        limit.toNat / 100 * self.percent.toNat +
          (limit.toNat % 100 * self.percent.toNat + 99) / 100 < 2 ^ 64) ∧
    ∀ (first last : Call) (calls : List Call) (epoch : UInt64),
      (∀ c ∈ first :: (calls ++ [last]), c.epochIndex self.config = epoch) →
      ((first :: (calls ++ [last])).map Call.quota).IsChain (FollowsQuota self.config) →
      (self.quotaState first.quota first.unixTime).1 ≤
        ((calls.foldl serve (self.quotaState first.quota first.unixTime).2).quotaState
          last.quota last.unixTime).1 := by
  have hp := percent_le henabled hnew
  refine ⟨quotaState_eq_exhausted_iff henabled,
    fun limit => ⟨approachedAt_eq_ceil hp limit, approachedAt_bounds hp limit⟩, ?_⟩
  intro first last calls epoch hepoch hchain
  have hfirst := hepoch first List.mem_cons_self
  have hlast := hepoch last (by simp)
  rw [quotaState_snd henabled]
  -- the first call rolls the window, if it is not that of the epoch yet
  have hconfig : (self.refreshEpoch first.quota first.unixTime).config = self.config :=
    refreshEpoch_config first.quota first.unixTime
  have hindex : (self.refreshEpoch first.quota first.unixTime).currentEpochIndex = epoch :=
    (refreshEpoch_index first).trans hfirst
  have hagain : (self.quotaState first.quota first.unixTime).1 =
      ((self.refreshEpoch first.quota first.unixTime).quotaState first.quota first.unixTime).1 := by
    have hsame : (self.refreshEpoch first.quota first.unixTime).refreshEpoch first.quota
        first.unixTime = self.refreshEpoch first.quota first.unixTime :=
      refreshEpoch_same (by rw [hconfig, hindex, hfirst])
    unfold quotaState
    rw [hconfig, hsame]
    cases henabled' : self.config.enabled with
    | false => rfl
    | true => cases first.quota <;> rfl
  rw [hagain]
  generalize self.refreshEpoch first.quota first.unixTime = rolled at *
  have henabled' : rolled.config.enabled = true := by rw [hconfig, henabled]
  obtain ⟨hrunConfig, hrunIndex, hsent⟩ := le_run calls rolled henabled' fun c hc => by
    rw [hconfig, hindex]
    exact hepoch c (by simp [hc])
  refine quotaState_mono henabled' hrunConfig ?_ ?_ hsent ?_
  · rw [hconfig, hindex, hfirst]
  · rw [hrunConfig, hrunIndex, hconfig, hindex, hlast]
  · rw [hconfig]
    have hpair := List.isChain_iff_pairwise.mp hchain
    exact (List.pairwise_cons.mp hpair).1 last.quota (by simp)

/-- A cap of five of which four are taken, at a threshold of eighty percent. -/
theorem quotaState_agrees_nearlySpent :
    ((⟨⟨true, 600, 5, 0⟩, 7, 4⟩ : RateLimitManager).quotaState
        (some ⟨7, 100, 50⟩) 4200).1 = .exhausted ↔
      ((⟨⟨true, 600, 5, 0⟩, 7, 4⟩ : RateLimitManager).admitMessage
        (some ⟨7, 100, 50⟩) 4200).1 = .error .overBudget :=
  (@quotaState_agrees ⟨⟨true, 600, 5, 0⟩, 7, 4⟩ rfl ⟨⟨true, 600, 5, 0⟩, 0, 0⟩ rfl).1 _ _

end RateLimitManager

end LogosDelivery.Messaging.RateLimit
