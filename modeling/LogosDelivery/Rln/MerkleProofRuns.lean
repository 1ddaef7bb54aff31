import LogosDelivery.Rln.MerkleProofCache

/-! # Freshness of the Merkle proof path

A cached path is never older than the last invalidate, and the refresh loop runs until there is one
(`merkleProofCache_safe`).  The path of a shared refetch is as fresh as its callers expect, unless a
caller joins while the refetch only updates the member count: its path is behind the last generation
check then, and an invalidate after the check goes unnoticed (`returned_path_fresh`,
`returned_path_not_fresh`). -/

namespace LogosDelivery.Rln.MerkleProof

open Lib

namespace RlnEvmGroupManager

variable {g g' : RlnEvmGroupManager} {r c attempt generation since : ℕ} {path : Path}
  {refetch : Refetch} {call : Call}

/-! ### The cache -/

/-- The invariant of the cache and of the refetch in flight. -/
structure Sound (g : RlnEvmGroupManager) : Prop where
  cache : g.merkleProofCache.bytes ≠ [] →
    g.merkleProofCache.since = g.merkleProofCacheGeneration
  fetching : ∀ r attempt generation, g.refetches r = some (.fetching attempt generation) →
    g.proofPathRefreshInFlightFut = some r ∧ g.merkleProofCache.bytes = []
  refetchCount : ∀ r, g.refetchCount ≤ r → g.refetches r = none
  callCount : ∀ c, g.callCount ≤ c → g.calls c = none

theorem Sound.new (initialized : Bool) (membershipIndex : Option ℕ) :
    Sound (new initialized membershipIndex) where
  cache h := absurd rfl h
  fetching _ _ _ h := by cases h
  refetchCount _ _ := rfl
  callCount _ _ := rfl

theorem Sound.setLoop (h : Sound g) (loop : RefreshLoop) :
    Sound { g with proofPathRefreshLoopFut := loop } :=
  ⟨h.cache, h.fetching, h.refetchCount, h.callCount⟩

theorem Sound.invalidate (h : Sound g) : Sound g.invalidateMerkleProofCache where
  cache hne := absurd rfl hne
  fetching r attempt generation hr := ⟨(h.fetching r attempt generation hr).1, rfl⟩
  refetchCount := h.refetchCount
  callCount := h.callCount

theorem Sound.addCall (h : Sound g) (call : Call) : Sound (g.addCall call) where
  cache := h.cache
  fetching := h.fetching
  refetchCount := h.refetchCount
  callCount := fresh_add h.callCount _

theorem Sound.setCall (h : Sound g) {old : Call} (hc : g.calls c = some old) (call : Call) :
    Sound (g.setCall c call) where
  cache := h.cache
  fetching := h.fetching
  refetchCount := h.refetchCount
  callCount := fresh_set h.callCount hc _

/-- A new refetch is started only if no other one is unfinished. -/
theorem Sound.doRefresh (h : Sound g) (hnone : g.unfinishedRefetch = none)
    (hempty : g.merkleProofCache.bytes = []) : Sound g.doRefresh where
  cache := h.cache
  fetching r attempt generation hr := by
    rcases mem_table_set hr with ⟨rfl, -⟩ | ⟨-, hold⟩
    · exact ⟨rfl, hempty⟩
    · have hunfinished : g.unfinishedRefetch = some r := by
        rw [unfinishedRefetch, (h.fetching r attempt generation hold).1]
        simp [Option.filter, hold, Refetch.isFinished]
      rw [hnone] at hunfinished
      cases hunfinished
  refetchCount := fresh_add h.refetchCount _
  callCount := h.callCount

theorem bytes_eq_nil (h : ¬ path.bytes.length > 0) : path.bytes = [] :=
  List.length_eq_zero_iff.mp (by omega)

theorem Sound.ensureFresh (h : Sound g) : Sound g.ensureFreshMerkleProofPath := by
  unfold ensureFreshMerkleProofPath
  dsimp only
  split_ifs with hindex hcached
  · exact h.addCall _
  · exact h.addCall _
  · split
    · exact h.addCall _
    · rename_i hnone
      exact (h.doRefresh hnone (bytes_eq_nil hcached)).addCall _

theorem Sound.refreshLoop (h : Sound g) : Sound g.refreshLoop := by
  unfold RlnEvmGroupManager.refreshLoop
  split_ifs
  · exact h.ensureFresh.setLoop _
  · exact h.setLoop _

/-- A refetch is done with its fetch, which may have filled the cache. -/
theorem Sound.leaveFetch (h : Sound g)
    (hr : g.refetches r = some (.fetching attempt generation)) (cache : Path)
    (hcache : cache.bytes ≠ [] → cache.since = g.merkleProofCacheGeneration)
    (hnot : ∀ attempt generation, refetch ≠ .fetching attempt generation) :
    Sound ({ g with merkleProofCache := cache }.setRefetch r refetch) where
  cache := hcache
  fetching r' attempt' generation' hr' := by
    rcases mem_table_set hr' with ⟨-, heq⟩ | ⟨hne, hold⟩
    · exact absurd heq.symm (hnot _ _)
    · -- only the refetch in flight is at a fetch
      have hflight := (h.fetching r' attempt' generation' hold).1
      rw [(h.fetching r attempt generation hr).1] at hflight
      exact absurd (Option.some.inj hflight).symm hne
  refetchCount := fresh_set h.refetchCount hr _
  callCount := h.callCount

theorem Sound.afterFetches (h : Sound g)
    (hr : g.refetches r = some (.fetching attempt generation)) (cache : Path)
    (hcache : cache.bytes ≠ [] → cache.since = g.merkleProofCacheGeneration) (path : Path)
    (usedUp : Bool) :
    Sound ({ g with merkleProofCache := cache }.afterFetches r path usedUp) := by
  unfold RlnEvmGroupManager.afterFetches
  split_ifs
  · exact h.leaveFetch hr cache hcache (by simp)
  · exact h.leaveFetch hr cache hcache (by simp)

/-- A refetch fetches again, or finishes its update of the member count. -/
theorem Sound.setRefetch (h : Sound g) {old : Refetch} (hr : g.refetches r = some old)
    (hfetching : ∀ attempt generation, refetch = .fetching attempt generation →
      g.proofPathRefreshInFlightFut = some r ∧ g.merkleProofCache.bytes = []) :
    Sound (g.setRefetch r refetch) where
  cache := h.cache
  fetching r' attempt' generation' hr' := by
    rcases mem_table_set hr' with ⟨rfl, heq⟩ | ⟨-, hold⟩
    · exact hfetching _ _ heq.symm
    · exact h.fetching r' attempt' generation' hold
  refetchCount := fresh_set h.refetchCount hr _
  callCount := h.callCount

theorem Sound.fetched (h : Sound g) (hr : g.refetches r = some (.fetching attempt generation))
    (outcome : FetchOutcome) : Sound (g.fetched r attempt generation outcome) := by
  cases outcome with
  | ok bytes =>
      unfold RlnEvmGroupManager.fetched
      split_ifs with hgeneration hattempt
      · exact h.afterFetches hr _ (fun _ => hgeneration.symm) _ _
      · exact h.setRefetch hr (fun _ _ _ => h.fetching r attempt generation hr)
      · exact h.afterFetches hr g.merkleProofCache h.cache _ _
  | err => exact h.leaveFetch hr g.merkleProofCache h.cache (by simp)
  | raised => exact h.leaveFetch hr g.merkleProofCache h.cache (by simp)

theorem Sound.schedule (h : Sound g) : Sound g.scheduleMerkleProofRefresh := by
  unfold scheduleMerkleProofRefresh
  dsimp only
  split_ifs
  · exact h.invalidate.refreshLoop
  · exact h.invalidate

theorem Sound.step (h : Sound g) (a : Action) : Sound (g.step a) := by
  cases a with
  | invalidateMerkleProofCache => exact h.invalidate
  | scheduleMerkleProofRefresh => exact h.schedule
  | ensureFreshMerkleProofPath => exact h.ensureFresh
  | fetched r outcome =>
      unfold RlnEvmGroupManager.step
      dsimp only
      split
      · rename_i hr
        exact h.fetched hr outcome
      · exact h
  | memberCountUpdated r raised =>
      unfold RlnEvmGroupManager.step
      dsimp only
      split
      · rename_i hr
        exact h.setRefetch hr (by simp)
      · exact h
  | resumeCall c =>
      unfold RlnEvmGroupManager.step
      dsimp only
      split
      · rename_i hc
        split
        · exact h.setCall hc _
        · exact h
      · exact h
  | resumeLoop =>
      unfold RlnEvmGroupManager.step
      dsimp only
      split
      · exact h
      · split
        · split_ifs
          · exact h.setLoop _
          · exact h.refreshLoop
        · exact h
      · exact h.refreshLoop

theorem after_sound (initialized : Bool) (membershipIndex : Option ℕ) (actions : List Action) :
    Sound (after initialized membershipIndex actions) := by
  induction actions using List.reverseRecOn with
  | nil => exact Sound.new initialized membershipIndex
  | append_singleton actions a ih =>
      rw [after, run_concat]
      exact ih.step a

/-! ### The refresh loop -/

/-- The loop has not stopped without a cached path. -/
def Retrying (g : RlnEvmGroupManager) : Prop :=
  g.merkleProofCache.bytes = [] → g.proofPathRefreshLoopFut ≠ .stopped

/-- A member that is initialized. -/
def Member (g : RlnEvmGroupManager) : Prop :=
  g.initialized = true ∧ g.membershipIndex.isSome = true

/-- The parts of the state that a call leaves alone. -/
theorem ensureFresh_frame (g : RlnEvmGroupManager) :
    let g' := g.ensureFreshMerkleProofPath
    g'.merkleProofCache = g.merkleProofCache ∧
      g'.merkleProofCacheGeneration = g.merkleProofCacheGeneration ∧
      g'.proofPathRefreshLoopFut = g.proofPathRefreshLoopFut ∧
      g'.initialized = g.initialized ∧ g'.membershipIndex = g.membershipIndex := by
  unfold ensureFreshMerkleProofPath
  dsimp only
  split_ifs
  · exact ⟨rfl, rfl, rfl, rfl, rfl⟩
  · exact ⟨rfl, rfl, rfl, rfl, rfl⟩
  · split <;> exact ⟨rfl, rfl, rfl, rfl, rfl⟩

theorem refreshLoop_frame (g : RlnEvmGroupManager) :
    g.refreshLoop.merkleProofCache = g.merkleProofCache ∧
      g.refreshLoop.merkleProofCacheGeneration = g.merkleProofCacheGeneration ∧
      g.refreshLoop.initialized = g.initialized ∧
      g.refreshLoop.membershipIndex = g.membershipIndex := by
  obtain ⟨hcache, hgeneration, -, hinit, hindex⟩ := ensureFresh_frame g
  unfold refreshLoop
  split_ifs
  · exact ⟨hcache, hgeneration, hinit, hindex⟩
  · exact ⟨rfl, rfl, rfl, rfl⟩

/-- The head of the loop lets a member go only with a cached path. -/
theorem refreshLoop_retrying (hmember : Member g) : Retrying g.refreshLoop := by
  intro hempty
  rw [(refreshLoop_frame g).1] at hempty
  have hcond : (g.initialized && g.membershipIndex.isSome &&
      g.merkleProofCache.bytes.length == 0) = true := by
    simp [hmember.1, hmember.2, hempty]
  unfold refreshLoop
  rw [if_pos hcond]
  simp

theorem schedule_retrying (hmember : Member g) : Retrying g.scheduleMerkleProofRefresh := by
  unfold scheduleMerkleProofRefresh
  dsimp only
  split_ifs with hstopped
  · exact refreshLoop_retrying (g := g.invalidateMerkleProofCache) hmember
  · exact fun _ => hstopped

/-- What the end of a fetch leaves alone, and what it does to the cache. -/
theorem fetched_frame (g : RlnEvmGroupManager) (r attempt generation : ℕ)
    (outcome : FetchOutcome) :
    let g' := g.fetched r attempt generation outcome
    g'.merkleProofCacheGeneration = g.merkleProofCacheGeneration ∧
      g'.proofPathRefreshLoopFut = g.proofPathRefreshLoopFut ∧
      g'.initialized = g.initialized ∧ g'.membershipIndex = g.membershipIndex := by
  unfold fetched afterFetches
  cases outcome with
  | ok bytes =>
      dsimp only
      split_ifs <;> exact ⟨rfl, rfl, rfl, rfl⟩
  | err => exact ⟨rfl, rfl, rfl, rfl⟩
  | raised => exact ⟨rfl, rfl, rfl, rfl⟩

theorem member_step (a : Action) : Member (g.step a) ↔ Member g := by
  have hcall := ensureFresh_frame g
  have hloop := refreshLoop_frame g
  cases a with
  | invalidateMerkleProofCache => exact Iff.rfl
  | scheduleMerkleProofRefresh =>
      have hafter := refreshLoop_frame g.invalidateMerkleProofCache
      unfold step scheduleMerkleProofRefresh Member
      dsimp only
      split_ifs
      · rw [hafter.2.2.1, hafter.2.2.2]
        rfl
      · rfl
  | ensureFreshMerkleProofPath =>
      unfold step Member
      rw [hcall.2.2.2.1, hcall.2.2.2.2]
  | fetched r outcome =>
      unfold step Member
      dsimp only
      split
      · rename_i attempt generation _
        have hframe := fetched_frame g r attempt generation outcome
        rw [hframe.2.2.1, hframe.2.2.2]
      · rfl
  | memberCountUpdated r raised =>
      unfold step Member
      dsimp only
      split <;> rfl
  | resumeCall c =>
      unfold step Member
      dsimp only
      split
      · split <;> rfl
      · rfl
  | resumeLoop =>
      unfold step Member
      dsimp only
      split
      · rfl
      · split
        · split_ifs
          · rfl
          · rw [hloop.2.2.1, hloop.2.2.2]
        · rfl
      · rw [hloop.2.2.1, hloop.2.2.2]

/-- Only an invalidate from outside can empty the cache of a loop that has stopped. -/
theorem Retrying.step (h : Retrying g) (hsound : Sound g) (hmember : Member g) (a : Action)
    (ha : a ≠ .invalidateMerkleProofCache) : Retrying (g.step a) := by
  cases a with
  | invalidateMerkleProofCache => exact absurd rfl ha
  | scheduleMerkleProofRefresh => exact schedule_retrying hmember
  | ensureFreshMerkleProofPath =>
      obtain ⟨hcache, -, hloop, -, -⟩ := ensureFresh_frame g
      unfold Retrying RlnEvmGroupManager.step
      rw [hcache, hloop]
      exact h
  | fetched r outcome =>
      unfold Retrying RlnEvmGroupManager.step
      dsimp only
      split
      · rename_i attempt generation hr
        rw [(fetched_frame g r attempt generation outcome).2.1]
        -- the cache was empty during the fetch, so the loop was running
        exact fun _ => h (hsound.fetching r attempt generation hr).2
      · exact h
  | memberCountUpdated r raised =>
      unfold Retrying RlnEvmGroupManager.step
      dsimp only
      split <;> exact h
  | resumeCall c =>
      unfold Retrying RlnEvmGroupManager.step
      dsimp only
      split
      · split <;> exact h
      · exact h
  | resumeLoop =>
      unfold RlnEvmGroupManager.step
      dsimp only
      split
      · exact h
      · split
        · split_ifs
          · exact fun _ => by simp
          · exact refreshLoop_retrying hmember
        · exact h
      · exact refreshLoop_retrying hmember

theorem after_member (initialized : Bool) (membershipIndex : Option ℕ) (actions : List Action) :
    Member (after initialized membershipIndex actions) ↔
      initialized = true ∧ membershipIndex.isSome = true := by
  induction actions using List.reverseRecOn with
  | nil => exact Iff.rfl
  | append_singleton actions a ih =>
      rw [after, run_concat]
      exact (member_step a).trans ih

theorem after_retrying {initialized : Bool} {membershipIndex : Option ℕ}
    (hinit : initialized = true) (hindex : membershipIndex.isSome = true) (actions : List Action)
    (hscheduled : .scheduleMerkleProofRefresh ∈ actions)
    (hothers : ∀ a ∈ actions, a ≠ .invalidateMerkleProofCache) :
    Retrying (after initialized membershipIndex actions) := by
  induction actions using List.reverseRecOn with
  | nil => cases hscheduled
  | append_singleton actions a ih =>
      have hmember := (after_member initialized membershipIndex actions).mpr ⟨hinit, hindex⟩
      rw [after, run_concat]
      rcases List.mem_append.mp hscheduled with hbefore | hlast
      · refine (ih hbefore (fun a' ha' => hothers a' (List.mem_append_left _ ha'))).step
          (after_sound initialized membershipIndex actions) hmember a (hothers a ?_)
        exact List.mem_append_right _ (List.mem_singleton_self a)
      · rw [← List.mem_singleton.mp hlast]
        exact schedule_retrying hmember

/-- A cached path comes from a fetch that started after the last invalidate; and a member whose
invalidates all come from `scheduleMerkleProofRefresh` has a cached path or a running loop, once
that was called. -/
theorem merkleProofCache_safe (initialized : Bool) (membershipIndex : Option ℕ)
    (actions : List Action) :
    let g := after initialized membershipIndex actions
    (g.merkleProofCache.bytes ≠ [] →
      g.merkleProofCache.since = g.merkleProofCacheGeneration) ∧
    (initialized = true → membershipIndex.isSome = true →
      (∀ a ∈ actions, a ≠ .invalidateMerkleProofCache) →
      .scheduleMerkleProofRefresh ∈ actions →
      g.merkleProofCache.bytes = [] → g.proofPathRefreshLoopFut ≠ .stopped) := by
  intro g
  refine ⟨(after_sound initialized membershipIndex actions).cache, ?_⟩
  intro hinit hindex hothers hscheduled
  exact after_retrying hinit hindex actions hscheduled hothers

/-- Whether a step calls `invalidateMerkleProofCache`. -/
def Action.invalidates : Action → Bool
  | .invalidateMerkleProofCache | .scheduleMerkleProofRefresh => true
  | _ => false

theorem step_generation (g : RlnEvmGroupManager) (a : Action) :
    (g.step a).merkleProofCacheGeneration =
      g.merkleProofCacheGeneration + if a.invalidates then 1 else 0 := by
  cases a with
  | invalidateMerkleProofCache => rfl
  | scheduleMerkleProofRefresh =>
      change g.scheduleMerkleProofRefresh.merkleProofCacheGeneration =
        g.merkleProofCacheGeneration + 1
      unfold scheduleMerkleProofRefresh
      dsimp only
      split_ifs
      · exact (refreshLoop_frame g.invalidateMerkleProofCache).2.1
      · rfl
  | ensureFreshMerkleProofPath => exact (ensureFresh_frame g).2.1
  | fetched r outcome =>
      unfold step
      dsimp only
      split
      · exact (fetched_frame g r _ _ outcome).1
      · rfl
  | memberCountUpdated r raised =>
      unfold step
      dsimp only
      split <;> rfl
  | resumeCall c =>
      unfold step
      dsimp only
      split
      · split <;> rfl
      · rfl
  | resumeLoop =>
      change (g.step .resumeLoop).merkleProofCacheGeneration = g.merkleProofCacheGeneration
      unfold step
      dsimp only
      split
      · rfl
      · split
        · split_ifs
          · rfl
          · exact (refreshLoop_frame g).2.1
        · rfl
      · exact (refreshLoop_frame g).2.1

/-- The generation is the number of invalidates. -/
theorem after_generation (initialized : Bool) (membershipIndex : Option ℕ)
    (actions : List Action) :
    (after initialized membershipIndex actions).merkleProofCacheGeneration =
      actions.countP Action.invalidates := by
  induction actions using List.reverseRecOn with
  | nil => rfl
  | append_singleton actions a ih =>
      rw [after, run_concat, step_generation, List.countP_append, List.countP_singleton]
      exact congrArg (· + _) ih

/-! ### Calls and their refetch -/

/-- Once a refetch is behind its fetches, its path is no older than the given generation, or its
attempts were used up. -/
def Serves (since : ℕ) : Refetch → Prop
  | .fetching _ _ => True
  | .updatingMemberCount path usedUp => usedUp = true ∨ since ≤ path.since
  | .finished returned usedUp =>
      usedUp = true ∨ ∀ path, returned = some path → path.bytes ≠ [] → since ≤ path.since

/-- The refetch used up its attempts, and every one was raced by an invalidate. -/
def UsedUp (g : RlnEvmGroupManager) (r : ℕ) : Prop :=
  ∃ returned, g.refetches r = some (.finished returned true)

/-- What a call gets is no older than the call, up to refetches that used up their attempts. -/
def Served (g : RlnEvmGroupManager) : Call → Prop
  | .joining since r => since ≤ g.merkleProofCacheGeneration ∧
      ∃ refetch, g.refetches r = some refetch ∧ Serves since refetch
  | .returned since refetch result => ∀ path, result = .ok path →
      since ≤ path.since ∨ ∃ r, refetch = some r ∧ g.UsedUp r

/-- How refetches go on. -/
structure Evolves (g g' : RlnEvmGroupManager) : Prop where
  generation : g.merkleProofCacheGeneration ≤ g'.merkleProofCacheGeneration
  refetch : ∀ r refetch, g.refetches r = some refetch → ∃ refetch',
    g'.refetches r = some refetch' ∧
    (∀ since, since ≤ g.merkleProofCacheGeneration → Serves since refetch →
      Serves since refetch') ∧
    (refetch.isFinished = true → refetch' = refetch)

theorem Evolves.of_eq (hgeneration : g.merkleProofCacheGeneration ≤ g'.merkleProofCacheGeneration)
    (hrefetches : g'.refetches = g.refetches) : Evolves g g' where
  generation := hgeneration
  refetch r refetch hr := ⟨refetch, by rw [hrefetches, hr], fun _ _ h => h, fun _ => rfl⟩

theorem Evolves.served (h : Evolves g g') (hcall : g.Served call) : g'.Served call := by
  cases call with
  | joining since r =>
      obtain ⟨hsince, refetch, hr, hserves⟩ := hcall
      obtain ⟨refetch', hr', hkept, -⟩ := h.refetch r refetch hr
      exact ⟨hsince.trans h.generation, refetch', hr', hkept since hsince hserves⟩
  | returned since refetch result =>
      intro path hpath
      refine (hcall path hpath).imp_right ?_
      rintro ⟨r, heq, returned, hr⟩
      obtain ⟨refetch', hr', -, hkept⟩ := h.refetch r _ hr
      rw [hkept rfl] at hr'
      exact ⟨r, heq, returned, hr'⟩

/-- One refetch goes on. -/
theorem Evolves.setRefetch {old : Refetch} (hr : g.refetches r = some old) (refetch : Refetch)
    (hunfinished : old.isFinished = false)
    (hserves : ∀ since, since ≤ g.merkleProofCacheGeneration → Serves since old →
      Serves since refetch) : Evolves g (g.setRefetch r refetch) where
  generation := le_rfl
  refetch r' refetch' hr' := by
    by_cases hne : r' = r
    · subst hne
      rw [hr, Option.some.injEq] at hr'
      subst hr'
      refine ⟨refetch, Function.update_self .., hserves, fun hfinished => ?_⟩
      rw [hunfinished] at hfinished
      cases hfinished
    · exact ⟨refetch', (Function.update_of_ne hne _ _).trans hr', fun _ _ h => h, fun _ => rfl⟩

theorem Evolves.doRefresh (h : Sound g) : Evolves g g.doRefresh where
  generation := le_rfl
  refetch r refetch hr := by
    have hne : r ≠ g.refetchCount := by
      rintro rfl
      rw [h.refetchCount _ le_rfl] at hr
      cases hr
    exact ⟨refetch, (Function.update_of_ne hne _ _).trans hr, fun _ _ h => h, fun _ => rfl⟩

/-- A refetch with a path that no invalidate raced serves every call so far. -/
theorem Evolves.fetched (hr : g.refetches r = some (.fetching attempt generation))
    (outcome : FetchOutcome) : Evolves g (g.fetched r attempt generation outcome) := by
  cases outcome with
  | ok bytes =>
      unfold RlnEvmGroupManager.fetched RlnEvmGroupManager.afterFetches
      dsimp only
      split_ifs with hgeneration _ _ _
      · subst hgeneration
        have hstep := Evolves.setRefetch hr (.updatingMemberCount
          ⟨bytes, g.merkleProofCacheGeneration⟩ false) rfl (fun _ hle _ => Or.inr hle)
        exact ⟨hstep.generation, hstep.refetch⟩
      · subst hgeneration
        have hstep := Evolves.setRefetch hr (.finished
          (some ⟨bytes, g.merkleProofCacheGeneration⟩) false) rfl (fun _ hle _ => Or.inr ?_)
        · exact ⟨hstep.generation, hstep.refetch⟩
        · intro path hpath _
          rw [← Option.some.inj hpath]
          exact hle
      · exact Evolves.setRefetch hr _ rfl (fun _ _ _ => trivial)
      · exact Evolves.setRefetch hr _ rfl (fun _ _ _ => Or.inl rfl)
      · exact Evolves.setRefetch hr _ rfl (fun _ _ _ => Or.inl rfl)
  | err =>
      refine Evolves.setRefetch hr _ rfl (fun _ _ _ => Or.inr (fun path hpath hne => ?_))
      rw [← Option.some.inj hpath] at hne
      exact absurd rfl hne
  | raised => exact Evolves.setRefetch hr _ rfl (fun _ _ _ => Or.inr (by simp))

/-! ### What calls return -/

def AllServed (g : RlnEvmGroupManager) : Prop := ∀ c call, g.calls c = some call → g.Served call

theorem AllServed.evolves (h : AllServed g) (hstep : Evolves g g') (hcalls : g'.calls = g.calls) :
    AllServed g' := by
  intro c call hc
  rw [hcalls] at hc
  exact hstep.served (h c call hc)

theorem AllServed.setCall (h : AllServed g) (hcall : g.Served call) (c : ℕ) :
    AllServed (g.setCall c call) := by
  intro c' call' hc'
  have hsame : Evolves g (g.setCall c call) := Evolves.of_eq le_rfl rfl
  rcases mem_table_set hc' with ⟨-, rfl⟩ | ⟨-, hold⟩
  · exact hsame.served hcall
  · exact hsame.served (h c' call' hold)

theorem AllServed.addCall (h : AllServed g) (hcall : g.Served call) : AllServed (g.addCall call) :=
  (h.setCall hcall g.callCount).evolves (Evolves.of_eq le_rfl rfl) rfl

/-- A call does not find the cache empty while the refetch in flight, with a path that passed its
generation check, is still updating the member count. -/
def JoinsInTime (g : RlnEvmGroupManager) : Prop :=
  g.merkleProofCache.bytes = [] → ∀ r path, g.proofPathRefreshInFlightFut = some r →
    g.refetches r ≠ some (.updatingMemberCount path false)

theorem served_of_unfinished (hjoins : g.JoinsInTime) (hempty : g.merkleProofCache.bytes = [])
    (hr : g.unfinishedRefetch = some r) : g.Served (.joining g.merkleProofCacheGeneration r) := by
  obtain ⟨hflight, hany⟩ := Option.filter_eq_some_iff.mp hr
  obtain ⟨refetch, hrefetch, hunfinished⟩ := (Option.any_eq_true _ _).mp hany
  refine ⟨le_rfl, refetch, hrefetch, ?_⟩
  cases refetch with
  | fetching attempt generation => trivial
  | updatingMemberCount path usedUp =>
      cases usedUp with
      | true => exact Or.inl rfl
      | false => exact absurd hrefetch (hjoins hempty r path hflight)
  | finished returned usedUp => cases hunfinished

theorem AllServed.ensureFresh (h : AllServed g) (hsound : Sound g) (hjoins : g.JoinsInTime) :
    AllServed g.ensureFreshMerkleProofPath := by
  unfold ensureFreshMerkleProofPath
  dsimp only
  split_ifs with hindex hcached
  · refine h.addCall (fun path hpath => ?_)
    cases hpath
  · refine h.addCall (fun path hpath => Or.inl ?_)
    cases hpath
    exact (hsound.cache (List.ne_nil_of_length_pos hcached)).ge
  · have hempty := bytes_eq_nil hcached
    split
    · rename_i r hr
      exact h.addCall (served_of_unfinished hjoins hempty hr)
    · have hrefresh := h.evolves (Evolves.doRefresh hsound) rfl
      exact hrefresh.addCall ⟨le_rfl, _, Function.update_self .., trivial⟩

theorem AllServed.setLoop (h : AllServed g) (loop : RefreshLoop) :
    AllServed { g with proofPathRefreshLoopFut := loop } :=
  h.evolves (Evolves.of_eq le_rfl rfl) rfl

theorem AllServed.refreshLoop (h : AllServed g) (hsound : Sound g)
    (hjoins : g.initialized = true → g.JoinsInTime) : AllServed g.refreshLoop := by
  unfold RlnEvmGroupManager.refreshLoop
  split_ifs with hcond
  · simp only [Bool.and_eq_true] at hcond
    exact (h.ensureFresh hsound (hjoins hcond.1.1)).setLoop _
  · exact h.setLoop _

theorem AllServed.invalidate (h : AllServed g) : AllServed g.invalidateMerkleProofCache :=
  h.evolves (Evolves.of_eq (Nat.le_succ _) rfl) rfl

theorem AllServed.resumeCall (h : AllServed g) {returned : Option Path} {usedUp : Bool}
    (hc : g.calls c = some (.joining since r))
    (hr : g.refetches r = some (.finished returned usedUp)) :
    AllServed (g.setCall c (.returned since (some r) (resultOf returned))) := by
  refine h.setCall (fun path hpath => ?_) c
  obtain ⟨-, refetch, hrefetch, hserves⟩ := h c _ hc
  rw [hr, Option.some.injEq] at hrefetch
  subst hrefetch
  cases returned with
  | none => cases hpath
  | some path' =>
      unfold resultOf at hpath
      dsimp only at hpath
      split_ifs at hpath with hempty
      cases hpath
      rcases hserves with rfl | hfresh
      · exact Or.inr ⟨r, rfl, some path, hr⟩
      · exact Or.inl (hfresh path rfl (fun hnil => hempty (List.length_eq_zero_iff.mpr hnil)))

theorem fetched_calls (g : RlnEvmGroupManager) (r attempt generation : ℕ)
    (outcome : FetchOutcome) : (g.fetched r attempt generation outcome).calls = g.calls := by
  unfold fetched afterFetches
  cases outcome with
  | ok bytes =>
      dsimp only
      split_ifs <;> rfl
  | err => rfl
  | raised => rfl

/-- The condition on a step, in the state before it: the calls of `ensureFreshMerkleProofPath` that
it makes, from outside or in the refresh loop, come in time. -/
def Meets (g : RlnEvmGroupManager) : Action → Prop
  | .ensureFreshMerkleProofPath => g.JoinsInTime
  | .scheduleMerkleProofRefresh => g.proofPathRefreshLoopFut = .stopped → g.initialized = true →
      g.invalidateMerkleProofCache.JoinsInTime
  | .resumeLoop => g.proofPathRefreshLoopFut = .sleeping → g.initialized = true → g.JoinsInTime
  | _ => True

theorem AllServed.step (h : AllServed g) (hsound : Sound g) (a : Action) (ha : g.Meets a) :
    AllServed (g.step a) := by
  cases a with
  | invalidateMerkleProofCache => exact h.invalidate
  | scheduleMerkleProofRefresh =>
      unfold RlnEvmGroupManager.step scheduleMerkleProofRefresh
      dsimp only
      split_ifs with hstopped
      · exact h.invalidate.refreshLoop hsound.invalidate (ha hstopped)
      · exact h.invalidate
  | ensureFreshMerkleProofPath => exact h.ensureFresh hsound ha
  | fetched r outcome =>
      unfold RlnEvmGroupManager.step
      dsimp only
      split
      · rename_i hr
        exact h.evolves (Evolves.fetched hr outcome) (fetched_calls ..)
      · exact h
  | memberCountUpdated r raised =>
      unfold RlnEvmGroupManager.step
      dsimp only
      split
      · rename_i path usedUp hr
        refine h.evolves (Evolves.setRefetch hr _ rfl (fun since _ hserves => ?_)) rfl
        refine hserves.imp_right (fun hfresh path' hpath _ => ?_)
        split_ifs at hpath
        rw [← Option.some.inj hpath]
        exact hfresh
      · exact h
  | resumeCall c =>
      unfold RlnEvmGroupManager.step
      dsimp only
      split
      · rename_i hc
        split
        · rename_i hr
          exact h.resumeCall hc hr
        · exact h
      · exact h
  | resumeLoop =>
      unfold RlnEvmGroupManager.step
      dsimp only
      split
      · exact h
      · split
        · split_ifs with hempty
          · exact h.setLoop _
          · -- the loop leaves without another call
            refine h.refreshLoop hsound (fun _ hnil => ?_)
            exact absurd (List.length_eq_zero_iff.mpr hnil) hempty
        · exact h
      · rename_i hsleeping
        exact h.refreshLoop hsound (ha hsleeping)

theorem after_served (initialized : Bool) (membershipIndex : Option ℕ) (actions : List Action)
    (h : AllSteps (fun pre a => (after initialized membershipIndex pre).Meets a) actions) :
    AllServed (after initialized membershipIndex actions) := by
  refine run_induction (P := fun actions => AllServed (after initialized membershipIndex actions))
    ?_ ?_ actions h
  · intro c call hc
    cases hc
  · intro pre a ha hpre
    rw [after, run_concat]
    exact hpre.step (after_sound initialized membershipIndex pre) a ha

/-- In a run whose calls all come in time, the path that a call returns was fetched after the
invalidates before the call, or the refetch of the call used up its attempts. -/
theorem returned_path_fresh (initialized : Bool) (membershipIndex : Option ℕ)
    (actions : List Action)
    (h : AllSteps (fun pre a => (after initialized membershipIndex pre).Meets a) actions)
    (c since : ℕ) (refetch : Option ℕ) (path : Path)
    (hc : (after initialized membershipIndex actions).calls c =
      some (.returned since refetch (.ok path))) :
    since ≤ path.since ∨
      ∃ r, refetch = some r ∧ (after initialized membershipIndex actions).UsedUp r :=
  after_served initialized membershipIndex actions h c _ hc path rfl

/-- The call comes after the invalidate, and its refetch was started after it too. -/
theorem returned_path_afterInvalidate :
    let g := after true (some 0) [.invalidateMerkleProofCache, .ensureFreshMerkleProofPath,
      .fetched 0 (.ok [7]), .memberCountUpdated 0 false, .resumeCall 0]
    g.calls 0 = some (.returned 1 (some 0) (.ok ⟨[7], 1⟩)) ∧
      (1 ≤ 1 ∨ ∃ r, some 0 = some r ∧ g.UsedUp r) := by
  have hcall : (after true (some 0) [.invalidateMerkleProofCache, .ensureFreshMerkleProofPath,
      .fetched 0 (.ok [7]), .memberCountUpdated 0 false, .resumeCall 0]).calls 0 =
      some (.returned 1 (some 0) (.ok ⟨[7], 1⟩)) := rfl
  refine ⟨hcall, returned_path_fresh true (some 0) _ (allSteps_of_get (fun i => ?_)) 0 1 (some 0)
    ⟨[7], 1⟩ hcall⟩
  fin_cases i
  · trivial
  · intro _ r path hr
    cases hr
  · trivial
  · trivial
  · trivial

/-- The invalidate comes while the refetch updates the member count.  The call after it joins the
refetch, which returns the path that was fetched before the invalidate, at its first attempt. -/
theorem returned_path_not_fresh :
    let g := after true (some 0) [.ensureFreshMerkleProofPath, .fetched 0 (.ok [7]),
      .invalidateMerkleProofCache, .ensureFreshMerkleProofPath, .memberCountUpdated 0 false,
      .resumeCall 1]
    g.calls 1 = some (.returned 1 (some 0) (.ok ⟨[7], 0⟩)) ∧ ¬ g.UsedUp 0 := by
  refine ⟨rfl, ?_⟩
  rintro ⟨returned, hr⟩
  have hfinished : some (Refetch.finished (some ⟨[7], 0⟩) false) =
      some (Refetch.finished returned true) := hr
  simp at hfinished

end RlnEvmGroupManager

end LogosDelivery.Rln.MerkleProof
