import LogosDelivery.Archive.PgPoolAccounts

/-! # Every run of the connection pool

Every action keeps the accounts of the pool, so they hold in every state of every run (`pool_after`).
They also say when a `close` closes no connection that a query uses: a `close` that does not have to
wait never does, and one that waited does not where the connections that were acquired during its
wait are released again (`closesUnused_iff_releasedAgain`). -/

namespace LogosDelivery.Archive.Pool

open Lib PgAsyncPool

namespace PoolSystem

variable {s : PoolSystem}

/-- The accounts of a pool with its calls. -/
def Sound (s : PoolSystem) : Prop := Accounts s.pool s.queries s.cancels

theorem initial_sound (maxConnections : ℕ) (hasSessionSettings : Bool) :
    (initial maxConnections hasSessionSettings).Sound where
  futures := {
    made := fun c fut h => by cases h
    inj := fun c c' fut h => by cases h
    unmade := fun fut h => rfl }
  capacity := by simp [initial]
  slots := rfl
  nodup := List.nodup_nil
  conns_opened c hc := by cases hc
  owned_opened i phase c hi := by cases hi
  exclusive i j phase phase' c hi := by cases hi
  setup_out i generation c hi := by cases hi
  held_busy i c hi := by cases hi
  held_in i c hi := by cases hi
  busy_held c hc := by cases hc
  accounted c hc := by cases hc

/-! ### Closing -/

theorem foldl_closeDbConn_eq (conns : List ℕ) (pool : PgAsyncPool) :
    conns.foldl closeDbConn pool =
      { pool with wrappers := (conns.foldl closeDbConn pool).wrappers } := by
  induction conns generalizing pool with
  | nil => rfl
  | cons c conns ih =>
      rw [List.foldl_cons, ih]
      rfl

theorem foldl_closeDbConn_futBecomeFree (conns : List ℕ) (pool : PgAsyncPool) (c : ℕ) :
    ((conns.foldl closeDbConn pool).wrappers c).futBecomeFree =
      (pool.wrappers c).futBecomeFree := by
  induction conns generalizing pool with
  | nil => rfl
  | cons c' conns ih => rw [List.foldl_cons, ih, closeDbConn_futBecomeFree]

theorem foldl_closeDbConn_isOpen (conns : List ℕ) (pool : PgAsyncPool) (c : ℕ)
    (h : c ∈ conns ∨ (pool.wrappers c).isOpen = false) :
    ((conns.foldl closeDbConn pool).wrappers c).isOpen = false := by
  induction conns generalizing pool with
  | nil =>
      rcases h with hc | hclosed
      · cases hc
      · exact hclosed
  | cons c' conns ih =>
      rw [List.foldl_cons]
      apply ih
      rcases h with hc | hclosed
      · rcases List.mem_cons.mp hc with rfl | hc
        · exact Or.inr closeDbConn_isOpen_self
        · exact Or.inl hc
      · exact Or.inr (closeDbConn_isOpen hclosed)

theorem closeAll_sound {pool : PgAsyncPool} {queries : List QueryPhase} {cancels : List CancelPhase}
    (h : Accounts pool queries cancels) : Accounts pool.closeAll queries cancels := by
  refine h.shrink ?_ ?_ (List.nil_sublist _) ?_ ?_
  · intro c
    exact foldl_closeDbConn_futBecomeFree pool.conns pool c
  · intro c hclosed
    exact foldl_closeDbConn_isOpen pool.conns pool c (Or.inr hclosed)
  · intro c hc
    exact Or.inr (foldl_closeDbConn_isOpen pool.conns pool c (Or.inl hc))
  · unfold closeAll
    rw [foldl_closeDbConn_eq]
    exact ⟨rfl, rfl, rfl, rfl, rfl⟩

theorem closeAfter_sound {pool : PgAsyncPool} {queries : List QueryPhase}
    {cancels : List CancelPhase} (h : Accounts pool queries cancels) (futs : List ℕ) :
    Accounts (closeAfter pool futs).1 queries cancels := by
  unfold closeAfter
  split_ifs
  · exact closeAll_sound h
  · exact h

/-! ### One action -/

theorem resumeCancelBackend_sound (h : s.Sound) {i : ℕ} {phase : CancelPhase} (ok : Bool)
    (hi : s.cancels[i]? = some phase) :
    Accounts (resumeCancelBackend s.pool ok phase).1 s.queries
      (s.cancels.set i (resumeCancelBackend s.pool ok phase).2) := by
  -- another call keeps its connection
  have hother : ∀ {phase' : CancelPhase} (j c : ℕ), j ≠ i →
      s.cancels[j]? = some (CancelPhase.querying c) →
      ∃ k : ℕ, (s.cancels.set i phase')[k]? = some (CancelPhase.querying c) := by
    intro phase' j c hji hj
    exact ⟨j, by rw [List.getElem?_set_ne (fun heq => hji heq.symm)]; exact hj⟩
  have hidle : ∀ {phase' : CancelPhase}, phase.conn = none →
      Accounts s.pool s.queries (s.cancels.set i phase') := by
    intro phase' hnone
    refine h.recancel (fun j c hj => Or.inr (hother j c ?_ hj))
    rintro rfl
    rw [hi, Option.some.injEq] at hj
    rw [hj] at hnone
    cases hnone
  cases phase with
  | resolving => exact hidle rfl
  | connecting =>
      cases ok
      · exact hidle rfl
      · exact h.cancel_opened hi
  | querying c =>
      have hclosed : Accounts (s.pool.closeDbConn c) s.queries s.cancels :=
        h.shrink (fun _ => closeDbConn_futBecomeFree) (fun _ => closeDbConn_isOpen)
          (List.Sublist.refl _) (fun _ hc => Or.inl hc) ⟨rfl, rfl, rfl, rfl, rfl⟩
      refine hclosed.recancel (fun j c' hj => ?_)
      by_cases hji : j = i
      · rw [hji, hi, Option.some.injEq] at hj
        cases hj
        exact Or.inl closeDbConn_isOpen_self
      · exact Or.inr (hother j c' hji hj)
  | finished => exact hidle rfl

theorem step_resumeQuery {i : ℕ} {phase : QueryPhase} (event : QueryEvent)
    (hi : s.queries[i]? = some phase) :
    s.step (.resumeQuery i event) =
      { s with
        pool := (s.pool.resume phase event).1
        queries := s.queries.set i (s.pool.resume phase event).2
        cancels := s.cancels ++ s.spawned phase event } := by
  simp only [step, hi]

theorem step_resumeCancel {i : ℕ} {phase : CancelPhase} (ok : Bool)
    (hi : s.cancels[i]? = some phase) :
    s.step (.resumeCancel i ok) =
      { s with
        pool := (resumeCancelBackend s.pool ok phase).1
        cancels := s.cancels.set i (resumeCancelBackend s.pool ok phase).2 } := by
  simp only [step, hi]

/-- Every action keeps the accounts. -/
theorem Sound.step (h : s.Sound) (a : PoolAction) : (s.step a).Sound := by
  cases a with
  | query =>
      have hget : (s.queries ++ [QueryPhase.starting])[s.queries.length]? =
          some QueryPhase.starting := by simp
      have hmoves := h.start.moves hget (.single (acquireConn_move rfl))
      have hset : (s.queries ++ [QueryPhase.starting]).set s.queries.length s.pool.acquireConn.2 =
          s.queries ++ [s.pool.acquireConn.2] := by simp
      rw [hset] at hmoves
      exact hmoves
  | resumeQuery i event =>
      cases hi : s.queries[i]? with
      | none =>
          simp only [PoolSystem.step, hi]
          exact h
      | some phase =>
          rw [step_resumeQuery event hi]
          refine (h.moves hi (resume_moves s.pool phase event)).recancel (fun j c hj => ?_)
          obtain ⟨hlt, -⟩ := List.getElem?_eq_some_iff.mp hj
          exact Or.inr ⟨j, by rw [List.getElem?_append_left hlt]; exact hj⟩
  | close =>
      have hgen : Accounts { s.pool with generation := s.pool.generation + 1 } s.queries s.cancels :=
        h.shrink (fun _ => rfl) (fun _ hc => hc) (List.Sublist.refl _) (fun _ hc => Or.inl hc)
          ⟨rfl, rfl, rfl, rfl, rfl⟩
      exact closeAfter_sound hgen _
  | resumeClose i =>
      simp only [PoolSystem.step]
      split
      · exact closeAfter_sound h _
      · exact h
  | cancelClose i =>
      simp only [PoolSystem.step]
      split
      · exact h
      · exact h
  | resumeCancel i ok =>
      cases hi : s.cancels[i]? with
      | none =>
          simp only [PoolSystem.step, hi]
          exact h
      | some phase =>
          rw [step_resumeCancel ok hi]
          exact resumeCancelBackend_sound h ok hi

/-! ### Connections in use -/

/-- A connection of the list is held exactly while its future is not complete. -/
theorem Sound.held_iff (h : s.Sound) {c : ℕ} (hc : c ∈ s.pool.conns) :
    (∃ i : ℕ, s.queries[i]? = some (QueryPhase.holding c)) ↔
      ∃ fut, (s.pool.wrappers c).futBecomeFree = some fut ∧ s.pool.finished fut = false := by
  rw [← isPgDbConnBusy_iff]
  constructor
  · rintro ⟨i, hi⟩
    exact h.held_busy i c hi
  · exact h.busy_held c hc

/-- The connections of the list are all free where their futures are complete, the ones that are
listed and the others. -/
theorem Sound.unused_iff (h : s.Sound) {futs : List ℕ} (hfuts : futs.all s.pool.finished = true) :
    (∀ c ∈ s.pool.conns, ∀ i : ℕ, s.queries[i]? ≠ some (QueryPhase.holding c)) ↔
      ∀ c ∈ s.pool.conns, ∀ fut, (s.pool.wrappers c).futBecomeFree = some fut →
        fut ∉ futs → s.pool.finished fut = true := by
  constructor
  · intro hunused c hc fut hfut _
    by_contra hopen
    obtain ⟨i, hi⟩ := (h.held_iff hc).mpr ⟨fut, hfut, by simpa using hopen⟩
    exact hunused c hc i hi
  · intro hreleased c hc i hi
    obtain ⟨fut, hfut, hopen⟩ := (h.held_iff hc).mp ⟨i, hi⟩
    have hfinished : s.pool.finished fut = true := by
      by_cases hmem : fut ∈ futs
      · exact List.all_eq_true.mp hfuts fut hmem
      · exact hreleased c hc fut hfut hmem
    rw [hopen] at hfinished
    cases hfinished

/-- An action closes no connection that a query holds exactly where it is not a `close` that waited,
or where the connections acquired during the wait are released again. -/
theorem Sound.closesUnused_iff (h : s.Sound) (a : PoolAction) :
    s.ClosesUnused a ↔ s.ReleasedAgain a := by
  cases a with
  | close =>
      refine ⟨fun _ => trivial, fun _ => ?_⟩
      unfold ClosesUnused closedBy
      split_ifs with hall
      · refine (h.unused_iff hall).mpr (fun c hc fut hfut hnot => absurd ?_ hnot)
        exact List.mem_filterMap.mpr ⟨c, hc, hfut⟩
      · intro c hc
        cases hc
  | resumeClose i =>
      simp only [ClosesUnused, ReleasedAgain, closedBy]
      split
      · split_ifs with hall
        · exact (h.unused_iff hall).trans ⟨fun hr _ => hr, fun hr => hr hall⟩
        · exact ⟨fun _ hall' => absurd hall' hall, fun _ c hc => by cases hc⟩
      · exact ⟨fun _ => trivial, fun _ c hc => by cases hc⟩
  | query => exact ⟨fun _ => trivial, fun _ c hc => by cases hc⟩
  | resumeQuery i event => exact ⟨fun _ => trivial, fun _ c hc => by cases hc⟩
  | cancelClose i => exact ⟨fun _ => trivial, fun _ c hc => by cases hc⟩
  | resumeCancel i ok => exact ⟨fun _ => trivial, fun _ c hc => by cases hc⟩

/-! ### The limit -/

theorem closeAfter_maxConnections (pool : PgAsyncPool) (futs : List ℕ) :
    (closeAfter pool futs).1.maxConnections = pool.maxConnections := by
  unfold closeAfter closeAll
  split_ifs
  · rw [foldl_closeDbConn_eq]
  · rfl

theorem step_maxConnections (a : PoolAction) :
    (s.step a).pool.maxConnections = s.pool.maxConnections := by
  cases a with
  | query =>
      have hmove : Move (s.pool, .starting) s.pool.acquireConn := acquireConn_move rfl
      exact hmove.maxConnections
  | resumeQuery i event =>
      cases hi : s.queries[i]? with
      | none => simp only [step, hi]
      | some phase =>
          rw [step_resumeQuery event hi]
          exact moves_maxConnections (resume_moves s.pool phase event)
  | close => exact closeAfter_maxConnections _ _
  | resumeClose i =>
      simp only [step]
      split
      · exact closeAfter_maxConnections _ _
      · rfl
  | cancelClose i =>
      simp only [step]
      split
      · rfl
      · rfl
  | resumeCancel i ok =>
      cases hi : s.cancels[i]? with
      | none => simp only [step, hi]
      | some phase =>
          rw [step_resumeCancel ok hi]
          cases phase <;> cases ok <;> rfl

end PoolSystem

/-! ### Every run -/

section Runs

open PoolSystem

variable (maxConnections : ℕ) (hasSessionSettings : Bool)

/-- The pool after any sequence of actions. -/
def after (actions : List PoolAction) : PoolSystem :=
  run PoolSystem.step (initial maxConnections hasSessionSettings) actions

theorem after_sound (actions : List PoolAction) :
    (after maxConnections hasSessionSettings actions).Sound := by
  induction actions using List.reverseRecOn with
  | nil => exact initial_sound maxConnections hasSessionSettings
  | append_singleton actions a ih =>
      rw [after, run_concat]
      exact ih.step a

theorem after_maxConnections (actions : List PoolAction) :
    (after maxConnections hasSessionSettings actions).pool.maxConnections = maxConnections := by
  induction actions using List.reverseRecOn with
  | nil => rfl
  | append_singleton actions a ih =>
      rw [after, run_concat, step_maxConnections]
      exact ih

/-- In every state of every run the connections and the reserved slots keep the limit, the slots are
those of the queries that connect, no connection is held by two queries, a connection that nobody
has in hand is in the list or closed, and one in the list that no query holds is not busy. -/
theorem pool_after (actions : List PoolAction) :
    let s := after maxConnections hasSessionSettings actions
    s.pool.conns.length + s.pool.numConnecting ≤ maxConnections ∧
    s.pool.numConnecting = s.queries.countP QueryPhase.isConnecting ∧
    (∀ i j c : ℕ, s.queries[i]? = some (QueryPhase.holding c) →
      s.queries[j]? = some (QueryPhase.holding c) → i = j) ∧
    (∀ c < s.pool.opened, ¬ InHand s.queries s.cancels c →
      c ∈ s.pool.conns ∨ (s.pool.wrappers c).isOpen = false) ∧
    (∀ c ∈ s.pool.conns, (∀ i : ℕ, s.queries[i]? ≠ some (QueryPhase.holding c)) →
      s.pool.isPgDbConnBusy c = false) := by
  intro s
  have hs : s.Sound := after_sound maxConnections hasSessionSettings actions
  have hmax : s.pool.maxConnections = maxConnections :=
    after_maxConnections maxConnections hasSessionSettings actions
  refine ⟨?_, hs.slots, ?_, ?_, ?_⟩
  · rw [← hmax]
    exact hs.capacity
  · intro i j c hi hj
    exact hs.exclusive i j _ _ c hi hj rfl rfl
  · intro c hc hfree
    rcases hs.accounted c hc with hin | hclosed | hhand
    · exact Or.inl hin
    · exact Or.inr hclosed
    · exact absurd hhand hfree
  · intro c hc hunheld
    by_contra hbusy
    obtain ⟨i, hi⟩ := hs.busy_held c hc (by simpa using hbusy)
    exact hunheld i hi

/-- In a run no `close` closes a connection that a query uses exactly where each `close` that waited
finds the connections released again that were acquired during its wait. -/
theorem closesUnused_iff_releasedAgain (actions : List PoolAction) :
    AllSteps (fun pre a => (after maxConnections hasSessionSettings pre).ClosesUnused a) actions ↔
      AllSteps (fun pre a => (after maxConnections hasSessionSettings pre).ReleasedAgain a)
        actions := by
  have hiff : ∀ pre a, (after maxConnections hasSessionSettings pre).ClosesUnused a ↔
      (after maxConnections hasSessionSettings pre).ReleasedAgain a :=
    fun pre a => (after_sound maxConnections hasSessionSettings pre).closesUnused_iff a
  constructor
  · intro h pre a hpre
    exact (hiff pre a).mp (h pre a hpre)
  · intro h pre a hpre
    exact (hiff pre a).mpr (h pre a hpre)

end Runs

/-- A connection in order. -/
def usableStatus : LibpqStatus := ⟨true, false, 0⟩

/-- Two queries have the two connections of the pool and a third one waits when `close` is called;
the first releases its connection, the third takes it, and the second releases its own. -/
def takenDuringClose : List PoolAction :=
  [.query, .resumeQuery 0 .resolved, .resumeQuery 0 .connected,
    .query, .resumeQuery 1 .resolved, .resumeQuery 1 .connected,
    .query, .close, .resumeQuery 0 (.finished usableStatus), .resumeQuery 2 .woken,
    .resumeQuery 1 (.finished usableStatus)]

/-- The `close` then closes the connection that the third query holds. -/
theorem close_closes_held_connection :
    ¬ AllSteps (fun pre a => (after 2 false pre).ClosesUnused a)
      (takenDuringClose ++ [.resumeClose 0]) := by
  intro h
  have hclosed : 0 ∈ (after 2 false takenDuringClose).closedBy (.resumeClose 0) := by
    decide +kernel
  have hheld : (after 2 false takenDuringClose).queries[2]? = some (.holding 0) := by
    decide +kernel
  exact h.last 0 hclosed 2 hheld

end LogosDelivery.Archive.Pool
