import LogosDelivery.Archive.PgAsyncPool

/-! # The accounts of the connection pool

What a query does between two awaits is one or two of nine moves (`Move`), each of which changes the
pool and the phase of that query only.  The moves keep the accounts of the pool (`Accounts`): a slot
is reserved for every query that connects, a connection in the list is busy while and only while a
query holds it, and a connection that nobody has in hand is in the list or closed. -/

namespace LogosDelivery.Archive.Pool

open Lib

/-! ### Busy connections -/

namespace PgAsyncPool

variable {pool : PgAsyncPool} {c c' : ℕ}

theorem isPgDbConnBusy_iff :
    pool.isPgDbConnBusy c = true ↔
      ∃ fut, (pool.wrappers c).futBecomeFree = some fut ∧ pool.finished fut = false := by
  unfold isPgDbConnBusy
  cases (pool.wrappers c).futBecomeFree <;> simp

/-- The futures of a pool: a connection has one that was made, connections have different ones, and
what is not made is not complete. -/
structure Futures (pool : PgAsyncPool) : Prop where
  made : ∀ c fut, (pool.wrappers c).futBecomeFree = some fut → fut < pool.futures
  inj : ∀ c c' fut, (pool.wrappers c).futBecomeFree = some fut →
    (pool.wrappers c').futBecomeFree = some fut → c = c'
  unmade : ∀ fut, pool.futures ≤ fut → pool.finished fut = false

theorem Futures.congr {pool' : PgAsyncPool} (h : Futures pool)
    (hfut : ∀ c, (pool'.wrappers c).futBecomeFree = (pool.wrappers c).futBecomeFree)
    (hfutures : pool'.futures = pool.futures) (hfinished : pool'.finished = pool.finished) :
    Futures pool' where
  made c fut hc := by
    rw [hfut] at hc
    rw [hfutures]
    exact h.made c fut hc
  inj a b fut ha hb := by
    rw [hfut] at ha hb
    exact h.inj a b fut ha hb
  unmade fut hle := by
    rw [hfutures] at hle
    rw [hfinished]
    exact h.unmade fut hle

theorem markBusy_wrappers_of_ne (h : c' ≠ c) : (pool.markBusy c).wrappers c' = pool.wrappers c' :=
  Function.update_of_ne h _ _

theorem markBusy_wrappers_self : (pool.markBusy c).wrappers c =
    { pool.wrappers c with futBecomeFree := some pool.futures } :=
  Function.update_self _ _ _

theorem isPgDbConnBusy_markBusy_of_ne (h : c' ≠ c) :
    (pool.markBusy c).isPgDbConnBusy c' = pool.isPgDbConnBusy c' := by
  unfold isPgDbConnBusy
  rw [markBusy_wrappers_of_ne h]
  rfl

theorem Futures.isPgDbConnBusy_markBusy_self (h : Futures pool) :
    (pool.markBusy c).isPgDbConnBusy c = true := by
  rw [isPgDbConnBusy_iff]
  refine ⟨pool.futures, ?_, h.unmade _ (le_refl _)⟩
  rw [markBusy_wrappers_self]

theorem Futures.markBusy (h : Futures pool) : Futures (pool.markBusy c) where
  made c' fut hfut := by
    by_cases hc : c' = c
    · rw [hc, markBusy_wrappers_self] at hfut
      exact Option.some.inj hfut ▸ Nat.lt_succ_self _
    · rw [markBusy_wrappers_of_ne hc] at hfut
      exact Nat.lt_succ_of_lt (h.made c' fut hfut)
  inj a b fut ha hb := by
    by_cases hac : a = c <;> by_cases hbc : b = c
    · rw [hac, hbc]
    · -- the new future is not one that was made before
      rw [hac, markBusy_wrappers_self] at ha
      rw [markBusy_wrappers_of_ne hbc, ← Option.some.inj ha] at hb
      exact absurd (h.made b _ hb) (lt_irrefl _)
    · rw [hbc, markBusy_wrappers_self] at hb
      rw [markBusy_wrappers_of_ne hac, ← Option.some.inj hb] at ha
      exact absurd (h.made a _ ha) (lt_irrefl _)
    · rw [markBusy_wrappers_of_ne hac] at ha
      rw [markBusy_wrappers_of_ne hbc] at hb
      exact h.inj a b fut ha hb
  unmade fut hfut := h.unmade fut (Nat.le_of_succ_le hfut)

@[simp] theorem closeDbConn_futBecomeFree :
    ((pool.closeDbConn c).wrappers c').futBecomeFree = (pool.wrappers c').futBecomeFree := by
  unfold closeDbConn setWrapper
  by_cases h : c' = c
  · rw [h]
    simp
  · simp [Function.update_of_ne h]

@[simp] theorem isPgDbConnBusy_closeDbConn :
    (pool.closeDbConn c).isPgDbConnBusy c' = pool.isPgDbConnBusy c' := by
  unfold isPgDbConnBusy
  rw [closeDbConn_futBecomeFree]
  rfl

theorem closeDbConn_isOpen_self : ((pool.closeDbConn c).wrappers c).isOpen = false := by
  simp [closeDbConn, setWrapper]

theorem closeDbConn_isOpen (h : (pool.wrappers c').isOpen = false) :
    ((pool.closeDbConn c).wrappers c').isOpen = false := by
  by_cases hc : c' = c
  · rw [hc]
    exact closeDbConn_isOpen_self
  · unfold closeDbConn setWrapper
    simp only [Function.update_of_ne hc]
    exact h

theorem newConn_wrappers_of_ne (h : c ≠ pool.opened) : pool.newConn.wrappers c = pool.wrappers c :=
  Function.update_of_ne h _ _

theorem newConn_wrappers_self : pool.newConn.wrappers pool.opened = { isOpen := true } :=
  Function.update_self _ _ _

theorem isPgDbConnBusy_newConn_of_ne (h : c ≠ pool.opened) :
    pool.newConn.isPgDbConnBusy c = pool.isPgDbConnBusy c := by
  unfold isPgDbConnBusy
  rw [newConn_wrappers_of_ne h]
  rfl

/-- A connection of the pool with a new one that has a future is an old one. -/
theorem newConn_futBecomeFree {fut : ℕ}
    (h : (pool.newConn.wrappers c).futBecomeFree = some fut) :
    (pool.wrappers c).futBecomeFree = some fut := by
  by_cases hc : c = pool.opened
  · rw [hc, newConn_wrappers_self] at h
    cases h
  · rwa [newConn_wrappers_of_ne hc] at h

theorem Futures.newConn (h : Futures pool) : Futures pool.newConn where
  made a fut ha := h.made a fut (newConn_futBecomeFree ha)
  inj a b fut ha hb := h.inj a b fut (newConn_futBecomeFree ha) (newConn_futBecomeFree hb)
  unmade := h.unmade

/-- Freeing a connection changes which futures are complete, and nothing else. -/
theorem markFree_eq : pool.markFree c = { pool with finished := (pool.markFree c).finished } := by
  unfold markFree
  cases (pool.wrappers c).futBecomeFree <;> rfl

@[simp] theorem markFree_wrappers : (pool.markFree c).wrappers = pool.wrappers := by
  rw [markFree_eq]

@[simp] theorem markFree_conns : (pool.markFree c).conns = pool.conns := by
  rw [markFree_eq]

@[simp] theorem markFree_numConnecting : (pool.markFree c).numConnecting = pool.numConnecting := by
  rw [markFree_eq]

@[simp] theorem markFree_maxConnections :
    (pool.markFree c).maxConnections = pool.maxConnections := by
  rw [markFree_eq]

@[simp] theorem markFree_opened : (pool.markFree c).opened = pool.opened := by
  rw [markFree_eq]

@[simp] theorem markFree_futures : (pool.markFree c).futures = pool.futures := by
  rw [markFree_eq]

theorem isPgDbConnBusy_markFree_self : (pool.markFree c).isPgDbConnBusy c = false := by
  unfold isPgDbConnBusy
  rw [markFree_wrappers]
  unfold markFree
  cases (pool.wrappers c).futBecomeFree with
  | none => rfl
  | some fut => simp

theorem markFree_finished {fut : ℕ} (h : (pool.wrappers c).futBecomeFree ≠ some fut) :
    (pool.markFree c).finished fut = pool.finished fut := by
  unfold markFree
  cases hfut : (pool.wrappers c).futBecomeFree with
  | none => rfl
  | some fut' =>
      rw [hfut] at h
      exact Function.update_of_ne (fun heq => h (congrArg some heq.symm)) _ _

/-- Freeing one connection leaves the others as they are, because their futures are others. -/
theorem Futures.isPgDbConnBusy_markFree_of_ne (h : Futures pool) (hc : c' ≠ c) :
    (pool.markFree c).isPgDbConnBusy c' = pool.isPgDbConnBusy c' := by
  unfold isPgDbConnBusy
  rw [markFree_wrappers]
  cases hfut : (pool.wrappers c').futBecomeFree with
  | none => rfl
  | some fut =>
      simp only
      rw [markFree_finished (fun heq => hc (h.inj c' c fut hfut heq))]

theorem Futures.markFree (h : Futures pool) : Futures (pool.markFree c) where
  made a fut ha := by
    rw [markFree_wrappers] at ha
    rw [markFree_futures]
    exact h.made a fut ha
  inj a b fut ha hb := by
    rw [markFree_wrappers] at ha hb
    exact h.inj a b fut ha hb
  unmade fut hfut := by
    rw [markFree_futures] at hfut
    rw [markFree_finished (fun heq => absurd (h.made c fut heq) (Nat.not_lt.mpr hfut))]
    exact h.unmade fut hfut

end PgAsyncPool

/-! ### Moves of a query -/

open PgAsyncPool

/-- What a query does to the pool and to its phase in one go. -/
inductive Move : PgAsyncPool × QueryPhase → PgAsyncPool × QueryPhase → Prop where
  | rest {pool : PgAsyncPool} {phase phase' : QueryPhase} : phase.idle = true → phase'.idle = true →
      Move (pool, phase) (pool, phase')
  | take {pool : PgAsyncPool} {phase : QueryPhase} {c : ℕ} : phase.idle = true → c ∈ pool.conns → pool.isPgDbConnBusy c = false →
      Move (pool, phase) (pool.markBusy c, .holding c)
  | reserve {pool : PgAsyncPool} {phase : QueryPhase} : phase.idle = true →
      pool.conns.length + pool.numConnecting < pool.maxConnections →
      Move (pool, phase)
        ({ pool with numConnecting := pool.numConnecting + 1 }, .resolving pool.generation)
  | connect {pool : PgAsyncPool} {generation : ℕ} :
      Move (pool, .resolving generation) (pool, .connecting generation)
  | giveUp {pool : PgAsyncPool} {phase phase' : QueryPhase} : phase.isConnecting = true → phase.conn = none →
      phase'.idle = true → Move (pool, phase) (pool.giveBackSlot, phase')
  | opened {pool : PgAsyncPool} {generation : ℕ} :
      Move (pool, .connecting generation) (pool.newConn, .setup generation pool.opened)
  | add {pool : PgAsyncPool} {generation c : ℕ} : Move (pool, .setup generation c)
      ({ pool.markBusy c with conns := pool.conns ++ [c] }.giveBackSlot, .holding c)
  | drop {pool : PgAsyncPool} {generation c : ℕ} {phase' : QueryPhase} : phase'.idle = true →
      Move (pool, .setup generation c) ((pool.closeDbConn c).giveBackSlot, phase')
  | release {pool : PgAsyncPool} {c : ℕ} {status : LibpqStatus} {phase' : QueryPhase} : phase'.idle = true →
      Move (pool, .holding c) (pool.releaseConn c status, phase')

open Relation (ReflTransGen)

theorem acquireConn_move {pool : PgAsyncPool} {phase : QueryPhase} (h : phase.idle = true) :
    Move (pool, phase) pool.acquireConn := by
  unfold acquireConn
  cases hfind : pool.conns.find? (fun conn => !pool.isPgDbConnBusy conn) with
  | some c =>
      have hfree := List.find?_some hfind
      rw [Bool.not_eq_true'] at hfree
      exact .take h (List.mem_of_find?_eq_some hfind) hfree
  | none =>
      simp only
      split_ifs with hroom
      · exact .reserve h hroom
      · exact .rest h rfl
      · exact .rest h rfl

theorem addConn_move {pool : PgAsyncPool} {generation c : ℕ} :
    Move (pool, .setup generation c) (pool.addConn generation c) := by
  unfold addConn
  split_ifs
  · exact .drop rfl
  · exact .add

/-- Where a query goes from one await to the next it makes moves. -/
theorem resume_moves (pool : PgAsyncPool) (phase : QueryPhase) (event : QueryEvent) :
    ReflTransGen Move (pool, phase) (pool.resume phase event) := by
  unfold resume
  split
  · split_ifs
    · exact .single (acquireConn_move rfl)
    · exact .refl
  · exact .single (acquireConn_move rfl)
  · exact .single .connect
  · exact .single (.giveUp rfl rfl rfl)
  · split_ifs
    · exact .single .opened
    · exact (ReflTransGen.single .opened).tail addConn_move
  · exact .single (.giveUp rfl rfl rfl)
  · exact .single addConn_move
  · exact .single (.drop rfl)
  · exact .single (.release rfl)
  · exact .single (.rest rfl rfl)
  · exact .single (.rest rfl rfl)
  · exact .single (.giveUp rfl rfl rfl)
  · exact .single (.giveUp rfl rfl rfl)
  · exact .single (.drop rfl)
  · exact .single (.release rfl)
  · exact .refl

theorem Move.maxConnections {a b : PgAsyncPool × QueryPhase} (h : Move a b) :
    b.1.maxConnections = a.1.maxConnections := by
  cases h with
  | release hidle =>
      simp only [releaseConn, markFree_maxConnections]
      split_ifs <;> rfl
  | _ => rfl

theorem moves_maxConnections {a b : PgAsyncPool × QueryPhase} (h : ReflTransGen Move a b) :
    b.1.maxConnections = a.1.maxConnections := by
  induction h with
  | refl => rfl
  | tail _ hmove ih => rw [hmove.maxConnections, ih]

/-! ### Accounts -/

/-- Somebody has the connection in hand: a query that opens or holds it, or a `cancelBackend`. -/
def InHand (queries : List QueryPhase) (cancels : List CancelPhase) (c : ℕ) : Prop :=
  (∃ i : ℕ, ∃ phase, queries[i]? = some phase ∧ phase.conn = some c) ∨
    ∃ i : ℕ, cancels[i]? = some (CancelPhase.querying c)

/-- The accounts of a pool, of the queries on it and of the calls of `cancelBackend`. -/
structure Accounts (pool : PgAsyncPool) (queries : List QueryPhase) (cancels : List CancelPhase) :
    Prop where
  futures : Futures pool
  capacity : pool.conns.length + pool.numConnecting ≤ pool.maxConnections
  slots : pool.numConnecting = queries.countP QueryPhase.isConnecting
  nodup : pool.conns.Nodup
  conns_opened : ∀ c ∈ pool.conns, c < pool.opened
  owned_opened : ∀ (i : ℕ) (phase : QueryPhase) (c : ℕ), queries[i]? = some phase →
    phase.conn = some c → c < pool.opened
  exclusive : ∀ (i j : ℕ) (phase phase' : QueryPhase) (c : ℕ), queries[i]? = some phase →
    queries[j]? = some phase' → phase.conn = some c → phase'.conn = some c → i = j
  setup_out : ∀ i generation c : ℕ, queries[i]? = some (QueryPhase.setup generation c) →
    c ∉ pool.conns
  held_busy : ∀ i c : ℕ, queries[i]? = some (QueryPhase.holding c) → pool.isPgDbConnBusy c = true
  held_in : ∀ i c : ℕ, queries[i]? = some (QueryPhase.holding c) →
    c ∈ pool.conns ∨ (pool.wrappers c).isOpen = false
  busy_held : ∀ c ∈ pool.conns, pool.isPgDbConnBusy c = true →
    ∃ i : ℕ, queries[i]? = some (QueryPhase.holding c)
  accounted : ∀ c < pool.opened, c ∈ pool.conns ∨ (pool.wrappers c).isOpen = false ∨
    InHand queries cancels c

section Moves

variable {pool pool' : PgAsyncPool} {queries : List QueryPhase} {cancels : List CancelPhase}
  {i : ℕ} {phase phase' : QueryPhase}

/-- A query in the list after one of them moved. -/
theorem mem_queries_set {j : ℕ} {other : QueryPhase} (h : (queries.set i phase')[j]? = some other) :
    (j = i ∧ other = phase') ∨ (j ≠ i ∧ queries[j]? = some other) := by
  rw [List.getElem?_set] at h
  by_cases hij : i = j
  · rw [if_pos hij] at h
    split_ifs at h with hlt
    exact Or.inl ⟨hij.symm, (Option.some.inj h).symm⟩
  · rw [if_neg hij] at h
    exact Or.inr ⟨fun heq => hij heq.symm, h⟩

/-- A query with a connection, after one of them moved to a phase without one. -/
theorem mem_queries_set_conn {j c : ℕ} {other : QueryPhase} (hconn' : phase'.conn = none)
    (h : (queries.set i phase')[j]? = some other) (hother : other.conn = some c) :
    j ≠ i ∧ queries[j]? = some other := by
  rcases mem_queries_set h with ⟨-, rfl⟩ | hkept
  · rw [hconn'] at hother
    cases hother
  · exact hkept

theorem queries_set_self (h : queries[i]? = some phase) :
    (queries.set i phase')[i]? = some phase' := by
  obtain ⟨hlt, -⟩ := List.getElem?_eq_some_iff.mp h
  rw [List.getElem?_set_self hlt]

theorem queries_set_of_ne {j : ℕ} (h : j ≠ i) : (queries.set i phase')[j]? = queries[j]? :=
  List.getElem?_set_ne (fun heq => h heq.symm)

/-- The slots after one of the queries moved. -/
theorem countP_queries_set (phase' : QueryPhase) (h : queries[i]? = some phase) :
    ((queries.set i phase').countP QueryPhase.isConnecting : ℤ) + phase.isConnecting.toNat =
      queries.countP QueryPhase.isConnecting + phase'.isConnecting.toNat := by
  obtain ⟨hlt, rfl⟩ := List.getElem?_eq_some_iff.mp h
  rw [List.countP_set hlt]
  have hpos : queries[i].isConnecting = true → 0 < queries.countP QueryPhase.isConnecting :=
    fun hc => List.countP_pos_iff.mpr ⟨_, List.getElem_mem hlt, hc⟩
  cases hc : queries[i].isConnecting <;> cases phase'.isConnecting <;> simp_all

/-- What is in hand stays in hand when a query moves that has no connection, or keeps its own. -/
theorem InHand.set {c : ℕ} (h : InHand queries cancels c) (hi : queries[i]? = some phase)
    (hconn : phase.conn = some c → phase'.conn = some c) :
    InHand (queries.set i phase') cancels c := by
  rcases h with ⟨j, other, hj, hc⟩ | hcancel
  · by_cases hji : j = i
    · rw [hji, hi, Option.some.injEq] at hj
      refine Or.inl ⟨i, phase', queries_set_self hi, hconn ?_⟩
      rw [hj]
      exact hc
    · refine Or.inl ⟨j, other, ?_, hc⟩
      rw [queries_set_of_ne hji]
      exact hj
  · exact Or.inr hcancel

/-- The holder of a connection keeps it when another query moves. -/
theorem held_set {j c : ℕ} (hi : queries[i]? = some phase) (hphase : phase ≠ .holding c)
    (hj : queries[j]? = some (.holding c)) :
    (queries.set i phase')[j]? = some (.holding c) := by
  rw [queries_set_of_ne]
  · exact hj
  · rintro rfl
    rw [hi, Option.some.injEq] at hj
    exact hphase hj

theorem idle_conn (h : phase.idle = true) : phase.conn = none := by
  cases phase <;> first | rfl | cases h

theorem idle_isConnecting (h : phase.idle = true) : phase.isConnecting = false := by
  cases phase <;> first | rfl | cases h

/-- A connection that no other query has may be the one of a query that moves. -/
theorem Accounts.exclusive_set (h : Accounts pool queries cancels)
    (hnew : ∀ c, phase'.conn = some c → ∀ (j : ℕ) (other : QueryPhase), j ≠ i →
      queries[j]? = some other → other.conn ≠ some c) :
    ∀ (j k : ℕ) (a b : QueryPhase) (c : ℕ), (queries.set i phase')[j]? = some a →
      (queries.set i phase')[k]? = some b → a.conn = some c → b.conn = some c → j = k := by
  intro j k a b c hj hk ha hb
  rcases mem_queries_set hj with ⟨rfl, rfl⟩ | ⟨hji, hj'⟩ <;>
    rcases mem_queries_set hk with ⟨rfl, rfl⟩ | ⟨hki, hk'⟩
  · rfl
  · exact absurd hb (hnew c ha k b hki hk')
  · exact absurd ha (hnew c hb j a hji hj')
  · exact h.exclusive j k a b c hj' hk' ha hb

theorem Accounts.owned_opened_set (h : Accounts pool queries cancels) {n : ℕ}
    (hn : pool.opened ≤ n) (hnew : ∀ c, phase'.conn = some c → c < n) :
    ∀ (j : ℕ) (other : QueryPhase) (c : ℕ), (queries.set i phase')[j]? = some other →
      other.conn = some c → c < n := by
  intro j other c hj hc
  rcases mem_queries_set hj with ⟨-, rfl⟩ | ⟨-, hj⟩
  · exact hnew c hc
  · exact lt_of_lt_of_le (h.owned_opened j other c hj hc) hn

/-- The slots after a move of a query between phases with or without a slot. -/
theorem Accounts.slots_set (h : Accounts pool queries cancels) (hi : queries[i]? = some phase)
    {n : ℤ} (hn : n + phase.isConnecting.toNat = pool.numConnecting + phase'.isConnecting.toNat) :
    n = (queries.set i phase').countP QueryPhase.isConnecting := by
  have hcount := countP_queries_set phase' hi
  rw [← h.slots] at hcount
  omega

/-- A query that has no connection before and after the move changes only the slots. -/
theorem Accounts.move_slots (h : Accounts pool queries cancels) (hi : queries[i]? = some phase)
    (hconn : phase.conn = none) (hconn' : phase'.conn = none) {n : ℤ}
    (hn : n + phase.isConnecting.toNat = pool.numConnecting + phase'.isConnecting.toNat)
    (hcap : pool.conns.length + n ≤ pool.maxConnections) :
    Accounts { pool with numConnecting := n } (queries.set i phase') cancels where
  futures := h.futures.congr (fun _ => rfl) rfl rfl
  capacity := hcap
  slots := h.slots_set hi hn
  nodup := h.nodup
  conns_opened := h.conns_opened
  owned_opened := h.owned_opened_set (le_refl _) (fun c hc => nomatch hconn'.symm.trans hc)
  exclusive := h.exclusive_set (fun c hc => nomatch hconn'.symm.trans hc)
  setup_out j generation c hj := h.setup_out j generation c (mem_queries_set_conn hconn' hj rfl).2
  held_busy j c hj := h.held_busy j c (mem_queries_set_conn hconn' hj rfl).2
  held_in j c hj := h.held_in j c (mem_queries_set_conn hconn' hj rfl).2
  busy_held c hc hbusy := by
    obtain ⟨j, hj⟩ := h.busy_held c hc hbusy
    refine ⟨j, held_set hi ?_ hj⟩
    rintro rfl
    cases hconn
  accounted c hc := by
    rcases h.accounted c hc with hin | hclosed | hhand
    · exact Or.inl hin
    · exact Or.inr (Or.inl hclosed)
    · exact Or.inr (Or.inr (hhand.set hi (fun heq => by rw [hconn] at heq; cases heq)))

/-- A free connection of the list is in no query's hand. -/
theorem Accounts.free_unowned (h : Accounts pool queries cancels) {c : ℕ} (hc : c ∈ pool.conns)
    (hfree : pool.isPgDbConnBusy c = false) {j : ℕ} {other : QueryPhase}
    (hj : queries[j]? = some other) : other.conn ≠ some c := by
  intro hconn
  cases other with
  | setup generation c' =>
      cases hconn
      exact h.setup_out j generation c hj hc
  | holding c' =>
      cases hconn
      rw [h.held_busy j c hj] at hfree
      cases hfree
  | starting => cases hconn
  | waiting futs => cases hconn
  | sleeping => cases hconn
  | resolving generation => cases hconn
  | connecting generation => cases hconn
  | released => cases hconn
  | failed error => cases hconn
  | cancelled => cases hconn

/-- A query that takes a connection marks it busy, and the others stay busy. -/
theorem Accounts.held_markBusy (h : Accounts pool queries cancels) {c j c' : ℕ}
    (hj : (queries.set i (.holding c))[j]? = some (.holding c')) :
    (pool.markBusy c).isPgDbConnBusy c' = true := by
  by_cases hcc : c' = c
  · rw [hcc]
    exact h.futures.isPgDbConnBusy_markBusy_self
  · rw [isPgDbConnBusy_markBusy_of_ne hcc]
    rcases mem_queries_set hj with ⟨-, heq⟩ | ⟨-, hj⟩
    · exact absurd (QueryPhase.holding.inj heq) hcc
    · exact h.held_busy j c' hj

theorem Accounts.take (h : Accounts pool queries cancels) (hi : queries[i]? = some phase)
    (hidle : phase.idle = true) {c : ℕ} (hc : c ∈ pool.conns)
    (hfree : pool.isPgDbConnBusy c = false) :
    Accounts (pool.markBusy c) (queries.set i (.holding c)) cancels where
  futures := h.futures.markBusy
  capacity := h.capacity
  slots := h.slots_set hi (by rw [idle_isConnecting hidle]; rfl)
  nodup := h.nodup
  conns_opened := h.conns_opened
  owned_opened := h.owned_opened_set (le_refl _) (fun c' hc' => by
    cases hc'
    exact h.conns_opened c hc)
  exclusive := h.exclusive_set (fun c' hc' j other _ hj => by
    cases hc'
    exact h.free_unowned hc hfree hj)
  setup_out j generation c' hj := by
    rcases mem_queries_set hj with ⟨-, heq⟩ | ⟨-, hj⟩
    · cases heq
    · exact h.setup_out j generation c' hj
  held_busy j c' hj := h.held_markBusy hj
  held_in j c' hj := by
    by_cases hcc : c' = c
    · rw [hcc]
      exact Or.inl hc
    · rw [markBusy_wrappers_of_ne hcc]
      rcases mem_queries_set hj with ⟨-, heq⟩ | ⟨-, hj⟩
      · exact absurd (QueryPhase.holding.inj heq) hcc
      · exact h.held_in j c' hj
  busy_held c' hc' hbusy := by
    by_cases hcc : c' = c
    · rw [hcc]
      exact ⟨i, queries_set_self hi⟩
    · rw [isPgDbConnBusy_markBusy_of_ne hcc] at hbusy
      obtain ⟨j, hj⟩ := h.busy_held c' hc' hbusy
      refine ⟨j, held_set hi ?_ hj⟩
      rintro rfl
      cases hidle
  accounted c' hc' := by
    by_cases hcc : c' = c
    · rw [hcc]
      exact Or.inl hc
    · rw [markBusy_wrappers_of_ne hcc]
      rcases h.accounted c' hc' with hin | hclosed | hhand
      · exact Or.inl hin
      · exact Or.inr (Or.inl hclosed)
      · refine Or.inr (Or.inr (hhand.set hi (fun heq => ?_)))
        rw [idle_conn hidle] at heq
        cases heq

theorem Accounts.opened (h : Accounts pool queries cancels) {generation : ℕ}
    (hi : queries[i]? = some (.connecting generation)) :
    Accounts pool.newConn (queries.set i (.setup generation pool.opened)) cancels where
  futures := h.futures.newConn
  capacity := h.capacity
  slots := h.slots_set hi rfl
  nodup := h.nodup
  conns_opened c hc := Nat.lt_succ_of_lt (h.conns_opened c hc)
  owned_opened := h.owned_opened_set (Nat.le_succ _) (fun c hc => by
    cases hc
    exact Nat.lt_succ_self _)
  exclusive := h.exclusive_set (fun c hc j other _ hj hother => by
    cases hc
    exact absurd (h.owned_opened j other _ hj hother) (lt_irrefl _))
  setup_out j generation' c hj hc := by
    rcases mem_queries_set hj with ⟨-, heq⟩ | ⟨-, hj⟩
    · cases heq
      exact absurd (h.conns_opened _ hc) (lt_irrefl _)
    · exact h.setup_out j generation' c hj hc
  held_busy j c hj := by
    rcases mem_queries_set hj with ⟨-, heq⟩ | ⟨-, hj⟩
    · cases heq
    · rw [isPgDbConnBusy_newConn_of_ne (h.owned_opened j _ c hj rfl).ne]
      exact h.held_busy j c hj
  held_in j c hj := by
    rcases mem_queries_set hj with ⟨-, heq⟩ | ⟨-, hj⟩
    · cases heq
    · rw [newConn_wrappers_of_ne (h.owned_opened j _ c hj rfl).ne]
      exact h.held_in j c hj
  busy_held c hc hbusy := by
    rw [isPgDbConnBusy_newConn_of_ne (h.conns_opened c hc).ne] at hbusy
    obtain ⟨j, hj⟩ := h.busy_held c hc hbusy
    exact ⟨j, held_set hi nofun hj⟩
  accounted c hc := by
    by_cases hnew : c = pool.opened
    · exact Or.inr (Or.inr (Or.inl ⟨i, _, queries_set_self hi, by rw [hnew]; rfl⟩))
    · rw [newConn_wrappers_of_ne hnew]
      rcases h.accounted c (Nat.lt_of_le_of_ne (Nat.le_of_lt_succ hc) hnew) with
        hin | hclosed | hhand
      · exact Or.inl hin
      · exact Or.inr (Or.inl hclosed)
      · exact Or.inr (Or.inr (hhand.set hi nofun))

theorem Accounts.add (h : Accounts pool queries cancels) {generation c : ℕ}
    (hi : queries[i]? = some (.setup generation c)) :
    Accounts { pool.markBusy c with conns := pool.conns ++ [c] }.giveBackSlot
      (queries.set i (.holding c)) cancels where
  futures := (h.futures.markBusy (c := c)).congr (fun _ => rfl) rfl rfl
  capacity := by
    have hcap := h.capacity
    show ((pool.conns ++ [c]).length : ℤ) + (pool.numConnecting - 1) ≤ pool.maxConnections
    rw [List.length_append, List.length_singleton]
    push_cast
    omega
  slots := h.slots_set hi (show pool.numConnecting - 1 + 1 = pool.numConnecting + 0 by omega)
  nodup := by
    show (pool.conns ++ [c]).Nodup
    exact nodup_append_singleton h.nodup (h.setup_out i generation c hi)
  conns_opened c' hc' := by
    rcases List.mem_append.mp hc' with hc' | hc'
    · exact h.conns_opened c' hc'
    · rw [List.mem_singleton.mp hc']
      exact h.owned_opened i _ c hi rfl
  owned_opened := h.owned_opened_set (le_refl _) (fun c' hc' => by
    cases hc'
    exact h.owned_opened i _ c hi rfl)
  exclusive := h.exclusive_set (fun c' hc' j other hji hj hother => by
    cases hc'
    exact hji (h.exclusive j i other _ c hj hi hother rfl))
  setup_out j generation' c' hj hc' := by
    rcases mem_queries_set hj with ⟨-, heq⟩ | ⟨hji, hj⟩
    · cases heq
    · rcases List.mem_append.mp hc' with hc' | hc'
      · exact h.setup_out j generation' c' hj hc'
      · rw [List.mem_singleton.mp hc'] at hj
        exact hji (h.exclusive j i _ _ c hj hi rfl rfl)
  held_busy j c' hj := h.held_markBusy hj
  held_in j c' hj := by
    show c' ∈ pool.conns ++ [c] ∨ ((pool.markBusy c).wrappers c').isOpen = false
    rcases mem_queries_set hj with ⟨-, heq⟩ | ⟨hji, hj'⟩
    · rw [QueryPhase.holding.inj heq]
      exact Or.inl (List.mem_append_right _ (List.mem_singleton_self _))
    · have hcc : c' ≠ c := by
        intro hcc
        rw [hcc] at hj'
        exact hji (h.exclusive j i _ _ c hj' hi rfl rfl)
      rw [markBusy_wrappers_of_ne hcc]
      exact (h.held_in j c' hj').imp_left (List.mem_append_left _)
  busy_held c' hc' hbusy := by
    have hbusy' : (pool.markBusy c).isPgDbConnBusy c' = true := hbusy
    by_cases hcc : c' = c
    · rw [hcc]
      exact ⟨i, queries_set_self hi⟩
    · rw [isPgDbConnBusy_markBusy_of_ne hcc] at hbusy'
      have hin : c' ∈ pool.conns := by
        rcases List.mem_append.mp hc' with hc' | hc'
        · exact hc'
        · exact absurd (List.mem_singleton.mp hc') hcc
      obtain ⟨j, hj⟩ := h.busy_held c' hin hbusy'
      exact ⟨j, held_set hi nofun hj⟩
  accounted c' hc' := by
    show c' ∈ pool.conns ++ [c] ∨ ((pool.markBusy c).wrappers c').isOpen = false ∨ _
    by_cases hcc : c' = c
    · rw [hcc]
      exact Or.inl (List.mem_append_right _ (List.mem_singleton_self _))
    · rw [markBusy_wrappers_of_ne hcc]
      rcases h.accounted c' hc' with hin | hclosed | hhand
      · exact Or.inl (List.mem_append_left _ hin)
      · exact Or.inr (Or.inl hclosed)
      · exact Or.inr (Or.inr (hhand.set hi (fun heq => heq)))

theorem Accounts.drop (h : Accounts pool queries cancels) {generation c : ℕ}
    (hi : queries[i]? = some (.setup generation c)) (hidle : phase'.idle = true) :
    Accounts (pool.closeDbConn c).giveBackSlot (queries.set i phase') cancels where
  futures := h.futures.congr (fun _ => closeDbConn_futBecomeFree) rfl rfl
  capacity := by
    have hcap := h.capacity
    show (pool.conns.length : ℤ) + (pool.numConnecting - 1) ≤ pool.maxConnections
    omega
  slots := h.slots_set hi (by
    rw [idle_isConnecting hidle]
    show pool.numConnecting - 1 + 1 = pool.numConnecting + 0
    omega)
  nodup := h.nodup
  conns_opened := h.conns_opened
  owned_opened := h.owned_opened_set (le_refl _) (fun c' hc' =>
    nomatch (idle_conn hidle).symm.trans hc')
  exclusive := h.exclusive_set (fun c' hc' =>
    nomatch (idle_conn hidle).symm.trans hc')
  setup_out j generation' c' hj :=
    h.setup_out j generation' c' (mem_queries_set_conn (idle_conn hidle) hj rfl).2
  held_busy j c' hj := by
    show (pool.closeDbConn c).isPgDbConnBusy c' = true
    rw [isPgDbConnBusy_closeDbConn]
    exact h.held_busy j c' (mem_queries_set_conn (idle_conn hidle) hj rfl).2
  held_in j c' hj :=
    (h.held_in j c' (mem_queries_set_conn (idle_conn hidle) hj rfl).2).imp_right closeDbConn_isOpen
  busy_held c' hc' hbusy := by
    have hbusy' : (pool.closeDbConn c).isPgDbConnBusy c' = true := hbusy
    rw [isPgDbConnBusy_closeDbConn] at hbusy'
    obtain ⟨j, hj⟩ := h.busy_held c' hc' hbusy'
    exact ⟨j, held_set hi nofun hj⟩
  accounted c' hc' := by
    show c' ∈ pool.conns ∨ ((pool.closeDbConn c).wrappers c').isOpen = false ∨ _
    by_cases hcc : c' = c
    · rw [hcc]
      exact Or.inr (Or.inl closeDbConn_isOpen_self)
    · rcases h.accounted c' hc' with hin | hclosed | hhand
      · exact Or.inl hin
      · exact Or.inr (Or.inl (closeDbConn_isOpen hclosed))
      · refine Or.inr (Or.inr (hhand.set hi (fun heq => ?_)))
        exact absurd (Option.some.inj heq).symm hcc

/-- Connections are closed and taken out of the list. -/
theorem Accounts.shrink (h : Accounts pool queries cancels)
    (hfut : ∀ c, (pool'.wrappers c).futBecomeFree = (pool.wrappers c).futBecomeFree)
    (hclosed : ∀ c, (pool.wrappers c).isOpen = false → (pool'.wrappers c).isOpen = false)
    (hsub : pool'.conns.Sublist pool.conns)
    (hout : ∀ c ∈ pool.conns, c ∈ pool'.conns ∨ (pool'.wrappers c).isOpen = false)
    (hsame : pool'.numConnecting = pool.numConnecting ∧
      pool'.maxConnections = pool.maxConnections ∧ pool'.opened = pool.opened ∧
      pool'.futures = pool.futures ∧ pool'.finished = pool.finished) :
    Accounts pool' queries cancels := by
  obtain ⟨hnum, hmax, hopened, hfutures, hfinished⟩ := hsame
  have hbusy : ∀ c, pool'.isPgDbConnBusy c = pool.isPgDbConnBusy c := by
    intro c
    unfold isPgDbConnBusy
    rw [hfut, hfinished]
  constructor
  case futures => exact h.futures.congr hfut hfutures hfinished
  case capacity =>
    have hlength := hsub.length_le
    have hcap := h.capacity
    rw [hnum, hmax]
    omega
  case slots =>
    rw [hnum]
    exact h.slots
  case nodup => exact h.nodup.sublist hsub
  case conns_opened =>
    intro c hc
    rw [hopened]
    exact h.conns_opened c (hsub.subset hc)
  case owned_opened =>
    rw [hopened]
    exact h.owned_opened
  case exclusive => exact h.exclusive
  case setup_out =>
    intro j generation c hj hc
    exact h.setup_out j generation c hj (hsub.subset hc)
  case held_busy =>
    intro j c hj
    rw [hbusy]
    exact h.held_busy j c hj
  case held_in =>
    intro j c hj
    rcases h.held_in j c hj with hin | hcl
    · exact hout c hin
    · exact Or.inr (hclosed c hcl)
  case busy_held =>
    intro c hc hb
    rw [hbusy] at hb
    exact h.busy_held c (hsub.subset hc) hb
  case accounted =>
    intro c hc
    rw [hopened] at hc
    rcases h.accounted c hc with hin | hcl | hhand
    · exact (hout c hin).imp_right Or.inl
    · exact Or.inr (Or.inl (hclosed c hcl))
    · exact Or.inr (Or.inr hhand)

/-- A query lets go of its connection, which is in the list or closed. -/
theorem Accounts.free (h : Accounts pool queries cancels) {c : ℕ}
    (hi : queries[i]? = some (.holding c)) (hidle : phase'.idle = true) :
    Accounts (pool.markFree c) (queries.set i phase') cancels where
  futures := h.futures.markFree
  capacity := by
    rw [markFree_conns, markFree_numConnecting, markFree_maxConnections]
    exact h.capacity
  slots := h.slots_set hi (by rw [idle_isConnecting hidle, markFree_numConnecting]; rfl)
  nodup := by
    rw [markFree_conns]
    exact h.nodup
  conns_opened := by
    rw [markFree_conns, markFree_opened]
    exact h.conns_opened
  owned_opened := h.owned_opened_set (by rw [markFree_opened]) (fun c' hc' =>
    nomatch (idle_conn hidle).symm.trans hc')
  exclusive := h.exclusive_set (fun c' hc' =>
    nomatch (idle_conn hidle).symm.trans hc')
  setup_out j generation' c' hj := by
    rw [markFree_conns]
    exact h.setup_out j generation' c' (mem_queries_set_conn (idle_conn hidle) hj rfl).2
  held_busy j c' hj := by
    obtain ⟨hji, hj'⟩ := mem_queries_set_conn (idle_conn hidle) hj rfl
    have hcc : c' ≠ c := by
      intro hcc
      rw [hcc] at hj'
      exact hji (h.exclusive j i _ _ c hj' hi rfl rfl)
    rw [h.futures.isPgDbConnBusy_markFree_of_ne hcc]
    exact h.held_busy j c' hj'
  held_in j c' hj := by
    rw [markFree_conns, markFree_wrappers]
    exact h.held_in j c' (mem_queries_set_conn (idle_conn hidle) hj rfl).2
  busy_held c' hc' hbusy := by
    rw [markFree_conns] at hc'
    by_cases hcc : c' = c
    · rw [hcc, isPgDbConnBusy_markFree_self] at hbusy
      cases hbusy
    · rw [h.futures.isPgDbConnBusy_markFree_of_ne hcc] at hbusy
      obtain ⟨j, hj⟩ := h.busy_held c' hc' hbusy
      exact ⟨j, held_set hi (fun heq => hcc (QueryPhase.holding.inj heq).symm) hj⟩
  accounted c' hc' := by
    rw [markFree_opened] at hc'
    rw [markFree_conns, markFree_wrappers]
    by_cases hcc : c' = c
    · rw [hcc]
      exact (h.held_in i c hi).imp_right Or.inl
    · rcases h.accounted c' hc' with hin | hclosed | hhand
      · exact Or.inl hin
      · exact Or.inr (Or.inl hclosed)
      · refine Or.inr (Or.inr (hhand.set hi (fun heq => ?_)))
        exact absurd (Option.some.inj heq).symm hcc

/-- A connection is closed and taken out of the list. -/
theorem Accounts.discard (h : Accounts pool queries cancels) (c : ℕ) :
    Accounts { pool.closeDbConn c with conns := pool.conns.filter (fun c' => c' ≠ c) }
      queries cancels := by
  refine h.shrink (fun _ => closeDbConn_futBecomeFree) (fun _ => closeDbConn_isOpen)
    List.filter_sublist ?_ ⟨rfl, rfl, rfl, rfl, rfl⟩
  intro c' hc'
  by_cases hcc : c' = c
  · rw [hcc]
    exact Or.inr closeDbConn_isOpen_self
  · exact Or.inl (List.mem_filter.mpr ⟨hc', by simpa using hcc⟩)

theorem Accounts.release (h : Accounts pool queries cancels) {c : ℕ}
    (hi : queries[i]? = some (.holding c)) (hidle : phase'.idle = true) (status : LibpqStatus) :
    Accounts (pool.releaseConn c status) (queries.set i phase') cancels := by
  unfold releaseConn
  split_ifs
  · exact h.free hi hidle
  · exact (h.discard c).free hi hidle

/-- Every move of a query keeps the accounts. -/
theorem Accounts.move (h : Accounts pool queries cancels) (hi : queries[i]? = some phase)
    (hmove : Move (pool, phase) (pool', phase')) :
    Accounts pool' (queries.set i phase') cancels := by
  cases hmove with
  | rest hidle hidle' =>
      refine h.move_slots hi (idle_conn hidle) (idle_conn hidle') ?_ h.capacity
      rw [idle_isConnecting hidle, idle_isConnecting hidle']
  | take hidle hc hfree => exact h.take hi hidle hc hfree
  | reserve hidle hroom =>
      refine h.move_slots hi (idle_conn hidle) rfl ?_ (by omega)
      rw [idle_isConnecting hidle]
      simp [QueryPhase.isConnecting]
  | connect => exact h.move_slots hi rfl rfl rfl h.capacity
  | giveUp hconnecting hconn hidle =>
      have hcap := h.capacity
      refine h.move_slots hi hconn (idle_conn hidle) ?_ (by omega)
      rw [hconnecting, idle_isConnecting hidle]
      simp
  | opened => exact h.opened hi
  | add => exact h.add hi
  | drop hidle => exact h.drop hi hidle
  | release hidle => exact h.release hi hidle _

/-- A query goes from one await to the next. -/
theorem Accounts.moves (h : Accounts pool queries cancels) (hi : queries[i]? = some phase)
    {target : PgAsyncPool × QueryPhase} (hmoves : ReflTransGen Move (pool, phase) target) :
    Accounts target.1 (queries.set i target.2) cancels := by
  induction hmoves with
  | refl =>
      obtain ⟨hlt, rfl⟩ := List.getElem?_eq_some_iff.mp hi
      rw [List.set_getElem_self]
      exact h
  | tail hmoves hmove ih =>
      have hnext := ih.move (queries_set_self hi) hmove
      rwa [List.set_set] at hnext

/-- A new query is on its way to its first turn. -/
theorem Accounts.start (h : Accounts pool queries cancels) :
    Accounts pool (queries ++ [.starting]) cancels := by
  have hget : ∀ (j : ℕ) (other : QueryPhase) (c : ℕ),
      (queries ++ [QueryPhase.starting])[j]? = some other → other.conn = some c →
        queries[j]? = some other := by
    intro j other c hj hc
    rw [List.getElem?_append] at hj
    split_ifs at hj with hlt
    · exact hj
    · have hmem := List.mem_of_getElem? hj
      rw [List.mem_singleton.mp hmem] at hc
      cases hc
  have hkeep : ∀ (j : ℕ) (other : QueryPhase), queries[j]? = some other →
      (queries ++ [QueryPhase.starting])[j]? = some other := by
    intro j other hj
    obtain ⟨hlt, -⟩ := List.getElem?_eq_some_iff.mp hj
    rw [List.getElem?_append_left hlt]
    exact hj
  constructor
  case futures => exact h.futures
  case capacity => exact h.capacity
  case slots =>
    rw [List.countP_append, h.slots]
    rfl
  case nodup => exact h.nodup
  case conns_opened => exact h.conns_opened
  case owned_opened =>
    intro j other c hj hc
    exact h.owned_opened j other c (hget j other c hj hc) hc
  case exclusive =>
    intro j k a b c hj hk ha hb
    exact h.exclusive j k a b c (hget j a c hj ha) (hget k b c hk hb) ha hb
  case setup_out =>
    intro j generation c hj
    exact h.setup_out j generation c (hget j _ c hj rfl)
  case held_busy =>
    intro j c hj
    exact h.held_busy j c (hget j _ c hj rfl)
  case held_in =>
    intro j c hj
    exact h.held_in j c (hget j _ c hj rfl)
  case busy_held =>
    intro c hc hbusy
    obtain ⟨j, hj⟩ := h.busy_held c hc hbusy
    exact ⟨j, hkeep j _ hj⟩
  case accounted =>
    intro c hc
    rcases h.accounted c hc with hin | hclosed | ⟨j, other, hj, hconn⟩ | hcancel
    · exact Or.inl hin
    · exact Or.inr (Or.inl hclosed)
    · exact Or.inr (Or.inr (Or.inl ⟨j, other, hkeep j other hj, hconn⟩))
    · exact Or.inr (Or.inr (Or.inr hcancel))

/-! ### The calls of `cancelBackend` -/

/-- The calls of `cancelBackend` matter only for the connections they have in hand. -/
theorem Accounts.recancel {cancels' : List CancelPhase} (h : Accounts pool queries cancels)
    (hcancels : ∀ (j c : ℕ), cancels[j]? = some (CancelPhase.querying c) →
      (pool.wrappers c).isOpen = false ∨ ∃ k : ℕ, cancels'[k]? = some (CancelPhase.querying c)) :
    Accounts pool queries cancels' where
  futures := h.futures
  capacity := h.capacity
  slots := h.slots
  nodup := h.nodup
  conns_opened := h.conns_opened
  owned_opened := h.owned_opened
  exclusive := h.exclusive
  setup_out := h.setup_out
  held_busy := h.held_busy
  held_in := h.held_in
  busy_held := h.busy_held
  accounted c hc := by
    rcases h.accounted c hc with hin | hclosed | hquery | ⟨j, hj⟩
    · exact Or.inl hin
    · exact Or.inr (Or.inl hclosed)
    · exact Or.inr (Or.inr (Or.inl hquery))
    · rcases hcancels j c hj with hclosed | hcancel
      · exact Or.inr (Or.inl hclosed)
      · exact Or.inr (Or.inr (Or.inr hcancel))

/-- `cancelBackend` opens a connection of its own. -/
theorem Accounts.cancel_opened (h : Accounts pool queries cancels)
    (hi : cancels[i]? = some .connecting) :
    Accounts pool.newConn queries (cancels.set i (.querying pool.opened)) where
  futures := h.futures.newConn
  capacity := h.capacity
  slots := h.slots
  nodup := h.nodup
  conns_opened c hc := Nat.lt_succ_of_lt (h.conns_opened c hc)
  owned_opened j other c hj hc := Nat.lt_succ_of_lt (h.owned_opened j other c hj hc)
  exclusive := h.exclusive
  setup_out := h.setup_out
  held_busy j c hj := by
    rw [isPgDbConnBusy_newConn_of_ne (h.owned_opened j _ c hj rfl).ne]
    exact h.held_busy j c hj
  held_in j c hj := by
    rw [newConn_wrappers_of_ne (h.owned_opened j _ c hj rfl).ne]
    exact h.held_in j c hj
  busy_held c hc hbusy := by
    rw [isPgDbConnBusy_newConn_of_ne (h.conns_opened c hc).ne] at hbusy
    exact h.busy_held c hc hbusy
  accounted c hc := by
    obtain ⟨hlt, -⟩ := List.getElem?_eq_some_iff.mp hi
    by_cases hnew : c = pool.opened
    · refine Or.inr (Or.inr (Or.inr ⟨i, ?_⟩))
      rw [List.getElem?_set_self hlt, hnew]
    · rw [newConn_wrappers_of_ne hnew]
      rcases h.accounted c (Nat.lt_of_le_of_ne (Nat.le_of_lt_succ hc) hnew) with
        hin | hclosed | hquery | ⟨j, hj⟩
      · exact Or.inl hin
      · exact Or.inr (Or.inl hclosed)
      · exact Or.inr (Or.inr (Or.inl hquery))
      · refine Or.inr (Or.inr (Or.inr ⟨j, ?_⟩))
        rw [List.getElem?_set_ne]
        · exact hj
        · rintro rfl
          rw [hi] at hj
          cases hj

end Moves

end LogosDelivery.Archive.Pool
