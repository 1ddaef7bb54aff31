import LogosDelivery.Rln.NonceManager

/-! # The saved message id row

The store keeps one row for an identity.  Writes are submitted in order and processed in that
order, each with an outcome: it is committed, or it fails.  A save is reported as committed only if
its outcome says so; a crash loses the writes that were not processed yet.

An id is secured (`Secures`) when the row counts it and so does every write that may still be
applied. -/

namespace LogosDelivery.Rln

/-- The stored row of one identity. -/
structure StoredMessageIds where
  epochIndex : ℕ
  nextId : ℕ
  deriving DecidableEq, Repr

/-- The row counts the id. -/
def StoredMessageIds.Counts (row : StoredMessageIds) (x : ℕ × ℕ) : Prop :=
  Below x row.epochIndex row.nextId

/-- The store: the row, all submitted writes and the outcomes of those processed so far. -/
structure MessageIdStore where
  row : Option StoredMessageIds := none
  submitted : List StoredMessageIds := []
  outcomes : List Bool := []
  /-- Only submitted writes are processed. -/
  processed_le : outcomes.length ≤ submitted.length := by simp
  /-- A write that was committed last is the row. -/
  row_eq : ∀ t, outcomes.length = t + 1 → outcomes[t]? = some true → row = submitted[t]? := by simp

namespace MessageIdStore

variable (store : MessageIdStore)

/-- The writes that were not processed yet. -/
def pending : List StoredMessageIds := store.submitted.drop store.outcomes.length

/-- The write was committed. -/
def committed (ticket : ℕ) : Bool := store.outcomes[ticket]? == some true

/-- Submit a write; its ticket is its place in the order of submission. -/
def saveMessageIds (row : StoredMessageIds) : ℕ × MessageIdStore :=
  (store.submitted.length,
    { row := store.row
      submitted := store.submitted ++ [row]
      outcomes := store.outcomes
      processed_le := by
        have := store.processed_le
        simp
        omega
      row_eq := by
        intro t ht htrue
        have := store.processed_le
        rw [List.getElem?_append_left (by omega)]
        exact store.row_eq t ht htrue })

/-- Process the next write and commit it. -/
def commitNext : MessageIdStore :=
  if h : store.outcomes.length < store.submitted.length then
    { row := store.submitted[store.outcomes.length]?
      submitted := store.submitted
      outcomes := store.outcomes ++ [true]
      processed_le := by
        simp
        omega
      row_eq := by
        intro t ht _
        have hlen : store.outcomes.length = t := by simpa using ht
        rw [hlen] }
  else store

/-- Process the next write, which fails. -/
def failNext : MessageIdStore :=
  if h : store.outcomes.length < store.submitted.length then
    { row := store.row
      submitted := store.submitted
      outcomes := store.outcomes ++ [false]
      processed_le := by
        simp
        omega
      row_eq := by
        intro t ht htrue
        have hlen : store.outcomes.length = t := by simpa using ht
        subst hlen
        simp at htrue }
  else store

/-- The process ends: the row stays, the writes that were not processed are lost. -/
def crash : MessageIdStore where
  row := store.row
  submitted := store.submitted.take store.outcomes.length
  outcomes := store.outcomes
  processed_le := by simp [store.processed_le]
  row_eq := by
    intro t ht htrue
    rw [List.getElem?_take_of_lt (by omega)]
    exact store.row_eq t ht htrue

variable {store}

theorem saveMessageIds_pending (row : StoredMessageIds) :
    (store.saveMessageIds row).2.pending = store.pending ++ [row] :=
  List.drop_append_of_le_length store.processed_le

theorem pending_cons (h : store.outcomes.length < store.submitted.length) :
    store.pending = store.submitted[store.outcomes.length] ::
      store.submitted.drop (store.outcomes.length + 1) :=
  List.drop_eq_getElem_cons h

/-- Committing the next write moves it from the pending ones to the row. -/
theorem commitNext_cases (store : MessageIdStore) :
    store.commitNext = store ∨ ∃ w rest, store.pending = w :: rest ∧
      store.commitNext.row = some w ∧ store.commitNext.pending = rest := by
  unfold commitNext
  split_ifs with h
  · refine Or.inr ⟨_, _, pending_cons h, ?_, ?_⟩
    · exact List.getElem?_eq_getElem h
    · simp [pending]
  · exact Or.inl rfl

theorem failNext_cases (store : MessageIdStore) :
    store.failNext = store ∨ ∃ w, store.pending = w :: store.failNext.pending ∧
      store.failNext.row = store.row := by
  unfold failNext
  split_ifs with h
  · refine Or.inr ⟨store.submitted[store.outcomes.length], ?_, rfl⟩
    rw [pending_cons h]
    simp [pending]
  · exact Or.inl rfl

@[simp] theorem commitNext_submitted : store.commitNext.submitted = store.submitted := by
  unfold commitNext
  split_ifs <;> rfl

@[simp] theorem failNext_submitted : store.failNext.submitted = store.submitted := by
  unfold failNext
  split_ifs <;> rfl

theorem crash_pending : store.crash.pending = [] := by
  simp [pending, crash]

/-- When the last submitted write is committed, it is the row and nothing is pending. -/
theorem row_of_committed {ticket : ℕ} {row : StoredMessageIds}
    (hlast : store.submitted.length = ticket + 1) (hrow : store.submitted[ticket]? = some row)
    (h : store.committed ticket = true) : store.row = some row ∧ store.pending = [] := by
  have htrue : store.outcomes[ticket]? = some true := by simpa [committed] using h
  have hlt : ticket < store.outcomes.length := (List.getElem?_eq_some_iff.mp htrue).1
  have hle := store.processed_le
  have hlen : store.outcomes.length = ticket + 1 := by omega
  refine ⟨(store.row_eq ticket hlen htrue).trans hrow, ?_⟩
  apply List.drop_eq_nil_of_le
  omega

/-! ### Secured ids -/

variable (store) in
/-- The row counts the id, now and whatever pending writes are still applied. -/
def Secures (x : ℕ × ℕ) : Prop :=
  (∃ row, store.row = some row ∧ row.Counts x) ∧ ∀ w ∈ store.pending, w.Counts x

theorem Secures.saveMessageIds {x : ℕ × ℕ} (h : store.Secures x) {row : StoredMessageIds}
    (hrow : row.Counts x) : (store.saveMessageIds row).2.Secures x := by
  refine ⟨h.1, ?_⟩
  intro w hw
  rw [saveMessageIds_pending] at hw
  rcases List.mem_append.mp hw with hw | hw
  · exact h.2 w hw
  · rw [List.mem_singleton.mp hw]
    exact hrow

theorem Secures.commitNext {x : ℕ × ℕ} (h : store.Secures x) : store.commitNext.Secures x := by
  rcases commitNext_cases store with heq | ⟨w, rest, hpending, hrow, hrest⟩
  · rw [heq]
    exact h
  · refine ⟨⟨w, hrow, h.2 w (by rw [hpending]; exact List.mem_cons_self)⟩, ?_⟩
    intro w' hw'
    rw [hrest] at hw'
    exact h.2 w' (by rw [hpending]; exact List.mem_cons_of_mem _ hw')

theorem Secures.failNext {x : ℕ × ℕ} (h : store.Secures x) : store.failNext.Secures x := by
  rcases failNext_cases store with heq | ⟨w, hpending, hrow⟩
  · rw [heq]
    exact h
  · refine ⟨by rw [hrow]; exact h.1, ?_⟩
    intro w' hw'
    exact h.2 w' (by rw [hpending]; exact List.mem_cons_of_mem _ hw')

theorem Secures.crash {x : ℕ × ℕ} (h : store.Secures x) : store.crash.Secures x := by
  refine ⟨h.1, ?_⟩
  rw [crash_pending]
  simp

end MessageIdStore

end LogosDelivery.Rln
