import LogosDelivery.Rln.Epoch

/-! # Message ids in memory

Each epoch allows `nonceLimit` ids, handed out in order; epochs only move forward.  The counter is
above every id that was drawn (`Below`), and giving an id back lowers it only past that one id
(`below_release`). -/

namespace LogosDelivery.Rln

/-- The message ids of a backend: the current epoch, the next id in it and the limit. -/
structure NonceManager where
  epochIndex : ℕ := 0
  nextId : ℕ := 0
  nonceLimit : ℕ
  deriving DecidableEq, Repr

/-- The id `x`, an epoch and a number in it, was drawn before a counter got to `nextId` in the
epoch. -/
def Below (x : ℕ × ℕ) (epochIndex : ℕ) (nextId : ℕ) : Prop :=
  x.1 < epochIndex ∨ x.1 = epochIndex ∧ x.2 < nextId

instance (x : ℕ × ℕ) (epochIndex : ℕ) (nextId : ℕ) : Decidable (Below x epochIndex nextId) :=
  inferInstanceAs (Decidable (_ ∨ _))

namespace NonceManager

variable (n : NonceManager)

/-- Load a counter read back from storage, never moving the counter back. -/
def restore (epochIndex : ℕ) (nextId : ℕ) : NonceManager :=
  if n.epochIndex < epochIndex ∨ epochIndex = n.epochIndex ∧ n.nextId < nextId then
    { n with epochIndex := epochIndex, nextId := min nextId n.nonceLimit }
  else n

/-- Draw the next id of an epoch. -/
def reserve (epochIndex : ℕ) : Except RlnError ℕ × NonceManager :=
  if epochIndex < n.epochIndex then
    (.error ⟨.permanent, "requested epoch " ++ toString epochIndex ++
      " is before the current epoch " ++ toString n.epochIndex⟩, n)
  else
    let n := if n.epochIndex < epochIndex then { n with epochIndex := epochIndex, nextId := 0 } else n
    if n.nonceLimit ≤ n.nextId then
      (.error ⟨.budgetExhausted, "message ids for epoch " ++ toString epochIndex ++
        " are spent; limit: " ++ toString n.nonceLimit⟩, n)
    else (.ok n.nextId, { n with nextId := n.nextId + 1 })

/-- Give an id back; only the latest one drawn can be. -/
def release (epochIndex : ℕ) (id : ℕ) : NonceManager :=
  if epochIndex = n.epochIndex ∧ id + 1 = n.nextId then { n with nextId := id } else n

/-- The ids drawn in an epoch; zero for any epoch but the current one. -/
def spent (epochIndex : ℕ) : ℕ := if epochIndex ≠ n.epochIndex then 0 else n.nextId

/-- The counter is above the id. -/
def Counts (x : ℕ × ℕ) : Prop := Below x n.epochIndex n.nextId

variable {n}

/-- **Drawing an id**: it fails, possibly after moving on to the epoch, or the id is the next one
and the counter is right above it. -/
theorem reserve_cases (epochIndex : ℕ) :
    (∃ e n', n.reserve epochIndex = (.error e, n') ∧
      (n' = n ∨ n.epochIndex < epochIndex ∧ n' = { n with epochIndex := epochIndex, nextId := 0 })) ∨
    ∃ id, n.reserve epochIndex =
        (.ok id, { n with epochIndex := epochIndex, nextId := id + 1 }) ∧ id < n.nonceLimit ∧
      (n.epochIndex < epochIndex ∧ id = 0 ∨ n.epochIndex = epochIndex ∧ id = n.nextId) := by
  unfold reserve
  by_cases hpast : epochIndex < n.epochIndex
  · rw [if_pos hpast]
    exact Or.inl ⟨_, n, rfl, Or.inl rfl⟩
  · rw [if_neg hpast]
    by_cases hnew : n.epochIndex < epochIndex
    · simp only [if_pos hnew]
      by_cases hlimit : n.nonceLimit ≤ 0
      · rw [if_pos hlimit]
        exact Or.inl ⟨_, _, rfl, Or.inr ⟨hnew, rfl⟩⟩
      · rw [if_neg hlimit]
        exact Or.inr ⟨0, rfl, by omega, Or.inl ⟨hnew, rfl⟩⟩
    · have heq : n.epochIndex = epochIndex := by omega
      simp only [if_neg hnew]
      by_cases hlimit : n.nonceLimit ≤ n.nextId
      · rw [if_pos hlimit]
        exact Or.inl ⟨_, _, rfl, Or.inl rfl⟩
      · rw [if_neg hlimit]
        refine Or.inr ⟨n.nextId, ?_, by omega, Or.inr ⟨heq, rfl⟩⟩
        rw [← heq]

/-- An id that was drawn is still counted after a failed draw. -/
theorem Counts.of_reserve_error {epochIndex : ℕ} {e : RlnError} {n' : NonceManager}
    (h : n.reserve epochIndex = (.error e, n')) {x : ℕ × ℕ} (hx : n.Counts x) : n'.Counts x := by
  rcases reserve_cases (n := n) epochIndex with ⟨e', n'', heq, hcase⟩ | ⟨id, heq, _⟩
  · rw [heq] at h
    obtain ⟨_, rfl⟩ := Prod.mk.inj h
    rcases hcase with rfl | ⟨hlt, rfl⟩
    · exact hx
    · left
      rcases hx with hx | hx
      · exact hx.trans hlt
      · exact hx.1 ▸ hlt
  · rw [heq] at h
    exact absurd (Prod.mk.inj h).1 (by simp)

/-- A drawn id is new, counted from now on, and below the limit. -/
theorem reserve_ok {epochIndex : ℕ} {id : ℕ} {n' : NonceManager}
    (h : n.reserve epochIndex = (.ok id, n')) :
    n' = { n with epochIndex := epochIndex, nextId := id + 1 } ∧ id < n.nonceLimit ∧
      ¬ n.Counts (epochIndex, id) ∧ ∀ x, n.Counts x → Below x epochIndex (id + 1) := by
  rcases reserve_cases (n := n) epochIndex with ⟨e, n'', heq, _⟩ | ⟨id', heq, hlt, hcase⟩
  · rw [heq] at h
    exact absurd (Prod.mk.inj h).1 (by simp)
  · rw [heq] at h
    obtain ⟨hid, rfl⟩ := Prod.mk.inj h
    obtain rfl := Except.ok.inj hid
    refine ⟨rfl, hlt, ?_, ?_⟩
    · unfold Counts Below
      dsimp only
      omega
    · intro x hx
      unfold Counts Below at hx
      unfold Below
      omega

theorem reserve_nonceLimit (epochIndex : ℕ) : (n.reserve epochIndex).2.nonceLimit = n.nonceLimit := by
  rcases reserve_cases (n := n) epochIndex with ⟨e, n', heq, rfl | ⟨_, rfl⟩⟩ | ⟨id, heq, _⟩ <;> rw [heq]

theorem release_nonceLimit (epochIndex : ℕ) (id : ℕ) :
    (n.release epochIndex id).nonceLimit = n.nonceLimit := by
  unfold release
  split_ifs <;> rfl

/-- Giving an id back keeps every other id counted. -/
theorem Counts.release {epochIndex : ℕ} {id : ℕ} {x : ℕ × ℕ} (hx : n.Counts x)
    (hne : x ≠ (epochIndex, id)) : (n.release epochIndex id).Counts x := by
  unfold NonceManager.release
  split_ifs with h
  · obtain ⟨x₁, x₂⟩ := x
    have hne' : ¬ (x₁ = epochIndex ∧ x₂ = id) := fun hc => hne (Prod.ext hc.1 hc.2)
    unfold Counts Below at *
    dsimp only at *
    omega
  · exact hx

/-- Giving an id back lowers the counter to it, if it changes anything. -/
theorem release_changed {epochIndex : ℕ} {id : ℕ}
    (h : (n.release epochIndex id).nextId ≠ n.nextId) :
    (n.release epochIndex id).epochIndex = epochIndex := by
  unfold release at h ⊢
  split_ifs at h ⊢ with hcond
  · exact hcond.1.symm
  · exact absurd rfl h

/-- A restored counter is above every id that the row counts, if that is below the limit. -/
theorem counts_restore {epochIndex : ℕ} {nextId : ℕ} {x : ℕ × ℕ}
    (hx : Below x epochIndex nextId) (hlimit : x.2 < n.nonceLimit) :
    (n.restore epochIndex nextId).Counts x := by
  unfold restore
  split_ifs with h
  · unfold Counts Below at *
    dsimp only
    omega
  · unfold Counts Below at *
    omega

theorem restore_nonceLimit (epochIndex : ℕ) (nextId : ℕ) :
    (n.restore epochIndex nextId).nonceLimit = n.nonceLimit := by
  unfold restore
  split_ifs <;> rfl

end NonceManager

end LogosDelivery.Rln
