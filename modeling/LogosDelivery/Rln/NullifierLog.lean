import LogosDelivery.Lib.Table
import LogosDelivery.Rln.Epoch

/-! # The nullifier log

A node logs the nullifiers of the messages it accepted, epoch by epoch; a second message with the
same nullifier in the same epoch is spam.  Epochs that are `rlnMaxEpochGap` or more away from the
current one are dropped.  The difference is taken between 64-bit numbers, so that in the first
epochs everything is dropped.

What a log knows is `Logged`; each operation is described by what it makes of that. -/

namespace LogosDelivery.Rln

abbrev Nullifier := Bytes32
abbrev MerkleNode := Bytes32
abbrev RlnIdentifier := Bytes32
abbrev ExternalNullifier := Bytes32

structure ProofMetadata where
  nullifier : Nullifier
  shareX : MerkleNode
  shareY : MerkleNode
  externalNullifier : ExternalNullifier
  deriving DecidableEq

/-- The nullifiers of the accepted messages, grouped by epoch. -/
abbrev NullifierLog := AList (fun _ : Epoch => AList (fun _ : Nullifier => ProofMetadata))

namespace NullifierLog

/-- Whether the nullifier is in the log of the epoch.  The lookup after the test for the key cannot
fail. -/
def hasDuplicate (log : NullifierLog) (epoch : Epoch) (proofMetadata : ProofMetadata) :
    Except String Bool :=
  match log.lookup epoch with
  | none => .ok false
  | some table => .ok (decide (proofMetadata.nullifier ∈ table))

/-- Log a nullifier, unless it is there already. -/
def updateLog (log : NullifierLog) (epoch : Epoch) (proofMetadata : ProofMetadata) : NullifierLog :=
  match log.lookup epoch with
  | none => log.insert epoch (AList.insert proofMetadata.nullifier proofMetadata ∅)
  | some table =>
      if proofMetadata.nullifier ∈ table then log
      else log.insert epoch (table.insert proofMetadata.nullifier proofMetadata)

/-- The epochs that are dropped when the current one is `currentEpoch`, in 64-bit arithmetic. -/
def dropped (params : RlnParams) (currentEpoch : ℕ) (epoch : Epoch) : Bool :=
  decide ((currentEpoch + params.rlnMaxEpochGap) % 2 ^ 64 ≤ fromEpoch epoch) ||
    decide (fromEpoch epoch ≤ (currentEpoch + 2 ^ 64 - params.rlnMaxEpochGap % 2 ^ 64) % 2 ^ 64)

/-- Drop the epochs that are too far from the clock. -/
def clearNullifierLog (params : RlnParams) (now : ℚ) (log : NullifierLog) : NullifierLog :=
  let currentEpoch := fromEpoch (params.calcEpoch now)
  let epochsToRemove := log.keys.filter (dropped params currentEpoch)
  epochsToRemove.foldl (fun log epoch => log.erase epoch) log

/-- The nullifier is in the log of the epoch. -/
def Logged (log : NullifierLog) (epoch : Epoch) (nullifier : Nullifier) : Prop :=
  ∃ table, log.lookup epoch = some table ∧ nullifier ∈ table

/-- A clearing at the time leaves the epoch. -/
def Keeps (params : RlnParams) (now : ℚ) (epoch : Epoch) : Prop :=
  dropped params (fromEpoch (params.calcEpoch now)) epoch = false

instance (params : RlnParams) (now : ℚ) (epoch : Epoch) : Decidable (Keeps params now epoch) :=
  inferInstanceAs (Decidable (_ = _))

variable {log : NullifierLog} {epoch : Epoch} {nullifier : Nullifier}

theorem not_logged_empty : ¬ Logged (∅ : NullifierLog) epoch nullifier := by
  rintro ⟨table, hlookup, _⟩
  simp at hlookup

/-- The duplicate check answers whether the nullifier is logged. -/
theorem hasDuplicate_eq (log : NullifierLog) (epoch : Epoch) (proofMetadata : ProofMetadata) :
    ∃ b, log.hasDuplicate epoch proofMetadata = .ok b ∧
      (b = true ↔ log.Logged epoch proofMetadata.nullifier) := by
  unfold hasDuplicate Logged
  cases hlookup : log.lookup epoch with
  | none => exact ⟨false, rfl, by simp⟩
  | some table => exact ⟨_, rfl, by simp⟩

/-- After an update exactly its nullifier is logged in addition. -/
theorem logged_updateLog {epoch' : Epoch} {proofMetadata : ProofMetadata} :
    (log.updateLog epoch' proofMetadata).Logged epoch nullifier ↔
      epoch = epoch' ∧ nullifier = proofMetadata.nullifier ∨ log.Logged epoch nullifier := by
  unfold updateLog
  cases hlookup : log.lookup epoch' with
  | none =>
      dsimp only
      unfold Logged
      by_cases he : epoch = epoch'
      · subst he
        rw [AList.lookup_insert, hlookup]
        simp [-AList.insert_empty, AList.mem_insert]
      · rw [AList.lookup_insert_ne he]
        simp [he]
  | some table =>
      dsimp only
      split_ifs with hmem
      · constructor
        · exact Or.inr
        · rintro (⟨rfl, rfl⟩ | h)
          · exact ⟨table, hlookup, hmem⟩
          · exact h
      · unfold Logged
        by_cases he : epoch = epoch'
        · subst he
          rw [AList.lookup_insert, hlookup]
          simp [AList.mem_insert]
        · rw [AList.lookup_insert_ne he]
          simp [he]

/-- Clearing keeps the log of the epochs near the clock and drops the others. -/
theorem logged_clearNullifierLog {params : RlnParams} {now : ℚ} :
    (log.clearNullifierLog params now).Logged epoch nullifier ↔
      log.Logged epoch nullifier ∧ Keeps params now epoch := by
  unfold clearNullifierLog Logged Keeps
  dsimp only
  rw [Lib.Table.lookup_foldl_erase]
  by_cases hmem : epoch ∈ log.keys
  · by_cases hdrop : dropped params (fromEpoch (params.calcEpoch now)) epoch = true
    · simp [hmem, hdrop]
    · simp [hdrop]
  · have hnone : log.lookup epoch = none := AList.lookup_eq_none.mpr hmem
    simp [hnone]

end NullifierLog

end LogosDelivery.Rln
