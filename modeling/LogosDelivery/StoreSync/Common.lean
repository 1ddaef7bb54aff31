import Mathlib

/-! # Store sync: the data exchanged by two nodes

The types of `waku_store_sync/common.nim`.  A `SyncID` names a message by its time and its hash;
a `RangesData` is one payload of a reconciliation session: a list of ranges of `SyncID`s, each
tagged with its kind, and beside it the fingerprints and the item sets of the ranges that carry
one, in the order of the ranges.

`SyncID`s are compared by `cmp`, first by time and then by hash, byte by byte.  The same order is
given here as a `LinearOrder` (`cmp_neg_iff`, `cmp_nonpos_iff`), which is what later proofs use.

Times are `int64` nanoseconds in the code and integers here.  The only arithmetic on them is the
length of a range and the split of a range into parts; a bound that was decoded from a payload is
between `0` and `2 ^ 63 - 1`, so neither leaves the `int64` range. -/

namespace LogosDelivery.StoreSync

abbrev Byte := Fin 256

instance byteCountNeZero : NeZero (256 : ℕ) := ⟨by decide⟩

abbrev PubsubTopic := String
abbrev ContentTopic := String

/-- An `array[32, byte]`. -/
abbrev Fingerprint := {l : List Byte // l.length = 32}
abbrev WakuMessageHash := Fingerprint

/-- Local placeholder topic of an element that a peer promised and that has not arrived yet. -/
def pendingPubsubTopic : PubsubTopic := "/waku/2/sync/pending"

/-- The array of 32 equal bytes. -/
def constFingerprint (b : Byte) : Fingerprint := ⟨List.replicate 32 b, List.length_replicate⟩

def emptyFingerprint : Fingerprint := constFingerprint 0
def fullFingerprint : Fingerprint := constFingerprint 255

/-- Bytewise `xor` of two arrays. -/
def Fingerprint.xor (x y : Fingerprint) : Fingerprint :=
  ⟨List.zipWith (· ^^^ ·) x.1 y.1, by rw [List.length_zipWith, x.2, y.2]; rfl⟩

/-- The `xor` of a list of hashes, starting from the empty fingerprint. -/
def xorAll (hs : List WakuMessageHash) : Fingerprint := hs.foldl Fingerprint.xor emptyFingerprint

@[ext]
structure SyncID where
  time : ℤ
  hash : WakuMessageHash
deriving DecidableEq

structure ItemSet where
  elements : List SyncID
  reconciled : Bool
deriving DecidableEq

inductive RangeType where
  | skip
  | fingerprint
  | itemSet
deriving DecidableEq

/-- A Nim `Slice`: the bounds `a .. b`. -/
@[ext]
structure Slice (α : Type) where
  a : α
  b : α
deriving DecidableEq

structure RangesData where
  cluster : UInt16 := 0
  shards : List UInt16 := []
  ranges : List (Slice SyncID × RangeType) := []
  fingerprints : List Fingerprint := []
  itemSets : List ItemSet := []
deriving DecidableEq

/-- The topic of a relay shard, `$RelayShard(clusterId, shardId)`. -/
def relayShardTopic (clusterId shardId : UInt16) : PubsubTopic :=
  "/waku/2/rs/" ++ toString clusterId.toNat ++ "/" ++ toString shardId.toNat

/-! ### The order of `SyncID`s -/

/-- `cmp` on hashes. -/
def cmpHash (x y : Fingerprint) : ℤ := if x < y then -1 else if x = y then 0 else 1

/-- `cmp` on `SyncID`s. -/
def cmp (x y : SyncID) : ℤ :=
  if x.time = y.time then cmpHash x.hash y.hash
  else if x.time < y.time then -1
  else 1

namespace SyncID

/-- Time first, then hash. -/
def key (x : SyncID) : ℤ ×ₗ Fingerprint := toLex (x.time, x.hash)

theorem key_injective : Function.Injective key := by
  intro x y h
  have h' := toLex.injective h
  rw [Prod.mk.injEq] at h'
  exact SyncID.ext h'.1 h'.2

instance : LinearOrder SyncID := LinearOrder.lift' key key_injective

theorem lt_iff {x y : SyncID} : x < y ↔ x.time < y.time ∨ x.time = y.time ∧ x.hash < y.hash :=
  Prod.Lex.toLex_lt_toLex

theorem le_iff {x y : SyncID} : x ≤ y ↔ x.time < y.time ∨ x.time = y.time ∧ x.hash ≤ y.hash :=
  Prod.Lex.toLex_le_toLex

theorem time_le_of_le {x y : SyncID} (h : x ≤ y) : x.time ≤ y.time := by
  rcases le_iff.mp h with h | h
  · exact h.le
  · exact h.1.le

theorem lt_of_time_lt {x y : SyncID} (h : x.time < y.time) : x < y := lt_iff.mpr (Or.inl h)

end SyncID

theorem cmpHash_neg_iff {x y : Fingerprint} : cmpHash x y < 0 ↔ x < y := by
  unfold cmpHash
  split_ifs with h1 h2 <;> simp [h1]

theorem cmpHash_nonpos_iff {x y : Fingerprint} : cmpHash x y ≤ 0 ↔ x ≤ y := by
  unfold cmpHash
  split_ifs with h1 h2
  · simp [h1.le]
  · simp [h2]
  · have : ¬ x ≤ y := fun h => h2 (le_antisymm h (not_lt.mp h1))
    simp [this]

theorem cmp_neg_iff {x y : SyncID} : cmp x y < 0 ↔ x < y := by
  rw [SyncID.lt_iff]
  unfold cmp
  split_ifs with h1 h2
  · simp [h1, cmpHash_neg_iff]
  · simp [h2]
  · simp [h1, h2]

theorem cmp_nonpos_iff {x y : SyncID} : cmp x y ≤ 0 ↔ x ≤ y := by
  rw [SyncID.le_iff]
  unfold cmp
  split_ifs with h1 h2
  · simp [h1, cmpHash_nonpos_iff]
  · simp [h2]
  · simp [h1, h2]

/-- `cmp` takes three values only. -/
theorem cmp_values (x y : SyncID) : cmp x y = -1 ∨ cmp x y = 0 ∨ cmp x y = 1 := by
  unfold cmp cmpHash
  split_ifs <;> simp

/-- The `<` of the source, `cmp x y == -1`. -/
theorem cmp_eq_neg_one_iff {x y : SyncID} : cmp x y = -1 ↔ x < y := by
  rw [← cmp_neg_iff]
  rcases cmp_values x y with h | h | h <;> simp [h]

/-- The `>` of the source, `cmp x y == 1`. -/
theorem cmp_eq_one_iff {x y : SyncID} : cmp x y = 1 ↔ y < x := by
  rw [← not_le, ← cmp_nonpos_iff]
  rcases cmp_values x y with h | h | h <;> simp [h]

theorem replicate_zero_le : ∀ (n : ℕ) (l : List Byte), l.length = n →
    List.replicate n (0 : Byte) ≤ l
  | 0, l, hl => by
      rw [List.length_eq_zero_iff.mp hl]
      exact le_rfl
  | n + 1, [], hl => by simp at hl
  | n + 1, b :: l, hl => by
      have ih := replicate_zero_le n l (by simpa using hl)
      rw [List.replicate_succ]
      rcases eq_or_lt_of_le (Fin.zero_le b) with hb | hb
      · rw [← hb]
        exact List.cons_le_cons _ ih
      · exact le_of_lt (List.cons_lt_cons_iff.mpr (Or.inl hb))

/-- No hash is below the empty one. -/
theorem emptyFingerprint_le (h : Fingerprint) : emptyFingerprint ≤ h := replicate_zero_le 32 h.1 h.2

end LogosDelivery.StoreSync
