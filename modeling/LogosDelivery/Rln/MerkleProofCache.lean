import LogosDelivery.Lib.Runs

/-! # The Merkle proof path of the on-chain group manager

`ensureFreshMerkleProofPath`, `invalidateMerkleProofCache` and `scheduleMerkleProofRefresh` of
`group_manager.nim`, cut at their await points.  The callers that find the cache empty share one
refetch; it fetches the path again while invalidates race it, keeps the path that none has raced,
and then still waits for the member count.  Each fetch succeeds, fails or raises, after any time.

The generation of the cache is the number of invalidates so far; a path comes with the generation
at which its fetch started, and a call with the one at which it was made.  In the source it is a
`uint64`, of which only the values before and after a fetch are compared: they are equal just when the
numbers are, as long as fewer than `2 ^ 64` invalidates happen during one fetch. -/

namespace LogosDelivery.Rln.MerkleProof

open Lib

structure Path where
  bytes : List UInt8
  since : ℕ
deriving DecidableEq

def Path.empty : Path := ⟨[], 0⟩

def MerkleProofRefetchMaxAttempts : ℕ := 3

/-- The shared refetch, `doRefresh`: at its `attempt`-th fetch, at the update of the member count or
finished, with the path that it returned if it did not raise; `usedUp` tells that an invalidate
raced the last attempt too. -/
inductive Refetch where
  | fetching (attempt : ℕ) (generation : ℕ)
  | updatingMemberCount (path : Path) (usedUp : Bool)
  | finished (returned : Option Path) (usedUp : Bool)
deriving DecidableEq

def Refetch.isFinished : Refetch → Bool
  | .finished _ _ => true
  | _ => false

/-- A call of `ensureFreshMerkleProofPath`, made at the generation `since`. -/
inductive Call where
  | joining (since : ℕ) (refetch : ℕ)
  | returned (since : ℕ) (refetch : Option ℕ) (result : Except String Path)

/-- `refreshLoop`; it has stopped before its first start too. -/
inductive RefreshLoop where
  | stopped
  | awaiting (call : ℕ)
  | sleeping
deriving DecidableEq

structure RlnEvmGroupManager where
  initialized : Bool
  membershipIndex : Option ℕ
  merkleProofCache : Path
  merkleProofCacheGeneration : ℕ
  proofPathRefreshInFlightFut : Option ℕ
  proofPathRefreshLoopFut : RefreshLoop
  refetches : ℕ → Option Refetch
  refetchCount : ℕ
  calls : ℕ → Option Call
  callCount : ℕ

namespace RlnEvmGroupManager

def new (initialized : Bool) (membershipIndex : Option ℕ) : RlnEvmGroupManager where
  initialized := initialized
  membershipIndex := membershipIndex
  merkleProofCache := .empty
  merkleProofCacheGeneration := 0
  proofPathRefreshInFlightFut := none
  proofPathRefreshLoopFut := .stopped
  refetches := fun _ => none
  refetchCount := 0
  calls := fun _ => none
  callCount := 0

def setRefetch (g : RlnEvmGroupManager) (r : ℕ) (refetch : Refetch) : RlnEvmGroupManager :=
  { g with refetches := Function.update g.refetches r (some refetch) }

def setCall (g : RlnEvmGroupManager) (c : ℕ) (call : Call) : RlnEvmGroupManager :=
  { g with calls := Function.update g.calls c (some call) }

def addCall (g : RlnEvmGroupManager) (call : Call) : RlnEvmGroupManager :=
  { g.setCall g.callCount call with callCount := g.callCount + 1 }

/-- `doRefresh` up to its first wait. -/
def doRefresh (g : RlnEvmGroupManager) : RlnEvmGroupManager :=
  { g.setRefetch g.refetchCount (.fetching 1 g.merkleProofCacheGeneration) with
    refetchCount := g.refetchCount + 1
    proofPathRefreshInFlightFut := some g.refetchCount }

/-- The refetch in flight, unless it is nil or finished. -/
def unfinishedRefetch (g : RlnEvmGroupManager) : Option ℕ :=
  g.proofPathRefreshInFlightFut.filter
    (fun r => (g.refetches r).any (fun refetch => !refetch.isFinished))

/-- A call up to its wait for the refetch. -/
def ensureFreshMerkleProofPath (g : RlnEvmGroupManager) : RlnEvmGroupManager :=
  let since := g.merkleProofCacheGeneration
  if g.membershipIndex.isNone then
    g.addCall (.returned since none (.error "membership index is not set"))
  else if g.merkleProofCache.bytes.length > 0 then
    g.addCall (.returned since none (.ok g.merkleProofCache))
  else
    match g.unfinishedRefetch with
    | some r => g.addCall (.joining since r)
    | none => g.doRefresh.addCall (.joining since g.refetchCount)

def invalidateMerkleProofCache (g : RlnEvmGroupManager) : RlnEvmGroupManager :=
  { g with
    merkleProofCache := .empty
    merkleProofCacheGeneration := g.merkleProofCacheGeneration + 1 }

/-- The head of the `while` of `refreshLoop`, and the call behind it. -/
def refreshLoop (g : RlnEvmGroupManager) : RlnEvmGroupManager :=
  if g.initialized && g.membershipIndex.isSome && g.merkleProofCache.bytes.length == 0 then
    { g.ensureFreshMerkleProofPath with proofPathRefreshLoopFut := .awaiting g.callCount }
  else { g with proofPathRefreshLoopFut := .stopped }

def scheduleMerkleProofRefresh (g : RlnEvmGroupManager) : RlnEvmGroupManager :=
  let g := g.invalidateMerkleProofCache
  if g.proofPathRefreshLoopFut = .stopped then g.refreshLoop else g

inductive FetchOutcome where
  | ok (bytes : List UInt8)
  | err
  | raised

/-- `doRefresh` behind its loop. -/
def afterFetches (g : RlnEvmGroupManager) (r : ℕ) (path : Path) (usedUp : Bool) :
    RlnEvmGroupManager :=
  if path.bytes.length > 0 then g.setRefetch r (.updatingMemberCount path usedUp)
  else g.setRefetch r (.finished (some path) usedUp)

/-- `doRefresh` goes on after a fetch. -/
def fetched (g : RlnEvmGroupManager) (r attempt generation : ℕ) :
    FetchOutcome → RlnEvmGroupManager
  | .ok bytes =>
      if g.merkleProofCacheGeneration = generation then
        { g with merkleProofCache := ⟨bytes, generation⟩ }.afterFetches r ⟨bytes, generation⟩ false
      else if attempt < MerkleProofRefetchMaxAttempts then
        g.setRefetch r (.fetching (attempt + 1) g.merkleProofCacheGeneration)
      else g.afterFetches r ⟨bytes, generation⟩ true
  | .err => g.setRefetch r (.finished (some .empty) false)
  | .raised => g.setRefetch r (.finished none false)

/-- What a caller makes of a finished refetch. -/
def resultOf : Option Path → Except String Path
  | none => .error "merkle proof path refresh failed"
  | some path =>
      if path.bytes.length = 0 then .error "merkle proof path refresh failed" else .ok path

/-- One step: a call from outside, or a part of the manager goes on after a wait: a refetch after
its fetch or its update of the member count, a call after its refetch, the loop after its call or
its sleep. -/
inductive Action where
  | invalidateMerkleProofCache
  | scheduleMerkleProofRefresh
  | ensureFreshMerkleProofPath
  | fetched (r : ℕ) (outcome : FetchOutcome)
  | memberCountUpdated (r : ℕ) (raised : Bool)
  | resumeCall (c : ℕ)
  | resumeLoop

def step (g : RlnEvmGroupManager) : Action → RlnEvmGroupManager
  | .invalidateMerkleProofCache => g.invalidateMerkleProofCache
  | .scheduleMerkleProofRefresh => g.scheduleMerkleProofRefresh
  | .ensureFreshMerkleProofPath => g.ensureFreshMerkleProofPath
  | .fetched r outcome =>
      match g.refetches r with
      | some (.fetching attempt generation) => g.fetched r attempt generation outcome
      | _ => g
  | .memberCountUpdated r raised =>
      match g.refetches r with
      | some (.updatingMemberCount path usedUp) =>
          g.setRefetch r (.finished (if raised then none else some path) usedUp)
      | _ => g
  | .resumeCall c =>
      match g.calls c with
      | some (.joining since r) =>
          match g.refetches r with
          | some (.finished returned _) =>
              g.setCall c (.returned since (some r) (resultOf returned))
          | _ => g
      | _ => g
  | .resumeLoop =>
      match g.proofPathRefreshLoopFut with
      | .stopped => g
      | .awaiting c =>
          match g.calls c with
          | some (.returned _ _ _) =>
              if g.merkleProofCache.bytes.length = 0 then
                { g with proofPathRefreshLoopFut := .sleeping }
              else g.refreshLoop
          | _ => g
      | .sleeping => g.refreshLoop

/-- The state after the actions. -/
def after (initialized : Bool) (membershipIndex : Option ℕ) (actions : List Action) :
    RlnEvmGroupManager :=
  run step (new initialized membershipIndex) actions

end RlnEvmGroupManager

end LogosDelivery.Rln.MerkleProof
