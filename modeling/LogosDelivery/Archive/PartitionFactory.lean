import LogosDelivery.Lib.Runs

/-! # The partition factory of the Postgres archive

`partitions_manager.nim` and the passes of `loopPartitionFactory` in `postgres_driver.nim`, for any
number of instances that share a database.  A pass reads the attached partitions, adds the one that
contains now if there is none, the one after it, and at startup what is not covered of the hours
before.  It waits for the database at each partition that it adds; there the addition succeeds,
fails or is deferred to the instance that holds the lock, and the other instances go on.

A partition is given by its time range, in seconds since the epoch, from which its name is made and
to which the name is parsed back.  The database attaches whatever it is asked to: that no two
partitions overlap is for the factory to see to. -/

namespace LogosDelivery.Archive.Partitions

open Lib

/-! ### The partition manager -/

structure Partition where
  beginning : ℤ
  lastMoment : ℤ
deriving DecidableEq

namespace Partition

def name (p : Partition) : String :=
  "messages_" ++ toString p.beginning ++ "_" ++ toString p.lastMoment

def containsMoment (p : Partition) (time : ℤ) : Bool :=
  decide (p.beginning ≤ time ∧ time < p.lastMoment)

end Partition

def getPartitionFromDateTime (partitions : List Partition) (targetMoment : ℤ) : Option Partition :=
  partitions.find? (fun p => p.containsMoment targetMoment)

def getNewestPartition (partitions : List Partition) : Option Partition := partitions.getLast?

def getOldestPartition (partitions : List Partition) : Option Partition := partitions.head?

/-- Forget the oldest partition, if it is still the expected one. -/
def removeOldestPartitionName (partitions : List Partition) (expectedName : String) :
    List Partition :=
  match partitions with
  | [] => []
  | oldest :: rest => if oldest.name = expectedName then rest else partitions

/-- The start of the first tracked partition that overlaps the range, or the end of the range. -/
def firstOverlapStart (partitions : List Partition) (beginning last : ℤ) : ℤ :=
  partitions.foldl (fun first p =>
    if p.beginning < last ∧ beginning < p.lastMoment then min first p.beginning else first) last

def uncoveredPrefix (partitions : List Partition) (beginning last : ℤ) : Option Partition :=
  let first := firstOverlapStart partitions beginning last
  if first ≤ beginning then none else some ⟨beginning, first⟩

/-- The next o'clock after the start time. -/
def calcEndPartitionTime (startTime : ℤ) : ℤ :=
  let endTime := startTime + 3600
  endTime - endTime % 3600

def floorToHour (momentSec : ℤ) : ℤ := momentSec - momentSec.tmod 3600

/-! ### Instances -/

def StartupLookbackSlots : ℕ := 2

/-- Where an instance is: between passes, with the time of its last pass and whether nothing failed
or was deferred there, unless a partition was removed since; or in a pass at the time `now`, at an
addition (of the partition of now, of the next one, of a part of the `slot`-th hour before), at a
poll of the attached partitions or before the last read of them. -/
inductive Phase where
  | idle (lastPass : Option (ℕ × Bool))
  | addingCurrent (now : ℕ)
  | waiting (now : ℕ)
  | addingNext (now : ℕ) (range : Partition) (startingUp : Bool)
  | lookingBack (now : ℕ) (slot : ℕ) (range : Partition) (createdAny : Bool)
  | refreshing (now : ℕ)
deriving DecidableEq

/-- An instance; `partitions` is its deque, and `undisturbed` tells that nothing failed or was
deferred in the pass so far. -/
structure Instance where
  partitions : List Partition
  undisturbed : Bool
  phase : Phase

inductive AddOutcome where
  | executed
  | failed
  | deferred
deriving DecidableEq

/-- A removed partition is detached and dropped, or only detached, or stays. -/
inductive DropOutcome where
  | dropped
  | detached
  | failed
deriving DecidableEq

/-- `ATTACH PARTITION`, for a partition that is not attached yet. -/
def attach (attached : List Partition) (p : Partition) : List Partition :=
  if p ∈ attached then attached else attached ++ [p]

/-- The attached partitions in the order of their names. -/
def getPartitionsList (attached : List Partition) : List Partition :=
  attached.insertionSort (fun p q => p.name ≤ q.name)

namespace Instance

def new : Instance where
  partitions := []
  undisturbed := true
  phase := .idle none

def inPhase (inst : Instance) (phase : Phase) : Instance := { inst with phase := phase }

def track (inst : Instance) (p : Partition) : Instance :=
  { inst with partitions := inst.partitions ++ [p] }

def disturb (inst : Instance) : Instance := { inst with undisturbed := false }

def refreshPartitionsInfo (inst : Instance) (attached : List Partition) : Instance :=
  { inst with partitions := getPartitionsList attached }

def finish (inst : Instance) (now : ℕ) : Instance :=
  inst.inPhase (.idle (some (now, inst.undisturbed)))

/-- `addLookbackPartitions` from the given slot on. -/
def lookback (inst : Instance) (now : ℕ) (createdAny : Bool) : ℕ → Instance
  | 0 => if createdAny then inst.inPhase (.refreshing now) else inst.finish now
  | slot + 1 =>
      let slotStart := floorToHour now - (slot + 1) * 3600
      match uncoveredPrefix inst.partitions slotStart (slotStart + 3600) with
      | none => inst.lookback now createdAny slot
      | some range => inst.inPhase (.lookingBack now (slot + 1) range createdAny)

/-- The pass after the next partition. -/
def afterNext (inst : Instance) (now : ℕ) (startingUp : Bool) : Instance :=
  if startingUp then inst.lookback now false StartupLookbackSlots else inst.finish now

/-- The pass once there is a partition that contains now, or none is to be waited for. -/
def decideNext (inst : Instance) (now : ℕ) (startingUp : Bool) : Instance :=
  match getNewestPartition inst.partitions with
  | some newest =>
      if newest.containsMoment now then
        inst.inPhase (.addingNext now ⟨newest.lastMoment, calcEndPartitionTime newest.lastMoment⟩
          startingUp)
      else inst.afterNext now startingUp
  | none => inst.afterNext now startingUp

/-- The first part of `runPartitionMaintenance`, up to the first wait. -/
def startPass (inst : Instance) (attached : List Partition) (now : ℕ) : Instance :=
  let inst := { inst with undisturbed := true }.refreshPartitionsInfo attached
  match getNewestPartition inst.partitions with
  | none => inst.inPhase (.addingCurrent now)
  | some newest =>
      if newest.lastMoment ≤ now then inst.inPhase (.addingCurrent now) else inst.decideNext now false

/-- The pass after the addition of the partition of now. -/
def afterCurrent (inst : Instance) (now : ℕ) : Instance :=
  if (getPartitionFromDateTime inst.partitions now).isNone then inst.inPhase (.waiting now)
  else inst.decideNext now true

/-- One turn of `waitForPartitionOf`, or the read of the partitions after the lookback; `timeUp` tells
that the time to wait is up. -/
def poll (inst : Instance) (attached : List Partition) (timeUp : Bool) : Instance :=
  match inst.phase with
  | .waiting now =>
      let inst := inst.refreshPartitionsInfo attached
      if (getPartitionFromDateTime inst.partitions now).isSome || timeUp then inst.decideNext now true
      else inst
  | .refreshing now => (inst.refreshPartitionsInfo attached).finish now
  | _ => inst

end Instance

/-- The partition of the hour that contains `now`. -/
def currentPartition (now : ℕ) : Partition :=
  ⟨floorToHour now, calcEndPartitionTime (floorToHour now)⟩

/-- The partition that an instance is adding. -/
def Phase.adding : Phase → Option Partition
  | .addingCurrent now => some (currentPartition now)
  | .addingNext _ range _ => some range
  | .lookingBack _ _ range _ => some range
  | _ => none

/-- `addPartition` refuses an empty range. -/
def checkedOutcome (range : Partition) (outcome : AddOutcome) : AddOutcome :=
  if range.lastMoment ≤ range.beginning then .failed else outcome

/-- The pass after an addition. -/
def Instance.added (inst : Instance) (outcome : AddOutcome) : Instance :=
  match inst.phase with
  | .addingCurrent now =>
      match outcome with
      | .executed => (inst.track (currentPartition now)).afterCurrent now
      | .deferred => inst.disturb.afterCurrent now
      | .failed => inst.disturb.finish now
  | .addingNext now range startingUp =>
      match outcome with
      | .executed => (inst.track range).afterNext now startingUp
      | .deferred => inst.disturb.afterNext now startingUp
      | .failed => inst.disturb.finish now
  | .lookingBack now slot range createdAny =>
      match outcome with
      | .executed => (inst.track range).lookback now true (slot - 1)
      | .deferred => inst.disturb.lookback now true (slot - 1)
      | .failed => inst.disturb.lookback now createdAny (slot - 1)
  | _ => inst

/-! ### The shared database -/

structure Database where
  attached : List Partition
  instances : ℕ → Instance

namespace Database

def set (s : Database) (i : ℕ) (inst : Instance) : Database :=
  { s with instances := Function.update s.instances i inst }

/-- A removal from the database outdates the last passes. -/
def outdate (s : Database) : Database :=
  { s with instances := fun i =>
      match (s.instances i).phase with
      | .idle _ => (s.instances i).inPhase (.idle none)
      | _ => s.instances i }

def detach (s : Database) (p : Partition) : Database :=
  { s with attached := s.attached.erase p }.outdate

/-- `detachAndDropPartition`. -/
def detachAndDropPartition (s : Database) (i : ℕ) (p : Partition) (outcome : DropOutcome) : Database :=
  match outcome with
  | .failed => s
  | .detached => s.detach p
  | .dropped =>
      let s := s.detach p
      s.set i { s.instances i with
        partitions := removeOldestPartitionName (s.instances i).partitions p.name }

/-- The loop of `removePartitionsOlderThan`, with the outcomes of its removals; it ends with one that
did not succeed. -/
def removePartitionsOlderThan (s : Database) (i : ℕ) (tsInSec : ℤ) : List DropOutcome → Database
  | [] => s
  | outcome :: outcomes =>
      match getOldestPartition (s.instances i).partitions with
      | none => s
      | some oldest =>
          if oldest.lastMoment < tsInSec then
            let s := s.detachAndDropPartition i oldest outcome
            if outcome = .dropped then s.removePartitionsOlderThan i tsInSec outcomes else s
          else s

def removeOldestPartition (s : Database) (i : ℕ) (now : ℕ) (forceRemoval : Bool)
    (outcome : DropOutcome) : Database :=
  match getOldestPartition (s.instances i).partitions with
  | none => s
  | some oldest =>
      if !forceRemoval &&
          decide ((getPartitionFromDateTime (s.instances i).partitions now).map Partition.name =
            some oldest.name) then s
      else s.detachAndDropPartition i oldest outcome

/-- One step: an instance starts a pass, goes on after an addition or a poll, or removes partitions
between its passes. -/
inductive Action where
  | startPass (i : ℕ) (now : ℕ)
  | added (i : ℕ) (outcome : AddOutcome)
  | poll (i : ℕ) (timeUp : Bool)
  | removePartitionsOlderThan (i : ℕ) (tsInSec : ℤ) (outcomes : List DropOutcome)
  | removeOldestPartition (i : ℕ) (now : ℕ) (forceRemoval : Bool) (outcome : DropOutcome)

def step (s : Database) : Action → Database
  | .startPass i now =>
      match (s.instances i).phase with
      | .idle _ => s.set i ((s.instances i).startPass s.attached now)
      | _ => s
  | .added i outcome =>
      match (s.instances i).phase.adding with
      | none => s
      | some range =>
          let outcome := checkedOutcome range outcome
          let attached := if outcome = .executed then attach s.attached range else s.attached
          { s with attached := attached }.set i ((s.instances i).added outcome)
  | .poll i timeUp => s.set i ((s.instances i).poll s.attached timeUp)
  | .removePartitionsOlderThan i tsInSec outcomes =>
      match (s.instances i).phase with
      | .idle _ => s.removePartitionsOlderThan i tsInSec outcomes
      | _ => s
  | .removeOldestPartition i now forceRemoval outcome =>
      match (s.instances i).phase with
      | .idle _ => s.removeOldestPartition i now forceRemoval outcome
      | _ => s

/-- The state after the actions, from a database with the given partitions. -/
def after (attached : List Partition) (actions : List Action) : Database :=
  run step ⟨attached, fun _ => .new⟩ actions

end Database

end LogosDelivery.Archive.Partitions
