import LogosDelivery.Archive.PartitionFactory

/-! # Shrinking the database

`decreaseDatabaseSize` of `postgres_driver.nim`: while the reported size is above the target, drop
the oldest partition and ask for the size again.  What the database answers in each round of the
loop is a parameter, and so are the times at which it is asked.

`removeOldestPartition` succeeds without removing anything when the oldest partition is that of now.
The loop then goes on if the next report is above the target and not the same as the last one, so
rounds that remove nothing can follow each other as long as the reports change
(`shrinksByDropping_iff`). -/

namespace LogosDelivery.Archive.Partitions

/-- What happens in a round of the loop: the time, the answer to the statements that detach and drop
a partition, and the size that is reported next. -/
structure Round where
  now : ℤ
  dropped : Except String Unit
  size : Except String ℤ

/-- `detachAndDropPartition`, for the tracked partitions. -/
def detachAndDropTracked (partitions : List Partition) (partition : Partition)
    (dropped : Except String Unit) : Except String (List Partition) :=
  match dropped with
  | .error e => .error e
  | .ok _ => .ok (removeOldestPartitionName partitions partition.name)

/-- The tracked partition of now is the oldest one. -/
def oldestIsCurrent (partitions : List Partition) (oldest : Partition) (now : ℤ) : Bool :=
  decide ((getPartitionFromDateTime partitions now).map Partition.name = some oldest.name)

/-- `removeOldestPartition`, for the tracked partitions. -/
def removeOldestTracked (partitions : List Partition) (forceRemoval : Bool) (now : ℤ)
    (dropped : Except String Unit) : Except String (List Partition) :=
  match getOldestPartition partitions with
  | none => .error "could not remove oldest partition: there are no partitions allocated"
  | some oldest =>
      if !forceRemoval && oldestIsCurrent partitions oldest now then .ok partitions
      else detachAndDropTracked partitions oldest dropped

/-- The variables of the loop. -/
structure SizeLoop where
  partitions : List Partition
  totalSizeOfDB : ℤ
deriving DecidableEq

/-- The call is in its loop, or has returned. -/
inductive Shrinking where
  | looping (s : SizeLoop)
  | returned (answer : Except String Unit) (partitions : List Partition)

section Loop

variable (targetSizeInBytes : ℤ) (forceRemoval : Bool)

/-- The condition of the loop. -/
def SizeLoop.goesOn (s : SizeLoop) : Bool :=
  decide (targetSizeInBytes < s.totalSizeOfDB) && !s.partitions.isEmpty

/-- The body of the loop. -/
def SizeLoop.body (round : Round) (s : SizeLoop) : Shrinking :=
  match removeOldestTracked s.partitions forceRemoval round.now round.dropped with
  | .error e =>
      .returned (.error ("decreaseDatabaseSize inside loop failed to remove oldest partition: " ++ e))
        s.partitions
  | .ok partitions =>
      match round.size with
      | .error e =>
          .returned (.error ("decreaseDatabaseSize inside loop failed to get database size: " ++ e))
            partitions
      | .ok newCurrentSize =>
          if newCurrentSize = s.totalSizeOfDB then
            .returned (.error "the previous partition removal didn't clear database size") partitions
          else .looping ⟨partitions, newCurrentSize⟩

/-- A round: the test of the condition, and the body. -/
def Shrinking.round (round : Round) : Shrinking → Shrinking
  | .looping s =>
      if s.goesOn targetSizeInBytes then s.body forceRemoval round else .returned (.ok ()) s.partitions
  | .returned answer partitions => .returned answer partitions

/-- `decreaseDatabaseSize` up to the loop. -/
def startShrinking (partitions : List Partition) (dbSize : Except String ℤ) : Shrinking :=
  match dbSize with
  | .error e => .returned (.error ("decreaseDatabaseSize failed to get database size: " ++ e)) partitions
  | .ok totalSizeOfDB =>
      if totalSizeOfDB ≤ targetSizeInBytes then .returned (.ok ()) partitions
      else .looping ⟨partitions, totalSizeOfDB⟩

/-- The call after the first rounds. -/
def shrinkingAfter (rounds : ℕ → Round) (start : Shrinking) : ℕ → Shrinking
  | 0 => start
  | n + 1 => (shrinkingAfter rounds start n).round targetSizeInBytes forceRemoval (rounds n)

end Loop

def Shrinking.partitions : Shrinking → List Partition
  | .looping s => s.partitions
  | .returned _ partitions => partitions

/-- A call with its parameters, its state, and the answers that it gets. -/
structure ShrinkCall where
  targetSizeInBytes : ℤ
  forceRemoval : Bool
  partitions : List Partition
  dbSize : Except String ℤ
  rounds : ℕ → Round

namespace ShrinkCall

variable (call : ShrinkCall)

/-- The state before round `n`. -/
def before (n : ℕ) : Shrinking :=
  shrinkingAfter call.targetSizeInBytes call.forceRemoval call.rounds
    (startShrinking call.targetSizeInBytes call.partitions call.dbSize) n

/-- Round `n` is an iteration of the loop, with these variables before it. -/
def Iterates (n : ℕ) (s : SizeLoop) : Prop :=
  call.before n = .looping s ∧ s.goesOn call.targetSizeInBytes = true

/-- The loop ends by dropping partitions only. -/
structure ShrinksByDropping : Prop where
  /-- An iteration with another one after it has removed the oldest partition. -/
  removes : ∀ n s s', call.Iterates n s → call.Iterates (n + 1) s' →
    ∃ oldest, s.partitions = oldest :: s'.partitions
  /-- The iterations are numbered from zero. -/
  bounded : ∀ n s, call.Iterates n s → n + 1 ≤ call.partitions.length + 1
  keepsCurrent : call.forceRemoval = false → ∀ n, ∀ p ∈ (call.before n).partitions,
    p.containsMoment (call.rounds n).now → p ∈ (call.before (n + 1)).partitions

/-- Where nothing is removed because the oldest partition is that of now, the report that follows
ends the loop. -/
def StopsAtCurrent (s : SizeLoop) (round : Round) : Prop :=
  call.forceRemoval = true ∨
    (∀ oldest, getOldestPartition s.partitions = some oldest →
      oldestIsCurrent s.partitions oldest round.now = false) ∨
    ∀ size, round.size = .ok size → size = s.totalSizeOfDB ∨ size ≤ call.targetSizeInBytes

end ShrinkCall

/-! ### One removal -/

section Removal

variable {partitions : List Partition} {forceRemoval : Bool} {now : ℤ} {dropped : Except String Unit}

theorem removeOldestTracked_cons (oldest : Partition) (rest : List Partition) :
    removeOldestTracked (oldest :: rest) forceRemoval now dropped =
      if !forceRemoval && oldestIsCurrent (oldest :: rest) oldest now then .ok (oldest :: rest)
      else dropped.map (fun _ => rest) := by
  unfold removeOldestTracked detachAndDropTracked
  simp only [getOldestPartition, List.head?_cons]
  split_ifs
  · rfl
  · cases dropped with
    | error e => rfl
    | ok u => simp [removeOldestPartitionName, Except.map]

/-- A partition that contains now and comes first is found for now. -/
theorem oldestIsCurrent_of_contains {oldest : Partition} {rest : List Partition}
    (h : oldest.containsMoment now = true) : oldestIsCurrent (oldest :: rest) oldest now = true := by
  have hfind : getPartitionFromDateTime (oldest :: rest) now = some oldest :=
    List.find?_cons_of_pos h
  rw [oldestIsCurrent, hfind]
  exact decide_eq_true rfl

/-- Without force no removal takes a partition that contains now. -/
theorem removeOldestTracked_keeps {p : Partition} {after : List Partition}
    (h : removeOldestTracked partitions false now dropped = .ok after) (hp : p ∈ partitions)
    (hnow : p.containsMoment now = true) : p ∈ after := by
  cases partitions with
  | nil => exact absurd hp List.not_mem_nil
  | cons oldest rest =>
      rw [removeOldestTracked_cons, Bool.not_false, Bool.true_and] at h
      split_ifs at h with hcurrent
      · obtain rfl := Except.ok.inj h
        exact hp
      · rcases List.mem_cons.mp hp with rfl | hrest
        · exact absurd (oldestIsCurrent_of_contains hnow) hcurrent
        · cases dropped with
          | error e => cases h
          | ok u =>
              obtain rfl := Except.ok.inj h
              exact hrest

end Removal

/-! ### The loop -/

namespace ShrinkCall

variable {call : ShrinkCall} {n : ℕ} {s s' : SizeLoop}

theorem before_succ (h : call.Iterates n s) :
    call.before (n + 1) = s.body call.forceRemoval (call.rounds n) := by
  show Shrinking.round _ _ _ (call.before n) = _
  rw [h.1, Shrinking.round, if_pos h.2]

theorem Iterates.pred (h : call.Iterates (n + 1) s') : ∃ s, call.Iterates n s := by
  have hround : (call.before n).round call.targetSizeInBytes call.forceRemoval (call.rounds n) =
      .looping s' := h.1
  cases hbefore : call.before n with
  | returned answer partitions =>
      rw [hbefore, Shrinking.round] at hround
      cases hround
  | looping s =>
      rw [hbefore, Shrinking.round] at hround
      split_ifs at hround with hgo
      exact ⟨s, hbefore, hgo⟩

/-- What an iteration with another one after it has done. -/
theorem Iterates.step (h : call.Iterates n s) (h' : call.Iterates (n + 1) s') :
    removeOldestTracked s.partitions call.forceRemoval (call.rounds n).now (call.rounds n).dropped =
        .ok s'.partitions ∧
      (call.rounds n).size = .ok s'.totalSizeOfDB ∧ s'.totalSizeOfDB ≠ s.totalSizeOfDB := by
  have hbody : s.body call.forceRemoval (call.rounds n) = .looping s' := (before_succ h).symm.trans h'.1
  unfold SizeLoop.body at hbody
  cases hremove : removeOldestTracked s.partitions call.forceRemoval (call.rounds n).now
      (call.rounds n).dropped with
  | error e =>
      rw [hremove] at hbody
      cases hbody
  | ok partitions =>
      rw [hremove] at hbody
      cases hsize : (call.rounds n).size with
      | error e =>
          rw [hsize] at hbody
          cases hbody
      | ok size =>
          rw [hsize] at hbody
          dsimp only at hbody
          split_ifs at hbody with hsame
          cases hbody
          exact ⟨rfl, rfl, hsame⟩

theorem Iterates.exists_cons (h : call.Iterates n s) :
    ∃ oldest rest, s.partitions = oldest :: rest := by
  have hgo := h.2
  unfold SizeLoop.goesOn at hgo
  cases hp : s.partitions with
  | nil => simp [hp] at hgo
  | cons oldest rest => exact ⟨oldest, rest, rfl⟩

/-- An iteration that stops where it removes nothing, and has another one after it, has removed the
oldest partition. -/
theorem Iterates.removes (h : call.Iterates n s) (h' : call.Iterates (n + 1) s')
    (hstops : call.StopsAtCurrent s (call.rounds n)) :
    ∃ oldest, s.partitions = oldest :: s'.partitions := by
  obtain ⟨oldest, rest, hcons⟩ := h.exists_cons
  obtain ⟨hremove, hsize, hne⟩ := h.step h'
  have habove : call.targetSizeInBytes < s'.totalSizeOfDB := by
    have hgo := h'.2
    unfold SizeLoop.goesOn at hgo
    simp only [Bool.and_eq_true, decide_eq_true_eq] at hgo
    exact hgo.1
  rw [hcons, removeOldestTracked_cons] at hremove
  split_ifs at hremove with hskip
  · rw [Bool.and_eq_true, Bool.not_eq_true'] at hskip
    rcases hstops with hforce | hother | hreport
    · rw [hforce] at hskip
      exact absurd hskip.1 (by decide)
    · have hnot := hother oldest (by rw [hcons]; rfl)
      rw [hcons, hskip.2] at hnot
      cases hnot
    · rcases hreport _ hsize with hsame | hbelow
      · exact absurd hsame hne
      · omega
  · cases hdrop : (call.rounds n).dropped with
    | error e =>
        rw [hdrop] at hremove
        cases hremove
    | ok u =>
        rw [hdrop] at hremove
        obtain rfl := Except.ok.inj hremove
        exact ⟨oldest, hcons⟩

theorem Iterates.start (h : call.Iterates 0 s) : s.partitions = call.partitions := by
  have hstart : startShrinking call.targetSizeInBytes call.partitions call.dbSize = .looping s := h.1
  unfold startShrinking at hstart
  cases hsize : call.dbSize with
  | error e =>
      rw [hsize] at hstart
      cases hstart
  | ok size =>
      rw [hsize] at hstart
      dsimp only at hstart
      split_ifs at hstart
      cases hstart
      rfl

/-- Every iteration leaves one partition less for the next. -/
theorem length_of_stops (hstops : ∀ n s, call.Iterates n s → call.StopsAtCurrent s (call.rounds n)) :
    ∀ (n : ℕ) (s : SizeLoop), call.Iterates n s → s.partitions.length + n = call.partitions.length
  | 0, s, h => by rw [h.start, Nat.add_zero]
  | n + 1, s', h' => by
      obtain ⟨s, h⟩ := h'.pred
      have ih := length_of_stops hstops n s h
      obtain ⟨oldest, hcons⟩ := h.removes h' (hstops n s h)
      rw [hcons, List.length_cons] at ih
      omega

theorem keepsCurrent (hforce : call.forceRemoval = false) (n : ℕ) :
    ∀ p ∈ (call.before n).partitions, p.containsMoment (call.rounds n).now →
      p ∈ (call.before (n + 1)).partitions := by
  intro p hp hnow
  show p ∈ ((call.before n).round call.targetSizeInBytes call.forceRemoval (call.rounds n)).partitions
  cases hbefore : call.before n with
  | returned answer partitions =>
      rw [hbefore] at hp
      exact hp
  | looping s =>
      rw [hbefore] at hp
      rw [Shrinking.round]
      split_ifs with hgo
      · unfold SizeLoop.body
        cases hremove : removeOldestTracked s.partitions call.forceRemoval (call.rounds n).now
            (call.rounds n).dropped with
        | error e => exact hp
        | ok partitions =>
            rw [hforce] at hremove
            have hkept := removeOldestTracked_keeps hremove hp hnow
            cases (call.rounds n).size with
            | error e => exact hkept
            | ok size =>
                dsimp only
                split_ifs
                · exact hkept
                · exact hkept
      · exact hp

/-- **Shrinking drops partitions only** exactly when every iteration that meets the partition of now
is the last one. -/
theorem shrinksByDropping_iff (call : ShrinkCall) :
    call.ShrinksByDropping ↔
      ∀ n s, call.Iterates n s → call.StopsAtCurrent s (call.rounds n) := by
  constructor
  · intro hshrinks n s h
    by_contra hnot
    obtain ⟨hforce, hrest⟩ := not_or.mp hnot
    obtain ⟨hother, hreport⟩ := not_or.mp hrest
    have hfalse : call.forceRemoval = false := Bool.eq_false_iff.mpr hforce
    obtain ⟨oldest, rest, hcons⟩ := h.exists_cons
    have hcurrent : oldestIsCurrent s.partitions oldest (call.rounds n).now = true := by
      by_contra hfree
      refine hother fun oldest' holdest => ?_
      rw [hcons, getOldestPartition, List.head?_cons, Option.some.injEq] at holdest
      rw [← holdest]
      exact Bool.eq_false_iff.mpr hfree
    obtain ⟨size, hsize⟩ := not_forall.mp hreport
    obtain ⟨hsize, hstop⟩ := Classical.not_imp.mp hsize
    obtain ⟨hne, habove⟩ := not_or.mp hstop
    -- nothing is removed, and the loop goes on
    have hskip : removeOldestTracked s.partitions call.forceRemoval (call.rounds n).now
        (call.rounds n).dropped = .ok s.partitions := by
      rw [hcons] at hcurrent ⊢
      rw [removeOldestTracked_cons, hfalse, hcurrent]
      rfl
    have hnext : call.Iterates (n + 1) ⟨s.partitions, size⟩ := by
      constructor
      · rw [before_succ h, SizeLoop.body, hskip, hsize]
        exact if_neg hne
      · simp [SizeLoop.goesOn, not_le.mp habove, hcons]
    obtain ⟨oldest', hremoved⟩ := hshrinks.removes n s _ h hnext
    exact absurd hremoved.symm (List.cons_ne_self _ _)
  · intro hstops
    refine ⟨fun n s s' h h' => h.removes h' (hstops n s h), fun n s h => ?_, keepsCurrent⟩
    have hlen := length_of_stops hstops n s h
    omega

/-- One tracked partition, that of now, and reports that go up and down above the target. -/
def busyArchive : ShrinkCall where
  targetSizeInBytes := 100
  forceRemoval := false
  partitions := [⟨0, 3600⟩]
  dbSize := .ok 200
  rounds := fun n => { now := 10, dropped := .ok (), size := .ok (200 + (n + 1) % 2) }

/-- The loop goes on without removing anything. -/
theorem busyArchive_spins : ¬ ∀ call : ShrinkCall, call.ShrinksByDropping := by
  intro hall
  have hstart : busyArchive.Iterates 0 ⟨[⟨0, 3600⟩], 200⟩ := ⟨rfl, rfl⟩
  have hskip : removeOldestTracked [⟨0, 3600⟩] false 10 (.ok ()) = .ok [⟨0, 3600⟩] := by
    rw [removeOldestTracked_cons, oldestIsCurrent_of_contains (by decide)]
    rfl
  have hnext : busyArchive.Iterates 1 ⟨[⟨0, 3600⟩], 201⟩ := by
    refine ⟨?_, rfl⟩
    have hbody : SizeLoop.body false (busyArchive.rounds 0) ⟨[⟨0, 3600⟩], 200⟩ =
        .looping ⟨[⟨0, 3600⟩], 201⟩ := by
      unfold SizeLoop.body
      dsimp only [busyArchive]
      rw [hskip]
      rfl
    exact (before_succ hstart).trans hbody
  obtain ⟨oldest, hremoved⟩ := (hall busyArchive).removes 0 _ _ hstart hnext
  exact absurd hremoved.symm (List.cons_ne_self _ _)

end ShrinkCall

end LogosDelivery.Archive.Partitions
