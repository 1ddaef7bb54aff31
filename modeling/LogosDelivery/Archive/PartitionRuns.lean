import LogosDelivery.Archive.PartitionSlots

/-! # When the partition factory covers the present

In every run whose steps meet a condition (`Action.Meets`) the attached partitions stay disjoint,
the newest ends on the hour, an instance between passes tracks its partitions in the order of their
start, and after a pass in which nothing failed or was deferred now and the next hour are covered.
The condition is about the reads of the partitions, which are ordered by name, about a newest
partition that begins after now, for which a pass adds nothing (`partitions_not_after`), and about
removals by an instance that does not know the oldest partition. -/

namespace LogosDelivery.Archive.Partitions

open Lib

variable {db : List Partition} {p q R R' : Partition} {now : ℕ} {t : ℤ} {inst : Instance}

/-! ### Reads of the partitions -/

def Sorted (partitions : List Partition) : Prop :=
  partitions.Pairwise (fun p q => p.beginning < q.beginning)

instance (partitions : List Partition) : Decidable (Sorted partitions) := by
  unfold Sorted
  infer_instance

theorem mem_getPartitionsList : p ∈ getPartitionsList db ↔ p ∈ db :=
  (List.perm_insertionSort _ db).mem_iff

theorem behind_getPartitionsList : Behind db (getPartitionsList db) where
  sub _ hp := mem_getPartitionsList.mp hp
  hour _ hp hnot := absurd (mem_getPartitionsList.mpr hp) hnot

/-- The last of the sorted partitions is the newest. -/
theorem Sorted.le_newest {partitions : List Partition} (h : Sorted partitions)
    (hlast : getNewestPartition partitions = some q) (hp : p ∈ partitions) :
    p.beginning ≤ q.beginning := by
  obtain ⟨init, rfl⟩ := List.getLast?_eq_some_iff.mp hlast
  rcases List.mem_append.mp hp with hp | hp
  · exact ((List.pairwise_append.mp h).2.2 p hp q (List.mem_singleton_self q)).le
  · rw [List.mem_singleton.mp hp]

theorem mem_of_newest {partitions : List Partition}
    (hlast : getNewestPartition partitions = some q) : q ∈ partitions :=
  List.mem_of_getLast? hlast

theorem Sorted.concat {partitions : List Partition} (h : Sorted partitions)
    (hlt : ∀ p ∈ partitions, p.beginning < R.beginning) : Sorted (partitions ++ [R]) := by
  refine List.pairwise_append.mpr ⟨h, List.pairwise_singleton _ _, fun p hp q hq => ?_⟩
  rw [List.mem_singleton.mp hq]
  exact hlt p hp

/-! ### Instances at work -/

/-- What holds of an instance at each point of a pass, with the partitions attached then. -/
def Working (db : List Partition) (inst : Instance) : Prop :=
  match inst.phase with
  | .idle lastPass =>
      Sorted inst.partitions ∧ ∀ now, lastPass = some (now, true) → Served db now
  | .addingCurrent now =>
      Behind db inst.partitions ∧ Sorted inst.partitions ∧
      (∀ p ∈ inst.partitions, p.lastMoment ≤ floorToHour now) ∧
      Slot db (currentPartition now) ∧
      Slot db ⟨floorToHour now + 3600, floorToHour now + 3600 + 3600⟩
  | .waiting _ => inst.undisturbed = false
  | .addingNext now range _ =>
      Behind db inst.partitions ∧ Sorted inst.partitions ∧
      (∀ p ∈ inst.partitions, p.beginning < range.beginning) ∧ Slot db range ∧
      (inst.undisturbed = true → Covered db now ∧
        ∀ t, floorToHour now + 3600 ≤ t → t < floorToHour now + 7200 →
          Covered db t ∨ (range.beginning ≤ t ∧ t < range.lastMoment))
  | .lookingBack now _ range createdAny =>
      Behind db inst.partitions ∧ Slot db range ∧
      (createdAny = false → Sorted inst.partitions) ∧
      (inst.undisturbed = true → Served db now)
  | .refreshing now => inst.undisturbed = true → Served db now

theorem Working.attach (hdb : WellFormed db) (h : Working db inst) (hR : Slot db R) :
    Working (attach db R) inst := by
  have hsub : ∀ p ∈ db, p ∈ Partitions.attach db R := fun p hp => mem_attach.mpr (Or.inl hp)
  cases hphase : inst.phase with
  | idle lastPass =>
      simp only [Working, hphase] at h ⊢
      exact ⟨h.1, fun now hlast => (h.2 now hlast).mono hsub⟩
  | addingCurrent now =>
      simp only [Working, hphase] at h ⊢
      obtain ⟨hbehind, hsorted, hlast, hcurrent, hnext⟩ := h
      exact ⟨hbehind.attach hR, hsorted, hlast, hcurrent.attach hdb hR, hnext.attach hdb hR⟩
  | waiting now =>
      simp only [Working, hphase] at h ⊢
      exact h
  | addingNext now range startingUp =>
      simp only [Working, hphase] at h ⊢
      obtain ⟨hbehind, hsorted, hlast, hrange, hserved⟩ := h
      refine ⟨hbehind.attach hR, hsorted, hlast, hrange.attach hdb hR, fun hu => ?_⟩
      obtain ⟨hnow, hnext⟩ := hserved hu
      exact ⟨hnow.mono hsub,
        fun t hlow hhigh => (hnext t hlow hhigh).imp_left (fun h => h.mono hsub)⟩
  | lookingBack now slot range createdAny =>
      simp only [Working, hphase] at h ⊢
      obtain ⟨hbehind, hrange, hsorted, hserved⟩ := h
      exact ⟨hbehind.attach hR, hrange.attach hdb hR, hsorted, fun hu => (hserved hu).mono hsub⟩
  | refreshing now =>
      simp only [Working, hphase] at h ⊢
      exact fun hu => (h hu).mono hsub

/-! ### Steps of a pass -/

theorem finish_working (hsorted : Sorted inst.partitions)
    (hserved : inst.undisturbed = true → Served db now) : Working db (inst.finish now) := by
  refine ⟨hsorted, fun now' heq => ?_⟩
  obtain ⟨rfl, hu⟩ := Prod.mk.inj (Option.some.inj heq)
  exact hserved hu

theorem lookback_working (inst : Instance) (hdb : WellFormed db) (hbehind : Behind db inst.partitions)
    {createdAny : Bool} (hsorted : createdAny = false → Sorted inst.partitions)
    (hserved : inst.undisturbed = true → Served db now) (slot : ℕ) :
    Working db (inst.lookback now createdAny slot) := by
  induction slot with
  | zero =>
      unfold Instance.lookback
      split_ifs with hcreated
      · exact hserved
      · exact finish_working (hsorted (by simpa using hcreated)) hserved
  | succ slot ih =>
      unfold Instance.lookback
      dsimp only
      split
      · exact ih
      · rename_i range hrange
        have hhour : (floorToHour now - (slot + 1) * 3600) % 3600 = 0 := by
          have hmod := floorToHour_mod now
          omega
        exact ⟨hbehind, slot_of_uncoveredPrefix hdb hbehind hhour hrange, hsorted, hserved⟩

theorem afterNext_working (inst : Instance) (hdb : WellFormed db) (hbehind : Behind db inst.partitions)
    (hsorted : Sorted inst.partitions) (hserved : inst.undisturbed = true → Served db now)
    (startingUp : Bool) : Working db (inst.afterNext now startingUp) := by
  unfold Instance.afterNext
  split_ifs
  · exact lookback_working inst hdb hbehind (fun _ => hsorted) hserved _
  · exact finish_working hsorted hserved

/-- The next partition is decided on, where the hour after the newest is free. -/
theorem decideNext_working (hdb : WellFormed db) (hbehind : Behind db inst.partitions)
    (hsorted : Sorted inst.partitions)
    (hslot : ∀ newest, getNewestPartition inst.partitions = some newest →
      newest.containsMoment now = true →
      Slot db ⟨newest.lastMoment, calcEndPartitionTime newest.lastMoment⟩)
    (hserved : inst.undisturbed = true →
      (∃ newest, getNewestPartition inst.partitions = some newest ∧
        newest.containsMoment now = true) ∨ Served db now)
    (startingUp : Bool) : Working db (inst.decideNext now startingUp) := by
  unfold Instance.decideNext
  split
  · rename_i newest hnewest
    split_ifs with hcontains
    · have hR := hslot newest hnewest hcontains
      have hin := of_decide_eq_true hcontains
      have hend := calcEndPartitionTime_hour hR.hour
      have hlater := floorToHour_lt_hour hR.hour hin.2
      dsimp only at hend hlater
      refine ⟨hbehind, hsorted, fun p hp => ?_, hR, fun _ => ⟨?_, fun t hlow hhigh => ?_⟩⟩
      · exact (hsorted.le_newest hnewest hp).trans_lt (hin.1.trans_lt hin.2)
      · exact ⟨newest, hbehind.sub _ (mem_of_newest hnewest), hin⟩
      · rcases lt_or_ge t newest.lastMoment with hlt | hge
        · have hfloor := lt_floorToHour now
          exact Or.inl ⟨newest, hbehind.sub _ (mem_of_newest hnewest), by omega, hlt⟩
        · dsimp only
          rw [hend]
          exact Or.inr ⟨hge, by omega⟩
    · refine afterNext_working inst hdb hbehind hsorted (fun hu => ?_) startingUp
      refine (hserved hu).resolve_left ?_
      rintro ⟨newest', hnewest', hcontains'⟩
      rw [hnewest, Option.some.injEq] at hnewest'
      exact hcontains (hnewest' ▸ hcontains')
  · rename_i hnone
    refine afterNext_working inst hdb hbehind hsorted (fun hu => ?_) startingUp
    refine (hserved hu).resolve_left ?_
    rintro ⟨newest', hnewest', -⟩
    rw [hnone] at hnewest'
    cases hnewest'

/-- The next partition is decided on right after a read of the partitions. -/
theorem decideNext_refreshed (hdb : WellFormed db) (hsorted : Sorted (getPartitionsList db))
    (hpartitions : inst.partitions = getPartitionsList db)
    (hserved : inst.undisturbed = true →
      (∃ newest, getNewestPartition inst.partitions = some newest ∧
        newest.containsMoment now = true) ∨ Served db now)
    (startingUp : Bool) : Working db (inst.decideNext now startingUp) := by
  rw [← hpartitions] at hsorted
  have hbehind : Behind db inst.partitions := by
    rw [hpartitions]
    exact behind_getPartitionsList
  refine decideNext_working hdb hbehind hsorted (fun newest hnewest _ => ?_) hserved startingUp
  have hmem := hbehind.sub _ (mem_of_newest hnewest)
  have hall : ∀ q ∈ db, q.beginning ≤ newest.beginning := by
    intro q hq
    refine hsorted.le_newest hnewest ?_
    rw [hpartitions]
    exact mem_getPartitionsList.mpr hq
  have hhour := hdb.newest_hour hmem hall
  rw [calcEndPartitionTime_hour hhour]
  exact slot_after_newest hdb hmem hall hhour le_rfl

theorem startPass_working (hdb : WellFormed db) (hsorted : Sorted (getPartitionsList db))
    (hnewest : ∀ newest, getNewestPartition (getPartitionsList db) = some newest →
      newest.beginning ≤ now ∨ Served db now) :
    Working db (inst.startPass db now) := by
  have hmod := floorToHour_mod now
  unfold Instance.startPass
  dsimp only [Instance.refreshPartitionsInfo]
  split
  · -- no partition is attached
    rename_i hnone
    have hnil : getPartitionsList db = [] := List.getLast?_eq_none_iff.mp hnone
    have hdbnil : db = [] := by
      refine List.eq_nil_iff_forall_not_mem.mpr (fun p hp => ?_)
      have hmem := mem_getPartitionsList.mpr hp
      rw [hnil] at hmem
      cases hmem
    subst hdbnil
    refine ⟨behind_getPartitionsList, hsorted, fun p hp => ?_, ?_, ?_⟩
    · cases mem_getPartitionsList.mp hp
    · rw [currentPartition_eq]
      exact slot_of_nil hmod
    · exact slot_of_nil (by omega)
  · rename_i newest hlast
    have hmem := mem_getPartitionsList.mp (mem_of_newest hlast)
    have hall : ∀ q ∈ db, q.beginning ≤ newest.beginning :=
      fun q hq => hsorted.le_newest hlast (mem_getPartitionsList.mpr hq)
    split_ifs with hended
    · -- the newest ended by the current hour
      have hfloor : newest.lastMoment ≤ floorToHour now :=
        hour_le_floorToHour (hdb.newest_hour hmem hall) hended
      refine ⟨behind_getPartitionsList, hsorted, fun p hp => ?_, ?_, ?_⟩
      · exact (hdb.last_le_newest hmem hall (mem_getPartitionsList.mp hp)).trans hfloor
      · rw [currentPartition_eq]
        exact slot_after_newest hdb hmem hall hmod hfloor
      · exact slot_after_newest hdb hmem hall (by omega) (by omega)
    · refine decideNext_refreshed hdb hsorted rfl (fun _ => ?_) false
      refine (hnewest newest hlast).imp_left (fun hle => ⟨newest, hlast, ?_⟩)
      exact decide_eq_true ⟨hle, not_le.mp hended⟩

theorem poll_working (hdb : WellFormed db) (h : Working db inst)
    (hsorted : Sorted (getPartitionsList db)) (timeUp : Bool) :
    Working db (inst.poll db timeUp) := by
  unfold Instance.poll
  cases hphase : inst.phase with
  | waiting now =>
      simp only [Working, hphase] at h
      dsimp only
      split_ifs
      · refine decideNext_refreshed hdb hsorted rfl (fun hu => ?_) true
        have hfalse : inst.undisturbed = true := hu
        rw [h] at hfalse
        cases hfalse
      · simp only [Working, Instance.refreshPartitionsInfo, hphase]
        exact h
  | refreshing now =>
      simp only [Working, hphase] at h
      exact finish_working hsorted h
  | _ => exact h

/-! ### Additions -/

section Added

theorem mem_attach_self : R ∈ attach db R := mem_attach.mpr (Or.inr rfl)

theorem currentPartition_contains (now : ℕ) : (currentPartition now).containsMoment now = true := by
  rw [currentPartition_eq]
  exact decide_eq_true ⟨floorToHour_le now, lt_floorToHour now⟩

/-- The partition of now is attached. -/
theorem afterCurrent_executed (hdb : WellFormed db) (hphase : inst.phase = .addingCurrent now)
    (h : Working db inst) : Working (attach db (currentPartition now))
      ((inst.track (currentPartition now)).afterCurrent now) := by
  simp only [Working, hphase] at h
  obtain ⟨hbehind, hsorted, hlast, hcurrent, hnext⟩ := h
  have hdb' := hdb.attach hcurrent
  have hbehind' : Behind (attach db (currentPartition now))
      (inst.track (currentPartition now)).partitions :=
    (hbehind.attach hcurrent).track mem_attach_self
  have hsorted' : Sorted (inst.track (currentPartition now)).partitions := by
    refine hsorted.concat (fun p hp => ?_)
    have hrange := hdb.range p (hbehind.sub p hp)
    have hle := hlast p hp
    rw [currentPartition_eq]
    dsimp only
    omega
  have hnewest : getNewestPartition (inst.track (currentPartition now)).partitions =
      some (currentPartition now) := List.getLast?_concat
  have hsome : (getPartitionFromDateTime (inst.track (currentPartition now)).partitions
      now).isNone = false := by
    rw [Option.isNone_eq_false_iff, getPartitionFromDateTime, List.find?_isSome]
    exact ⟨currentPartition now, mem_of_newest hnewest, currentPartition_contains now⟩
  unfold Instance.afterCurrent
  rw [hsome]
  refine decideNext_working hdb' hbehind' hsorted' (fun newest heq _ => ?_)
    (fun _ => Or.inl ⟨_, hnewest, currentPartition_contains now⟩) true
  rw [hnewest, Option.some.injEq] at heq
  subst heq
  have hmod := floorToHour_mod now
  rw [currentPartition_eq] at *
  rw [calcEndPartitionTime_hour (by dsimp only; omega)]
  exact hnext.attach hdb hcurrent

/-- The partition of now is left to another instance, so it is waited for. -/
theorem afterCurrent_deferred (hphase : inst.phase = .addingCurrent now) (h : Working db inst) :
    Working db (inst.disturb.afterCurrent now) := by
  simp only [Working, hphase] at h
  obtain ⟨-, -, hlast, -, -⟩ := h
  have hnone : (getPartitionFromDateTime inst.disturb.partitions now).isNone = true := by
    rw [Option.isNone_iff_eq_none, getPartitionFromDateTime, List.find?_eq_none]
    intro p hp hcontains
    have hin := of_decide_eq_true hcontains
    have hle := hlast p hp
    have hfloor := floorToHour_le now
    omega
  unfold Instance.afterCurrent
  rw [if_pos hnone]
  rfl

/-- What an addition leaves attached. -/
def attachedAfter (db : List Partition) (range : Partition) (outcome : AddOutcome) :
    List Partition :=
  if outcome = .executed then attach db range else db

theorem added_working (hdb : WellFormed db) (h : Working db inst) {range : Partition}
    (hadding : inst.phase.adding = some range) (outcome : AddOutcome) :
    Working (attachedAfter db range outcome) (inst.added outcome) := by
  unfold Instance.added
  cases hphase : inst.phase with
  | addingCurrent now =>
      rw [hphase] at hadding
      cases hadding
      cases outcome with
      | executed => exact afterCurrent_executed hdb hphase h
      | deferred => exact afterCurrent_deferred hphase h
      | failed =>
          simp only [Working, hphase] at h
          exact finish_working h.2.1 (fun hu => absurd hu Bool.false_ne_true)
  | addingNext now range' startingUp =>
      rw [hphase] at hadding
      cases hadding
      simp only [Working, hphase] at h
      obtain ⟨hbehind, hsorted, hlast, hrange, hserved⟩ := h
      cases outcome with
      | executed =>
          refine afterNext_working (inst.track range) (hdb.attach hrange)
            ((hbehind.attach hrange).track mem_attach_self) (hsorted.concat hlast)
            (fun hu => ?_) startingUp
          obtain ⟨hnow, hnext⟩ := hserved hu
          have hsub : ∀ p ∈ db, p ∈ attach db range := fun p hp => mem_attach.mpr (Or.inl hp)
          refine ⟨hnow.mono hsub, fun t hlow hhigh => ?_⟩
          rcases hnext t hlow hhigh with hold | hin
          · exact hold.mono hsub
          · exact ⟨range, mem_attach_self, hin⟩
      | deferred =>
          have hdeferred : Working db (inst.disturb.afterNext now startingUp) :=
            afterNext_working inst.disturb hdb hbehind hsorted (fun hu => absurd hu Bool.false_ne_true) _
          exact hdeferred
      | failed => exact finish_working hsorted (fun hu => absurd hu Bool.false_ne_true)
  | lookingBack now slot range' createdAny =>
      rw [hphase] at hadding
      cases hadding
      simp only [Working, hphase] at h
      obtain ⟨hbehind, hrange, hsorted, hserved⟩ := h
      cases outcome with
      | executed =>
          have hsub : ∀ p ∈ db, p ∈ attach db range := fun p hp => mem_attach.mpr (Or.inl hp)
          have hexecuted : Working (attach db range)
              ((inst.track range).lookback now true (slot - 1)) :=
            lookback_working (inst.track range) (hdb.attach hrange)
              ((hbehind.attach hrange).track mem_attach_self) (fun hc => absurd hc.symm Bool.false_ne_true)
              (fun hu => (hserved hu).mono hsub) _
          exact hexecuted
      | deferred =>
          have hdeferred : Working db (inst.disturb.lookback now true (slot - 1)) :=
            lookback_working inst.disturb hdb hbehind (fun hc => absurd hc.symm Bool.false_ne_true)
              (fun hu => absurd hu Bool.false_ne_true) _
          exact hdeferred
      | failed =>
          have hfailed : Working db (inst.disturb.lookback now createdAny (slot - 1)) :=
            lookback_working inst.disturb hdb hbehind hsorted (fun hu => absurd hu Bool.false_ne_true) _
          exact hfailed
  | _ =>
      rw [hphase] at hadding
      cases hadding

end Added

/-! ### The shared database -/

namespace Database

variable {s : Database} {i : ℕ}

/-- The invariant of every run. -/
structure Sound (s : Database) : Prop where
  attached : WellFormed s.attached
  working : ∀ i, Working s.attached (s.instances i)

/-- No pass is running. -/
def AllIdle (s : Database) : Prop := ∀ j, ∃ lastPass, (s.instances j).phase = .idle lastPass

theorem Sound.set (hs : Sound s) (hinst : Working s.attached inst) : Sound (s.set i inst) where
  attached := hs.attached
  working j := by
    unfold Database.set
    dsimp only
    by_cases hj : j = i
    · subst hj
      rw [Function.update_self]
      exact hinst
    · rw [Function.update_of_ne hj]
      exact hs.working j

/-- What an instance adds is a slot. -/
theorem slot_of_adding {range : Partition} (h : Working db inst)
    (hadding : inst.phase.adding = some range) : Slot db range := by
  cases hphase : inst.phase with
  | addingCurrent now =>
      rw [hphase] at hadding
      cases hadding
      simp only [Working, hphase] at h
      exact h.2.2.2.1
  | addingNext now range' startingUp =>
      rw [hphase] at hadding
      cases hadding
      simp only [Working, hphase] at h
      exact h.2.2.2.1
  | lookingBack now slot range' createdAny =>
      rw [hphase] at hadding
      cases hadding
      simp only [Working, hphase] at h
      exact h.2.1
  | _ =>
      rw [hphase] at hadding
      cases hadding

theorem Sound.added (hs : Sound s) {range : Partition}
    (hadding : (s.instances i).phase.adding = some range) (outcome : AddOutcome) :
    Sound ({ s with attached := attachedAfter s.attached range outcome }.set i
      ((s.instances i).added outcome)) := by
  have hslot := slot_of_adding (hs.working i) hadding
  have hothers : Sound { s with attached := attachedAfter s.attached range outcome } := by
    unfold attachedAfter
    split_ifs
    · exact ⟨hs.attached.attach hslot, fun j => (hs.working j).attach hs.attached hslot⟩
    · exact hs
  exact hothers.set (added_working hs.attached (hs.working i) hadding outcome)

/-! ### Removals -/

theorem idle_partitions (h : Working db inst) {lastPass : Option (ℕ × Bool)}
    (hphase : inst.phase = .idle lastPass) : Sorted inst.partitions := by
  simp only [Working, hphase] at h
  exact h.1

theorem idle_working (hsorted : Sorted inst.partitions) (hphase : inst.phase = .idle none) :
    Working db inst := by
  simp only [Working, hphase]
  exact ⟨hsorted, nofun⟩

theorem outdate_instance (hidle : AllIdle s) (j : ℕ) :
    (s.outdate.instances j).partitions = (s.instances j).partitions ∧
      (s.outdate.instances j).phase = .idle none := by
  obtain ⟨lastPass, hphase⟩ := hidle j
  simp only [outdate, hphase]
  exact ⟨rfl, rfl⟩

/-- Between passes, with a partition that no attached one is older than. -/
theorem detach_sound (hs : Sound s) (hidle : AllIdle s)
    (holdest : p ∈ s.attached → ∀ q ∈ s.attached, p.beginning ≤ q.beginning) :
    Sound (s.detach p) ∧ AllIdle (s.detach p) ∧
      ∀ j, ((s.detach p).instances j).partitions = (s.instances j).partitions := by
  have hinstance : ∀ j, ((s.detach p).instances j).partitions = (s.instances j).partitions ∧
      ((s.detach p).instances j).phase = .idle none := fun j => outdate_instance hidle j
  refine ⟨⟨hs.attached.erase_oldest holdest, fun j => ?_⟩, fun j => ⟨none, (hinstance j).2⟩,
    fun j => (hinstance j).1⟩
  obtain ⟨lastPass, hphase⟩ := hidle j
  refine idle_working ?_ (hinstance j).2
  rw [(hinstance j).1]
  exact idle_partitions (hs.working j) hphase

/-- Every attached partition that is older than one that the instance may remove is tracked. -/
def KnowsOlder (s : Database) (i : ℕ) (removes : Partition → Prop) : Prop :=
  ∀ p ∈ (s.instances i).partitions, removes p → p ∈ s.attached →
    ∀ q ∈ s.attached, q.beginning < p.beginning → q ∈ (s.instances i).partitions

/-- The oldest of the tracked partitions is then the oldest of all. -/
theorem KnowsOlder.oldest {removes : Partition → Prop} (h : KnowsOlder s i removes)
    (hsorted : Sorted (s.instances i).partitions)
    (hoption : getOldestPartition (s.instances i).partitions = some p) (hp : removes p)
    (hmem : p ∈ s.attached) : ∀ q ∈ s.attached, p.beginning ≤ q.beginning := by
  intro q hq
  by_contra hlt
  obtain ⟨rest, hcons⟩ := List.head?_eq_some_iff.mp hoption
  have hpartition : p ∈ (s.instances i).partitions := by
    rw [hcons]
    exact List.mem_cons_self
  have htracked := h p hpartition hp hmem q hq (not_le.mp hlt)
  rw [hcons] at htracked
  rw [Sorted, hcons] at hsorted
  rcases List.mem_cons.mp htracked with rfl | hrest
  · exact hlt le_rfl
  · exact hlt (List.rel_of_pairwise_cons hsorted hrest).le

/-- A removal of the oldest tracked partition, which may succeed. -/
theorem detachAndDrop_sound (hs : Sound s) (hidle : AllIdle s) {rest : List Partition}
    (hcons : (s.instances i).partitions = p :: rest)
    (holdest : p ∈ s.attached → ∀ q ∈ s.attached, p.beginning ≤ q.beginning)
    (outcome : DropOutcome) :
    let s' := s.detachAndDropPartition i p outcome
    Sound s' ∧ AllIdle s' ∧ (outcome = .dropped → s'.attached = s.attached.erase p ∧
      (s'.instances i).partitions = rest) := by
  obtain ⟨hs', hidle', hpartitions⟩ := detach_sound hs hidle holdest
  unfold detachAndDropPartition
  cases outcome with
  | failed => exact ⟨hs, hidle, nofun⟩
  | detached => exact ⟨hs', hidle', nofun⟩
  | dropped =>
      have hremoved : removeOldestPartitionName ((s.detach p).instances i).partitions p.name =
          rest := by
        rw [hpartitions, hcons, removeOldestPartitionName, if_pos rfl]
      obtain ⟨lastPass, hphase⟩ := hidle i
      have hsorted := idle_partitions (hs.working i) hphase
      rw [Sorted, hcons] at hsorted
      dsimp only
      rw [hremoved]
      refine ⟨hs'.set (idle_working hsorted.of_cons ?_), fun j => ?_, fun _ => ⟨rfl, ?_⟩⟩
      · exact (outdate_instance (s := { s with attached := s.attached.erase p }) hidle i).2
      · unfold Database.set
        by_cases hj : j = i
        · subst hj
          exact ⟨none, by
            simp only [Function.update_self]
            exact (outdate_instance (s := { s with attached := s.attached.erase p }) hidle j).2⟩
        · simp only [Function.update_of_ne hj]
          exact hidle' j
      · simp [Database.set]

theorem removePartitionsOlderThan_sound (tsInSec : ℤ) (outcomes : List DropOutcome) (hs : Sound s)
    (hidle : AllIdle s) (hknows : KnowsOlder s i (fun p => p.lastMoment < tsInSec)) :
    Sound (s.removePartitionsOlderThan i tsInSec outcomes) := by
  induction outcomes generalizing s with
  | nil => exact hs
  | cons outcome outcomes ih =>
      unfold removePartitionsOlderThan
      split
      · exact hs
      · rename_i oldest hoption
        by_cases hold : oldest.lastMoment < tsInSec
        swap
        · rw [if_neg hold]
          exact hs
        rw [if_pos hold]
        obtain ⟨rest, hcons⟩ := List.head?_eq_some_iff.mp hoption
        obtain ⟨lastPass, hphase⟩ := hidle i
        have hsorted := idle_partitions (hs.working i) hphase
        have holdest : oldest ∈ s.attached → ∀ q ∈ s.attached, oldest.beginning ≤ q.beginning :=
          hknows.oldest hsorted hoption hold
        obtain ⟨hs', hidle', hdropped⟩ := detachAndDrop_sound hs hidle hcons holdest outcome
        dsimp only
        split_ifs with houtcome
        swap
        · exact hs'
        obtain ⟨hattached, hpartitions⟩ := hdropped houtcome
        refine ih hs' hidle' (fun p hp hts hmem q hq hlt => ?_)
        rw [hpartitions] at hp ⊢
        rw [hattached] at hmem hq
        have htracked : q ∈ (s.instances i).partitions := by
          refine hknows p ?_ hts (List.mem_of_mem_erase hmem) q (List.mem_of_mem_erase hq) hlt
          rw [hcons]
          exact List.mem_cons_of_mem _ hp
        rw [hcons] at htracked
        refine (List.mem_cons.mp htracked).resolve_left ?_
        rintro rfl
        exact ((hs.attached.nodup.mem_erase_iff).mp hq).1 rfl

/-! ### Runs -/

/-- The condition on a step, in the state before it: partitions that are read are ordered by their
start when they are ordered by name, a newest partition that begins after now leaves nothing to add,
and removals take place while no pass is running, by an instance that tracks what is older. -/
def Meets (s : Database) : Action → Prop
  | .startPass i now => (∃ lastPass, (s.instances i).phase = .idle lastPass) →
      Sorted (getPartitionsList s.attached) ∧
      ∀ newest, getNewestPartition (getPartitionsList s.attached) = some newest →
        newest.beginning ≤ now ∨ Served s.attached now
  | .added _ _ => True
  | .poll _ _ => Sorted (getPartitionsList s.attached)
  | .removePartitionsOlderThan i tsInSec _ =>
      AllIdle s ∧ KnowsOlder s i (fun p => p.lastMoment < tsInSec)
  | .removeOldestPartition i _ _ _ =>
      AllIdle s ∧ KnowsOlder s i (fun p => getOldestPartition (s.instances i).partitions = some p)

theorem Sound.step (hs : Sound s) (a : Action) (ha : s.Meets a) : Sound (s.step a) := by
  cases a with
  | startPass i now =>
      unfold Database.step
      dsimp only
      split
      · rename_i lastPass hphase
        obtain ⟨hsorted, hnewest⟩ := ha ⟨lastPass, hphase⟩
        exact hs.set (startPass_working hs.attached hsorted hnewest)
      · exact hs
  | added i outcome =>
      unfold Database.step
      dsimp only
      split
      · exact hs
      · rename_i range hadding
        exact hs.added hadding _
  | poll i timeUp => exact hs.set (poll_working hs.attached (hs.working i) ha timeUp)
  | removePartitionsOlderThan i tsInSec outcomes =>
      unfold Database.step
      dsimp only
      split
      · exact removePartitionsOlderThan_sound tsInSec outcomes hs ha.1 ha.2
      · exact hs
  | removeOldestPartition i now forceRemoval outcome =>
      unfold Database.step
      dsimp only
      split
      · rename_i lastPass hphase
        unfold removeOldestPartition
        split
        · exact hs
        · rename_i oldest hoption
          split_ifs
          · exact hs
          · obtain ⟨rest, hcons⟩ := List.head?_eq_some_iff.mp hoption
            have hsorted := idle_partitions (hs.working i) hphase
            exact (detachAndDrop_sound hs ha.1 hcons
              (ha.2.oldest hsorted hoption hoption) outcome).1
      · exact hs

theorem after_sound {db : List Partition} (hdb : WellFormed db) (actions : List Action)
    (h : AllSteps (fun pre a => (after db pre).Meets a) actions) : Sound (after db actions) := by
  refine run_induction (P := fun actions => Sound (after db actions)) ⟨hdb, fun i => ?_⟩ ?_
    actions h
  · exact idle_working List.Pairwise.nil rfl
  · intro pre a ha hpre
    rw [after, run_concat]
    exact hpre.step a ha

theorem wellFormed_of_disjoint {db : List Partition} (hrange : ∀ p ∈ db, p.beginning < p.lastMoment)
    (hdisjoint : db.Pairwise (fun p q => ¬ Overlap p q))
    (hhours : ∀ p ∈ db, p.lastMoment % 3600 = 0) : WellFormed db where
  range := hrange
  disjoint p hp q hq hoverlap := by
    by_contra hne
    have hsymm : Std.Symm (fun p q : Partition => ¬ Overlap p q) :=
      ⟨fun _ _ hnot hoverlap => hnot hoverlap.symm⟩
    exact hdisjoint.forall hp hq hne hoverlap
  nodup := by
    refine hdisjoint.imp_of_mem (fun hp _ hnot heq => hnot ?_)
    subst heq
    exact ⟨hrange _ hp, hrange _ hp⟩
  hours p hp := Or.inl (hhours p hp)

theorem pairwise_of_wellFormed (hdb : WellFormed db) :
    db.Pairwise (fun p q => ¬ Overlap p q) :=
  hdb.nodup.imp_of_mem (fun hp hq hne hoverlap => hne (hdb.disjoint _ hp _ hq hoverlap))

/-- From disjoint partitions that end on the hour, in every run whose steps meet the condition: the
partitions are disjoint, the newest ends on the hour, an instance between passes tracks its
partitions in the order of their start, and after a pass in which nothing failed or was deferred now
and the hour after the current one are covered, until partitions are removed. -/
theorem partitions_after (db : List Partition) (actions : List Action)
    (hrange : ∀ p ∈ db, p.beginning < p.lastMoment)
    (hdisjoint : db.Pairwise (fun p q => ¬ Overlap p q))
    (hhours : ∀ p ∈ db, p.lastMoment % 3600 = 0)
    (h : AllSteps (fun pre a => (after db pre).Meets a) actions) :
    let s := after db actions
    s.attached.Pairwise (fun p q => ¬ Overlap p q) ∧
    (∀ p ∈ s.attached, (∀ q ∈ s.attached, q.beginning ≤ p.beginning) →
      p.lastMoment % 3600 = 0) ∧
    ∀ i lastPass, (s.instances i).phase = .idle lastPass →
      Sorted (s.instances i).partitions ∧
      ∀ now, lastPass = some (now, true) → Served s.attached now := by
  intro s
  have hs : Sound s := after_sound (wellFormed_of_disjoint hrange hdisjoint hhours) actions h
  refine ⟨pairwise_of_wellFormed hs.attached, fun p hp => hs.attached.newest_hour hp, ?_⟩
  intro i lastPass hphase
  have hworking := hs.working i
  simp only [Working, hphase] at hworking
  exact hworking

/-- An instance that finds the partition of now attached, and adds the one of the next hour. -/
theorem partitions_hourAttached :
    Covered (after [⟨7200, 10800⟩] [.startPass 0 7300, .added 0 .executed]).attached 7300 := by
  have hsteps : AllSteps (fun pre a => (after [⟨7200, 10800⟩] pre).Meets a)
      [.startPass 0 7300, .added 0 .executed] := by
    refine allSteps_of_get (fun i => ?_)
    fin_cases i
    · refine fun _ => ⟨by decide +kernel, fun newest hnewest => Or.inl ?_⟩
      have heq : (⟨7200, 10800⟩ : Partition) = newest := Option.some.inj hnewest
      subst heq
      decide
    · exact trivial
  have hafter := partitions_after [⟨7200, 10800⟩] [.startPass 0 7300, .added 0 .executed]
    (by decide) (by decide) (by decide) hsteps
  exact ((hafter.2.2 0 (some (7300, true)) (by decide +kernel)).2 7300 rfl).1

/-- The only partition attached begins later today.  The pass of an hour before it reports no
failure, and leaves now without a partition. -/
theorem partitions_not_after :
    let s := after [⟨7200, 10800⟩] [.startPass 0 100]
    (s.instances 0).phase = .idle (some (100, true)) ∧ ¬ Covered s.attached 100 := by
  refine ⟨by decide +kernel, ?_⟩
  rintro ⟨p, hp, hin⟩
  have heq : p = ⟨7200, 10800⟩ := List.mem_singleton.mp hp
  subst heq
  exact absurd hin.1 (by decide)

end Database

end LogosDelivery.Archive.Partitions
