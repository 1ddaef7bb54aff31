import LogosDelivery.Archive.PartitionFactory

/-! # Hour slots of a partitioned table

What the factory adds is always the uncovered start of an hour slot (`Slot`).  Additions of this
kind keep the partitions disjoint and each end on an o'clock or at the start of another partition
(`WellFormed`), and they never get in each other's way (`Slot.attach`), so it does not matter in
which order the instances come to theirs. -/

namespace LogosDelivery.Archive.Partitions

variable {db : List Partition} {p q R R' : Partition} {now : ℕ} {t : ℤ}

/-! ### Hours -/

theorem floorToHour_eq (now : ℕ) : floorToHour now = now - (now : ℤ) % 3600 := by
  rw [floorToHour, Int.tmod_eq_emod_of_nonneg (by omega)]

theorem floorToHour_mod (now : ℕ) : floorToHour now % 3600 = 0 := by
  rw [floorToHour_eq]
  omega

theorem floorToHour_le (now : ℕ) : floorToHour now ≤ now := by
  rw [floorToHour_eq]
  omega

theorem lt_floorToHour (now : ℕ) : (now : ℤ) < floorToHour now + 3600 := by
  rw [floorToHour_eq]
  omega

/-- An hour that has begun began with the current one at the latest. -/
theorem hour_le_floorToHour (ht : t % 3600 = 0) (hle : t ≤ now) : t ≤ floorToHour now := by
  rw [floorToHour_eq]
  omega

theorem floorToHour_lt_hour (ht : t % 3600 = 0) (hlt : now < t) : floorToHour now + 3600 ≤ t := by
  rw [floorToHour_eq]
  omega

theorem calcEndPartitionTime_hour (ht : t % 3600 = 0) : calcEndPartitionTime t = t + 3600 := by
  have hmod : (t + 3600) % 3600 = 0 := by omega
  simp only [calcEndPartitionTime, hmod, sub_zero]

theorem currentPartition_eq (now : ℕ) :
    currentPartition now = ⟨floorToHour now, floorToHour now + 3600⟩ := by
  rw [currentPartition, calcEndPartitionTime_hour (floorToHour_mod now)]

/-! ### Ranges -/

def Overlap (p q : Partition) : Prop := p.beginning < q.lastMoment ∧ q.beginning < p.lastMoment

instance (p q : Partition) : Decidable (Overlap p q) := by
  unfold Overlap
  infer_instance

theorem Overlap.symm (h : Overlap p q) : Overlap q p := ⟨h.2, h.1⟩

def Covered (db : List Partition) (t : ℤ) : Prop :=
  ∃ p ∈ db, p.beginning ≤ t ∧ t < p.lastMoment

/-- Messages of now and of the hour after the current one have a partition. -/
def Served (db : List Partition) (now : ℕ) : Prop :=
  Covered db now ∧
    ∀ t, floorToHour now + 3600 ≤ t → t < floorToHour now + 7200 → Covered db t

theorem mem_attach : p ∈ attach db R ↔ p ∈ db ∨ p = R := by
  unfold attach
  split_ifs with hmem
  · constructor
    · exact Or.inl
    · rintro (hp | rfl)
      · exact hp
      · exact hmem
  · rw [List.mem_append, List.mem_singleton]

theorem Covered.mono {db' : List Partition} (h : Covered db t) (hsub : ∀ p ∈ db, p ∈ db') :
    Covered db' t := by
  obtain ⟨p, hp, hin⟩ := h
  exact ⟨p, hsub p hp, hin⟩

theorem Served.mono {db' : List Partition} (h : Served db now)
    (hsub : ∀ p ∈ db, p ∈ db') : Served db' now :=
  ⟨h.1.mono hsub, fun t hlow hhigh => (h.2 t hlow hhigh).mono hsub⟩

/-! ### Well-formed partitions -/

structure WellFormed (db : List Partition) : Prop where
  range : ∀ p ∈ db, p.beginning < p.lastMoment
  disjoint : ∀ p ∈ db, ∀ q ∈ db, Overlap p q → p = q
  nodup : db.Nodup
  hours : ∀ p ∈ db, p.lastMoment % 3600 = 0 ∨ ∃ q ∈ db, q.beginning = p.lastMoment

/-- Different partitions do not start at the same time. -/
theorem WellFormed.eq_of_beginning (h : WellFormed db) (hp : p ∈ db) (hq : q ∈ db)
    (heq : p.beginning = q.beginning) : p = q := by
  refine h.disjoint p hp q hq ⟨?_, ?_⟩
  · rw [heq]
    exact h.range q hq
  · rw [← heq]
    exact h.range p hp

/-- Of two different partitions the one that starts first ends before the other starts. -/
theorem WellFormed.last_le (h : WellFormed db) (hp : p ∈ db) (hq : q ∈ db)
    (hlt : p.beginning < q.beginning) : p.lastMoment ≤ q.beginning := by
  by_contra hle
  have hoverlap : Overlap p q := ⟨hlt.trans (h.range q hq), not_le.mp hle⟩
  rw [h.disjoint p hp q hq hoverlap] at hlt
  exact lt_irrefl _ hlt

/-- The newest partition ends on the hour. -/
theorem WellFormed.newest_hour (h : WellFormed db) (hp : p ∈ db)
    (hnewest : ∀ q ∈ db, q.beginning ≤ p.beginning) : p.lastMoment % 3600 = 0 := by
  rcases h.hours p hp with hhour | ⟨q, hq, heq⟩
  · exact hhour
  · have hle := hnewest q hq
    have hrange := h.range p hp
    omega

/-- Nothing ends after the newest partition. -/
theorem WellFormed.last_le_newest (h : WellFormed db) (hp : p ∈ db)
    (hnewest : ∀ q ∈ db, q.beginning ≤ p.beginning) (hq : q ∈ db) :
    q.lastMoment ≤ p.lastMoment := by
  rcases lt_or_eq_of_le (hnewest q hq) with hlt | heq
  · exact (h.last_le hq hp hlt).trans (h.range p hp).le
  · rw [h.eq_of_beginning hq hp heq]

/-! ### Slots -/

/-- A range from an o'clock to the next one or to the start of a partition within the hour, which
overlaps no partition but itself. -/
structure Slot (db : List Partition) (R : Partition) : Prop where
  hour : R.beginning % 3600 = 0
  pos : R.beginning < R.lastMoment
  within : R.lastMoment ≤ R.beginning + 3600
  reaches : R.lastMoment = R.beginning + 3600 ∨ ∃ q ∈ db, q.beginning = R.lastMoment
  free : ∀ p ∈ db, Overlap p R → p = R

/-- Of two slots at the same o'clock none is longer: it would overlap what the other one reaches. -/
theorem Slot.last_le (hdb : WellFormed db) (h : Slot db R) (h' : Slot db R')
    (heq : R.beginning = R'.beginning) : R'.lastMoment ≤ R.lastMoment := by
  by_contra hlt
  rw [not_le] at hlt
  have hpos := h.pos
  rcases h.reaches with hfull | ⟨q, hq, hqR⟩
  · have hwithin := h'.within
    omega
  · have hrange := hdb.range q hq
    have hoverlap : Overlap q R' := ⟨by omega, by omega⟩
    rw [h'.free q hq hoverlap] at hqR
    omega

/-- Two slots of the same partitions are the same or do not overlap. -/
theorem Slot.eq_of_overlap (hdb : WellFormed db) (h : Slot db R) (h' : Slot db R')
    (hoverlap : Overlap R' R) : R' = R := by
  have hhour : R'.beginning = R.beginning := by
    obtain ⟨hlow, hhigh⟩ := hoverlap
    have hmod := h.hour
    have hmod' := h'.hour
    have hwithin := h.within
    have hwithin' := h'.within
    omega
  have hlast : R'.lastMoment = R.lastMoment :=
    le_antisymm (h.last_le hdb h' hhour.symm) (h'.last_le hdb h hhour)
  cases R
  cases R'
  simp only at hhour hlast
  rw [hhour, hlast]

theorem Slot.attach (hdb : WellFormed db) (h : Slot db R) (h' : Slot db R') :
    Slot (attach db R') R where
  hour := h.hour
  pos := h.pos
  within := h.within
  reaches := h.reaches.imp_right (fun ⟨q, hq, heq⟩ => ⟨q, mem_attach.mpr (Or.inl hq), heq⟩)
  free p hp hoverlap := by
    rcases mem_attach.mp hp with hold | rfl
    · exact h.free p hold hoverlap
    · exact h.eq_of_overlap hdb h' hoverlap

theorem WellFormed.attach (hdb : WellFormed db) (h : Slot db R) : WellFormed (attach db R) where
  range p hp := by
    rcases mem_attach.mp hp with hold | rfl
    · exact hdb.range p hold
    · exact h.pos
  disjoint p hp q hq hoverlap := by
    rcases mem_attach.mp hp with hpold | rfl
    · rcases mem_attach.mp hq with hqold | rfl
      · exact hdb.disjoint p hpold q hqold hoverlap
      · exact h.free p hpold hoverlap
    · rcases mem_attach.mp hq with hqold | rfl
      · exact (h.free q hqold hoverlap.symm).symm
      · rfl
  nodup := by
    unfold Partitions.attach
    split_ifs with hmem
    · exact hdb.nodup
    · rw [← List.concat_eq_append]
      exact hdb.nodup.concat hmem
  hours p hp := by
    rcases mem_attach.mp hp with hold | rfl
    · exact (hdb.hours p hold).imp_right
        (fun ⟨q, hq, heq⟩ => ⟨q, mem_attach.mpr (Or.inl hq), heq⟩)
    · rcases h.reaches with hfull | ⟨q, hq, heq⟩
      · have hmod := h.hour
        exact Or.inl (by omega)
      · exact Or.inr ⟨q, mem_attach.mpr (Or.inl hq), heq⟩

/-- Without the oldest partition the others are as they were. -/
theorem WellFormed.erase_oldest (hdb : WellFormed db)
    (holdest : p ∈ db → ∀ q ∈ db, p.beginning ≤ q.beginning) : WellFormed (db.erase p) where
  range q hq := hdb.range q (List.mem_of_mem_erase hq)
  disjoint q hq r hr := hdb.disjoint q (List.mem_of_mem_erase hq) r (List.mem_of_mem_erase hr)
  nodup := hdb.nodup.erase p
  hours q hq := by
    have hq' := List.mem_of_mem_erase hq
    refine (hdb.hours q hq').imp_right (fun ⟨r, hr, heq⟩ => ⟨r, ?_, heq⟩)
    refine (hdb.nodup.mem_erase_iff).mpr ⟨?_, hr⟩
    rintro rfl
    have hle := holdest hr q hq'
    have hrange := hdb.range q hq'
    omega

/-! ### The slots that the factory finds -/

/-- The hour after the newest partition is free. -/
theorem slot_after_newest (hdb : WellFormed db) (hp : p ∈ db)
    (hnewest : ∀ q ∈ db, q.beginning ≤ p.beginning) {h : ℤ} (hhour : h % 3600 = 0)
    (hle : p.lastMoment ≤ h) : Slot db ⟨h, h + 3600⟩ where
  hour := hhour
  pos := by
    dsimp only
    omega
  within := le_rfl
  reaches := Or.inl rfl
  free q hq hoverlap := by
    have hlast := hdb.last_le_newest hp hnewest hq
    have hover := hoverlap.2
    dsimp only at hover
    omega

/-- Nothing is attached, so every hour is free. -/
theorem slot_of_nil {h : ℤ} (hhour : h % 3600 = 0) : Slot [] ⟨h, h + 3600⟩ where
  hour := hhour
  pos := by
    dsimp only
    omega
  within := le_rfl
  reaches := Or.inl rfl
  free q hq := by cases hq

/-- The slots that other instances attached since the tracked partitions were read. -/
structure Behind (db tracked : List Partition) : Prop where
  sub : ∀ p ∈ tracked, p ∈ db
  hour : ∀ p ∈ db, p ∉ tracked → p.beginning % 3600 = 0 ∧ p.lastMoment ≤ p.beginning + 3600

theorem Behind.attach {tracked : List Partition} (h : Behind db tracked) (hR : Slot db R) :
    Behind (attach db R) tracked where
  sub p hp := mem_attach.mpr (Or.inl (h.sub p hp))
  hour p hp hnot := by
    rcases mem_attach.mp hp with hold | rfl
    · exact h.hour p hold hnot
    · exact ⟨hR.hour, hR.within⟩

theorem Behind.track {tracked : List Partition} (h : Behind db tracked) (hR : R ∈ db) :
    Behind db (tracked ++ [R]) where
  sub p hp := by
    rcases List.mem_append.mp hp with hp | hp
    · exact h.sub p hp
    · rw [List.mem_singleton.mp hp]
      exact hR
  hour p hp hnot := h.hour p hp (fun hmem => hnot (List.mem_append.mpr (Or.inl hmem)))

section Prefix

variable {tracked : List Partition} {beginning last : ℤ}

theorem firstOverlapStart_concat (tracked : List Partition) (p : Partition) :
    firstOverlapStart (tracked ++ [p]) beginning last =
      if p.beginning < last ∧ beginning < p.lastMoment then
        min (firstOverlapStart tracked beginning last) p.beginning
      else firstOverlapStart tracked beginning last := by
  simp [firstOverlapStart, List.foldl_append]

/-- The start of the overlap is the end of the range or the start of a tracked partition, and no
tracked partition that overlaps the range starts before it. -/
theorem firstOverlapStart_spec (beginning last : ℤ) (tracked : List Partition) :
    firstOverlapStart tracked beginning last ≤ last ∧
    (firstOverlapStart tracked beginning last = last ∨
      ∃ p ∈ tracked, p.beginning = firstOverlapStart tracked beginning last) ∧
    ∀ p ∈ tracked, p.beginning < last → beginning < p.lastMoment →
      firstOverlapStart tracked beginning last ≤ p.beginning := by
  induction tracked using List.reverseRecOn with
  | nil => exact ⟨le_rfl, Or.inl rfl, nofun⟩
  | append_singleton tracked q ih =>
      obtain ⟨hle, hfrom, hall⟩ := ih
      rw [firstOverlapStart_concat]
      split_ifs with hq
      · refine ⟨(min_le_left _ _).trans hle, ?_, ?_⟩
        · rcases le_total (firstOverlapStart tracked beginning last) q.beginning with hmin | hmin
          · rw [min_eq_left hmin]
            exact hfrom.imp_right (fun ⟨p, hp, heq⟩ =>
              ⟨p, List.mem_append.mpr (Or.inl hp), heq⟩)
          · rw [min_eq_right hmin]
            exact Or.inr ⟨q, by simp, rfl⟩
        · intro p hp hlow hhigh
          rcases List.mem_append.mp hp with hp | hp
          · exact (min_le_left _ _).trans (hall p hp hlow hhigh)
          · rw [List.mem_singleton.mp hp]
            exact min_le_right _ _
      · refine ⟨hle, hfrom.imp_right (fun ⟨p, hp, heq⟩ =>
          ⟨p, List.mem_append.mpr (Or.inl hp), heq⟩), ?_⟩
        intro p hp hlow hhigh
        rcases List.mem_append.mp hp with hp | hp
        · exact hall p hp hlow hhigh
        · rw [List.mem_singleton.mp hp] at hlow hhigh
          exact absurd ⟨hlow, hhigh⟩ hq

/-- The uncovered start of an hour is a slot, also where other instances attached slots since. -/
theorem slot_of_uncoveredPrefix (hdb : WellFormed db) (hbehind : Behind db tracked) {h : ℤ}
    (hhour : h % 3600 = 0) (hR : uncoveredPrefix tracked h (h + 3600) = some R) : Slot db R := by
  obtain ⟨hle, hfrom, hall⟩ := firstOverlapStart_spec h (h + 3600) tracked
  unfold uncoveredPrefix at hR
  dsimp only at hR
  split_ifs at hR with hnone
  cases hR
  rw [not_le] at hnone
  refine ⟨hhour, hnone, hle, hfrom.imp_right (fun ⟨p, hp, heq⟩ => ⟨p, hbehind.sub p hp, heq⟩), ?_⟩
  intro p hp hoverlap
  obtain ⟨hlow, hhigh⟩ := hoverlap
  dsimp only at hlow hhigh
  have htracked : p ∉ tracked := by
    intro hmem
    have hle' := hall p hmem (by omega) hhigh
    omega
  -- another instance attached it, at the same o'clock
  obtain ⟨hmod, hwithin⟩ := hbehind.hour p hp htracked
  have hbeginning : p.beginning = h := by omega
  have hlast : p.lastMoment = firstOverlapStart tracked h (h + 3600) := by
    refine le_antisymm ?_ ?_
    · by_contra hlt
      rcases hfrom with hfull | ⟨q, hq, heq⟩
      · omega
      · have hrange := hdb.range q (hbehind.sub q hq)
        have hover : Overlap q p := ⟨by omega, by omega⟩
        have hqp := hdb.disjoint q (hbehind.sub q hq) p hp hover
        exact htracked (hqp ▸ hq)
    · by_contra hlt
      rcases hdb.hours p hp with hpmod | ⟨q, hq, heq⟩
      · omega
      · have hqtracked : q ∈ tracked := by
          by_contra hnot
          have hqmod := (hbehind.hour q hq hnot).1
          omega
        have hrange := hdb.range q hq
        have hle' := hall q hqtracked (by omega) (by omega)
        omega
  cases p
  simp only at hbeginning hlast
  rw [hbeginning, hlast]

end Prefix

end LogosDelivery.Archive.Partitions
