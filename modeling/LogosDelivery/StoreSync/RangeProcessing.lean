import LogosDelivery.StoreSync.Common

/-! # Splitting a range into time slices

`calculateTimeRange` and `equalPartitioning` of `storage/range_processing.nim`.  A range is cut into
`count` slices of equal time length, the remainder spread over the first ones; every inner bound
carries the empty hash.  A range shorter than `count` nanoseconds is not cut at all, and the
result is empty.

`Tiles lo hi parts` says that consecutive slices cover the times from `lo` to `hi` without a gap;
`equalPartitioning_tiles` is the tiling result, and `equalPartitioning_shorter` that a cut into
two slices or more makes every slice strictly shorter, on which the end of a session rests. -/

namespace LogosDelivery.StoreSync

/-- The bound at time `t` with the empty hash. -/
def SyncID.atTime (t : ℤ) : SyncID := ⟨t, emptyFingerprint⟩

theorem SyncID.lt_atTime_iff {x : SyncID} {t : ℤ} : x < SyncID.atTime t ↔ x.time < t := by
  rw [SyncID.lt_iff]
  constructor
  · rintro (h | ⟨_, h⟩)
    · exact h
    · exact absurd (emptyFingerprint_le x.hash) (not_le.mpr h)
  · exact Or.inl

theorem SyncID.atTime_le_iff {x : SyncID} {t : ℤ} : SyncID.atTime t ≤ x ↔ t ≤ x.time := by
  rw [← not_lt, SyncID.lt_atTime_iff, not_lt]

/-- The start and end time of a sync session relative to `now`. -/
def calculateTimeRange (now jitter syncRange : ℤ) : Slice ℤ :=
  let syncEnd := now - jitter
  let syncStart := syncEnd - syncRange
  ⟨syncStart, syncEnd⟩

/-- The loop of `equalPartitioning`: `rem` slices get one more nanosecond. -/
def equalPartitioningLoop (parts : ℤ) : ℕ → ℤ → ℤ → List (Slice SyncID)
  | 0, _, _ => []
  | n + 1, lb, rem =>
      let ub := if 0 < rem then lb + parts + 1 else lb + parts
      let rem' := if 0 < rem then rem - 1 else rem
      ⟨SyncID.atTime lb, SyncID.atTime ub⟩ :: equalPartitioningLoop parts n ub rem'

/-- Partition into `count` time slices. -/
def equalPartitioning (slice : Slice SyncID) (count : ℤ) : List (Slice SyncID) :=
  let totalLength := slice.b.time - slice.a.time
  if totalLength < count then []
  else
    equalPartitioningLoop (totalLength.tdiv count) count.toNat slice.a.time
      (totalLength.tmod count)

/-- The slices run from time `lo` to time `hi`, each starting where the one before ends. -/
inductive Tiles : ℤ → ℤ → List (Slice SyncID) → Prop
  | nil (t : ℤ) : Tiles t t []
  | cons {lo ub hi : ℤ} {rest : List (Slice SyncID)} :
      lo < ub → Tiles ub hi rest → Tiles lo hi (⟨SyncID.atTime lo, SyncID.atTime ub⟩ :: rest)

theorem Tiles.le {lo hi : ℤ} {parts : List (Slice SyncID)} (h : Tiles lo hi parts) :
    lo ≤ hi := by
  induction h with
  | nil t => exact le_rfl
  | cons hlt _ ih => omega

/-- Every slice of a tiling is a time slice inside it. -/
theorem Tiles.mem {lo hi : ℤ} {parts : List (Slice SyncID)} (h : Tiles lo hi parts)
    {r : Slice SyncID} (hr : r ∈ parts) :
    ∃ s t, r = ⟨SyncID.atTime s, SyncID.atTime t⟩ ∧ lo ≤ s ∧ s < t ∧ t ≤ hi := by
  induction h with
  | nil t => simp at hr
  | @cons lo ub hi rest hlt hrest ih =>
      rcases List.mem_cons.mp hr with rfl | hr
      · exact ⟨lo, ub, rfl, le_rfl, hlt, hrest.le⟩
      · obtain ⟨s, t, rfl, h1, h2, h3⟩ := ih hr
        exact ⟨s, t, rfl, by omega, h2, h3⟩

theorem equalPartitioningLoop_tiles {parts : ℤ} (hp : 1 ≤ parts) :
    ∀ (n : ℕ) (lb rem : ℤ), 0 ≤ rem → rem ≤ n →
      Tiles lb (lb + n * parts + rem) (equalPartitioningLoop parts n lb rem)
  | 0, lb, rem, h0, h1 => by
      have hrem : rem = 0 := by omega
      simpa [equalPartitioningLoop, hrem] using Tiles.nil lb
  | n + 1, lb, rem, h0, h1 => by
      simp only [equalPartitioningLoop]
      have key : ∀ ub rem' : ℤ, lb < ub → 0 ≤ rem' → rem' ≤ n →
          lb + (n + 1 : ℕ) * parts + rem = ub + n * parts + rem' →
          Tiles lb (lb + (n + 1 : ℕ) * parts + rem)
            (⟨SyncID.atTime lb, SyncID.atTime ub⟩ :: equalPartitioningLoop parts n ub rem') := by
        intro ub rem' hlt hr0 hrn he
        rw [he]
        exact Tiles.cons hlt (equalPartitioningLoop_tiles hp n ub rem' hr0 hrn)
      split_ifs with hr
      · refine key _ _ (by omega) (by omega) (by push_cast at h1; omega) ?_
        push_cast
        ring
      · refine key _ _ (by omega) h0 (by omega) ?_
        push_cast
        ring

theorem equalPartitioningLoop_length_le {parts : ℤ} :
    ∀ (n : ℕ) (lb rem : ℤ), ∀ r ∈ equalPartitioningLoop parts n lb rem,
      r.b.time - r.a.time ≤ parts + (if 0 < rem then 1 else 0)
  | 0, lb, rem, r, hr => by simp [equalPartitioningLoop] at hr
  | n + 1, lb, rem, r, hr => by
      simp only [equalPartitioningLoop, List.mem_cons] at hr
      rcases hr with rfl | hr
      · simp only [SyncID.atTime]
        split_ifs <;> omega
      · have := equalPartitioningLoop_length_le n _ _ r hr
        split_ifs at this ⊢ <;> omega

theorem equalPartitioning_of_lt {slice : Slice SyncID} {count : ℤ}
    (h : slice.b.time - slice.a.time < count) : equalPartitioning slice count = [] := by
  simp [equalPartitioning, h]

/-- The slices cover exactly the times of the range. -/
theorem equalPartitioning_tiles (slice : Slice SyncID) {count : ℤ} (hc : 1 ≤ count)
    (h : count ≤ slice.b.time - slice.a.time) :
    Tiles slice.a.time slice.b.time (equalPartitioning slice count) := by
  have hnn : 0 ≤ slice.b.time - slice.a.time := by omega
  have hdiv := Int.tdiv_eq_ediv_of_nonneg (b := count) hnn
  have hmod := Int.tmod_eq_emod_of_nonneg (b := count) hnn
  have hparts : 1 ≤ (slice.b.time - slice.a.time) / count :=
    (Int.le_ediv_iff_mul_le (by omega)).mpr (by omega)
  have hrem0 := Int.emod_nonneg (slice.b.time - slice.a.time) (b := count) (by omega)
  have hrem1 := Int.emod_lt_of_pos (slice.b.time - slice.a.time) (b := count) (by omega)
  have hsum := Int.mul_ediv_add_emod (slice.b.time - slice.a.time) count
  have htiles := equalPartitioningLoop_tiles hparts count.toNat slice.a.time
    ((slice.b.time - slice.a.time) % count) hrem0 (by omega)
  have hcount : (count.toNat : ℤ) = count := Int.toNat_of_nonneg (by omega)
  have hend : slice.a.time + (count.toNat : ℤ) * ((slice.b.time - slice.a.time) / count) +
      (slice.b.time - slice.a.time) % count = slice.b.time := by
    rw [hcount]
    omega
  rw [hend] at htiles
  unfold equalPartitioning
  rw [if_neg (by omega), hdiv, hmod]
  exact htiles

/-- With two slices or more, every slice is strictly shorter than the range. -/
theorem equalPartitioning_shorter {slice : Slice SyncID} {count : ℤ} (hc : 2 ≤ count)
    {r : Slice SyncID} (hr : r ∈ equalPartitioning slice count) :
    r.b.time - r.a.time < slice.b.time - slice.a.time := by
  by_cases h : slice.b.time - slice.a.time < count
  · rw [equalPartitioning_of_lt h] at hr
    simp at hr
  · have hnn : 0 ≤ slice.b.time - slice.a.time := by omega
    unfold equalPartitioning at hr
    rw [if_neg h, Int.tdiv_eq_ediv_of_nonneg hnn, Int.tmod_eq_emod_of_nonneg hnn] at hr
    have hlen := equalPartitioningLoop_length_le _ _ _ r hr
    have hparts : 1 ≤ (slice.b.time - slice.a.time) / count :=
      (Int.le_ediv_iff_mul_le (by omega)).mpr (by omega)
    have hsum := Int.mul_ediv_add_emod (slice.b.time - slice.a.time) count
    have htwo : 2 * ((slice.b.time - slice.a.time) / count) ≤
        count * ((slice.b.time - slice.a.time) / count) :=
      mul_le_mul_of_nonneg_right hc (by omega)
    have hrem := Int.emod_nonneg (slice.b.time - slice.a.time) (b := count) (by omega)
    split_ifs at hlen <;> omega

end LogosDelivery.StoreSync
