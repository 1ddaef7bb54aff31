import LogosDelivery.Lib.EvenCuts
import LogosDelivery.StoreSync.RangeProcessing

/-! # An even partition of a range

`equalPartitioning` of `storage/range_processing.nim` once more, now with the checks that the language
makes: every sum is an `int64`, the divisor is not zero and the capacity of the result is a
`Natural`.  When the length of the range fits an `int64` no check fails
(`equalPartitioning_eq_ok`).

The loop spreads the remainder with a counter; its bounds are the even cuts of the range
(`equalPartitioningLoop_eq_cuts`).  So the slices are as many as asked for, tile the range from
its start to its very end, and differ in length by one nanosecond at most
(`equalPartitioning_evenlyTiles`). -/

namespace LogosDelivery.StoreSync

open Lib

/-- The values of an `int64`. -/
def IsInt64 (val : ℤ) : Prop := -2 ^ 63 ≤ val ∧ val < 2 ^ 63

instance (val : ℤ) : Decidable (IsInt64 val) := inferInstanceAs (Decidable (_ ∧ _))

inductive PartitionDefect where
  | overflow
  | divByZero
  | range
deriving DecidableEq

/-! ### The slices as even cuts -/

section Cuts

variable {parts rem lb : ℤ} {i : ℕ}

/-- Slice `i` of the partition that starts at time `lb`. -/
def evenPart (parts rem lb : ℤ) (i : ℕ) : Slice SyncID :=
  ⟨SyncID.atTime (lb + evenCut parts rem i), SyncID.atTime (lb + evenCut parts rem (i + 1))⟩

theorem evenPart_succ_pred :
    evenPart parts rem lb (i + 1) = evenPart parts (rem - 1) (lb + parts + 1) i := by
  have h : ∀ k, lb + evenCut parts rem (k + 1) = lb + parts + 1 + evenCut parts (rem - 1) k := by
    intro k
    rw [evenCut_succ_pred]
    ring
  rw [evenPart, h i, h (i + 1), evenPart]

theorem evenPart_succ_zero : evenPart parts 0 lb (i + 1) = evenPart parts 0 (lb + parts) i := by
  have h : ∀ k, lb + evenCut parts 0 (k + 1) = lb + parts + evenCut parts 0 k := by
    intro k
    rw [evenCut_succ_zero]
    ring
  rw [evenPart, h i, h (i + 1), evenPart]

theorem evenPart_zero (hr : 0 ≤ rem) :
    evenPart parts rem lb 0 =
      ⟨SyncID.atTime lb, SyncID.atTime (if 0 < rem then lb + parts + 1 else lb + parts)⟩ := by
  rw [evenPart, evenCut_succ, evenCut_zero hr, Nat.cast_zero, add_zero]
  split_ifs
  · rw [zero_add, add_assoc]
  · rw [zero_add]

theorem evenPart_length :
    (evenPart parts rem lb i).b.time - (evenPart parts rem lb i).a.time =
      if (i : ℤ) < rem then parts + 1 else parts := by
  simp only [evenPart, SyncID.atTime, evenCut_succ]
  omega

/-- The counter of the loop puts the bounds at the even cuts. -/
theorem equalPartitioningLoop_eq_cuts : ∀ (n : ℕ) (lb rem : ℤ), 0 ≤ rem →
    equalPartitioningLoop parts n lb rem = (List.range n).map (evenPart parts rem lb)
  | 0, lb, rem, _ => rfl
  | n + 1, lb, rem, h0 => by
      rw [List.range_succ_eq_map, List.map_cons, List.map_map, evenPart_zero h0,
        equalPartitioningLoop]
      by_cases hr : 0 < rem
      · simp only [if_pos hr]
        rw [equalPartitioningLoop_eq_cuts n _ _ (by omega)]
        congr 1
        exact List.map_congr_left (fun _ _ => evenPart_succ_pred.symm)
      · obtain rfl : rem = 0 := by omega
        simp only [if_neg hr]
        rw [equalPartitioningLoop_eq_cuts n _ _ le_rfl]
        congr 1
        exact List.map_congr_left (fun _ _ => evenPart_succ_zero.symm)

/-- A range is tiled by `count` slices of almost the same length. -/
structure EvenlyTiles (slice : Slice SyncID) (count : ℤ) (parts : List (Slice SyncID)) : Prop where
  length : (parts.length : ℤ) = count
  first : parts.head?.map (·.a) = some (SyncID.atTime slice.a.time)
  joined : parts.IsChain (fun r r' => r'.a = r.b)
  last : parts.getLast?.map (·.b) = some (SyncID.atTime slice.b.time)
  length_pos : ∀ r ∈ parts, 1 ≤ r.b.time - r.a.time
  length_even : ∀ r ∈ parts, ∀ r' ∈ parts,
    |(r.b.time - r.a.time) - (r'.b.time - r'.a.time)| ≤ 1

theorem evenlyTiles_cuts (slice : Slice SyncID) {n : ℕ} (hn : 0 < n)
    (h : n ≤ slice.b.time - slice.a.time) :
    EvenlyTiles slice n ((List.range n).map
      (evenPart ((slice.b.time - slice.a.time) / n) ((slice.b.time - slice.a.time) % n)
        slice.a.time)) where
  length := by rw [List.length_map, List.length_range]
  first := by
    have hrem : 0 ≤ (slice.b.time - slice.a.time) % n := Int.emod_nonneg _ (by omega)
    rw [List.head?_map, List.head?_range, if_neg (by omega), Option.map_some, Option.map_some,
      evenPart, evenCut_zero hrem, add_zero]
  joined := by
    rw [List.isChain_map]
    cases n with
    | zero => exact List.isChain_nil
    | succ n => exact (List.isChain_range_succ _ n).mpr (fun _ _ => rfl)
  last := by
    have hend : n - 1 + 1 = n := by omega
    rw [List.getLast?_map, List.getLast?_range, if_neg (by omega), Option.map_some,
      Option.map_some, evenPart, hend, evenCut_div_mod hn, add_sub_cancel]
  length_pos := by
    intro r hr
    obtain ⟨i, _, rfl⟩ := List.mem_map.mp hr
    have hparts : 1 ≤ (slice.b.time - slice.a.time) / n :=
      (Int.le_ediv_iff_mul_le (by omega)).mpr (by omega)
    rw [evenPart_length]
    split_ifs <;> omega
  length_even := by
    intro r hr r' hr'
    obtain ⟨i, _, rfl⟩ := List.mem_map.mp hr
    obtain ⟨j, _, rfl⟩ := List.mem_map.mp hr'
    rw [evenPart_length, evenPart_length, abs_le]
    split_ifs <;> omega

/-- A range that is long enough is cut with the quotient and the remainder of its length. -/
theorem equalPartitioning_eq_cuts {slice : Slice SyncID} {n : ℕ} (hn : 0 < n)
    (h : n ≤ slice.b.time - slice.a.time) :
    equalPartitioning slice n = (List.range n).map
      (evenPart ((slice.b.time - slice.a.time) / n) ((slice.b.time - slice.a.time) % n)
        slice.a.time) := by
  have hnn : 0 ≤ slice.b.time - slice.a.time := by omega
  have hrem : 0 ≤ (slice.b.time - slice.a.time) % n := Int.emod_nonneg _ (by omega)
  rw [equalPartitioning, if_neg (by omega), Int.tdiv_eq_ediv_of_nonneg hnn,
    Int.tmod_eq_emod_of_nonneg hnn, Int.toNat_natCast, equalPartitioningLoop_eq_cuts n _ _ hrem]

end Cuts

namespace Checked

/-- The value of an `int64` operation. -/
def int64 (val : ℤ) : Except PartitionDefect ℤ :=
  if IsInt64 val then .ok val else .error .overflow

/-- `x div y`. -/
def int64Div (x y : ℤ) : Except PartitionDefect ℤ :=
  if y = 0 then .error .divByZero else int64 (x.tdiv y)

/-- `x mod y`. -/
def int64Mod (x y : ℤ) : Except PartitionDefect ℤ :=
  if y = 0 then .error .divByZero else .ok (x.tmod y)

/-- The `n` rounds left of the loop of `equalPartitioning`. -/
def equalPartitioningLoop (parts : ℤ) :
    ℕ → ℤ → ℤ → Except PartitionDefect (List (Slice SyncID))
  | 0, _, _ => .ok []
  | n + 1, lb, rem => do
      let sum ← int64 (lb + parts)
      let ub ← if 0 < rem then int64 (sum + 1) else .ok sum
      let rem' ← if 0 < rem then int64 (rem - 1) else .ok rem
      let bounds ← equalPartitioningLoop parts n ub rem'
      return ⟨SyncID.atTime lb, SyncID.atTime ub⟩ :: bounds

/-- Partition into `count` time slices. -/
def equalPartitioning (slice : Slice SyncID) (count : ℤ) :
    Except PartitionDefect (List (Slice SyncID)) := do
  let totalLength ← int64 (slice.b.time - slice.a.time)
  if totalLength < count then return []
  else do
    let parts ← int64Div totalLength count
    let rem ← int64Mod totalLength count
    -- The capacity of `newSeqOfCap` is a `Natural`.
    if count < 0 then .error .range
    else equalPartitioningLoop parts count.toNat slice.a.time rem

theorem int64_of {val : ℤ} (h : IsInt64 val) : int64 val = .ok val := if_pos h

/-- As long as the end of the last slice is an `int64`, no sum overflows. -/
theorem equalPartitioningLoop_eq_ok {parts : ℤ} (hp : 0 ≤ parts) : ∀ (n : ℕ) (lb rem : ℤ),
    -2 ^ 63 ≤ lb → 0 ≤ rem → rem < 2 ^ 63 → lb + evenCut parts rem n < 2 ^ 63 →
    equalPartitioningLoop parts n lb rem = .ok (StoreSync.equalPartitioningLoop parts n lb rem)
  | 0, lb, rem, _, _, _, _ => rfl
  | n + 1, lb, rem, hlb, h0, h1, hend => by
      by_cases hr : 0 < rem
      · have hcut : 0 ≤ evenCut parts (rem - 1) n := evenCut_nonneg hp (by omega)
        rw [evenCut_succ_pred] at hend
        have hsum : IsInt64 (lb + parts) := ⟨by omega, by omega⟩
        have hub : IsInt64 (lb + parts + 1) := ⟨by omega, by omega⟩
        have hrem : IsInt64 (rem - 1) := ⟨by omega, by omega⟩
        have ih := equalPartitioningLoop_eq_ok hp n (lb + parts + 1) (rem - 1) hub.1 (by omega)
          hrem.2 (by omega)
        simp only [equalPartitioningLoop, StoreSync.equalPartitioningLoop, if_pos hr,
          int64_of hsum, int64_of hub, int64_of hrem, ih, bind, Except.bind, pure, Except.pure]
      · obtain rfl : rem = 0 := by omega
        have hcut : 0 ≤ evenCut parts 0 n := evenCut_nonneg hp le_rfl
        rw [evenCut_succ_zero] at hend
        have hsum : IsInt64 (lb + parts) := ⟨by omega, by omega⟩
        have ih := equalPartitioningLoop_eq_ok hp n (lb + parts) 0 hsum.1 le_rfl h1 (by omega)
        simp only [equalPartitioningLoop, StoreSync.equalPartitioningLoop, if_neg hr,
          int64_of hsum, ih, bind, Except.bind, pure, Except.pure]

/-- No check fails on a range whose length fits an `int64`. -/
theorem equalPartitioning_eq_ok {slice : Slice SyncID} {count : ℤ} (ha : IsInt64 slice.a.time)
    (hb : IsInt64 slice.b.time) (hdiff : IsInt64 (slice.b.time - slice.a.time)) (hc : 1 ≤ count) :
    equalPartitioning slice count = .ok (StoreSync.equalPartitioning slice count) := by
  lift count to ℕ using (by omega) with n
  have hn : 0 < n := by omega
  simp only [equalPartitioning, StoreSync.equalPartitioning, int64_of hdiff, bind, Except.bind,
    pure, Except.pure]
  by_cases hlt : slice.b.time - slice.a.time < n
  · rw [if_pos hlt, if_pos hlt]
  · have hmax := hdiff.2
    have hnn : 0 ≤ slice.b.time - slice.a.time := by omega
    have hparts : 0 ≤ (slice.b.time - slice.a.time) / n := Int.ediv_nonneg hnn (by omega)
    have hle : (slice.b.time - slice.a.time) / n ≤ slice.b.time - slice.a.time :=
      Int.ediv_le_self _ hnn
    have hrem : 0 ≤ (slice.b.time - slice.a.time) % n := Int.emod_nonneg _ (by omega)
    have hlt' : (slice.b.time - slice.a.time) % n < n := Int.emod_lt_of_pos _ (by omega)
    have hdiv : int64Div (slice.b.time - slice.a.time) n =
        .ok ((slice.b.time - slice.a.time) / n) := by
      rw [int64Div, if_neg (by omega), Int.tdiv_eq_ediv_of_nonneg hnn]
      exact int64_of ⟨by omega, by omega⟩
    have hmod : int64Mod (slice.b.time - slice.a.time) n =
        .ok ((slice.b.time - slice.a.time) % n) := by
      rw [int64Mod, if_neg (by omega), Int.tmod_eq_emod_of_nonneg hnn]
    have hend : slice.a.time + evenCut ((slice.b.time - slice.a.time) / n)
        ((slice.b.time - slice.a.time) % n) n < 2 ^ 63 := by
      rw [evenCut_div_mod hn, add_sub_cancel]
      exact hb.2
    rw [if_neg hlt, if_neg hlt, hdiv, hmod, Int.tdiv_eq_ediv_of_nonneg hnn,
      Int.tmod_eq_emod_of_nonneg hnn, Int.toNat_natCast]
    dsimp only
    rw [if_neg (by omega)]
    exact equalPartitioningLoop_eq_ok hparts n _ _ ha.1 hrem (by omega) hend

/-- A range that is at least `count` nanoseconds long is tiled by `count` slices, the last one up to
the end of the range. -/
theorem equalPartitioning_evenlyTiles {slice : Slice SyncID} {count : ℤ}
    (ha : IsInt64 slice.a.time) (hb : IsInt64 slice.b.time)
    (hdiff : slice.b.time - slice.a.time < 2 ^ 63) (hc : 1 ≤ count)
    (h : count ≤ slice.b.time - slice.a.time) :
    ∃ parts, equalPartitioning slice count = .ok parts ∧ EvenlyTiles slice count parts := by
  refine ⟨_, equalPartitioning_eq_ok ha hb ⟨by omega, hdiff⟩ hc, ?_⟩
  lift count to ℕ using (by omega) with n
  have hn : 0 < n := by omega
  rw [equalPartitioning_eq_cuts hn h]
  exact evenlyTiles_cuts slice hn h

/-- Eight nanoseconds, the first three before the epoch. -/
def acrossEpoch : Slice SyncID := ⟨SyncID.atTime (-3), SyncID.atTime 5⟩

def acrossEpochParts : List (Slice SyncID) :=
  [⟨SyncID.atTime (-3), SyncID.atTime 0⟩, ⟨SyncID.atTime 0, SyncID.atTime 3⟩,
    ⟨SyncID.atTime 3, SyncID.atTime 5⟩]

theorem equalPartitioning_acrossEpoch :
    equalPartitioning acrossEpoch 3 = .ok acrossEpochParts ∧
      EvenlyTiles acrossEpoch 3 acrossEpochParts := by
  have hrun : equalPartitioning acrossEpoch 3 = .ok acrossEpochParts := by rfl
  have ha : IsInt64 acrossEpoch.a.time := by decide
  have hb : IsInt64 acrossEpoch.b.time := by decide
  have hc : (1 : ℤ) ≤ 3 := by decide
  obtain ⟨parts, hparts, htiles⟩ :=
    equalPartitioning_evenlyTiles ha hb (by decide) hc (by decide)
  obtain rfl := Except.ok.inj (hparts.symm.trans hrun)
  exact ⟨hrun, htiles⟩

end Checked

end LogosDelivery.StoreSync
