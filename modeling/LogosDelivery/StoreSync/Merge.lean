import LogosDelivery.Lib.SortedDifference
import LogosDelivery.StoreSync.SeqStorage

/-! # The merge of two item sets

What `processItemSetRange` finds when it walks through a listed item set and the local rows of the
range side by side: the differences of the list and the local elements in scope (`mergeLoop_eq`).
On a sorted list the hashes to send are those of the local elements that are not listed
(`mergeLoop_hashToSend`).  On any list, sorted or not, an id is asked for only when it is not held
here in scope, or when an element at or above it was listed before it (`mergeLoop_idsToRecv`): a
peer that lists its elements in order is never asked for what is here. -/

namespace LogosDelivery.StoreSync

open Lib

/-- The differences of a list and the local elements, added to what was found before. -/
def Exchange.add (ex : Exchange) (d : List SyncID × List SyncID) : Exchange where
  hashToSend := ex.hashToSend ++ d.2.map SyncID.hash
  idsToRecv := ex.idsToRecv ++ d.1
  output := ex.output

theorem Exchange.add_their (ex : Exchange) (x : SyncID) (d : List SyncID × List SyncID) :
    { ex with idsToRecv := ex.idsToRecv ++ [x] }.add d = ex.add (x :: d.1, d.2) := by
  simp [Exchange.add]

theorem Exchange.add_our (ex : Exchange) (x : SyncID) (d : List SyncID × List SyncID) :
    { ex with hashToSend := ex.hashToSend ++ [x.hash] }.add d = ex.add (d.1, x :: d.2) := by
  simp [Exchange.add]

theorem eq_of_not_cmp {x y : SyncID} (hlt : ¬ cmp x y = -1) (hgt : ¬ cmp x y = 1) : x = y :=
  le_antisymm (not_lt.mp (fun h => hgt (cmp_eq_one_iff.mpr h)))
    (not_lt.mp (fun h => hlt (cmp_eq_neg_one_iff.mpr h)))

namespace SeqStorage

variable {ps cs : PackedSet ℤ}

/-- The elements of the rows that pass the topic sets. -/
def passing (ps cs : PackedSet ℤ) (rows : List (SyncID × ℕ × ℕ)) : List SyncID :=
  (rows.filter (passes ps cs)).map (·.1)

theorem passing_cons_of_not {our : SyncID × ℕ × ℕ} {ours : List (SyncID × ℕ × ℕ)}
    (h : passes ps cs our = false) : passing ps cs (our :: ours) = passing ps cs ours := by
  simp [passing, h]

theorem passing_cons {our : SyncID × ℕ × ℕ} {ours : List (SyncID × ℕ × ℕ)}
    (h : passes ps cs our ≠ false) :
    passing ps cs (our :: ours) = our.1 :: passing ps cs ours := by
  have h' : passes ps cs our = true := by simpa using h
  simp [passing, h']

/-- With a round for every element the loop adds the differences to what it was given. -/
theorem mergeLoop_eq : ∀ (fuel : ℕ) (theirs : List SyncID) (ours : List (SyncID × ℕ × ℕ))
    (ex : Exchange), theirs.length + ours.length < fuel →
    mergeLoop ps cs fuel theirs ours ex = ex.add (mergeDifference theirs (passing ps cs ours))
  | 0, theirs, ours, ex, hfuel => by omega
  | fuel + 1, theirs, [], ex, _ => by simp [mergeLoop, passing, Exchange.add]
  | fuel + 1, theirs, our :: ours, ex, hfuel => by
      simp only [List.length_cons] at hfuel
      simp only [mergeLoop]
      split_ifs with hp
      · rw [passing_cons_of_not hp]
        exact mergeLoop_eq fuel theirs ours ex (by omega)
      · rw [passing_cons hp]
        cases theirs with
        | nil =>
            rw [List.length_nil] at hfuel
            dsimp only
            rw [mergeLoop_eq fuel [] ours _ (by rw [List.length_nil]; omega), Exchange.add_our,
              mergeDifference_nil_left, mergeDifference_nil_left]
        | cons their rest =>
            rw [List.length_cons] at hfuel
            dsimp only
            split_ifs with hlt hgt
            · rw [mergeLoop_eq fuel rest (our :: ours) _ (by rw [List.length_cons]; omega),
                passing_cons hp, mergeDifference_of_lt (cmp_eq_neg_one_iff.mp hlt),
                Exchange.add_their]
            · rw [mergeLoop_eq fuel (their :: rest) ours _ (by rw [List.length_cons]; omega),
                mergeDifference_of_gt (cmp_eq_one_iff.mp hgt), Exchange.add_our]
            · rw [mergeLoop_eq fuel rest ours ex (by omega), eq_of_not_cmp hlt hgt,
                mergeDifference_self]

theorem passing_sorted {rows : List (SyncID × ℕ × ℕ)}
    (h : rows.Pairwise (fun x y => x.1 < y.1)) : (passing ps cs rows).Pairwise (· < ·) := by
  rw [passing, List.pairwise_map]
  exact h.filter _

/-- An id is asked for only if it is not held in scope or is listed out of order. -/
theorem mergeLoop_idsToRecv {x : SyncID} {fuel : ℕ} {theirs : List SyncID}
    {ours : List (SyncID × ℕ × ℕ)} (hfuel : theirs.length + ours.length < fuel)
    (ho : ours.Pairwise (fun x y => x.1 < y.1))
    (hx : x ∈ (mergeLoop ps cs fuel theirs ours {}).idsToRecv) :
    ∃ earlier later, theirs = earlier ++ x :: later ∧
      (x ∉ passing ps cs ours ∨ ∃ y ∈ earlier, x ≤ y) := by
  rw [mergeLoop_eq fuel theirs ours {} hfuel] at hx
  exact exists_of_mem_mergeDifference (passing_sorted ho) hx

/-- On a sorted list the hashes to send are those of the elements that are not listed. -/
theorem mergeLoop_hashToSend {fuel : ℕ} {theirs : List SyncID} {ours : List (SyncID × ℕ × ℕ)}
    (hfuel : theirs.length + ours.length < fuel) (ht : theirs.Pairwise (· < ·))
    (ho : ours.Pairwise (fun x y => x.1 < y.1)) :
    (mergeLoop ps cs fuel theirs ours {}).hashToSend =
      ((passing ps cs ours).filter (fun x => decide (x ∉ theirs))).map SyncID.hash := by
  rw [mergeLoop_eq fuel theirs ours {} hfuel, mergeDifference_eq_filter ht (passing_sorted ho)]
  rfl

end SeqStorage

end LogosDelivery.StoreSync
