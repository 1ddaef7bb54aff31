import Mathlib

/-! # Filling a set up to a limit

`fill limit l s` adds the elements of `l` in turn as long as `s` has fewer than `limit`.  Lists that
are gone through one after the other are one list (`fill_append`), and as soon as the elements
suffice the rest of the list does not matter (`fill_append_of_enough`). -/

namespace LogosDelivery.Lib

variable {α : Type} [DecidableEq α]

def fill (limit : ℕ) : List α → Finset α → Finset α
  | [], s => s
  | a :: l, s => if limit ≤ s.card then s else fill limit l (insert a s)

variable {limit : ℕ} {l l' : List α} {s : Finset α} {a : α}

theorem fill_of_full (h : limit ≤ s.card) : fill limit l s = s := by
  cases l with
  | nil => rfl
  | cons a l => rw [fill, if_pos h]

theorem fill_append : fill limit (l ++ l') s = fill limit l' (fill limit l s) := by
  induction l generalizing s with
  | nil => rfl
  | cons a l ih =>
      rw [List.cons_append, fill, fill]
      by_cases h : limit ≤ s.card
      · rw [if_pos h, if_pos h, fill_of_full h]
      · rw [if_neg h, if_neg h, ih]

theorem fill_subset : fill limit l s ⊆ s ∪ l.toFinset := by
  induction l generalizing s with
  | nil => exact Finset.subset_union_left
  | cons a l ih =>
      rw [fill, List.toFinset_cons, Finset.union_insert]
      split_ifs with h
      · exact Finset.subset_union_left.trans (Finset.subset_insert a _)
      · exact ih.trans (by rw [Finset.insert_union])

theorem mem_of_mem_fill (h : a ∈ fill limit l ∅) : a ∈ l := by
  have := fill_subset h
  rwa [Finset.empty_union, List.mem_toFinset] at this

/-- Everything is added while there is room. -/
theorem fill_eq_union (h : (s ∪ l.toFinset).card ≤ limit) : fill limit l s = s ∪ l.toFinset := by
  induction l generalizing s with
  | nil => exact (Finset.union_empty s).symm
  | cons a l ih =>
      rw [List.toFinset_cons, Finset.union_insert] at h ⊢
      rw [fill]
      split_ifs with hfull
      · have hsub : s ⊆ insert a (s ∪ l.toFinset) :=
          Finset.subset_union_left.trans (Finset.subset_insert a _)
        exact Finset.eq_of_subset_of_card_le hsub (h.trans hfull)
      · rw [← Finset.insert_union] at h ⊢
        exact ih h

/-- There are enough elements, and no more than the limit are taken. -/
theorem card_fill_of_enough (hs : s.card ≤ limit) (h : limit ≤ (s ∪ l.toFinset).card) :
    (fill limit l s).card = limit := by
  induction l generalizing s with
  | nil =>
      rw [List.toFinset_nil, Finset.union_empty] at h
      exact le_antisymm hs h
  | cons a l ih =>
      rw [List.toFinset_cons, Finset.union_insert, ← Finset.insert_union] at h
      rw [fill]
      split_ifs with hfull
      · exact le_antisymm hs hfull
      · exact ih ((Finset.card_insert_le a s).trans (by omega)) h

theorem card_fill_le (hs : s.card ≤ limit) : (fill limit l s).card ≤ limit := by
  rcases Nat.le_total (s ∪ l.toFinset).card limit with h | h
  · rwa [fill_eq_union h]
  · exact (card_fill_of_enough hs h).le

theorem fill_append_of_enough (hs : s.card ≤ limit) (h : limit ≤ (s ∪ l.toFinset).card) :
    fill limit (l ++ l') s = fill limit l s := by
  rw [fill_append, fill_of_full (card_fill_of_enough hs h).ge]

/-- The first element after those that leave room. -/
theorem mem_fill_of_room (h : (s ∪ l.toFinset).card < limit) : a ∈ fill limit (l ++ a :: l') s := by
  have hgrow : ∀ {l : List α} {s : Finset α}, s ⊆ fill limit l s := by
    intro l
    induction l with
    | nil => exact fun {s} => Finset.Subset.refl s
    | cons b l ih =>
        intro s
        rw [fill]
        split_ifs
        · exact Finset.Subset.refl s
        · exact (Finset.subset_insert b s).trans ih
  rw [fill_append, fill_eq_union h.le, fill, if_neg (by omega)]
  exact hgrow (Finset.mem_insert_self a _)

end LogosDelivery.Lib
