import Mathlib

/-! # The greatest elements

`Greatest capacity all kept`: of the elements `all` of a linear order, `kept` are the greatest, as
many of them as there is room for.  A set that is maintained one element at a time stays so by four
moves: an element that is kept already changes nothing, a new one is taken while there is room, one
below a full set is refused, and one above the least of a full set takes its place. -/

namespace LogosDelivery.Lib

variable {κ : Type} [LinearOrder κ] {capacity : ℕ} {all kept : Finset κ} {x m : κ}

structure Greatest (capacity : ℕ) (all kept : Finset κ) : Prop where
  subset : kept ⊆ all
  card : kept.card = min capacity all.card
  above : ∀ x ∈ kept, ∀ y ∈ all, y ∉ kept → y < x

namespace Greatest

theorem empty (capacity : ℕ) : Greatest capacity (∅ : Finset κ) ∅ where
  subset := Finset.Subset.refl _
  card := by simp
  above := by simp

theorem card_le (h : Greatest capacity all kept) : kept.card ≤ capacity := by
  rw [h.card]
  exact min_le_left _ _

/-- With room left everything is kept. -/
theorem eq_all (h : Greatest capacity all kept) (hroom : kept.card < capacity) : kept = all := by
  apply Finset.eq_of_subset_of_card_le h.subset
  have hcard := h.card
  omega

section Moves

variable [DecidableEq κ]

theorem again (h : Greatest capacity all kept) (hx : x ∈ kept) :
    Greatest capacity (insert x all) kept := by
  rw [Finset.insert_eq_self.mpr (h.subset hx)]
  exact h

theorem add (h : Greatest capacity all kept) (hroom : kept.card < capacity) (hx : x ∉ kept) :
    Greatest capacity (insert x all) (insert x kept) := by
  obtain rfl := h.eq_all hroom
  refine ⟨Finset.Subset.refl _, ?_, ?_⟩
  · rw [Finset.card_insert_of_notMem hx]
    omega
  · intro y _ z hz hnot
    exact absurd hz hnot

/-- A set of full size is not changed by an element below it. -/
theorem refuse (h : Greatest capacity all kept) (hfull : capacity ≤ kept.card)
    (hbelow : ∀ y ∈ kept, x < y) : Greatest capacity (insert x all) kept := by
  refine ⟨h.subset.trans (Finset.subset_insert x all), ?_, ?_⟩
  · have hcard := h.card
    have hmore : all.card ≤ (insert x all).card := Finset.card_le_card (Finset.subset_insert x all)
    omega
  · intro y hy z hz hnot
    rcases Finset.mem_insert.mp hz with rfl | hz
    · exact hbelow y hy
    · exact h.above y hy z hz hnot

/-- In a set of full size an element above the least one takes its place. -/
theorem replace (h : Greatest capacity all kept) (hfull : capacity ≤ kept.card) (hx : x ∉ kept)
    (hm : m ∈ kept) (hleast : ∀ y ∈ kept, m ≤ y) (hlt : m < x) :
    Greatest capacity (insert x all) (insert x (kept.erase m)) := by
  have hsub : kept.erase m ⊆ all := (Finset.erase_subset m kept).trans h.subset
  have hnew : x ∉ kept.erase m := fun hmem => hx (Finset.mem_of_mem_erase hmem)
  have hlower : ∀ y ∈ insert x (kept.erase m), m < y := by
    intro y hy
    rcases Finset.mem_insert.mp hy with rfl | hy
    · exact hlt
    · exact lt_of_le_of_ne (hleast y (Finset.mem_of_mem_erase hy)) (Finset.ne_of_mem_erase hy).symm
  refine ⟨Finset.insert_subset_insert x hsub, ?_, ?_⟩
  · have hcard := h.card
    have hmore : all.card ≤ (insert x all).card := Finset.card_le_card (Finset.subset_insert x all)
    have hpos : 0 < kept.card := Finset.card_pos.mpr ⟨m, hm⟩
    rw [Finset.card_insert_of_notMem hnew, Finset.card_erase_of_mem hm]
    omega
  · intro y hy z hz hnot
    rw [Finset.mem_insert, not_or] at hnot
    have hz' : z ∈ all := (Finset.mem_insert.mp hz).resolve_left hnot.1
    by_cases hzm : z = m
    · rw [hzm]
      exact hlower y hy
    · -- an element that was left out before is below the least one
      have hznot : z ∉ kept := fun hmem => hnot.2 (Finset.mem_erase.mpr ⟨hzm, hmem⟩)
      exact (h.above m hm z hz' hznot).trans (hlower y hy)

end Moves

end Greatest

end LogosDelivery.Lib
