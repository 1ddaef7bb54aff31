import Mathlib

/-! # The differences of two sorted lists

`mergeDifference l r` walks through two lists side by side: the smaller of the two heads is only in
its own list, and equal heads are in both.  On strictly sorted lists its first part is what `r`
lacks of `l`, and its second part what `l` lacks of `r`, each in order
(`mergeDifference_eq_filter`).  When only `r` is sorted, an element may be taken for missing although
`r` has it, but only behind one at or above it (`exists_of_mem_mergeDifference`). -/

namespace LogosDelivery.Lib

variable {α : Type} {l r : List α} {a b : α}

section Filter

variable [DecidableEq α]

/-- An element that is not in `r` takes nothing away from `r`. -/
theorem filter_notMem_cons (h : a ∉ r) :
    r.filter (fun x => decide (x ∉ a :: l)) = r.filter (fun x => decide (x ∉ l)) := by
  apply List.filter_congr
  intro x hx
  have hne : x ≠ a := fun heq => h (heq ▸ hx)
  simp [hne]

theorem cons_filter_notMem (h : a ∉ r) :
    (a :: l).filter (fun x => decide (x ∉ r)) = a :: l.filter (fun x => decide (x ∉ r)) :=
  List.filter_cons_of_pos (decide_eq_true h)

theorem cons_filter_mem (h : a ∈ r) :
    (a :: l).filter (fun x => decide (x ∉ r)) = l.filter (fun x => decide (x ∉ r)) :=
  List.filter_cons_of_neg (by simpa using h)

end Filter

variable [LinearOrder α]

def mergeDifference : List α → List α → List α × List α
  | [], r => ([], r)
  | a :: l, [] => (a :: l, [])
  | a :: l, b :: r =>
      if a < b then
        let d := mergeDifference l (b :: r)
        (a :: d.1, d.2)
      else if b < a then
        let d := mergeDifference (a :: l) r
        (d.1, b :: d.2)
      else mergeDifference l r
termination_by l r => l.length + r.length

@[simp] theorem mergeDifference_nil_left (r : List α) : mergeDifference [] r = ([], r) := by
  rw [mergeDifference]

@[simp] theorem mergeDifference_nil_right (l : List α) : mergeDifference l [] = (l, []) := by
  cases l <;> rw [mergeDifference]

theorem mergeDifference_of_lt (h : a < b) :
    mergeDifference (a :: l) (b :: r) =
      (a :: (mergeDifference l (b :: r)).1, (mergeDifference l (b :: r)).2) := by
  rw [mergeDifference, if_pos h]

theorem mergeDifference_of_gt (h : b < a) :
    mergeDifference (a :: l) (b :: r) =
      ((mergeDifference (a :: l) r).1, b :: (mergeDifference (a :: l) r).2) := by
  rw [mergeDifference, if_neg (lt_asymm h), if_pos h]

theorem mergeDifference_self (a : α) (l r : List α) :
    mergeDifference (a :: l) (a :: r) = mergeDifference l r := by
  rw [mergeDifference, if_neg (lt_irrefl a), if_neg (lt_irrefl a)]

/-- What is below the head of a strictly sorted list is not in the list. -/
theorem notMem_of_lt_head (h : (b :: r).Pairwise (· < ·)) (hab : a < b) : a ∉ b :: r := by
  intro hmem
  rcases List.mem_cons.mp hmem with rfl | hmem
  · exact lt_irrefl _ hab
  · exact lt_asymm hab (List.rel_of_pairwise_cons h hmem)

theorem notMem_of_head (h : (a :: l).Pairwise (· < ·)) : a ∉ l :=
  fun hmem => lt_irrefl a (List.rel_of_pairwise_cons h hmem)

/-- **The differences in both directions.** -/
theorem mergeDifference_eq_filter [DecidableEq α] (hl : l.Pairwise (· < ·)) (hr : r.Pairwise (· < ·)) :
    mergeDifference l r =
      (l.filter (fun x => decide (x ∉ r)), r.filter (fun x => decide (x ∉ l))) := by
  induction l, r using mergeDifference.induct with
  | case1 r => simp
  | case2 a l => simp
  | case3 a l b r hlt ih =>
      -- `a` is below all of `b :: r`
      have ha := notMem_of_lt_head hr hlt
      rw [mergeDifference_of_lt hlt, ih hl.of_cons hr, cons_filter_notMem ha, filter_notMem_cons ha]
  | case4 a l b r hnot hgt ih =>
      have hb := notMem_of_lt_head hl hgt
      rw [mergeDifference_of_gt hgt, ih hl hr.of_cons, cons_filter_notMem hb, filter_notMem_cons hb]
  | case5 a l b r hnot hngt ih =>
      obtain rfl : a = b := le_antisymm (not_lt.mp hngt) (not_lt.mp hnot)
      rw [mergeDifference_self, ih hl.of_cons hr.of_cons, cons_filter_mem List.mem_cons_self,
        cons_filter_mem List.mem_cons_self, filter_notMem_cons (notMem_of_head hl),
        filter_notMem_cons (notMem_of_head hr)]

theorem exists_of_mem_mergeDifference (hr : r.Pairwise (· < ·)) {x : α}
    (hx : x ∈ (mergeDifference l r).1) :
    ∃ earlier later, l = earlier ++ x :: later ∧ (x ∉ r ∨ ∃ y ∈ earlier, x ≤ y) := by
  induction l, r using mergeDifference.induct with
  | case1 r => simp at hx
  | case2 a l =>
      rw [mergeDifference_nil_right] at hx
      obtain ⟨earlier, later, hsplit⟩ := List.append_of_mem hx
      exact ⟨earlier, later, hsplit, Or.inl List.not_mem_nil⟩
  | case3 a l b r hlt ih =>
      rw [mergeDifference_of_lt hlt] at hx
      rcases List.mem_cons.mp hx with rfl | hx
      · exact ⟨[], l, rfl, Or.inl (notMem_of_lt_head hr hlt)⟩
      · obtain ⟨earlier, later, rfl, hcase⟩ := ih hr hx
        refine ⟨a :: earlier, later, rfl, hcase.imp_right ?_⟩
        rintro ⟨y, hy, hle⟩
        exact ⟨y, List.mem_cons_of_mem a hy, hle⟩
  | case4 a l b r hnot hgt ih =>
      rw [mergeDifference_of_gt hgt] at hx
      obtain ⟨earlier, later, hsplit, hcase⟩ := ih hr.of_cons hx
      refine ⟨earlier, later, hsplit, ?_⟩
      rcases hcase with hcase | hcase
      · by_cases hxb : x = b
        · -- `b` was passed over for `a`, so `a` comes before it
          subst hxb
          cases earlier with
          | nil => exact absurd hgt (by rw [(List.cons.inj hsplit).1]; exact lt_irrefl _)
          | cons y earlier =>
              obtain ⟨rfl, _⟩ := List.cons.inj hsplit
              exact Or.inr ⟨a, List.mem_cons_self, hgt.le⟩
        · exact Or.inl (List.not_mem_cons_of_ne_of_not_mem hxb hcase)
      · exact Or.inr hcase
  | case5 a l b r hnot hngt ih =>
      obtain rfl : a = b := le_antisymm (not_lt.mp hngt) (not_lt.mp hnot)
      rw [mergeDifference_self] at hx
      obtain ⟨earlier, later, rfl, hcase⟩ := ih hr.of_cons hx
      refine ⟨a :: earlier, later, rfl, ?_⟩
      rcases hcase with hcase | ⟨y, hy, hle⟩
      · by_cases hxa : x = a
        · exact Or.inr ⟨a, List.mem_cons_self, hxa.le⟩
        · exact Or.inl (List.not_mem_cons_of_ne_of_not_mem hxa hcase)
      · exact Or.inr ⟨y, List.mem_cons_of_mem a hy, hle⟩

end LogosDelivery.Lib
