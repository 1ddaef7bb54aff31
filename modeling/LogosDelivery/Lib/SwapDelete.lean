import Mathlib

/-! # Sequences without order

`del` takes an element out of a sequence by putting the last one in its place.  A loop that goes down
a sequence and deletes or replaces its elements (`sweep`) leaves what a filter leaves, in some order
(`perm_sweep`).  Deleting several indices one after the other goes wrong just where an index lies
behind the end of what is left: indices that come in descending order never do
(`delAll_isSome_iff`, `perm_delAll`). -/

namespace LogosDelivery.Lib

variable {α : Type}

/-- The last element takes the place of the one at `i`. -/
def swapDel (l : List α) (i : ℕ) : List α :=
  match l.getLast? with
  | none => []
  | some last => (l.set i last).dropLast

/-- `del(l, i)`; `none` is an index out of range. -/
def del (l : List α) (i : ℕ) : Option (List α) := if i < l.length then some (swapDel l i) else none

@[simp] theorem length_swapDel (l : List α) (i : ℕ) : (swapDel l i).length = l.length - 1 := by
  unfold swapDel
  cases h : l.getLast? with
  | none => simp [List.getLast?_eq_none_iff.mp h]
  | some last => simp

theorem getElem?_swapDel {l : List α} {i k : ℕ} (hi : i < l.length) :
    (swapDel l i)[k]? =
      if k < l.length - 1 then l[if k = i then l.length - 1 else k]? else none := by
  have hne : l ≠ [] := List.ne_nil_of_length_pos (Nat.zero_lt_of_lt hi)
  unfold swapDel
  rw [List.getLast?_eq_some_getLast hne]
  dsimp only
  rw [List.getElem?_dropLast, List.length_set, List.getElem?_set]
  by_cases hk : k < l.length - 1
  · rw [if_pos hk, if_pos hk]
    by_cases hik : i = k
    · rw [if_pos hik, if_pos hi, if_pos hik.symm, ← List.getLast?_eq_getElem?,
        List.getLast?_eq_some_getLast hne]
    · rw [if_neg hik, if_neg (Ne.symm hik)]
  · rw [if_neg hk, if_neg hk]

/-- The index that the element at `k` has after a deletion at `i`, where `last` was the last index. -/
def renumber (i last k : ℕ) : Option ℕ :=
  if k = i then none else if k = last then some i else some k

theorem renumber_eq_none {i last k : ℕ} : renumber i last k = none ↔ k = i := by
  unfold renumber
  split
  · exact iff_of_true rfl ‹_›
  · split <;> exact iff_of_false (by simp) ‹_›

theorem renumber_eq_some {i last k k' : ℕ} (hi : i ≤ last) (hk : k ≤ last) :
    renumber i last k = some k' ↔ k' < last ∧ k = if k' = i then last else k' := by
  unfold renumber
  by_cases hki : k = i
  · rw [if_pos hki]
    refine iff_of_false (by simp) fun h => ?_
    split at h <;> omega
  · rw [if_neg hki]
    by_cases hkl : k = last
    · rw [if_pos hkl, Option.some.injEq]
      constructor
      · rintro rfl
        rw [if_pos rfl]
        exact ⟨by omega, hkl⟩
      · rintro ⟨hlt, h⟩
        split at h <;> omega
    · rw [if_neg hkl, Option.some.injEq]
      constructor
      · rintro rfl
        rw [if_neg hki]
        exact ⟨by omega, rfl⟩
      · rintro ⟨_, h⟩
        split at h
        · exact absurd h hkl
        · exact h

/-- Different elements keep different indices. -/
theorem renumber_inj {i last k k' m : ℕ} (h : renumber i last k = some m)
    (h' : renumber i last k' = some m) : k = k' := by
  unfold renumber at h h'
  grind

/-- The last element comes first. -/
def lastToFront (post : List α) : List α :=
  match post.getLast? with
  | none => []
  | some last => last :: post.dropLast

theorem perm_lastToFront (post : List α) : (lastToFront post).Perm post := by
  unfold lastToFront
  rcases List.eq_nil_or_concat post with rfl | ⟨post', last, rfl⟩
  · exact List.Perm.refl _
  · rw [List.concat_eq_append, List.getLast?_concat, List.dropLast_concat]
    exact (List.perm_append_singleton last post').symm

theorem swapDel_append_cons (pre post : List α) (a : α) :
    swapDel (pre ++ a :: post) pre.length = pre ++ lastToFront post := by
  unfold swapDel lastToFront
  rcases List.eq_nil_or_concat post with rfl | ⟨post', last, rfl⟩
  · simp
  · have hlast : pre ++ a :: (post' ++ [last]) = (pre ++ a :: post') ++ [last] := by simp
    rw [List.concat_eq_append, hlast, List.getLast?_concat, List.getLast?_concat]
    dsimp only
    rw [← hlast, List.set_append_right _ _ le_rfl, Nat.sub_self, List.set_cons_zero,
      List.dropLast_concat, List.dropLast_append_of_ne_nil (List.cons_ne_nil _ _), ← List.cons_append,
      List.dropLast_concat]

theorem perm_swapDel {l : List α} {i : ℕ} {a : α} (h : l[i]? = some a) :
    (a :: swapDel l i).Perm l := by
  obtain ⟨hi, rfl⟩ := List.getElem?_eq_some_iff.mp h
  have hsplit : l = l.take i ++ l[i] :: l.drop (i + 1) := by
    rw [← List.drop_eq_getElem_cons hi, List.take_append_drop]
  have hdel : swapDel l i = l.take i ++ lastToFront (l.drop (i + 1)) := by
    have hlen : (l.take i).length = i := by
      rw [List.length_take]
      omega
    have h := swapDel_append_cons (l.take i) (l.drop (i + 1)) l[i]
    rwa [← hsplit, hlen] at h
  rw [hdel]
  have hfront : (l[i] :: (l.take i ++ lastToFront (l.drop (i + 1)))).Perm
      (l[i] :: (l.take i ++ l.drop (i + 1))) :=
    List.Perm.cons _ (List.Perm.append_left _ (perm_lastToFront _))
  refine hfront.trans (List.perm_middle.symm.trans ?_)
  exact List.Perm.of_eq hsplit.symm

theorem map_swapDel {β : Type} (g : α → β) (l : List α) (i : ℕ) :
    (swapDel l i).map g = swapDel (l.map g) i := by
  unfold swapDel
  rw [List.getLast?_map]
  cases l.getLast? with
  | none => rfl
  | some last =>
      dsimp only [Option.map_some]
      rw [List.map_dropLast, List.map_set]

/-! ### Going down a sequence -/

/-- The loop from index `j - 1` down: an element without a value is deleted, the others are replaced.
The deleted ones come out in the order of the loop, after those that were deleted before. -/
def sweepFrom (f : α → Option α) : ℕ → List α → List α → List α × List α
  | 0, l, deleted => (l, deleted)
  | j + 1, l, deleted =>
      match l[j]? with
      | none => sweepFrom f j l deleted
      | some a =>
          match f a with
          | none => sweepFrom f j (swapDel l j) (deleted ++ [a])
          | some b => sweepFrom f j (l.set j b) deleted

def sweep (f : α → Option α) (l : List α) : List α × List α := sweepFrom f l.length l []

theorem sweepFrom_spec (f : α → Option α) (pre : List α) : ∀ post deleted : List α,
    (sweepFrom f pre.length (pre ++ post) deleted).1.Perm (pre.filterMap f ++ post) ∧
      (sweepFrom f pre.length (pre ++ post) deleted).2 =
        deleted ++ (pre.filter (fun a => (f a).isNone)).reverse := by
  induction pre using List.reverseRecOn with
  | nil => exact fun post deleted => ⟨List.Perm.refl _, (List.append_nil deleted).symm⟩
  | append_singleton pre a ih =>
      intro post deleted
      rw [List.length_append, List.length_singleton, List.append_assoc, List.singleton_append,
        sweepFrom, List.getElem?_append_right le_rfl, Nat.sub_self, List.getElem?_cons_zero,
        List.filterMap_append, List.append_assoc, List.filter_append, List.reverse_append]
      cases hfa : f a with
      | none =>
          simp only [hfa]
          rw [swapDel_append_cons]
          obtain ⟨hperm, hdeleted⟩ := ih (lastToFront post) (deleted ++ [a])
          refine ⟨hperm.trans (List.Perm.append_left _ ?_), ?_⟩
          · simpa [hfa] using perm_lastToFront post
          · rw [hdeleted]
            simp [hfa]
      | some b =>
          simp only [hfa]
          rw [List.set_append_right _ _ le_rfl, Nat.sub_self, List.set_cons_zero]
          obtain ⟨hperm, hdeleted⟩ := ih (b :: post) deleted
          refine ⟨hperm.trans (List.Perm.append_left _ ?_), ?_⟩
          · simp [hfa]
          · rw [hdeleted]
            simp [hfa]

theorem perm_sweep (f : α → Option α) (l : List α) : (sweep f l).1.Perm (l.filterMap f) := by
  have h := (sweepFrom_spec f l [] []).1
  rwa [List.append_nil, List.append_nil] at h

theorem sweep_deleted (f : α → Option α) (l : List α) :
    (sweep f l).2 = (l.filter (fun a => (f a).isNone)).reverse := by
  have h := (sweepFrom_spec f l [] []).2
  rwa [List.append_nil, List.nil_append] at h

/-- Going down elements that are all kept. -/
theorem sweepFrom_keep {f : α → Option α} {g : α → α} (pre : List α) {kept : List α}
    (hkept : ∀ a ∈ kept, f a = some (g a)) : ∀ post deleted : List α,
    sweepFrom f (pre ++ kept).length (pre ++ kept ++ post) deleted =
      sweepFrom f pre.length (pre ++ (kept.map g ++ post)) deleted := by
  induction kept using List.reverseRecOn with
  | nil =>
      intro post deleted
      rw [List.append_nil, List.map_nil, List.nil_append]
  | append_singleton kept a ih =>
      intro post deleted
      have hlen : (pre ++ (kept ++ [a])).length = (pre ++ kept).length + 1 := by
        simp only [List.length_append, List.length_singleton]
        omega
      have hsplit : pre ++ (kept ++ [a]) ++ post = pre ++ kept ++ a :: post := by simp
      rw [hlen, hsplit, sweepFrom, List.getElem?_append_right le_rfl, Nat.sub_self,
        List.getElem?_cons_zero]
      simp only [hkept a (List.mem_append_right _ List.mem_cons_self)]
      rw [List.set_append_right _ _ le_rfl, Nat.sub_self, List.set_cons_zero,
        ih (fun b hb => hkept b (List.mem_append_left _ hb)), List.map_append, List.append_assoc]
      rfl

theorem sweep_append_cons {f : α → Option α} (g : α → α) (pre post : List α) {a : α} (ha : f a = none)
    (hpre : ∀ b ∈ pre, f b = some (g b)) (hpost : ∀ b ∈ post, f b = some (g b)) :
    (sweep f (pre ++ a :: post)).1 = swapDel ((pre ++ a :: post).map g) pre.length := by
  have hlast : ∀ l : List α, sweepFrom f pre.length (pre ++ l) [a] = (pre.map g ++ l, [a]) := by
    intro l
    have h := sweepFrom_keep [] hpre l [a]
    rwa [List.nil_append, List.nil_append] at h
  have hsplit : ∀ l : List α, pre ++ [a] ++ l = pre ++ a :: l := by simp
  have hstep : sweepFrom f (pre ++ [a]).length (pre ++ a :: post.map g) [] =
      sweepFrom f pre.length (pre ++ lastToFront (post.map g)) [a] := by
    have hlen : (pre ++ [a]).length = pre.length + 1 := by simp
    rw [hlen, sweepFrom, List.getElem?_append_right le_rfl, Nat.sub_self, List.getElem?_cons_zero]
    simp only [ha]
    rw [swapDel_append_cons, List.nil_append]
  have hafter := sweepFrom_keep (f := f) (pre ++ [a]) hpost [] []
  rw [List.append_nil, List.append_nil, hsplit, hsplit, hstep, hlast] at hafter
  unfold sweep
  rw [hafter, List.map_append, List.map_cons]
  have hfront := swapDel_append_cons (pre.map g) (post.map g) (g a)
  rw [List.length_map] at hfront
  exact hfront.symm

/-- Where one element goes, its place is filled as `del` does it. -/
theorem sweep_one {f : α → Option α} (g : α → α) {l : List α} {i : ℕ} {a : α} (hi : l[i]? = some a)
    (ha : f a = none) (hothers : ∀ (j : ℕ) (b : α), l[j]? = some b → j ≠ i → f b = some (g b)) :
    (sweep f l).1 = swapDel (l.map g) i := by
  obtain ⟨hlt, rfl⟩ := List.getElem?_eq_some_iff.mp hi
  have hsplit : l = l.take i ++ l[i] :: l.drop (i + 1) := by
    rw [← List.drop_eq_getElem_cons hlt, List.take_append_drop]
  have hlen : (l.take i).length = i := by
    rw [List.length_take]
    omega
  have h := sweep_append_cons g (l.take i) (l.drop (i + 1)) ha ?_ ?_
  · rwa [← hsplit, hlen] at h
  · intro b hb
    obtain ⟨j, hj, rfl⟩ := List.mem_take_iff_getElem.mp hb
    exact hothers j _ (List.getElem?_eq_getElem _) (by omega)
  · intro b hb
    obtain ⟨j, hj, rfl⟩ := List.mem_drop_iff_getElem.mp hb
    exact hothers _ _ (List.getElem?_eq_getElem _) (by omega)

/-! ### Deleting several indices -/

/-- The indices are deleted one after the other. -/
def delAll (l : List α) (indices : List ℕ) : Option (List α) := indices.foldlM del l

/-- The elements at the other indices. -/
def without (l : List α) (indices : List ℕ) : List α :=
  ((List.range l.length).filter (fun k => decide (k ∉ indices))).filterMap (fun k => l[k]?)

/-- No index lies behind the end of what is left when it is its turn. -/
def WithinReach (n : ℕ) (indices : List ℕ) : Prop := ∀ t k, indices[t]? = some k → k + t < n

theorem withinReach_cons {n k : ℕ} {indices : List ℕ} :
    WithinReach n (k :: indices) ↔ k < n ∧ WithinReach (n - 1) indices := by
  constructor
  · intro h
    refine ⟨h 0 k rfl, fun t k' hk' => ?_⟩
    have hlt := h (t + 1) k' (by simpa using hk')
    omega
  · rintro ⟨hk, h⟩ t k' hk'
    cases t with
    | zero =>
        rw [List.getElem?_cons_zero, Option.some.injEq] at hk'
        omega
    | succ t =>
        have hlt := h t k' (by simpa using hk')
        omega

theorem delAll_isSome_iff (indices : List ℕ) : ∀ l : List α,
    (delAll l indices).isSome ↔ WithinReach l.length indices := by
  induction indices with
  | nil =>
      intro l
      exact iff_of_true rfl (fun t k h => by simp at h)
  | cons k indices ih =>
      intro l
      rw [withinReach_cons, delAll, List.foldlM_cons, del]
      by_cases hk : k < l.length
      · rw [if_pos hk, Option.bind_eq_bind, Option.bind_some]
        refine (ih (swapDel l k)).trans ?_
        rw [length_swapDel, and_iff_right hk]
      · rw [if_neg hk]
        simp [hk]

theorem WithinReach.lt {n : ℕ} {indices : List ℕ} (h : WithinReach n indices) :
    ∀ k ∈ indices, k < n := by
  intro k hk
  obtain ⟨t, ht⟩ := List.mem_iff_getElem?.mp hk
  have hlt := h t k ht
  omega

/-- One index less to leave out, after its element was deleted. -/
theorem perm_without_cons {l : List α} {k : ℕ} {indices : List ℕ} (hk : k < l.length)
    (hnotin : k ∉ indices) (hreach : ∀ j ∈ indices, j < l.length - 1) :
    (without (swapDel l k) indices).Perm (without l (k :: indices)) := by
  obtain ⟨m, hm⟩ : ∃ m, l.length = m + 1 := ⟨l.length - 1, by omega⟩
  have hlast : m ∉ indices := fun hmem => by
    have := hreach m hmem
    omega
  -- what the shorter sequence has at an index
  have hget : ∀ j ∈ (List.range m).filter (fun j => decide (j ∉ indices)),
      (swapDel l k)[j]? = l[if j = k then m else j]? := by
    intro j hj
    have hjm := List.mem_range.mp (List.mem_filter.mp hj).1
    rw [getElem?_swapDel hk, hm, Nat.add_sub_cancel, if_pos hjm]
  unfold without
  rw [length_swapDel, hm, Nat.add_sub_cancel, List.filterMap_congr hget, List.range_succ,
    List.filter_append, List.filterMap_append]
  rcases Nat.lt_or_eq_of_le (Nat.le_of_lt_succ (hm ▸ hk)) with hkm | rfl
  · obtain ⟨pre, post, hsplit⟩ := List.append_of_mem (List.mem_range.mpr hkm)
    have hnodup : (pre ++ k :: post).Nodup := hsplit ▸ List.nodup_range
    obtain ⟨_, hcons, hdisjoint⟩ := List.nodup_append.mp hnodup
    have hpre : ∀ j ∈ pre, j ≠ k := fun j hj => hdisjoint j hj k List.mem_cons_self
    have hpost : ∀ j ∈ post, j ≠ k := by
      rintro j hj rfl
      exact (List.nodup_cons.mp hcons).1 hj
    have hside : ∀ part : List ℕ, (∀ j ∈ part, j ≠ k) →
        (part.filter (fun j => decide (j ∉ indices))).filterMap (fun j => l[if j = k then m else j]?) =
          (part.filter (fun j => decide (j ∉ k :: indices))).filterMap (fun j => l[j]?) := by
      intro part hpart
      have hfilter : part.filter (fun j => decide (j ∉ k :: indices)) =
          part.filter (fun j => decide (j ∉ indices)) := by
        refine List.filter_congr fun j hj => ?_
        simp [hpart j hj]
      rw [hfilter]
      refine List.filterMap_congr fun j hj => ?_
      rw [if_neg (hpart j (List.mem_filter.mp hj).1)]
    have hkeep : (k :: post).filter (fun j => decide (j ∉ indices)) =
        k :: post.filter (fun j => decide (j ∉ indices)) := by simp [hnotin]
    have hdrop : (k :: post).filter (fun j => decide (j ∉ k :: indices)) =
        post.filter (fun j => decide (j ∉ k :: indices)) := by simp
    have hm' : [m].filter (fun j => decide (j ∉ k :: indices)) = [m] := by
      simp [hkm.ne', hlast]
    rw [hsplit, List.filter_append, List.filter_append, hkeep, hdrop, hm', List.filterMap_append,
      List.filterMap_append, hside pre hpre, List.filterMap_cons, if_pos rfl, List.append_assoc]
    refine List.Perm.append_left _ ?_
    obtain ⟨last, hl⟩ : ∃ last, l[m]? = some last :=
      ⟨_, List.getElem?_eq_getElem (by omega)⟩
    rw [hside post hpost, List.filterMap_cons, hl, List.filterMap_nil]
    exact (List.perm_append_singleton last _).symm
  · have hfilter : (List.range k).filter (fun j => decide (j ∉ k :: indices)) =
        (List.range k).filter (fun j => decide (j ∉ indices)) := by
      refine List.filter_congr fun j hj => ?_
      have hne : j ≠ k := (List.mem_range.mp hj).ne
      simp [hne]
    have hnone : [k].filter (fun j => decide (j ∉ k :: indices)) = [] := by simp
    rw [hfilter, hnone, List.filterMap_nil, List.append_nil]
    refine List.Perm.of_eq (List.filterMap_congr fun j hj => ?_)
    rw [if_neg (List.mem_range.mp (List.mem_filter.mp hj).1).ne]

theorem without_nil (l : List α) : without l [] = l := by
  unfold without
  rw [List.filter_eq_self.mpr (by simp)]
  induction l using List.reverseRecOn with
  | nil => rfl
  | append_singleton l a ih =>
      rw [List.length_append, List.length_singleton, List.range_succ, List.filterMap_append]
      congr 1
      · refine Eq.trans (List.filterMap_congr fun k hk => ?_) ih
        rw [List.getElem?_append_left (List.mem_range.mp hk)]
      · simp

theorem perm_delAll {indices : List ℕ} (hnodup : indices.Nodup) : ∀ {l l' : List α},
    delAll l indices = some l' → l'.Perm (without l indices) := by
  induction indices with
  | nil =>
      intro l l' h
      cases h
      rw [without_nil]
  | cons k indices ih =>
      intro l l' h
      obtain ⟨hnotin, hnodup⟩ := List.nodup_cons.mp hnodup
      have hreach := (delAll_isSome_iff (k :: indices) l).mp (h ▸ rfl)
      obtain ⟨hk, hreach⟩ := withinReach_cons.mp hreach
      rw [delAll, List.foldlM_cons, del, if_pos hk] at h
      refine (ih hnodup h).trans (perm_without_cons hk hnotin fun j hj => ?_)
      exact hreach.lt j hj

/-- Indices in descending order are within reach. -/
theorem withinReach_of_descending {n : ℕ} {indices : List ℕ} (hlt : ∀ k ∈ indices, k < n)
    (hdesc : indices.Pairwise (· > ·)) : WithinReach n indices := by
  induction indices generalizing n with
  | nil => exact fun t k h => by simp at h
  | cons k indices ih =>
      obtain ⟨hgt, hdesc⟩ := List.pairwise_cons.mp hdesc
      have hk := hlt k List.mem_cons_self
      refine withinReach_cons.mpr ⟨hk, ih (fun k' hk' => ?_) hdesc⟩
      have := hgt k' hk'
      omega

theorem getElem?_swapDel_of_lt {l : List α} {i k : ℕ} (hki : k < i) (hi : i < l.length) :
    (swapDel l i)[k]? = l[k]? := by
  rw [getElem?_swapDel hi, if_pos (by omega), if_neg (by omega)]

/-- The elements at some of the indices are those that a filter leaves. -/
theorem filterMap_range_filter {l : List α} {wanted : ℕ → Bool} {keep : α → Bool}
    (hsame : ∀ k a, l[k]? = some a → wanted k = keep a) :
    ((List.range l.length).filter wanted).filterMap (fun k => l[k]?) = l.filter keep := by
  have hall : (List.range l.length).filterMap (fun k => l[k]?) = l := by
    have h := without_nil l
    unfold without at h
    rwa [List.filter_eq_self.mpr (by simp)] at h
  conv_rhs => rw [← hall]
  rw [List.filterMap_filter, List.filter_filterMap]
  refine List.filterMap_congr fun k hk => ?_
  obtain ⟨a, ha⟩ : ∃ a, l[k]? = some a := ⟨_, List.getElem?_eq_getElem (List.mem_range.mp hk)⟩
  rw [ha, hsame k a ha, Option.filter_some]

/-- Leaving out the indices of some elements is filtering. -/
theorem without_eq_filter (keep : α → Bool) {l : List α} {indices : List ℕ}
    (hiff : ∀ k a, l[k]? = some a → (k ∈ indices ↔ keep a = false)) :
    without l indices = l.filter keep := by
  refine filterMap_range_filter fun k a ha => ?_
  rw [Bool.eq_iff_iff, decide_eq_true_iff, hiff k a ha, Bool.not_eq_false]

/-- Reading a part of some of the elements, in any order. -/
theorem mapM_getElem? {β : Type} (view : α → β) {l : List α} {indices : List ℕ} {wanted : α → Bool}
    (hnodup : indices.Nodup) (hiff : ∀ k, k ∈ indices ↔ ∃ a, l[k]? = some a ∧ wanted a = true) :
    ∃ found, indices.mapM (fun k => (l.map view)[k]?) = some found ∧
      found.Perm ((l.filter wanted).map view) := by
  have hread : ∀ ks : List ℕ, (∀ k ∈ ks, (l[k]?).isSome) →
      ks.mapM (fun k => (l.map view)[k]?) = some ((ks.filterMap (fun k => l[k]?)).map view) := by
    intro ks
    induction ks with
    | nil => exact fun _ => rfl
    | cons k ks ih =>
        intro hks
        obtain ⟨a, ha⟩ := Option.isSome_iff_exists.mp (hks k List.mem_cons_self)
        rw [List.mapM_cons, ih fun j hj => hks j (List.mem_cons_of_mem k hj), List.getElem?_map, ha,
          List.filterMap_cons_some ha]
        rfl
  refine ⟨_, hread indices fun k hk => ?_, List.Perm.map view ?_⟩
  · obtain ⟨a, ha, _⟩ := (hiff k).mp hk
    rw [ha]
    rfl
  · have hperm : indices.Perm ((List.range l.length).filter (fun k => decide (k ∈ indices))) := by
      refine (List.perm_ext_iff_of_nodup hnodup (List.nodup_range.filter _)).mpr fun k => ?_
      rw [List.mem_filter, decide_eq_true_iff, iff_and_self, List.mem_range]
      intro hk
      obtain ⟨a, ha, _⟩ := (hiff k).mp hk
      exact (List.getElem?_eq_some_iff.mp ha).1
    refine (hperm.filterMap _).trans (List.Perm.of_eq (filterMap_range_filter fun k a ha => ?_))
    rw [Bool.eq_iff_iff, decide_eq_true_iff, hiff k, ha]
    simp

/-- The loop over `indices` that passes over the elements to keep. -/
def delUnless (keep : α → Bool) (l : List α) (indices : List ℕ) : Option (List α) :=
  indices.foldlM (fun l k => if l[k]?.any keep then some l else del l k) l

/-- Going down, a deletion does not reach the elements that are still to be looked at. -/
theorem delUnless_eq {keep : α → Bool} {indices : List ℕ} (hdesc : indices.Pairwise (· > ·)) :
    ∀ {l : List α}, (∀ k ∈ indices, k < l.length) →
      delUnless keep l indices = delAll l (indices.filter (fun k => !l[k]?.any keep)) := by
  induction indices with
  | nil => exact fun _ => rfl
  | cons k indices ih =>
      intro l hlt
      obtain ⟨hgt, hdesc⟩ := List.pairwise_cons.mp hdesc
      have hk := hlt k List.mem_cons_self
      have hlt' := fun j hj => hlt j (List.mem_cons_of_mem k hj)
      unfold delUnless delAll
      rw [List.foldlM_cons]
      cases hkeep : l[k]?.any keep with
      | true =>
          rw [if_pos rfl, List.filter_cons_of_neg (by simp [hkeep])]
          exact ih hdesc hlt'
      | false =>
          rw [if_neg (by simp), List.filter_cons_of_pos (by simp [hkeep]), List.foldlM_cons, del,
            if_pos hk]
          refine (ih hdesc (fun j hj => ?_)).trans ?_
          · have hjk := hgt j hj
            rw [length_swapDel]
            omega
          · unfold delAll
            congr 1
            refine List.filter_congr fun j hj => ?_
            rw [getElem?_swapDel_of_lt (hgt j hj) hk]

/-- A loop that goes down the elements that may go: it deletes just those that are not to be kept. -/
theorem delUnless_spec (test keep : α → Bool) {l : List α} {indices : List ℕ}
    (hdesc : indices.Pairwise (· > ·)) (hlt : ∀ k ∈ indices, k < l.length)
    (hall : ∀ k a, l[k]? = some a → keep a = false → k ∈ indices)
    (htest : ∀ k ∈ indices, ∀ a, l[k]? = some a → test a = keep a) :
    ∃ l', delUnless test l indices = some l' ∧ l'.Perm (l.filter keep) := by
  have hsub := List.filter_sublist (p := fun k => !l[k]?.any test) (l := indices)
  have hdesc' := hdesc.sublist hsub
  have hreach := withinReach_of_descending (fun k hk => hlt k (hsub.subset hk)) hdesc'
  obtain ⟨l', hl'⟩ := Option.isSome_iff_exists.mp ((delAll_isSome_iff _ l).mpr hreach)
  refine ⟨l', (delUnless_eq hdesc hlt).trans hl', ?_⟩
  refine (perm_delAll (hdesc'.imp fun h => (Nat.ne_of_gt h)) hl').trans (List.Perm.of_eq ?_)
  refine without_eq_filter keep fun k a ha => ?_
  rw [List.mem_filter, ha, Option.any_some, Bool.not_eq_true']
  constructor
  · rintro ⟨hk, htest'⟩
    exact (htest k hk a ha).symm.trans htest'
  · intro hkeep
    have hk := hall k a ha hkeep
    exact ⟨hk, (htest k hk a ha).trans hkeep⟩

/-! ### Loops on two levels -/

/-- A view that takes every step to a step takes every loop to a loop. -/
theorem map_foldlM {σ τ β : Type} {f : σ → β → Option σ} {g : τ → β → Option τ} (view : σ → τ)
    (Inv : σ → Prop) (hview : ∀ s b, Inv s → (f s b).map view = g (view s) b)
    (hkeep : ∀ s b s', Inv s → f s b = some s' → Inv s') :
    ∀ (bs : List β) (s : σ), Inv s →
      (bs.foldlM f s).map view = bs.foldlM g (view s) ∧ ∀ s', bs.foldlM f s = some s' → Inv s' := by
  intro bs
  induction bs with
  | nil =>
      intro s hs
      refine ⟨rfl, fun s' h => ?_⟩
      cases h
      exact hs
  | cons b bs ih =>
      intro s hs
      have hstep := hview s b hs
      rw [List.foldlM_cons, List.foldlM_cons, ← hstep]
      cases h : f s b with
      | none => exact ⟨rfl, fun s' hs' => by cases hs'⟩
      | some s₁ => exact ih s₁ (hkeep s b s₁ hs h)

end LogosDelivery.Lib
