import Mathlib

/-! # Binary search over a list split by a predicate

`bisect a right` is the loop that the standard `lowerBound` and `upperBound` share: it keeps a
window `[result, result + count)` and halves it by asking `right` of the middle element whether
the answer lies to its right.  `lowerBound` asks `cmp x key < 0`, `upperBound` asks
`cmp x key ≤ 0`.

Nothing is assumed of the list for the search to return.  On a list that `right` splits
(`SplitBy`: once `right` fails it fails for good), the result is the split point, and the prefix
and the suffix it cuts off are the two filters of the list (`take_bisect`, `drop_bisect`).  Every
use of a binary search is therefore read as a filter. -/

namespace LogosDelivery.Lib

variable {α : Type}

/-- The search loop; the window shrinks in every round, so `count` rounds are enough. -/
def bisectLoop (a : List α) (right : α → Bool) : ℕ → ℕ → ℕ → ℕ
  | 0, result, _ => result
  | fuel + 1, result, count =>
      if count = 0 then result
      else
        let step := count / 2
        let pos := result + step
        match a[pos]? with
        | none => result
        | some x =>
            if right x then bisectLoop a right fuel (pos + 1) (count - (step + 1))
            else bisectLoop a right fuel result step

/-- Binary search for the first element that `right` rejects. -/
def bisect (a : List α) (right : α → Bool) : ℕ := bisectLoop a right a.length 0 a.length

/-- Once `right` rejects an element it rejects every later one. -/
def SplitBy (right : α → Bool) (a : List α) : Prop :=
  a.Pairwise (fun x y => right y = true → right x = true)

/-! ### The prefix that a predicate accepts -/

/-- The number of leading elements that `right` accepts. -/
def cut (a : List α) (right : α → Bool) : ℕ := (a.takeWhile right).length

theorem cut_le (a : List α) (right : α → Bool) : cut a right ≤ a.length :=
  (List.takeWhile_sublist right).length_le

theorem right_of_lt_cut {a : List α} {right : α → Bool} {i : ℕ} {x : α}
    (hi : i < cut a right) (hx : a[i]? = some x) : right x = true := by
  have hget : (a.takeWhile right)[i]? = some x := by
    have hpre := List.takeWhile_prefix (p := right) (l := a)
    rw [List.prefix_iff_getElem?.mp hpre i hi] at hx
    rw [List.getElem?_eq_getElem hi]
    exact hx
  exact List.mem_takeWhile_imp (List.mem_of_getElem? hget)

theorem takeWhile_eq_filter {a : List α} {right : α → Bool} (h : SplitBy right a) :
    a.takeWhile right = a.filter right := by
  induction a with
  | nil => rfl
  | cons x a ih =>
      obtain ⟨hx, ha⟩ := List.pairwise_cons.mp h
      by_cases hr : right x = true
      · rw [List.takeWhile_cons_of_pos hr, List.filter_cons_of_pos hr, ih ha]
      · rw [List.takeWhile_cons_of_neg hr, List.filter_cons_of_neg hr, eq_comm,
          List.filter_eq_nil_iff]
        intro y hy hry
        exact hr (hx y hy hry)

theorem dropWhile_eq_filter {a : List α} {right : α → Bool} (h : SplitBy right a) :
    a.dropWhile right = a.filter (fun x => !right x) := by
  induction a with
  | nil => rfl
  | cons x a ih =>
      obtain ⟨hx, ha⟩ := List.pairwise_cons.mp h
      by_cases hr : right x = true
      · rw [List.dropWhile_cons_of_pos hr, List.filter_cons_of_neg (by simp [hr]), ih ha]
      · rw [List.dropWhile_cons_of_neg hr, eq_comm, List.filter_eq_self]
        intro y hy
        rcases List.mem_cons.mp hy with rfl | hy
        · simpa using hr
        · simpa using fun hry => hr (hx y hy hry)

theorem not_right_of_cut_le {a : List α} {right : α → Bool} (h : SplitBy right a) {i : ℕ} {x : α}
    (hi : cut a right ≤ i) (hx : a[i]? = some x) : right x = false := by
  have hsplit : a[i]? = (a.dropWhile right)[i - cut a right]? := by
    conv_lhs => rw [← List.takeWhile_append_dropWhile (p := right) (l := a)]
    rw [List.getElem?_append_right hi]
    rfl
  rw [hsplit, dropWhile_eq_filter h] at hx
  simpa using (List.mem_filter.mp (List.mem_of_getElem? hx)).2

/-! ### The search finds the cut -/

/-- The cut stays inside the window `[result, result + count]`. -/
theorem bisectLoop_eq_cut {a : List α} {right : α → Bool} (h : SplitBy right a) :
    ∀ (fuel result count : ℕ), count ≤ fuel → result ≤ cut a right →
      cut a right ≤ result + count → result + count ≤ a.length →
      bisectLoop a right fuel result count = cut a right
  | 0, result, count, hf, hlo, hhi, _ => by
      simp only [bisectLoop]
      omega
  | fuel + 1, result, count, hf, hlo, hhi, hlen => by
      simp only [bisectLoop]
      split_ifs with hc
      · omega
      · have hpos : result + count / 2 < a.length := by omega
        rw [List.getElem?_eq_getElem hpos]
        have hx : a[result + count / 2]? = some a[result + count / 2] :=
          List.getElem?_eq_getElem hpos
        dsimp only
        split_ifs with hr
        · refine bisectLoop_eq_cut h fuel _ _ (by omega) ?_ (by omega) (by omega)
          by_contra hlt
          have := not_right_of_cut_le h (by omega) hx
          rw [this] at hr
          cases hr
        · refine bisectLoop_eq_cut h fuel _ _ (by omega) hlo ?_ (by omega)
          by_contra hlt
          exact hr (right_of_lt_cut (by omega) hx)

theorem bisect_eq_cut {a : List α} {right : α → Bool} (h : SplitBy right a) :
    bisect a right = cut a right :=
  bisectLoop_eq_cut h _ _ _ le_rfl (Nat.zero_le _) (by simpa using cut_le a right) (by simp)

theorem bisect_le {a : List α} {right : α → Bool} (h : SplitBy right a) :
    bisect a right ≤ a.length := bisect_eq_cut h ▸ cut_le a right

/-- What the search leaves on its left is what `right` accepts. -/
theorem take_bisect {a : List α} {right : α → Bool} (h : SplitBy right a) :
    a.take (bisect a right) = a.filter right := by
  rw [bisect_eq_cut h, ← takeWhile_eq_filter h]
  have hsplit := List.takeWhile_append_dropWhile (p := right) (l := a)
  calc a.take (cut a right) = (a.takeWhile right ++ a.dropWhile right).take (cut a right) := by
        rw [hsplit]
    _ = a.takeWhile right := List.take_left

/-- What the search leaves on its right is what `right` rejects. -/
theorem drop_bisect {a : List α} {right : α → Bool} (h : SplitBy right a) :
    a.drop (bisect a right) = a.filter (fun x => !right x) := by
  rw [bisect_eq_cut h, ← dropWhile_eq_filter h]
  have hsplit := List.takeWhile_append_dropWhile (p := right) (l := a)
  calc a.drop (cut a right) = (a.takeWhile right ++ a.dropWhile right).drop (cut a right) := by
        rw [hsplit]
    _ = a.dropWhile right := List.drop_left

/-! ### The stretch between two cuts -/

theorem cut_cons_of_pos {right : α → Bool} {x : α} {a : List α} (h : right x = true) :
    cut (x :: a) right = cut a right + 1 := by
  simp [cut, List.takeWhile_cons_of_pos h]

theorem cut_cons_of_neg {right : α → Bool} {x : α} {a : List α} (h : right x = false) :
    cut (x :: a) right = 0 := by
  simp [cut, List.takeWhile_cons_of_neg (by simp [h] : ¬ right x = true)]

/-- A later part of the list is cut at the same place. -/
theorem cut_drop {right : α → Bool} : ∀ {a : List α} {j : ℕ}, j ≤ cut a right →
    cut (a.drop j) right + j = cut a right
  | _, 0, _ => rfl
  | [], j + 1, h => absurd h (Nat.not_succ_le_zero j)
  | x :: a, j + 1, h => by
      cases hx : right x with
      | false =>
          rw [cut_cons_of_neg hx] at h
          exact absurd h (Nat.not_succ_le_zero j)
      | true =>
          rw [cut_cons_of_pos hx] at h ⊢
          rw [List.drop_succ_cons, ← add_assoc, cut_drop (Nat.le_of_succ_le_succ h)]

/-- The elements after the cut of `below` and before the cut of `upTo`. -/
theorem drop_take_cut {a : List α} {below upTo : α → Bool} (hb : SplitBy below a)
    (hu : SplitBy upTo a) :
    (a.take (cut a upTo)).drop (cut a below) = a.filter (fun x => upTo x && !below x) := by
  induction a with
  | nil => rfl
  | cons x a ih =>
      obtain ⟨hbx, hb'⟩ := List.pairwise_cons.mp hb
      obtain ⟨hux, hu'⟩ := List.pairwise_cons.mp hu
      cases hxu : upTo x with
      | false =>
          rw [cut_cons_of_neg hxu, List.take_zero, List.drop_nil, eq_comm,
            List.filter_eq_nil_iff]
          intro y hy h
          rw [Bool.and_eq_true] at h
          rcases List.mem_cons.mp hy with rfl | hy
          · rw [hxu] at h
            cases h.1
          · rw [hux y hy h.1] at hxu
            cases hxu
      | true =>
          cases hxb : below x with
          | true =>
              rw [cut_cons_of_pos hxu, cut_cons_of_pos hxb, List.take_succ_cons,
                List.drop_succ_cons, ih hb' hu', List.filter_cons_of_neg (by simp [hxb])]
          | false =>
              rw [cut_cons_of_neg hxb, List.drop_zero]
              rw [show (x :: a).take (cut (x :: a) upTo) = (x :: a).filter upTo by
                rw [← bisect_eq_cut hu, take_bisect hu]]
              refine List.filter_congr ?_
              intro y hy
              have hyb : below y = false := by
                rcases List.mem_cons.mp hy with rfl | hy
                · exact hxb
                · by_contra h
                  rw [hbx y hy (by simpa using h)] at hxb
                  cases hxb
              simp [hyb]

end LogosDelivery.Lib
