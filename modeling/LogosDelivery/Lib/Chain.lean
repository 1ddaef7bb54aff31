import Mathlib

/-! # Chains of links

`Seg link s l e`: who starts at `s` and follows the links sees the elements of `l` and ends at `e`.
A doubly linked list is two segments, one along the next links and one along the previous links with
the elements in the reverse order; putting an element at one end (`Seg.push`, `Seg.snoc`) and taking
one out (`Seg.unlink`) are the same for both. -/

namespace LogosDelivery.Lib

variable {ι : Type} {link link' : ι → Option ι} {s e e' : Option ι} {l l' : List ι} {a : ι}

def Seg (link : ι → Option ι) : Option ι → List ι → Option ι → Prop
  | s, [], e => s = e
  | s, a :: l, e => s = some a ∧ Seg link (link a) l e

theorem seg_append : Seg link s (l ++ l') e ↔ ∃ m, Seg link s l m ∧ Seg link m l' e := by
  induction l generalizing s with
  | nil => simp [Seg]
  | cons a l ih =>
      rw [List.cons_append, Seg, ih]
      constructor
      · rintro ⟨hs, m, hl, hl'⟩
        exact ⟨m, ⟨hs, hl⟩, hl'⟩
      · rintro ⟨m, ⟨hs, hl⟩, hl'⟩
        exact ⟨hs, m, hl, hl'⟩

namespace Seg

theorem congr (h : Seg link s l e) (hsame : ∀ a ∈ l, link' a = link a) : Seg link' s l e := by
  induction l generalizing s with
  | nil => exact h
  | cons a l ih =>
      refine ⟨h.1, ?_⟩
      rw [hsame a List.mem_cons_self]
      exact ih h.2 (fun b hb => hsame b (List.mem_cons_of_mem a hb))

theorem start_cons (h : Seg link s (a :: l) e) : s = some a := h.1

theorem start (h : Seg link s l none) : s = l.head? := by
  cases l with
  | nil => exact h
  | cons a l => exact h.1

/-- Two segments, where the first one ends at an element of the second. -/
theorem split (h : Seg link s (l ++ a :: l') e) :
    Seg link s l (some a) ∧ Seg link (link a) l' e := by
  obtain ⟨m, hl, hs, hl'⟩ := seg_append.mp h
  exact ⟨hs ▸ hl, hl'⟩

/-- One more element in front. -/
theorem push (h : Seg link s l e) (ha : link' a = s) (hsame : ∀ b ∈ l, link' b = link b) :
    Seg link' (some a) (a :: l) e :=
  ⟨rfl, ha ▸ h.congr hsame⟩

/-- The last link is changed. -/
theorem relink {b : ι} (h : Seg link s (l ++ [b]) e) (hb : link' b = e')
    (hsame : ∀ c ∈ l, link' c = link c) : Seg link' s (l ++ [b]) e' :=
  seg_append.mpr ⟨some b, h.split.1.congr hsame, rfl, hb⟩

/-- One more element at the end. -/
theorem snoc {b : ι} (h : Seg link s (l ++ [b]) e) (hb : link' b = some a) (ha : link' a = e')
    (hsame : ∀ c ∈ l, link' c = link c) : Seg link' s (l ++ [b] ++ [a]) e' :=
  seg_append.mpr ⟨some a, h.relink hb hsame, rfl, ha⟩

/-- Take an element out: who comes before it is linked to who comes after it. -/
theorem unlink (h : Seg link s (l ++ a :: l') e) (hlast : ∀ b ∈ l.getLast?, link' b = link a)
    (hsame : ∀ b ∈ l.dropLast ++ l', link' b = link b) :
    Seg link' (if l = [] then link a else s) (l ++ l') e := by
  obtain ⟨hl, hl'⟩ := h.split
  have hl' : Seg link' (link a) l' e :=
    hl'.congr (fun b hb => hsame b (List.mem_append_right _ hb))
  rcases List.eq_nil_or_concat l with rfl | ⟨m, b, rfl⟩
  · rw [if_pos rfl]
    exact hl'
  · rw [if_neg (by simp)]
    simp only [List.concat_eq_append, List.getLast?_append, List.dropLast_concat] at hl hlast hsame ⊢
    refine seg_append.mpr ⟨link a, hl.relink (hlast b (by simp)) ?_, hl'⟩
    exact fun c hc => hsame c (List.mem_append_left _ hc)

end Seg

end LogosDelivery.Lib
