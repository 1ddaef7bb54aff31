import Mathlib

/-! # Parts of texts, and decimal numbers

A text that is split at a separator is its parts with the separator between them, and no part has
the separator; there is just one way to split it so (`splitOn_eq_iff`).  A decimal text is a
non-empty sequence of digits, with leading zeros or without (`IsDecimal`). -/

namespace LogosDelivery.Lib

section Split

variable {α : Type} [DecidableEq α] {x : α}

theorem notMem_of_mem_splitOn : ∀ {s part : List α}, part ∈ s.splitOn x → x ∉ part
  | [], part, h => by
      rw [List.splitOn_nil, List.mem_singleton] at h
      simp [h]
  | a :: s, part, h => by
      rw [List.splitOn, List.splitOnP_cons_eq_if_modifyHead] at h
      obtain ⟨first, rest, hs⟩ := List.exists_cons_of_ne_nil (List.splitOnP_ne_nil (· == x) s)
      have hparts : ∀ part ∈ first :: rest, x ∉ part := fun part hpart =>
        notMem_of_mem_splitOn (s := s) (by rw [List.splitOn, hs]; exact hpart)
      rw [hs] at h
      split_ifs at h with ha
      · rcases List.mem_cons.mp h with rfl | h
        · simp
        · exact hparts part h
      · rw [List.modifyHead_cons] at h
        rcases List.mem_cons.mp h with rfl | h
        · rw [List.mem_cons, not_or]
          exact ⟨fun heq => ha (beq_iff_eq.mpr heq.symm), hparts first List.mem_cons_self⟩
        · exact hparts part (List.mem_cons_of_mem _ h)

theorem splitOn_eq_iff {s : List α} {parts : List (List α)} (hne : parts ≠ []) :
    s.splitOn x = parts ↔ s = [x].intercalate parts ∧ ∀ part ∈ parts, x ∉ part := by
  constructor
  · rintro rfl
    exact ⟨(List.intercalate_splitOn x).symm, fun part hpart => notMem_of_mem_splitOn hpart⟩
  · rintro ⟨rfl, hparts⟩
    exact List.splitOn_intercalate x hparts hne

end Split

/-! ### Decimal numbers -/

def IsDecimal (s : List Char) (n : ℕ) : Prop :=
  s ≠ [] ∧ (∀ c ∈ s, c.isDigit = true) ∧ Nat.ofDigitChars 10 s 0 = n

theorem isDecimal_toDigits (n : ℕ) : IsDecimal (Nat.toDigits 10 n) n :=
  ⟨Nat.toDigits_ne_nil, fun _ hc => Nat.isDigit_of_mem_toDigits (by decide) (by decide) hc,
    Nat.ofDigitChars_ten_toDigits⟩

theorem IsDecimal.notMem {s : List Char} {n : ℕ} (h : IsDecimal s n) {c : Char}
    (hc : c.isDigit = false) : c ∉ s := by
  intro hmem
  rw [h.2.1 c hmem] at hc
  cases hc

end LogosDelivery.Lib
