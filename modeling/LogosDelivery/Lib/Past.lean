import Mathlib

/-! # What a history says

A history is a list of steps, the last one at the end.  `Once P` says that some step of it met `P`,
given what came before it, and is read step by step from the end (`once_concat`). -/

namespace LogosDelivery.Lib

variable {α : Type} {P : List α → α → Prop} {past : List α} {a : α}

/-- Some step met `P`. -/
def Once (P : List α → α → Prop) (past : List α) : Prop :=
  ∃ before a later, past = before ++ a :: later ∧ P before a

@[simp] theorem not_once_nil : ¬ Once P [] := by
  rintro ⟨before, a, later, h, _⟩
  simp at h

/-- Where a step of a history with one more step stands. -/
theorem concat_eq_append_cons {before later : List α} {x : α} :
    past ++ [a] = before ++ x :: later ↔
      (later = [] ∧ before = past ∧ x = a) ∨
        ∃ later', later = later' ++ [a] ∧ past = before ++ x :: later' := by
  constructor
  · intro h
    rcases List.eq_nil_or_concat later with rfl | ⟨later', last, rfl⟩
    · obtain ⟨hpast, hlast⟩ := List.append_inj' h rfl
      exact Or.inl ⟨rfl, hpast.symm, (List.singleton_inj.mp hlast).symm⟩
    · rw [List.concat_eq_append, ← List.cons_append, ← List.append_assoc] at h
      obtain ⟨hpast, hlast⟩ := List.append_inj' h rfl
      refine Or.inr ⟨later', ?_, hpast⟩
      rw [List.concat_eq_append, List.singleton_inj.mp hlast]
  · rintro (⟨rfl, rfl, rfl⟩ | ⟨later', rfl, rfl⟩)
    · rfl
    · simp

theorem once_concat : Once P (past ++ [a]) ↔ P past a ∨ Once P past := by
  constructor
  · rintro ⟨before, x, later, h, hx⟩
    rcases concat_eq_append_cons.mp h with ⟨rfl, rfl, rfl⟩ | ⟨later', rfl, rfl⟩
    · exact Or.inl hx
    · exact Or.inr ⟨before, x, later', rfl, hx⟩
  · rintro (ha | ⟨before, x, later, rfl, hx⟩)
    · exact ⟨past, a, [], rfl, ha⟩
    · exact ⟨before, x, later ++ [a], by simp, hx⟩

end LogosDelivery.Lib
