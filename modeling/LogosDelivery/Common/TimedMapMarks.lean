import LogosDelivery.Common.TimedMapRuns

/-! # A timed map as a memory of marks

A map whose keys are only put and expired, by a clock that never goes back, remembers when its keys
were marked: it contains a key after `expire` exactly when some mark of the key is younger than the
timeout (`Remembers.contains_expire`).  No call loops, whatever the order of the keys. -/

namespace LogosDelivery.Common.TimedMap

open Lib

variable {K V : Type} [DecidableEq K] {t : TimedMap K V} {last : ℤ} {marks : List (K × ℤ)}

/-- The key was marked less than `timeout` ago. -/
def MarkedWithin (timeout : ℤ) (marks : List (K × ℤ)) (k : K) (now : ℤ) : Prop :=
  ∃ mark ∈ marks, mark.1 = k ∧ now < mark.2 + timeout

/-- The map remembers the marks, the last call having been made at `last`. -/
structure Remembers (t : TimedMap K V) (last : ℤ) (marks : List (K × ℤ)) : Prop where
  ordered : ∃ L behind, Ordered t L behind
  marks_le : ∀ mark ∈ marks, mark.2 ≤ last
  held_le : ∀ k x, HeldUntil t k x → x ≤ last + t.timeout
  held : ∀ k now, last ≤ now →
    ((∃ x, HeldUntil t k x ∧ now < x) ↔ MarkedWithin t.timeout marks k now)

theorem remembers_init (timeout last : ℤ) :
    Remembers (init timeout : TimedMap K V) last [] where
  ordered := ⟨[], none, ordered_init timeout⟩
  marks_le := by simp
  held_le := by
    rintro k x ⟨entry, hentry, _⟩
    simp [init] at hentry
  held := by
    intro k now _
    constructor
    · rintro ⟨x, ⟨entry, hentry, _⟩, _⟩
      simp [init] at hentry
    · rintro ⟨mark, hmark, _⟩
      simp at hmark

namespace Remembers

variable (h : Remembers t last marks)

include h

theorem later {now : ℤ} (hnow : last ≤ now) : Remembers t now marks where
  ordered := h.ordered
  marks_le mark hmark := (h.marks_le mark hmark).trans hnow
  held_le k x hx := (h.held_le k x hx).trans (by omega)
  held k now' hnow' := h.held k now' (hnow.trans hnow')

/-- Expiring drops what is too old and forgets no mark that still counts. -/
theorem expire {now : ℤ} (hnow : last ≤ now) :
    ∃ t', t.expire now = some t' ∧ t'.timeout = t.timeout ∧ Remembers t' now marks ∧
      ∀ k, t'.contains k = true ↔ MarkedWithin t.timeout marks k now := by
  obtain ⟨L, behind, hordered⟩ := h.ordered
  obtain ⟨t', hrun, hordered', htimeout⟩ := hordered.expire now
  have hheld : ∀ k x, HeldUntil t' k x ↔ HeldUntil t k x ∧ now < x :=
    fun k x => hordered.heldUntil_expire hrun
  refine ⟨t', hrun, htimeout, ⟨⟨_, _, hordered'⟩, ?_, ?_, ?_⟩, ?_⟩
  · exact fun mark hmark => (h.marks_le mark hmark).trans hnow
  · intro k x hx
    have hle := h.held_le k x ((hheld k x).mp hx).1
    rw [htimeout]
    omega
  · intro k now' hnow'
    rw [htimeout, ← h.held k now' (hnow.trans hnow')]
    refine exists_congr fun x => ?_
    rw [hheld]
    constructor
    · exact fun hx => ⟨hx.1.1, hx.2⟩
    · exact fun hx => ⟨⟨hx.1, by omega⟩, hx.2⟩
  · intro k
    rw [contains_iff, ← h.held k now hnow]
    exact exists_congr fun x => hheld k x

/-- A mark is remembered from now on. -/
theorem mgetOrPut {now : ℤ} (hnow : last ≤ now) (k : K) (v : V) :
    ∃ t', (t.mgetOrPut k v now).map Prod.fst = some t' ∧ t'.timeout = t.timeout ∧
      Remembers t' now (marks ++ [(k, now)]) := by
  obtain ⟨L, behind, hordered⟩ := h.ordered
  have hlast : StepOk t (.mgetOrPut k v now) := by
    refine Or.inl ?_
    rintro entry ⟨k', hlookup, _⟩
    have hle := h.held_le k' _ ⟨entry, hlookup, rfl⟩
    omega
  obtain ⟨t', L', behind', hrun, hordered', htimeout⟩ := hordered.put hlast
  have hheld : ∀ k' x, HeldUntil t' k' x ↔
      (k' = k ∧ x = now + t.timeout) ∨ HeldUntil t k' x ∧ k ≠ k' ∧ now < x :=
    fun k' x => hordered.heldUntil_put hrun
  refine ⟨t', hrun, htimeout, ⟨⟨L', behind', hordered'⟩, ?_, ?_, ?_⟩⟩
  · intro mark hmark
    rcases List.mem_append.mp hmark with hmark | hmark
    · exact (h.marks_le mark hmark).trans hnow
    · rw [List.mem_singleton.mp hmark]
  · intro k' x hx
    rw [htimeout]
    rcases (hheld k' x).mp hx with ⟨_, rfl⟩ | ⟨hold, _⟩
    · exact le_rfl
    · have hle := h.held_le k' x hold
      omega
  · intro k' now' hnow'
    have hold := h.held k' now' (hnow.trans hnow')
    rw [htimeout]
    by_cases hk : k' = k
    · subst hk
      -- the new mark is the youngest one of its key
      constructor
      · rintro ⟨x, hx, hlt⟩
        rcases (hheld k' x).mp hx with ⟨_, rfl⟩ | ⟨_, hne, _⟩
        · exact ⟨(k', now), by simp, rfl, hlt⟩
        · exact absurd rfl hne
      · rintro ⟨mark, hmark, rfl, hlt⟩
        refine ⟨now + t.timeout, (hheld _ _).mpr (Or.inl ⟨rfl, rfl⟩), ?_⟩
        rcases List.mem_append.mp hmark with hmark | hmark
        · have hle := h.marks_le mark hmark
          omega
        · rw [List.mem_singleton.mp hmark] at hlt
          exact hlt
    · have hsame : MarkedWithin t.timeout (marks ++ [(k, now)]) k' now' ↔
          MarkedWithin t.timeout marks k' now' := by
        constructor
        · rintro ⟨mark, hmark, hkey, hlt⟩
          rcases List.mem_append.mp hmark with hmark | hmark
          · exact ⟨mark, hmark, hkey, hlt⟩
          · rw [List.mem_singleton.mp hmark] at hkey
            exact absurd hkey.symm hk
        · rintro ⟨mark, hmark, hkey, hlt⟩
          exact ⟨mark, List.mem_append_left _ hmark, hkey, hlt⟩
      rw [hsame, ← hold]
      refine exists_congr fun x => ?_
      rw [hheld]
      constructor
      · rintro ⟨⟨heq, _⟩ | ⟨hx, _⟩, hlt⟩
        · exact absurd heq hk
        · exact ⟨hx, hlt⟩
      · exact fun hx => ⟨Or.inr ⟨hx.1, Ne.symm hk, by omega⟩, hx.2⟩

/-- So are several marks, at times that do not go back. -/
theorem mgetOrPut_all (v : V) {entries : List (K × ℤ)} {now : ℤ}
    (hlast : ∀ entry ∈ entries, last ≤ entry.2)
    (hsorted : entries.Pairwise (fun entry later => entry.2 ≤ later.2)) (hnow : last ≤ now)
    (hnow' : ∀ entry ∈ entries, entry.2 ≤ now) :
    ∃ t', entries.foldlM (fun t entry => (t.mgetOrPut entry.1 v entry.2).map Prod.fst) t = some t' ∧
      t'.timeout = t.timeout ∧ Remembers t' now (marks ++ entries) := by
  induction entries generalizing t last marks with
  | nil =>
      refine ⟨t, rfl, rfl, ?_⟩
      rw [List.append_nil]
      exact h.later hnow
  | cons entry entries ih =>
      obtain ⟨hhead, htail⟩ := List.pairwise_cons.mp hsorted
      obtain ⟨t₁, hrun, htimeout, hremembers⟩ := h.mgetOrPut (hlast entry List.mem_cons_self) entry.1 v
      obtain ⟨t₂, hrest, htimeout', hremembers'⟩ := ih hremembers hhead htail
        (hnow' entry List.mem_cons_self) (fun later hmem => hnow' later (List.mem_cons_of_mem _ hmem))
      refine ⟨t₂, ?_, htimeout'.trans htimeout, ?_⟩
      · rw [List.foldlM_cons, hrun]
        exact hrest
      · rw [List.append_cons]
        exact hremembers'

end Remembers

end LogosDelivery.Common.TimedMap
