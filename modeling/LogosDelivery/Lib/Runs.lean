import Mathlib

/-! # Runs of a step function

A run applies a list of operations, one after the other, to a start state.  The statements here
are about every state that a run passes through: a property that the start state has and that
every step of the run keeps holds after every prefix (`run_induction`), and two properties of
states and steps that fail together at the first failing step are equivalent along a run
(`along_iff_allSteps`); what a state has, some step set, and all states since then have it
(`exists_since`).

A state with suspended calls keeps them in a table that is updated at one call per step; the last
lemmas read such a table after an update, or as a list of entries. -/

namespace LogosDelivery.Lib

variable {σ ι : Type} (step : σ → ι → σ) (s₀ : σ)

/-- The state after the operations. -/
def run (ops : List ι) : σ := ops.foldl step s₀

@[simp] theorem run_concat (ops : List ι) (op : ι) :
    run step s₀ (ops ++ [op]) = step (run step s₀ ops) op := by
  simp [run]

/-- Every operation meets `good` in the state in which it is applied. -/
def AllSteps (good : List ι → ι → Prop) (ops : List ι) : Prop :=
  ∀ pre op, pre ++ [op] <+: ops → good pre op

theorem AllSteps.of_initial {good : List ι → ι → Prop} {ops pre : List ι}
    (h : AllSteps good ops) (hp : pre <+: ops) : AllSteps good pre :=
  fun pre' op hpre => h pre' op (hpre.trans hp)

theorem AllSteps.last {good : List ι → ι → Prop} {ops : List ι} {op : ι}
    (h : AllSteps good (ops ++ [op])) : good ops op := h ops op (List.prefix_refl _)

theorem AllSteps.init {good : List ι → ι → Prop} {ops : List ι} {op : ι}
    (h : AllSteps good (ops ++ [op])) : AllSteps good ops :=
  h.of_initial (List.prefix_append _ _)

theorem allSteps_nil {good : List ι → ι → Prop} : AllSteps good [] := by
  intro pre op h
  simp at h

theorem AllSteps.concat {good : List ι → ι → Prop} {ops : List ι} {op : ι} (h : AllSteps good ops)
    (hop : good ops op) : AllSteps good (ops ++ [op]) := by
  intro pre op' hpre
  rcases List.prefix_concat_iff.mp hpre with heq | hpre
  · obtain ⟨rfl, rfl⟩ := List.append_inj' heq rfl |>.imp_right List.singleton_inj.mp
    exact hop
  · exact h pre op' hpre

/-- The steps of a concrete run, one by one. -/
theorem allSteps_of_get {good : List ι → ι → Prop} {ops : List ι}
    (h : ∀ i : Fin ops.length, good (ops.take i) (ops.get i)) : AllSteps good ops := by
  rintro pre op ⟨rest, rfl⟩
  have hi : pre.length < (pre ++ [op] ++ rest).length := by
    simp only [List.length_append, List.length_singleton]
    omega
  simpa using h ⟨pre.length, hi⟩

/-- What the start has and every good step keeps holds at the end of a run of good steps. -/
theorem run_induction {good : List ι → ι → Prop} {P : List ι → Prop} (h0 : P [])
    (hstep : ∀ pre op, good pre op → P pre → P (pre ++ [op])) :
    ∀ ops : List ι, AllSteps good ops → P ops := by
  intro ops
  induction ops using List.reverseRecOn with
  | nil => exact fun _ => h0
  | append_singleton ops op ih =>
      intro h
      exact hstep ops op h.last (ih h.init)

/-- Two properties of steps that agree where an invariant holds, which the first one keeps, hold of
the same runs. -/
theorem allSteps_congr {good good' : List ι → ι → Prop} {Inv : List ι → Prop} (h0 : Inv [])
    (hstep : ∀ pre op, Inv pre → good pre op → Inv (pre ++ [op]))
    (hiff : ∀ pre op, Inv pre → (good pre op ↔ good' pre op)) (ops : List ι) :
    AllSteps good ops ↔ AllSteps good' ops := by
  have hinv : ∀ ops, AllSteps good ops → Inv ops := run_induction h0 (fun pre op hgood hpre =>
    hstep pre op hpre hgood)
  induction ops using List.reverseRecOn with
  | nil => exact ⟨fun _ => allSteps_nil, fun _ => allSteps_nil⟩
  | append_singleton ops op ih =>
      constructor
      · intro h
        exact (ih.mp h.init).concat ((hiff ops op (hinv ops h.init)).mp h.last)
      · intro h
        have hops := ih.mpr h.init
        exact hops.concat ((hiff ops op (hinv ops hops)).mpr h.last)

/-- A property that holds at the start, that good steps keep and that other steps break, holds
along a run exactly when all its steps are good. -/
theorem along_iff_allSteps {good : List ι → ι → Prop} {P : List ι → Prop} (h0 : P [])
    (hkeep : ∀ pre op, (∀ pre', pre' <+: pre → P pre') → good pre op → P (pre ++ [op]))
    (hbreak : ∀ pre op, (∀ pre', pre' <+: pre → P pre') → ¬ good pre op → ¬ P (pre ++ [op]))
    (ops : List ι) : (∀ pre, pre <+: ops → P pre) ↔ AllSteps good ops := by
  constructor
  · intro h pre op hpre
    by_contra hbad
    exact hbreak pre op
      (fun pre' hp => h pre' (hp.trans ((List.prefix_append _ _).trans hpre))) hbad (h _ hpre)
  · intro h
    induction ops using List.reverseRecOn with
    | nil =>
        intro pre hp
        rw [List.prefix_nil.mp hp]
        exact h0
    | append_singleton ops op ih =>
        intro pre hp
        rcases List.prefix_concat_iff.mp hp with rfl | hp
        · exact hkeep ops op (ih h.init) h.last
        · exact ih h.init pre hp

/-- A mark that a state has at the end of a run was set by one of the operations, and every state
since then has it. -/
theorem exists_since {α : Type} (mark : σ → Option α) {sets : σ → ι → α → Prop}
    (h0 : mark s₀ = none)
    (hstep : ∀ s op a, mark (step s op) = some a → mark s = some a ∨ sets s op a)
    (ops : List ι) {a : α} (h : mark (run step s₀ ops) = some a) :
    ∃ pre op post, ops = pre ++ op :: post ∧ sets (run step s₀ pre) op a ∧
      ∀ part, part <+: post → mark (run step s₀ (pre ++ op :: part)) = some a := by
  induction ops using List.reverseRecOn with
  | nil =>
      have hnone : mark (run step s₀ []) = none := h0
      rw [hnone] at h
      cases h
  | append_singleton ops op ih =>
      rw [run_concat] at h
      rcases hstep _ op a h with hbefore | hset
      · obtain ⟨pre, op', post, rfl, hsets, hkept⟩ := ih hbefore
        refine ⟨pre, op', post ++ [op], by simp, hsets, ?_⟩
        intro part hpart
        rcases List.prefix_concat_iff.mp hpart with rfl | hpart
        · have hrun : pre ++ op' :: (post ++ [op]) = (pre ++ op' :: post) ++ [op] := by simp
          rw [hrun, run_concat]
          exact h
        · exact hkept part hpart
      · refine ⟨ops, op, [], rfl, hset, ?_⟩
        intro part hpart
        rw [List.prefix_nil.mp hpart, run_concat]
        exact h

/-! ### A table of calls -/

section Table

variable {κ α : Type} [DecidableEq κ] {table : κ → Option α} {c c' : κ} {call call' : α}

/-- An entry of an updated table is the new one, or was there before. -/
theorem mem_table_update {entry : Option α} (h : Function.update table c entry c' = some call') :
    (c' = c ∧ entry = some call') ∨ (c' ≠ c ∧ table c' = some call') := by
  by_cases hne : c' = c
  · rw [hne, Function.update_self] at h
    exact Or.inl ⟨hne, h⟩
  · rw [Function.update_of_ne hne] at h
    exact Or.inr ⟨hne, h⟩

/-- A call in the table after `c` was removed. -/
theorem mem_table_remove (h : Function.update table c none c' = some call') :
    c' ≠ c ∧ table c' = some call' :=
  (mem_table_update h).resolve_left nofun

/-- A call in the table after `c` was set. -/
theorem mem_table_set (h : Function.update table c (some call) c' = some call') :
    (c' = c ∧ call' = call) ∨ (c' ≠ c ∧ table c' = some call') :=
  (mem_table_update h).imp_left (fun hnew => ⟨hnew.1, (Option.some.inj hnew.2).symm⟩)

/-- A call in a table whose keys from `n` on are free. -/
theorem ne_of_fresh {n k k' : ℕ} {table : ℕ → Option α} (hfresh : ∀ k, n ≤ k → table k = none)
    (hk : table k = some call) (hk' : n ≤ k') : k' ≠ k := by
  rintro rfl
  rw [hfresh k' hk'] at hk
  cases hk

theorem fresh_set {n k : ℕ} {table : ℕ → Option α} (hfresh : ∀ k, n ≤ k → table k = none)
    (hk : table k = some call) (entry : Option α) :
    ∀ k', n ≤ k' → Function.update table k entry k' = none := fun k' hk' =>
  (Function.update_of_ne (ne_of_fresh hfresh hk hk') _ _).trans (hfresh k' hk')

theorem fresh_add {n : ℕ} {table : ℕ → Option α} (hfresh : ∀ k, n ≤ k → table k = none)
    (entry : Option α) : ∀ k', n + 1 ≤ k' → Function.update table n entry k' = none :=
  fun k' hk' => (Function.update_of_ne (Nat.lt_of_succ_le hk').ne' _ _).trans
    (hfresh k' (Nat.le_of_succ_le hk'))

/-- A list of distinct keys with a new one. -/
theorem nodup_append_singleton {l : List α} {a : α} (hl : l.Nodup) (ha : a ∉ l) :
    (l ++ [a]).Nodup := by
  rw [← List.concat_eq_append]
  exact hl.concat ha

/-- A table as the list of its entries, with one entry for a key. -/
theorem lookup_eq_some_iff {entries : List (κ × α)} (hkeys : (entries.map (·.1)).Nodup) {k : κ}
    {a : α} :
    (entries.find? (fun e => decide (e.1 = k))).map (·.2) = some a ↔ (k, a) ∈ entries := by
  rw [Option.map_eq_some_iff]
  constructor
  · rintro ⟨e, he, rfl⟩
    have hkey := List.find?_some he
    rw [decide_eq_true_eq] at hkey
    rw [← hkey]
    exact List.mem_of_find?_eq_some he
  · intro hmem
    obtain ⟨e, he⟩ : ∃ e, entries.find? (fun e => decide (e.1 = k)) = some e := by
      rw [← Option.isSome_iff_exists, List.find?_isSome]
      exact ⟨_, hmem, decide_eq_true rfl⟩
    have hkey := List.find?_some he
    rw [decide_eq_true_eq] at hkey
    -- the entry that was found has the same key, so it is the same entry
    have heq := List.inj_on_of_nodup_map hkeys (List.mem_of_find?_eq_some he) hmem hkey
    exact ⟨e, he, by rw [heq]⟩

end Table

end LogosDelivery.Lib
