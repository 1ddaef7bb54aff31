import Mathlib

/-! # Hash tables and hash sets

A hash table is an association list with distinct keys; beside the operations of `AList` it has
those that go over all entries at once, `keepIf`, `mapValues` and `filterMapValues`.  A relation
that is kept as a table of sets (`Related`) is read from the other side by `keysOf`, the keys whose
set contains a value, and each update of the table is an insertion into that set or a removal from
it.

A loop over a hash set visits its elements once each, in an order that depends on their hashes:
an `IterationOrder` or a `SetOrder` is any such choice.  A loop over the entries of a table (`pairs`)
visits its keys so. -/

namespace LogosDelivery.Lib

/-- A `Table[κ, α]`. -/
abbrev Table (κ α : Type) := AList (fun _ : κ => α)

/-- The order in which a loop visits the elements of a hash set. -/
structure IterationOrder (α : Type) where
  visit : List α → List α
  perm : ∀ l, (visit l).Perm l

/-- The same for a hash set that is not made from a sequence. -/
structure SetOrder (α : Type) where
  toSeq : Finset α → List α
  nodup : ∀ s, (toSeq s).Nodup
  mem_toSeq : ∀ s a, a ∈ toSeq s ↔ a ∈ s

/-- Some order. -/
noncomputable def SetOrder.any (α : Type) : SetOrder α where
  toSeq := Finset.toList
  nodup := Finset.nodup_toList
  mem_toSeq := fun _ _ => Finset.mem_toList

/-- The order that visits one element first, if the set has it. -/
def SetOrder.startWith {α : Type} [DecidableEq α] (order : SetOrder α) (a : α) : SetOrder α where
  toSeq := fun s => if a ∈ s then a :: order.toSeq (s.erase a) else order.toSeq s
  nodup := fun s => by
    split_ifs
    · refine List.nodup_cons.mpr ⟨?_, order.nodup _⟩
      rw [order.mem_toSeq]
      exact Finset.notMem_erase a s
    · exact order.nodup s
  mem_toSeq := fun s b => by
    split_ifs with h
    · rw [List.mem_cons, order.mem_toSeq, Finset.mem_erase]
      by_cases hb : b = a
      · simp [hb, h]
      · simp [hb]
    · exact order.mem_toSeq s b

theorem SetOrder.toSeq_startWith {α : Type} [DecidableEq α] (order : SetOrder α) {a : α}
    {s : Finset α} (h : a ∈ s) :
    (order.startWith a).toSeq s = a :: order.toSeq (s.erase a) := if_pos h

/-- The elements of the hash set made from a sequence, in the order of a loop over it. -/
def IterationOrder.ofSeq {α : Type} [DecidableEq α] (order : IterationOrder α) (l : List α) :
    List α :=
  order.visit l.dedup

theorem IterationOrder.mem_ofSeq {α : Type} [DecidableEq α] {order : IterationOrder α}
    {l : List α} {a : α} : a ∈ order.ofSeq l ↔ a ∈ l := by
  rw [ofSeq, (order.perm _).mem_iff, List.mem_dedup]

theorem IterationOrder.length_ofSeq_le {α : Type} [DecidableEq α] (order : IterationOrder α)
    (l : List α) : (order.ofSeq l).length ≤ l.length := by
  rw [ofSeq, (order.perm _).length_eq]
  exact (List.dedup_sublist l).length_le

namespace Table

variable {κ α : Type} [DecidableEq κ]

/-- Drop the entries that fail the test. -/
def keepIf (t : Table κ α) (test : κ → α → Bool) : Table κ α :=
  ⟨t.entries.filter (fun e => test e.1 e.2), t.nodupKeys.sublist List.filter_sublist⟩

/-- Update every value. -/
def mapValues (t : Table κ α) (f : κ → α → α) : Table κ α :=
  ⟨t.entries.map (fun e => ⟨e.1, f e.1 e.2⟩), by
    have hkeys : (t.entries.map (fun e => (⟨e.1, f e.1 e.2⟩ : (_ : κ) × α))).keys =
        t.entries.keys := by
      simp [List.keys, List.map_map, Function.comp_def]
    rw [List.NodupKeys, hkeys]
    exact t.nodupKeys⟩

/-- Update every value, and drop the entries that have no new one. -/
def filterMapValues {β : Type} (t : Table κ α) (f : κ → α → Option β) : Table κ β :=
  ⟨t.entries.filterMap (fun e => (f e.1 e.2).map (fun b => ⟨e.1, b⟩)), by
    rw [List.nodupKeys_iff_pairwise]
    refine List.Pairwise.filterMap _ ?_ (List.nodupKeys_iff_pairwise.mp t.nodupKeys)
    intro e e' hne b hb b' hb'
    obtain ⟨-, -, rfl⟩ := Option.map_eq_some_iff.mp hb
    obtain ⟨-, -, rfl⟩ := Option.map_eq_some_iff.mp hb'
    exact hne⟩

@[simp] theorem lookup_keepIf (t : Table κ α) (test : κ → α → Bool) (k : κ) :
    (t.keepIf test).lookup k = (t.lookup k).filter (test k) := by
  apply Option.ext
  intro a
  rw [Option.filter_eq_some_iff, ← Option.mem_def, ← Option.mem_def, AList.mem_lookup_iff,
    AList.mem_lookup_iff]
  simp [keepIf]

@[simp] theorem lookup_mapValues (t : Table κ α) (f : κ → α → α) (k : κ) :
    (t.mapValues f).lookup k = (t.lookup k).map (f k) := by
  apply Option.ext
  intro b
  rw [Option.map_eq_some_iff, ← Option.mem_def, AList.mem_lookup_iff]
  simp only [← Option.mem_def, AList.mem_lookup_iff]
  simp only [mapValues, List.mem_map]
  constructor
  · rintro ⟨⟨k', a⟩, hmem, heq⟩
    cases heq
    exact ⟨a, hmem, rfl⟩
  · rintro ⟨a, hmem, rfl⟩
    exact ⟨⟨k, a⟩, hmem, rfl⟩

@[simp] theorem lookup_filterMapValues {β : Type} (t : Table κ α) (f : κ → α → Option β) (k : κ) :
    (t.filterMapValues f).lookup k = (t.lookup k).bind (f k) := by
  apply Option.ext
  intro b
  rw [Option.bind_eq_some_iff, ← Option.mem_def, AList.mem_lookup_iff]
  simp only [← Option.mem_def, AList.mem_lookup_iff]
  simp only [filterMapValues, List.mem_filterMap, Option.map_eq_some_iff]
  constructor
  · rintro ⟨⟨k', a⟩, hmem, b', hb, heq⟩
    cases heq
    exact ⟨a, hmem, hb⟩
  · rintro ⟨a, hmem, hb⟩
    exact ⟨⟨k, a⟩, hmem, b, hb, rfl⟩

theorem mem_iff {t : Table κ α} {k : κ} : k ∈ t ↔ ∃ a, t.lookup k = some a := by
  rw [← AList.lookup_isSome, Option.isSome_iff_exists]

/-- The entries in the order of a loop over them. -/
def pairs (t : Table κ α) (order : SetOrder κ) : List (κ × α) :=
  (order.toSeq t.keys.toFinset).filterMap (fun k => (t.lookup k).map (fun a => (k, a)))

theorem map_fst_pairs (t : Table κ α) (order : SetOrder κ) :
    (t.pairs order).map Prod.fst = order.toSeq t.keys.toFinset := by
  have hkeys : ∀ l : List κ, (∀ k ∈ l, k ∈ t) →
      (l.filterMap (fun k => (t.lookup k).map (fun a => (k, a)))).map Prod.fst = l := by
    intro l hl
    induction l with
    | nil => rfl
    | cons k l ih =>
        obtain ⟨a, ha⟩ := mem_iff.mp (hl k List.mem_cons_self)
        rw [List.filterMap_cons, ha, Option.map_some, List.map_cons,
          ih (fun k' hk' => hl k' (List.mem_cons_of_mem k hk'))]
  refine hkeys _ (fun k hk => ?_)
  rw [order.mem_toSeq, List.mem_toFinset] at hk
  exact AList.mem_keys.mpr hk

theorem mem_pairs {t : Table κ α} {order : SetOrder κ} {k : κ} {a : α} :
    (k, a) ∈ t.pairs order ↔ t.lookup k = some a := by
  simp only [pairs, List.mem_filterMap, order.mem_toSeq, List.mem_toFinset, Option.map_eq_some_iff,
    Prod.mk.injEq]
  constructor
  · rintro ⟨k', _, a', h, rfl, rfl⟩
    exact h
  · intro h
    exact ⟨k, AList.mem_keys.mp (mem_iff.mpr ⟨a, h⟩), a, h, rfl, rfl⟩

/-- The lookup after an insertion, in one equation. -/
theorem lookup_insert_eq (t : Table κ α) (k k' : κ) (a : α) :
    (t.insert k a).lookup k' = if k' = k then some a else t.lookup k' := by
  by_cases h : k' = k
  · rw [if_pos h, h, AList.lookup_insert]
  · rw [if_neg h, AList.lookup_insert_ne h]

/-- The lookup after a deletion, in one equation. -/
theorem lookup_erase_eq (t : Table κ α) (k k' : κ) :
    (t.erase k).lookup k' = if k' = k then none else t.lookup k' := by
  by_cases h : k' = k
  · rw [if_pos h, h, AList.lookup_erase]
  · rw [if_neg h, AList.lookup_erase_ne h]

/-- The lookup after a loop that deletes the keys of a list. -/
theorem lookup_foldl_erase (keys : List κ) (t : Table κ α) (k : κ) :
    (keys.foldl (fun t k => t.erase k) t).lookup k =
      if k ∈ keys then none else t.lookup k := by
  induction keys generalizing t with
  | nil => simp
  | cons k' keys ih =>
      rw [List.foldl_cons, ih, lookup_erase_eq]
      by_cases hmem : k ∈ keys
      · rw [if_pos hmem, if_pos (List.mem_cons_of_mem _ hmem)]
      · by_cases hk : k = k'
        · rw [if_neg hmem, if_pos hk, if_pos (List.mem_cons.mpr (Or.inl hk))]
        · rw [if_neg hmem, if_neg hk, if_neg (List.not_mem_cons_of_ne_of_not_mem hk hmem)]

/-! ### The number of entries -/

/-- The number of entries. -/
def len (t : Table κ α) : ℕ := t.keys.length

theorem length_pairs (t : Table κ α) (order : SetOrder κ) : (t.pairs order).length = t.len := by
  rw [← List.length_map (f := Prod.fst), map_fst_pairs, len,
    ← List.toFinset_card_of_nodup (order.nodup _)]
  have hset : (order.toSeq t.keys.toFinset).toFinset = t.keys.toFinset := by
    ext k
    rw [List.mem_toFinset, order.mem_toSeq]
  rw [hset]
  exact List.toFinset_card_of_nodup t.nodupKeys

theorem len_insert_of_mem {t : Table κ α} {k : κ} (h : k ∈ t) (a : α) :
    len (t.insert k a) = t.len := by
  have hkeys : k ∈ t.keys := h
  have hpos : 0 < t.keys.length := List.length_pos_of_mem hkeys
  simp only [len, AList.keys_insert, List.length_cons, List.length_erase_of_mem hkeys]
  omega

theorem len_insert_of_notMem {t : Table κ α} {k : κ} (h : k ∉ t) (a : α) :
    len (t.insert k a) = t.len + 1 := by
  have hkeys : k ∉ t.keys := h
  simp only [len, AList.keys_insert, List.length_cons, List.erase_of_not_mem hkeys]

omit [DecidableEq κ] in
/-- A table whose keys are among those of another has no more entries. -/
theorem len_le_of_subset {t t' : Table κ α} (h : ∀ k, k ∈ t' → k ∈ t) : t'.len ≤ t.len := by
  have hsub : t'.keys ⊆ t.keys := fun k hk => h k hk
  exact (t'.keys_nodup.subperm hsub).length_le

/-! ### A table of sets -/

section Related

variable {β : Type} (t : Table κ (Finset β))

/-- The set of the key contains the value. -/
def Related (k : κ) (b : β) : Prop := ∃ set, t.lookup k = some set ∧ b ∈ set

/-- The keys whose set contains the value. -/
def keysOf [DecidableEq β] (b : β) : Finset κ :=
  t.keys.toFinset.filter (fun k => b ∈ (t.lookup k).getD ∅)

variable {t} {k : κ} {b : β}

theorem mem_keysOf [DecidableEq β] : k ∈ t.keysOf b ↔ t.Related k b := by
  rw [keysOf, Finset.mem_filter, List.mem_toFinset]
  constructor
  · rintro ⟨hk, hb⟩
    obtain ⟨set, hset⟩ := mem_iff.mp (AList.mem_keys.mpr hk)
    rw [hset] at hb
    exact ⟨set, hset, hb⟩
  · rintro ⟨set, hset, hb⟩
    refine ⟨AList.mem_keys.mp (mem_iff.mpr ⟨set, hset⟩), ?_⟩
    rw [hset]
    exact hb

theorem related_iff_mem_getD : t.Related k b ↔ b ∈ (t.lookup k).getD ∅ := by
  unfold Related
  cases t.lookup k with
  | none => simp
  | some set => simp

/-- Related values after the set of a key was replaced. -/
theorem related_insert {set : Finset β} {k' : κ} {b' : β} :
    Related (t.insert k set) k' b' ↔ if k' = k then b' ∈ set else t.Related k' b' := by
  unfold Related
  rw [lookup_insert_eq]
  by_cases h : k' = k <;> simp [h]

theorem related_erase {k' : κ} {b' : β} :
    Related (t.erase k) k' b' ↔ k' ≠ k ∧ t.Related k' b' := by
  unfold Related
  rw [lookup_erase_eq]
  by_cases h : k' = k <;> simp [h]

end Related

end Table

end LogosDelivery.Lib
