import LogosDelivery.StoreSync.TopicAttribution

/-! # A storage is a sorted set

What the elements of a storage stand for is a finite set of ids.  `insert`, `remove` and `prune` on
the three aligned sequences do on the set what their names say, and `findIdxBounds` denotes the ids
within its bounds (`sortedSet_after`). -/

namespace LogosDelivery.StoreSync

/-- The operations on a set of ids. -/
def IdSet.apply (ids : Finset SyncID) : StorageOp → Finset SyncID
  | .insert e _ _ => insert e ids
  | .remove e => ids.erase e
  | .prune t => ids.filter (fun x => t ≤ x.time)

/-- The ids that are in the set after the operations, from the empty set. -/
def IdSet.after (ops : List StorageOp) : Finset SyncID := Lib.run IdSet.apply ∅ ops

namespace SeqStorage

/-- The index range that a search returned has the elements within the bounds and no other; none
means that there are none. -/
def Denotes (s : SeqStorage) (r : Slice SyncID) : Option (ℕ × ℕ) → Prop
  | none => ∀ e ∈ s.elements, ¬ (r.a ≤ e ∧ e ≤ r.b)
  | some (lower, upper) =>
      ∀ i e, s.elements[i]? = some e → ((lower ≤ i ∧ i < upper) ↔ (r.a ≤ e ∧ e ≤ r.b))

/-- A storage as a sorted set of ids. -/
structure SortedSet (s : SeqStorage) (ids : Finset SyncID) : Prop where
  sorted : s.elements.Pairwise (· < ·)
  nodup : s.elements.Nodup
  pubsub_aligned : s.pubsubTopicIndexes.length = s.elements.length
  content_aligned : s.contentTopicIndexes.length = s.elements.length
  pubsub_inRange : ∀ k ∈ s.pubsubTopicIndexes, k < s.pubsubTopics.length
  content_inRange : ∀ k ∈ s.contentTopicIndexes, k < s.contentTopics.length
  mem : ∀ e, e ∈ s.elements ↔ e ∈ ids
  pruned : ∀ t, (s.prune t).2 = (ids.filter (fun x => x.time < t)).card
  bounds : ∀ r, s.Denotes r (s.findIdxBounds r)

variable {s : SeqStorage}

/-- The elements below an index are those below the key, and only those. -/
theorem WellFormed.lt_lowerBound_iff (h : s.WellFormed) (key : SyncID) {i : ℕ} {e : SyncID}
    (he : s.elements[i]? = some e) : i < lowerBound s.elements key ↔ e < key := by
  have hsplit := splitBy_lowerBound h.sorted key
  rw [lowerBound, Lib.bisect_eq_cut hsplit]
  constructor
  · intro hi
    have hright := Lib.right_of_lt_cut hi he
    rwa [decide_eq_true_eq, cmp_neg_iff] at hright
  · intro hlt
    by_contra hi
    have hnot := Lib.not_right_of_cut_le hsplit (not_lt.mp hi) he
    rw [decide_eq_false_iff_not, cmp_neg_iff] at hnot
    exact hnot hlt

theorem WellFormed.lt_upperBound_iff (h : s.WellFormed) (key : SyncID) {i : ℕ} {e : SyncID}
    (he : s.elements[i]? = some e) : i < upperBound s.elements key ↔ e ≤ key := by
  have hsplit := splitBy_upperBound h.sorted key
  rw [upperBound, Lib.bisect_eq_cut hsplit]
  constructor
  · intro hi
    have hright := Lib.right_of_lt_cut hi he
    rwa [decide_eq_true_eq, cmp_nonpos_iff] at hright
  · intro hle
    by_contra hi
    have hnot := Lib.not_right_of_cut_le hsplit (not_lt.mp hi) he
    rw [decide_eq_false_iff_not, cmp_nonpos_iff] at hnot
    exact hnot hle

theorem WellFormed.denotes_findIdxBounds (h : s.WellFormed) (r : Slice SyncID) :
    s.Denotes r (s.findIdxBounds r) := by
  unfold findIdxBounds
  dsimp only
  split_ifs with hupper hlower
  · -- the whole range is before the first element
    intro e he hwithin
    obtain ⟨i, hi⟩ := List.mem_iff_getElem?.mp he
    have hbelow := (h.lt_upperBound_iff r.b hi).mpr hwithin.2
    omega
  · -- the whole range is after the last element
    intro e he hwithin
    obtain ⟨i, hi⟩ := List.mem_iff_getElem?.mp he
    have hlen : i < s.elements.length := (List.getElem?_eq_some_iff.mp hi).1
    have hbelow := (h.lt_lowerBound_iff r.a hi).mp (by omega)
    exact absurd hwithin.1 (not_le.mpr hbelow)
  · intro i e hi
    rw [h.lt_upperBound_iff r.b hi, ← not_lt, h.lt_lowerBound_iff r.a hi, not_lt]

/-- `prune` returns the number of elements before the timestamp. -/
theorem WellFormed.prune_count (h : s.WellFormed) (t : ℤ) :
    (s.prune t).2 = (s.elements.filter (fun x => decide (x.time < t))).length := by
  have hbefore : lowerBound s.elements (SyncID.atTime t) =
      (s.elements.filter (fun x => decide (x.time < t))).length := by
    have htake := congrArg List.length (take_lowerBound h.sorted (SyncID.atTime t))
    rw [List.length_take, min_eq_left (lowerBound_le h.sorted _)] at htake
    rw [htake]
    refine congrArg List.length (List.filter_congr fun x _ => ?_)
    exact decide_eq_decide.mpr SyncID.lt_atTime_iff
  unfold SeqStorage.prune
  split_ifs with hnil
  · rw [List.length_eq_zero_iff.mp hnil]
    rfl
  · exact hbefore

theorem card_filter_of_mem (h : s.WellFormed) {ids : Finset SyncID}
    (hmem : ∀ e, e ∈ s.elements ↔ e ∈ ids) (p : SyncID → Prop) [DecidablePred p] :
    (s.elements.filter (fun x => decide (p x))).length = (ids.filter p).card := by
  rw [← List.toFinset_card_of_nodup (h.nodup.filter _)]
  congr 1
  ext x
  rw [List.mem_toFinset, List.mem_filter, Finset.mem_filter, hmem x, decide_eq_true_eq]

theorem sortedSet_of_sound {a : Attribution} (h : s.Sound a) {ids : Finset SyncID}
    (hmem : ∀ e, e ∈ s.elements ↔ e ∈ ids) : s.SortedSet ids where
  sorted := h.wellFormed.sorted
  nodup := h.wellFormed.nodup
  pubsub_aligned := h.wellFormed.pubsub_aligned
  content_aligned := h.wellFormed.content_aligned
  pubsub_inRange := h.slots.pubsub
  content_inRange := h.slots.content
  mem := hmem
  pruned t := by
    rw [h.wellFormed.prune_count t, card_filter_of_mem h.wellFormed hmem (fun x => x.time < t)]
  bounds := h.wellFormed.denotes_findIdxBounds

/-- One operation does on the elements what it does on the set. -/
theorem WellFormed.mem_apply (h : s.WellFormed) {ids : Finset SyncID}
    (hmem : ∀ e, e ∈ s.elements ↔ e ∈ ids) (op : StorageOp) (e : SyncID) :
    e ∈ (s.apply op).elements ↔ e ∈ IdSet.apply ids op := by
  cases op with
  | insert x p c =>
      rw [SeqStorage.apply, IdSet.apply, h.mem_insert, Finset.mem_insert, hmem e]
  | remove x =>
      rw [SeqStorage.apply, IdSet.apply, h.mem_remove, Finset.mem_erase, hmem e, and_comm]
  | prune t =>
      rw [SeqStorage.apply, IdSet.apply, h.mem_prune, Finset.mem_filter, hmem e]

end SeqStorage

theorem mem_after_iff (partitionCount lengthThreshold : ℤ) (ops : List StorageOp) :
    ∀ e, e ∈ (storageAfter partitionCount lengthThreshold ops).elements ↔ e ∈ IdSet.after ops := by
  induction ops using List.reverseRecOn with
  | nil =>
      intro e
      exact iff_of_false List.not_mem_nil (Finset.notMem_empty e)
  | append_singleton ops op ih =>
      intro e
      rw [storageAfter, IdSet.after, Lib.run_concat, Lib.run_concat]
      exact (sound_storageAfter partitionCount lengthThreshold ops).wellFormed.mem_apply ih op e

/-- **A storage implements a sorted set**, after any operations on an empty one. -/
theorem sortedSet_after (partitionCount lengthThreshold : ℤ) (ops : List StorageOp) :
    (storageAfter partitionCount lengthThreshold ops).SortedSet (IdSet.after ops) :=
  SeqStorage.sortedSet_of_sound (sound_storageAfter partitionCount lengthThreshold ops)
    (mem_after_iff partitionCount lengthThreshold ops)

end LogosDelivery.StoreSync
