import LogosDelivery.StoreSync.Payload

/-! # The storage read as a sorted set

On a storage whose elements are strictly sorted and whose topic sequences are aligned with them
(`WellFormed`), every index computed by binary search is a filter: `findIdxBounds` denotes the
rows whose element lies within the bounds, both bounds included.  What a node compares with its
peer is then `visible`: the elements within the bounds whose topics pass the topic sets, in order.

`insert`, `remove` and `prune` keep a storage well formed and act on the set of elements as their
names say (`mem_insert`, `mem_remove`, `mem_prune`). -/

namespace LogosDelivery.StoreSync

open Lib (PackedSet)

/-- Both bounds are included. -/
def inBounds (r : Slice SyncID) (x : SyncID) : Bool := decide (r.a ≤ x) && decide (x ≤ r.b)

theorem inBounds_iff {r : Slice SyncID} {x : SyncID} : inBounds r x = true ↔ r.a ≤ x ∧ x ≤ r.b := by
  simp [inBounds]

/-! ### Binary search in a sorted sequence -/

section search

variable {a : List SyncID} (h : a.Pairwise (· < ·)) (key : SyncID)
include h

theorem splitBy_lowerBound : Lib.SplitBy (fun x => decide (cmp x key < 0)) a := by
  refine h.imp ?_
  intro x y hxy hy
  simp only [decide_eq_true_eq, cmp_neg_iff] at hy ⊢
  exact hxy.trans hy

theorem splitBy_upperBound : Lib.SplitBy (fun x => decide (cmp x key ≤ 0)) a := by
  refine h.imp ?_
  intro x y hxy hy
  simp only [decide_eq_true_eq, cmp_nonpos_iff] at hy ⊢
  exact hxy.le.trans hy

theorem take_lowerBound : a.take (lowerBound a key) = a.filter (fun x => decide (x < key)) := by
  simpa only [lowerBound, cmp_neg_iff] using Lib.take_bisect (splitBy_lowerBound h key)

theorem drop_lowerBound : a.drop (lowerBound a key) = a.filter (fun x => !decide (x < key)) := by
  simpa only [lowerBound, cmp_neg_iff] using Lib.drop_bisect (splitBy_lowerBound h key)

theorem lowerBound_le : lowerBound a key ≤ a.length := Lib.bisect_le (splitBy_lowerBound h key)

theorem upperBound_le : upperBound a key ≤ a.length := Lib.bisect_le (splitBy_upperBound h key)

/-- The search for an element that is there finds it, and only then. -/
theorem getElem?_lowerBound : a[lowerBound a key]? = some key ↔ key ∈ a := by
  rw [← List.head?_drop, drop_lowerBound h]
  constructor
  · intro hk
    exact (List.mem_filter.mp (List.mem_of_mem_head? hk)).1
  · intro hk
    have hmem : key ∈ a.filter (fun x => !decide (x < key)) := by simp [hk]
    cases hl : a.filter (fun x => !decide (x < key)) with
    | nil => rw [hl] at hmem; simp at hmem
    | cons y l =>
        rw [hl] at hmem
        have hsorted : (y :: l).Pairwise (· < ·) := hl ▸ h.filter _
        have hy : y ∈ a.filter (fun x => !decide (x < key)) := by rw [hl]; simp
        have hky : key ≤ y := by simpa using (List.mem_filter.mp hy).2
        rcases List.mem_cons.mp hmem with rfl | hmem
        · rfl
        · exact absurd ((List.pairwise_cons.mp hsorted).1 key hmem) (not_lt.mpr hky)

end search

/-- Inserting at the place that the search finds. -/
theorem insertIdx_eq_take_append {α : Type} (x : α) :
    ∀ (l : List α) (i : ℕ), i ≤ l.length → l.insertIdx i x = l.take i ++ x :: l.drop i
  | l, 0, _ => by simp
  | [], i + 1, h => by simp at h
  | y :: l, i + 1, h => by
      rw [List.insertIdx_succ_cons, insertIdx_eq_take_append x l i (by simpa using h)]
      simp

theorem insertIdx_lowerBound_sorted {a : List SyncID} (h : a.Pairwise (· < ·)) {key : SyncID}
    (hk : key ∉ a) : (a.insertIdx (lowerBound a key) key).Pairwise (· < ·) := by
  rw [insertIdx_eq_take_append _ _ _ (lowerBound_le h key), take_lowerBound h, drop_lowerBound h]
  have hbelow : ∀ x ∈ a.filter (fun x => decide (x < key)), x < key := by
    intro x hx
    simpa using (List.mem_filter.mp hx).2
  have habove : ∀ x ∈ a.filter (fun x => !decide (x < key)), key < x := by
    intro x hx
    obtain ⟨hxa, hx⟩ := List.mem_filter.mp hx
    have hle : key ≤ x := by simpa using hx
    exact lt_of_le_of_ne hle (fun e => hk (e ▸ hxa))
  rw [List.pairwise_append, List.pairwise_cons]
  refine ⟨h.filter _, ⟨habove, h.filter _⟩, ?_⟩
  intro x hx y hy
  rcases List.mem_cons.mp hy with rfl | hy
  · exact hbelow x hx
  · exact (hbelow x hx).trans (habove y hy)

theorem eraseIdx_lowerBound {a : List SyncID} (h : a.Pairwise (· < ·)) {key : SyncID}
    (hk : key ∈ a) : a.eraseIdx (lowerBound a key) = a.erase key := by
  have hnodup : a.Nodup := h.imp (fun hxy => ne_of_lt hxy)
  obtain ⟨hlt, he⟩ := List.getElem?_eq_some_iff.mp ((getElem?_lowerBound h key).mpr hk)
  have hidx : a.idxOf key = lowerBound a key := by
    conv_lhs => rw [← he]
    exact hnodup.idxOf_getElem _ hlt
  rw [← hidx, List.eraseIdx_idxOf_eq_erase]

/-! ### Well formed storages -/

/-- The elements are strictly sorted and the topic sequences aligned with them. -/
structure SeqStorage.WellFormed (s : SeqStorage) : Prop where
  sorted : s.elements.Pairwise (· < ·)
  pubsub_aligned : s.pubsubTopicIndexes.length = s.elements.length
  content_aligned : s.contentTopicIndexes.length = s.elements.length

namespace SeqStorage

variable {s : SeqStorage}

theorem WellFormed.rows_map_fst (h : s.WellFormed) : s.rows.map (·.1) = s.elements := by
  unfold rows
  have hlen : s.elements.length ≤ (s.pubsubTopicIndexes.zip s.contentTopicIndexes).length := by
    rw [List.length_zip, h.pubsub_aligned, h.content_aligned, min_self]
  exact List.map_fst_zip hlen

theorem WellFormed.rows_length (h : s.WellFormed) : s.rows.length = s.elements.length := by
  rw [← h.rows_map_fst, List.length_map]

theorem WellFormed.rows_sorted (h : s.WellFormed) : s.rows.Pairwise (fun x y => x.1 < y.1) := by
  have := h.sorted
  rw [← h.rows_map_fst, List.pairwise_map] at this
  exact this

/-- A search in the elements cuts the rows at the same place. -/
theorem WellFormed.bisect_eq_cut_rows (h : s.WellFormed) {right : SyncID → Bool}
    (hs : Lib.SplitBy right s.elements) :
    Lib.bisect s.elements right = Lib.cut s.rows (fun x => right x.1) := by
  rw [Lib.bisect_eq_cut hs, ← h.rows_map_fst, Lib.cut, Lib.cut, List.takeWhile_map,
    List.length_map]
  rfl

theorem WellFormed.splitBy_rows (h : s.WellFormed) {right : SyncID → Bool}
    (hs : Lib.SplitBy right s.elements) :
    Lib.SplitBy (fun x : SyncID × ℕ × ℕ => right x.1) s.rows := by
  rw [← h.rows_map_fst, Lib.SplitBy, List.pairwise_map] at hs
  exact hs

/-- The rows of the index range that a pair of bounds denotes. -/
theorem WellFormed.rowsIn_bounds (h : s.WellFormed) (r : Slice SyncID) :
    s.rowsIn (lowerBound s.elements r.a, upperBound s.elements r.b) =
      s.rows.filter (fun x => inBounds r x.1) := by
  have hlo := splitBy_lowerBound h.sorted r.a
  have hup := splitBy_upperBound h.sorted r.b
  unfold rowsIn lowerBound upperBound
  rw [h.bisect_eq_cut_rows hlo, h.bisect_eq_cut_rows hup,
    Lib.drop_take_cut (h.splitBy_rows hlo) (h.splitBy_rows hup)]
  refine List.filter_congr ?_
  intro x _
  have hle : (!decide (x.1 < r.a)) = decide (r.a ≤ x.1) := by
    rw [← decide_not]
    exact decide_eq_decide.mpr not_lt
  simp only [inBounds, cmp_neg_iff, cmp_nonpos_iff, hle]
  exact Bool.and_comm _ _

theorem WellFormed.rowsIn_of_some (h : s.WellFormed) {r : Slice SyncID} {sl : ℕ × ℕ}
    (hf : s.findIdxBounds r = some sl) : s.rowsIn sl = s.rows.filter (fun x => inBounds r x.1) := by
  simp only [findIdxBounds] at hf
  split_ifs at hf
  obtain rfl := Option.some.inj hf
  exact h.rowsIn_bounds r

/-- No index range means that no element is within the bounds. -/
theorem WellFormed.filter_of_none (h : s.WellFormed) {r : Slice SyncID}
    (hf : s.findIdxBounds r = none) : s.rows.filter (fun x => inBounds r x.1) = [] := by
  rw [← h.rowsIn_bounds r]
  simp only [findIdxBounds] at hf
  unfold rowsIn
  split_ifs at hf with hu hl
  · rw [show upperBound s.elements r.b = 0 by omega, List.take_zero, List.drop_nil]
  · rw [List.drop_eq_nil_iff, List.length_take, h.rows_length]
    exact (min_le_right _ _).trans hl

/-- The length of an index range is the number of elements within the bounds. -/
theorem WellFormed.slice_length (h : s.WellFormed) {r : Slice SyncID} {sl : ℕ × ℕ}
    (hf : s.findIdxBounds r = some sl) :
    sl.2 - sl.1 = (s.elements.filter (inBounds r)).length := by
  have hlen := congrArg List.length (h.rowsIn_of_some hf)
  have hsl : sl.2 ≤ s.elements.length := by
    simp only [findIdxBounds] at hf
    split_ifs at hf
    obtain rfl := Option.some.inj hf
    exact upperBound_le h.sorted r.b
  rw [rowsIn, List.length_drop, List.length_take, h.rows_length, min_eq_left hsl] at hlen
  rw [hlen, ← h.rows_map_fst, List.filter_map, List.length_map]
  rfl

/-! ### The scope of a request -/

theorem mem_topicIndexes_slots (slots : List (String × ℕ)) (t : String) (scope : PackedSet ℤ)
    (x : ℤ) :
    x ∈ slots.foldl
        (fun scope slot => if t = slot.1 then scope.incl (slot.2 : ℤ) else scope) scope ↔
      x ∈ scope ∨ ∃ i : ℕ, (t, i) ∈ slots ∧ x = i := by
  induction slots generalizing scope with
  | nil => simp
  | cons slot slots ih =>
      obtain ⟨t', j⟩ := slot
      rw [List.foldl_cons, ih]
      by_cases ht : t = t'
      · subst ht
        simp only [if_true, PackedSet.mem_incl, List.mem_cons, Prod.mk.injEq, true_and, or_assoc]
        refine or_congr_right ?_
        constructor
        · rintro (rfl | ⟨i, hi, rfl⟩)
          · exact ⟨j, Or.inl rfl, rfl⟩
          · exact ⟨i, Or.inr hi, rfl⟩
        · rintro ⟨i, rfl | hi, rfl⟩
          · exact Or.inl rfl
          · exact Or.inr ⟨i, hi, rfl⟩
      · simp [ht]

theorem mem_topicIndexes (localTopics topics : List String) (scope : PackedSet ℤ) (x : ℤ) :
    x ∈ topicIndexes localTopics topics scope ↔
      x ∈ scope ∨ ∃ i : ℕ, ∃ t ∈ topics, localTopics[i]? = some t ∧ x = i := by
  unfold topicIndexes
  induction topics generalizing scope with
  | nil => simp
  | cons t topics ih =>
      rw [List.foldl_cons, ih, mem_topicIndexes_slots, or_assoc]
      refine or_congr_right ?_
      simp only [List.mem_zipIdx_iff_getElem?, List.mem_cons, exists_eq_or_imp]
      constructor
      · rintro (⟨i, hi, rfl⟩ | ⟨i, t', ht', hi, rfl⟩)
        · exact ⟨i, Or.inl ⟨hi, rfl⟩⟩
        · exact ⟨i, Or.inr ⟨t', ht', hi, rfl⟩⟩
      · rintro ⟨i, ⟨hi, rfl⟩ | ⟨t', ht', hi, rfl⟩⟩
        · exact Or.inl ⟨i, hi, rfl⟩
        · exact Or.inr ⟨i, t', ht', hi, rfl⟩

/-- The scope of a request that names topics: the slots of these topics and of the pending one, and
`-1` when the node has none of the topics. -/
theorem mem_pubsubScope (s : SeqStorage) {topics : List PubsubTopic} (hlen : 0 < topics.length)
    (x : ℤ) :
    x ∈ s.pubsubScope topics ↔
      (x = -1 ∧ (topicIndexes s.pubsubTopics topics ∅).len = 0) ∨
      ∃ i : ℕ, ∃ t, s.pubsubTopics[i]? = some t ∧ (t ∈ topics ∨ t = pendingPubsubTopic) ∧ x = i := by
  have hscope := mem_topicIndexes s.pubsubTopics topics ∅ x
  simp only [pubsubScope, hlen, true_and, if_true]
  rw [mem_topicIndexes]
  by_cases h0 : (topicIndexes s.pubsubTopics topics ∅).len = 0
  · rw [if_pos h0, PackedSet.mem_incl, hscope]
    constructor
    · rintro ((h | rfl) | ⟨i, t, ht, hi, rfl⟩)
      · rcases h with h | ⟨i, t, ht, hi, rfl⟩
        · simp at h
        · exact Or.inr ⟨i, t, hi, Or.inl ht, rfl⟩
      · exact Or.inl ⟨rfl, h0⟩
      · exact Or.inr ⟨i, t, hi, Or.inr (by simpa using ht), rfl⟩
    · rintro (⟨rfl, _⟩ | ⟨i, t, hi, ht | ht, rfl⟩)
      · exact Or.inl (Or.inr rfl)
      · exact Or.inl (Or.inl (Or.inr ⟨i, t, ht, hi, rfl⟩))
      · exact Or.inr ⟨i, t, by simpa using ht, hi, rfl⟩
  · rw [if_neg h0, hscope]
    constructor
    · rintro (h | ⟨i, t, ht, hi, rfl⟩)
      · rcases h with h | ⟨i, t, ht, hi, rfl⟩
        · simp at h
        · exact Or.inr ⟨i, t, hi, Or.inl ht, rfl⟩
      · exact Or.inr ⟨i, t, hi, Or.inr (by simpa using ht), rfl⟩
    · rintro (⟨_, h⟩ | ⟨i, t, hi, ht | ht, rfl⟩)
      · exact absurd h h0
      · exact Or.inl (Or.inr ⟨i, t, ht, hi, rfl⟩)
      · exact Or.inr ⟨i, t, by simpa using ht, hi, rfl⟩

/-- With a topic named, the scope is never empty, so it is really tested. -/
theorem pubsubScope_len_pos (s : SeqStorage) {topics : List PubsubTopic}
    (hlen : 0 < topics.length) : 0 < (s.pubsubScope topics).len := by
  by_cases h0 : (topicIndexes s.pubsubTopics topics ∅).len = 0
  · exact PackedSet.len_pos_of_mem ((s.mem_pubsubScope hlen (-1)).mpr (Or.inl ⟨rfl, h0⟩))
  · obtain ⟨x, hx⟩ := PackedSet.exists_mem_of_len_ne_zero h0
    rw [mem_topicIndexes] at hx
    rcases hx with hx | ⟨i, t, ht, hi, rfl⟩
    · simp at hx
    · exact PackedSet.len_pos_of_mem
        ((s.mem_pubsubScope hlen i).mpr (Or.inr ⟨i, t, hi, Or.inl ht, rfl⟩))

/-- A row passes the scope of a request when its pubsub topic is asked for or pending, or when the
request names no topic at all. -/
theorem passes_pubsubScope (s : SeqStorage) (topics : List PubsubTopic) (row : SyncID × ℕ × ℕ) :
    passes (s.pubsubScope topics) ∅ row = true ↔
      topics = [] ∨ ∃ t, s.pubsubTopics[row.2.1]? = some t ∧ (t ∈ topics ∨ t = pendingPubsubTopic) := by
  cases topics with
  | nil => simp [passes, pubsubScope, topicIndexes]
  | cons t₀ topics =>
      have hlen : 0 < (t₀ :: topics).length := by simp
      have hpass : passes (s.pubsubScope (t₀ :: topics)) ∅ row = true ↔
          (row.2.1 : ℤ) ∈ s.pubsubScope (t₀ :: topics) := by
        simp [passes, s.pubsubScope_len_pos hlen]
      rw [hpass, s.mem_pubsubScope hlen]
      constructor
      · rintro (⟨h, _⟩ | ⟨i, t, hi, ht, h⟩)
        · omega
        · have hri : row.2.1 = i := by exact_mod_cast h
          exact Or.inr ⟨t, hri ▸ hi, ht⟩
      · rintro (h | ⟨t, hi, ht⟩)
        · simp at h
        · exact Or.inr ⟨row.2.1, t, hi, ht, rfl⟩

/-! ### Insert, remove and prune on the set of elements -/

theorem wellFormed_empty (partitionCount lengthThreshold : ℤ) :
    WellFormed { partitionCount := partitionCount, lengthThreshold := lengthThreshold } :=
  ⟨List.Pairwise.nil, rfl, rfl⟩

theorem WellFormed.insert_of_mem (h : s.WellFormed) {e : SyncID} (he : e ∈ s.elements)
    (p : PubsubTopic) (c : ContentTopic) : s.insert e p c = s := by
  rw [insert, insertAt, if_pos ((getElem?_lowerBound h.sorted e).mpr he)]

theorem WellFormed.insert_elements (h : s.WellFormed) {e : SyncID} (he : e ∉ s.elements)
    (p : PubsubTopic) (c : ContentTopic) :
    (s.insert e p c).elements = s.elements.insertIdx (lowerBound s.elements e) e := by
  rw [insert, insertAt, if_neg (fun hc => he ((getElem?_lowerBound h.sorted e).mp hc))]

theorem WellFormed.mem_insert (h : s.WellFormed) (e : SyncID) (p : PubsubTopic) (c : ContentTopic)
    {x : SyncID} : x ∈ (s.insert e p c).elements ↔ x = e ∨ x ∈ s.elements := by
  by_cases he : e ∈ s.elements
  · rw [h.insert_of_mem he]
    exact ⟨Or.inr, fun hx => hx.elim (fun hx => hx ▸ he) id⟩
  · rw [h.insert_elements he, List.mem_insertIdx (lowerBound_le h.sorted e)]

theorem WellFormed.insert (h : s.WellFormed) (e : SyncID) (p : PubsubTopic) (c : ContentTopic) :
    (s.insert e p c).WellFormed := by
  by_cases he : e ∈ s.elements
  · rw [h.insert_of_mem he]
    exact h
  · have hle := lowerBound_le h.sorted e
    refine ⟨?_, ?_, ?_⟩
    · rw [h.insert_elements he]
      exact insertIdx_lowerBound_sorted h.sorted he
    all_goals
      rw [SeqStorage.insert, insertAt,
        if_neg (fun hc => he ((getElem?_lowerBound h.sorted e).mp hc))]
      dsimp only
      rw [List.length_insertIdx_of_le_length hle, List.length_insertIdx_of_le_length]
    · rw [h.pubsub_aligned]
    · rw [h.pubsub_aligned]
      exact hle
    · rw [h.content_aligned]
    · rw [h.content_aligned]
      exact hle

theorem WellFormed.remove_of_notMem (h : s.WellFormed) {e : SyncID} (he : e ∉ s.elements) :
    s.remove e = s := by
  rw [SeqStorage.remove, if_neg (fun hc => he ((getElem?_lowerBound h.sorted e).mp hc))]

theorem WellFormed.remove_eq (h : s.WellFormed) {e : SyncID} (he : e ∈ s.elements) :
    s.remove e =
      { s with
        elements := s.elements.erase e
        pubsubTopicIndexes := s.pubsubTopicIndexes.eraseIdx (lowerBound s.elements e)
        contentTopicIndexes := s.contentTopicIndexes.eraseIdx (lowerBound s.elements e) } := by
  rw [SeqStorage.remove, if_pos ((getElem?_lowerBound h.sorted e).mpr he),
    eraseIdx_lowerBound h.sorted he]

theorem WellFormed.nodup (h : s.WellFormed) : s.elements.Nodup :=
  h.sorted.imp (fun hxy => ne_of_lt hxy)

theorem WellFormed.mem_remove (h : s.WellFormed) (e : SyncID) {x : SyncID} :
    x ∈ (s.remove e).elements ↔ x ∈ s.elements ∧ x ≠ e := by
  by_cases he : e ∈ s.elements
  · rw [h.remove_eq he]
    exact (h.nodup.mem_erase_iff).trans and_comm
  · rw [h.remove_of_notMem he]
    exact ⟨fun hx => ⟨hx, fun hxe => he (hxe ▸ hx)⟩, And.left⟩

theorem WellFormed.remove (h : s.WellFormed) (e : SyncID) : (s.remove e).WellFormed := by
  by_cases he : e ∈ s.elements
  · have hlt : lowerBound s.elements e < s.elements.length :=
      (List.getElem?_eq_some_iff.mp ((getElem?_lowerBound h.sorted e).mpr he)).1
    rw [h.remove_eq he]
    refine ⟨h.sorted.sublist List.erase_sublist, ?_, ?_⟩
    · rw [List.length_eraseIdx_of_lt (h.pubsub_aligned ▸ hlt), List.length_erase_of_mem he,
        h.pubsub_aligned]
    · rw [List.length_eraseIdx_of_lt (h.content_aligned ▸ hlt), List.length_erase_of_mem he,
        h.content_aligned]
  · rw [h.remove_of_notMem he]
    exact h

theorem WellFormed.prune_elements (h : s.WellFormed) (t : ℤ) :
    (s.prune t).1.elements = s.elements.filter (fun x => decide (t ≤ x.time)) := by
  have hdrop : s.elements.drop (lowerBound s.elements (SyncID.atTime t)) =
      s.elements.filter (fun x => decide (t ≤ x.time)) := by
    rw [drop_lowerBound h.sorted]
    refine List.filter_congr ?_
    intro x _
    rw [← decide_not]
    exact decide_eq_decide.mpr (by rw [SyncID.lt_atTime_iff, not_lt])
  unfold SeqStorage.prune
  split_ifs with hnil
  · rw [List.length_eq_zero_iff.mp hnil]
    rfl
  · exact hdrop

theorem WellFormed.mem_prune (h : s.WellFormed) (t : ℤ) {x : SyncID} :
    x ∈ (s.prune t).1.elements ↔ x ∈ s.elements ∧ t ≤ x.time := by
  rw [h.prune_elements, List.mem_filter, decide_eq_true_eq]

theorem WellFormed.prune (h : s.WellFormed) (t : ℤ) : (s.prune t).1.WellFormed := by
  have hsorted : (s.prune t).1.elements.Pairwise (· < ·) := by
    rw [h.prune_elements]
    exact h.sorted.filter _
  refine ⟨hsorted, ?_, ?_⟩
  all_goals
    unfold SeqStorage.prune
    split_ifs with hnil
  · exact h.pubsub_aligned
  · simp only [List.length_drop, h.pubsub_aligned]
  · exact h.content_aligned
  · simp only [List.length_drop, h.content_aligned]

/-! ### The elements a node compares with its peer -/

/-- The elements within the bounds whose topics pass the topic sets, in order. -/
def visible (s : SeqStorage) (pubsubTopicSet contentTopicSet : PackedSet ℤ) (r : Slice SyncID) :
    List SyncID :=
  ((s.rows.filter (passes pubsubTopicSet contentTopicSet)).map (·.1)).filter (inBounds r)

theorem visible_eq (s : SeqStorage) (ps cs : PackedSet ℤ) (r : Slice SyncID) :
    s.visible ps cs r =
      ((s.rows.filter (fun x => inBounds r x.1)).filter (passes ps cs)).map (·.1) := by
  unfold visible
  rw [List.filter_map, List.filter_filter, List.filter_filter]
  congr 1
  refine List.filter_congr ?_
  intro x _
  exact Bool.and_comm _ _

theorem WellFormed.getFilteredElements_eq (h : s.WellFormed) {r : Slice SyncID} {sl : ℕ × ℕ}
    (hf : s.findIdxBounds r = some sl) (ps cs : PackedSet ℤ) :
    s.getFilteredElements sl ps cs = s.visible ps cs r := by
  rw [getFilteredElements, h.rowsIn_of_some hf, visible_eq]

theorem WellFormed.visible_of_none (h : s.WellFormed) {r : Slice SyncID}
    (hf : s.findIdxBounds r = none) (ps cs : PackedSet ℤ) : s.visible ps cs r = [] := by
  rw [visible_eq, h.filter_of_none hf]
  rfl

theorem foldl_xor_eq (ps cs : PackedSet ℤ) (l : List (SyncID × ℕ × ℕ)) (f : Fingerprint) :
    l.foldl (fun fp row => if passes ps cs row then fp.xor row.1.hash else fp) f =
      (((l.filter (passes ps cs)).map (·.1)).map SyncID.hash).foldl Fingerprint.xor f := by
  induction l generalizing f with
  | nil => rfl
  | cons row l ih =>
      rw [List.foldl_cons, ih]
      by_cases hp : passes ps cs row = true
      · rw [if_pos hp, List.filter_cons_of_pos hp]
        rfl
      · rw [if_neg hp, List.filter_cons_of_neg hp]

/-- The fingerprint of a range is the `xor` of the hashes compared there. -/
theorem WellFormed.computeFingerprintFromSlice_eq (h : s.WellFormed) (ps cs : PackedSet ℤ)
    (r : Slice SyncID) :
    s.computeFingerprintFromSlice (s.findIdxBounds r) ps cs =
      xorAll ((s.visible ps cs r).map SyncID.hash) := by
  cases hf : s.findIdxBounds r with
  | none =>
      rw [h.visible_of_none hf]
      rfl
  | some sl =>
      simp only [computeFingerprintFromSlice]
      rw [foldl_xor_eq, h.rowsIn_of_some hf, ← visible_eq]
      rfl

theorem WellFormed.visible_sorted (h : s.WellFormed) (ps cs : PackedSet ℤ) (r : Slice SyncID) :
    (s.visible ps cs r).Pairwise (· < ·) := by
  unfold visible
  refine List.Pairwise.filter _ (List.pairwise_map.mpr ?_)
  exact h.rows_sorted.filter _

/-! ### The local rows of a range -/

theorem WellFormed.ownRows_eq (h : s.WellFormed) (r : Slice SyncID) :
    s.ownRows r = s.rows.filter (fun x => inBounds r x.1) := by
  unfold ownRows
  cases hf : s.findIdxBounds r with
  | none => exact (h.filter_of_none hf).symm
  | some slice => exact h.rowsIn_of_some hf

theorem WellFormed.ownRows_sorted (h : s.WellFormed) (r : Slice SyncID) :
    (s.ownRows r).Pairwise (fun x y => x.1 < y.1) := by
  rw [h.ownRows_eq]
  exact h.rows_sorted.filter _

/-- The local elements that an item set of a range is merged with are those compared there. -/
theorem WellFormed.passing_ownRows {ps cs : PackedSet ℤ} (h : s.WellFormed) (r : Slice SyncID) :
    passing ps cs (s.ownRows r) = s.visible ps cs r := by
  rw [visible_eq, ← h.ownRows_eq]
  rfl

end SeqStorage

end LogosDelivery.StoreSync
