import LogosDelivery.StoreSync.SortedSet

/-! # Inserting in batches

`batchInsert` of `seq_storage.nim`.  It looks for the place of each element in the part of the
sequence that starts at the place of the one before, and then takes the index within that part for
an index of the whole sequence.  So it agrees with inserting one by one only as long as every place
but the last is the front (`batchInsert_agrees_iff`). -/

namespace LogosDelivery.StoreSync

/-- `isSorted(elements, cmp)`. -/
def isSorted : List SyncID → Bool
  | x :: y :: rest => decide (cmp x y ≤ 0) && isSorted (y :: rest)
  | _ => true

namespace SeqStorage

/-- The loop of `batchInsert`, the index `i` of the source being that of the head of each list;
`none` is the `IndexDefect` of a topic list that is too short. -/
def batchLoop : ℕ → List SyncID → List PubsubTopic → List ContentTopic → SeqStorage →
    Option SeqStorage
  | _, [], _, _, self => some self
  | idx, element :: elements, pubsubTopic :: pubsubTopics, contentTopic :: contentTopics, self =>
      let idx := lowerBound (self.elements.drop idx) element
      batchLoop idx elements pubsubTopics contentTopics
        (self.insertAt idx element pubsubTopic contentTopic)
  | _, _, _, _, _ => none

/-- Inserts a sorted sequence of new elements. -/
def batchInsert (self : SeqStorage) (elements : List SyncID) (pubsubTopics : List PubsubTopic)
    (contentTopics : List ContentTopic) : Option (Except String Unit × SeqStorage) :=
  match elements, pubsubTopics, contentTopics with
  | [element], pubsubTopic :: _, contentTopic :: _ =>
      some (.ok (), self.insert element pubsubTopic contentTopic)
  | [_], _, _ => none
  | elements, pubsubTopics, contentTopics =>
      if isSorted elements then
        (batchLoop 0 elements pubsubTopics contentTopics self).map (Prod.mk (.ok ()))
      else some (.error "seq not sorted", self)

/-- `insert` of each element in turn. -/
def insertEach : List SyncID → List PubsubTopic → List ContentTopic → SeqStorage → SeqStorage
  | element :: elements, pubsubTopic :: pubsubTopics, contentTopic :: contentTopics, self =>
      insertEach elements pubsubTopics contentTopics (self.insert element pubsubTopic contentTopic)
  | _, _, _, self => self

/-- The same elements in strictly sorted order, with the same topics. -/
structure Agrees (s t : SeqStorage) : Prop where
  elements : s.elements = t.elements
  sorted : s.elements.Pairwise (· < ·)
  topics : ∀ i, s.topicsAt i = t.topicsAt i

/-- Nothing is stored below the first element, and all but the last are the same id. -/
def InsertsAtFront (s : SeqStorage) (elements : List SyncID) : Prop :=
  elements.length ≤ 1 ∨
    ∃ first, elements.head? = some first ∧ (∀ x ∈ s.elements, first ≤ x) ∧
      ∀ e ∈ elements.dropLast, e = first

variable {s : SeqStorage}

theorem elements_sublist_insertAt (s : SeqStorage) (idx : ℕ) (e : SyncID) (p : PubsubTopic)
    (c : ContentTopic) : s.elements.Sublist (s.insertAt idx e p c).elements := by
  unfold insertAt
  split_ifs
  · exact List.Sublist.refl _
  · exact List.sublist_insertIdx _ _ _

theorem elements_sublist_batchLoop : ∀ {elements : List SyncID} {idx : ℕ}
    {pubsubTopics : List PubsubTopic} {contentTopics : List ContentTopic} {s s' : SeqStorage},
    batchLoop idx elements pubsubTopics contentTopics s = some s' →
      s.elements.Sublist s'.elements
  | [], _, _, _, _, _, h => by
      rw [batchLoop] at h
      rw [Option.some.inj h]
  | _ :: _, _, [], _, _, _, h => by cases h
  | _ :: _, _, _ :: _, [], _, _, h => by cases h
  | _ :: _, _, _ :: _, _ :: _, _, _, h =>
      (elements_sublist_insertAt _ _ _ _ _).trans (elements_sublist_batchLoop h)

/-- With topic lists of the same length the loop reads no topic that is not there. -/
theorem exists_batchLoop : ∀ (elements : List SyncID) (idx : ℕ) (pubsubTopics : List PubsubTopic)
    (contentTopics : List ContentTopic) (s : SeqStorage),
    pubsubTopics.length = elements.length → contentTopics.length = elements.length →
    ∃ s', batchLoop idx elements pubsubTopics contentTopics s = some s'
  | [], _, _, _, s, _, _ => ⟨s, by rw [batchLoop]⟩
  | _ :: _, _, [], _, _, hp, _ => by cases hp
  | _ :: _, _, _ :: _, [], _, _, hc => by cases hc
  | _ :: elements, _, _ :: pubsubTopics, _ :: contentTopics, _, hp, hc =>
      exists_batchLoop elements _ pubsubTopics contentTopics _ (Nat.succ.inj hp) (Nat.succ.inj hc)

/-! ### The place of an element -/

/-- The place in a later part of the sequence is counted from the start of that part. -/
theorem lowerBound_drop (h : s.WellFormed) {j : ℕ} {e : SyncID}
    (hj : j ≤ lowerBound s.elements e) :
    lowerBound (s.elements.drop j) e + j = lowerBound s.elements e := by
  have hsplit := splitBy_lowerBound h.sorted e
  have hdrop := splitBy_lowerBound (h.sorted.sublist (List.drop_sublist j _)) e
  unfold lowerBound at hj ⊢
  rw [Lib.bisect_eq_cut hsplit] at hj ⊢
  rw [Lib.bisect_eq_cut hdrop]
  exact Lib.cut_drop hj

theorem lowerBound_eq_zero_iff (h : s.WellFormed) (e : SyncID) :
    lowerBound s.elements e = 0 ↔ ∀ x ∈ s.elements, e ≤ x := by
  constructor
  · intro hzero x hx
    obtain ⟨i, hi⟩ := List.mem_iff_getElem?.mp hx
    by_contra hlt
    have hbelow := (h.lt_lowerBound_iff e hi).mpr (not_le.mp hlt)
    omega
  · intro hall
    by_contra hpos
    have hlt : 0 < s.elements.length := by
      have := lowerBound_le h.sorted e
      omega
    have hget := List.getElem?_eq_getElem hlt
    have hbelow := (h.lt_lowerBound_iff e hget).mp (by omega)
    exact absurd (hall _ (List.getElem_mem hlt)) (not_le.mpr hbelow)

/-- An element that is put before a smaller one leaves the sequence unsorted for good. -/
theorem not_sorted_of_misplaced (h : s.WellFormed) {j : ℕ} (hpos : 0 < j) {e : SyncID}
    (hj : j ≤ lowerBound s.elements e) {elements : List SyncID} {pubsubTopics : List PubsubTopic}
    {contentTopics : List ContentTopic} {s' : SeqStorage}
    (hloop : batchLoop j (e :: elements) pubsubTopics contentTopics s = some s') :
    ¬ s'.elements.Pairwise (· < ·) := by
  match pubsubTopics, contentTopics, hloop with
  | p :: pubsubTopics, c :: contentTopics, hloop =>
      rw [batchLoop] at hloop
      have hsub := elements_sublist_batchLoop hloop
      have hplace := lowerBound_drop h hj
      set i := lowerBound (s.elements.drop j) e
      have hlen := lowerBound_le h.sorted e
      have hi : i < s.elements.length := by omega
      have hget := List.getElem?_eq_getElem hi
      have hlt := (h.lt_lowerBound_iff e hget).mp (by omega)
      have hinsert : (s.insertAt i e p c).elements = s.elements.insertIdx i e := by
        rw [insertAt, if_neg]
        rw [hget, Option.some_inj]
        exact ne_of_lt hlt
      rw [hinsert, insertIdx_eq_take_append _ _ _ hi.le, List.drop_eq_getElem_cons hi] at hsub
      intro hsorted
      have hpairs := (List.pairwise_append.mp (hsorted.sublist hsub)).2.1
      have hwrong := (List.pairwise_cons.mp hpairs).1 _ (List.mem_cons_self ..)
      exact absurd hwrong (not_lt.mpr hlt.le)

/-- The place of the inserted element is not above the place of the next one. -/
theorem place_le_next (h : s.WellFormed) {e e' : SyncID} (hle : e ≤ e') (p : PubsubTopic)
    (c : ContentTopic) :
    lowerBound s.elements e ≤ lowerBound (s.insert e p c).elements e' := by
  have hinsert := h.insert e p c
  rcases Nat.eq_zero_or_pos (lowerBound s.elements e) with hzero | hpos
  · omega
  have hlen := lowerBound_le h.sorted e
  have hlast : lowerBound s.elements e - 1 < s.elements.length := by omega
  have hget := List.getElem?_eq_getElem hlast
  have hlt := (h.lt_lowerBound_iff e hget).mp (by omega)
  have hget' : (s.insert e p c).elements[lowerBound s.elements e - 1]? =
      some (s.elements[lowerBound s.elements e - 1]) := by
    by_cases he : e ∈ s.elements
    · rw [h.insert_of_mem he, hget]
    · rw [h.insert_elements he, List.getElem?_insertIdx_of_lt (by omega), hget]
  have hbelow := (hinsert.lt_lowerBound_iff e' hget').mpr (hlt.trans_le hle)
  omega

theorem insertsAtFront_cons (h : s.WellFormed) {e e' : SyncID} (hle : e ≤ e')
    (elements : List SyncID) (p : PubsubTopic) (c : ContentTopic) :
    s.InsertsAtFront (e :: e' :: elements) ↔
      lowerBound s.elements e = 0 ∧ (s.insert e p c).InsertsAtFront (e' :: elements) := by
  rw [lowerBound_eq_zero_iff h]
  constructor
  · rintro (hshort | ⟨first, hfirst, hbelow, hsame⟩)
    · simp at hshort
    obtain rfl : e = first := Option.some.inj hfirst
    refine ⟨hbelow, ?_⟩
    cases elements with
    | nil => exact Or.inl le_rfl
    | cons x elements =>
        have he' : e' = e := hsame e' (by simp)
        refine Or.inr ⟨e', rfl, ?_, ?_⟩
        · intro y hy
          rw [he']
          rcases (h.mem_insert e p c).mp hy with rfl | hy
          · exact le_rfl
          · exact hbelow y hy
        · intro y hy
          rw [he']
          exact hsame y (List.mem_cons_of_mem _ hy)
  · rintro ⟨hbelow, hfront⟩
    refine Or.inr ⟨e, rfl, hbelow, ?_⟩
    rcases hfront with hshort | ⟨first, hfirst, hbelow', hsame⟩
    · obtain rfl : elements = [] := List.length_eq_zero_iff.mp (by simpa using hshort)
      intro y hy
      exact List.mem_singleton.mp hy
    · obtain rfl : e' = first := Option.some.inj hfirst
      have he' : e' = e :=
        le_antisymm (hbelow' e ((h.mem_insert e p c).mpr (Or.inl rfl))) hle
      intro y hy
      rcases List.mem_cons.mp hy with rfl | hy
      · rfl
      · exact (hsame y hy).trans he'

/-- One round after another, as long as the places are the front. -/
theorem batchLoop_iff : ∀ {elements : List SyncID} {pubsubTopics : List PubsubTopic}
    {contentTopics : List ContentTopic} {s s' : SeqStorage}, s.WellFormed →
    elements.Pairwise (· ≤ ·) → batchLoop 0 elements pubsubTopics contentTopics s = some s' →
    (s'.elements.Pairwise (· < ·) ↔ s.InsertsAtFront elements) ∧
      (s.InsertsAtFront elements → s' = insertEach elements pubsubTopics contentTopics s)
  | [], _, _, s, s', h, _, hloop => by
      rw [batchLoop] at hloop
      obtain rfl := Option.some.inj hloop
      exact ⟨iff_of_true h.sorted (Or.inl (Nat.zero_le _)), fun _ => by rw [insertEach]; simp⟩
  | _ :: _, [], _, _, _, _, _, hloop => by cases hloop
  | _ :: _, _ :: _, [], _, _, _, _, hloop => by cases hloop
  | [e], p :: pubsubTopics, c :: contentTopics, s, s', h, _, hloop => by
      rw [batchLoop, List.drop_zero] at hloop
      simp only [batchLoop] at hloop
      obtain rfl := Option.some.inj hloop
      refine ⟨iff_of_true (h.insert e p c).sorted (Or.inl le_rfl), fun _ => ?_⟩
      simp [insertEach, SeqStorage.insert]
  | e :: e' :: elements, p :: pubsubTopics, c :: contentTopics, s, s', h, hsorted, hloop => by
      have hle : e ≤ e' := (List.pairwise_cons.mp hsorted).1 e' (List.mem_cons_self ..)
      rw [batchLoop, List.drop_zero] at hloop
      change batchLoop (lowerBound s.elements e) (e' :: elements) pubsubTopics contentTopics
        (s.insert e p c) = some s' at hloop
      rw [insertsAtFront_cons h hle elements p c]
      rcases Nat.eq_zero_or_pos (lowerBound s.elements e) with hzero | hpos
      · rw [hzero] at hloop
        obtain ⟨hiff, heach⟩ :=
          batchLoop_iff (h.insert e p c) (List.pairwise_cons.mp hsorted).2 hloop
        refine ⟨hiff.trans (and_iff_right hzero).symm, fun hfront => ?_⟩
        rw [heach hfront.2, insertEach]
      · have hbad := not_sorted_of_misplaced (h.insert e p c) hpos (place_le_next h hle p c) hloop
        have hne : lowerBound s.elements e ≠ 0 := by omega
        exact ⟨iff_of_false hbad fun hfront => hne hfront.1, fun hfront => absurd hfront.1 hne⟩

theorem wellFormed_insertEach : ∀ (elements : List SyncID) (pubsubTopics : List PubsubTopic)
    (contentTopics : List ContentTopic) {s : SeqStorage}, s.WellFormed →
    (insertEach elements pubsubTopics contentTopics s).WellFormed
  | [], _, _, _, h => by simpa [insertEach] using h
  | _ :: _, [], _, _, h => by simpa [insertEach] using h
  | _ :: _, _ :: _, [], _, h => by simpa [insertEach] using h
  | e :: elements, p :: pubsubTopics, c :: contentTopics, s, h => by
      rw [insertEach]
      exact wellFormed_insertEach elements pubsubTopics contentTopics (h.insert e p c)

theorem isSorted_of_pairwise : ∀ {elements : List SyncID}, elements.Pairwise (· ≤ ·) →
    isSorted elements = true
  | [], _ => rfl
  | [_], _ => rfl
  | x :: y :: rest, h => by
      obtain ⟨hx, hrest⟩ := List.pairwise_cons.mp h
      rw [isSorted, isSorted_of_pairwise hrest, Bool.and_true, decide_eq_true_eq, cmp_nonpos_iff]
      exact hx y (List.mem_cons_self ..)

theorem batchInsert_of_sorted {elements : List SyncID} {pubsubTopics : List PubsubTopic}
    {contentTopics : List ContentTopic} (hp : pubsubTopics.length = elements.length)
    (hc : contentTopics.length = elements.length) (hsorted : elements.Pairwise (· ≤ ·)) :
    s.batchInsert elements pubsubTopics contentTopics =
      (batchLoop 0 elements pubsubTopics contentTopics s).map (Prod.mk (.ok ())) := by
  have hcheck := isSorted_of_pairwise hsorted
  match elements, pubsubTopics, contentTopics, hp, hc with
  | [], [], [], _, _ => rfl
  | [e], [p], [c], _, _ =>
      simp only [batchInsert, batchLoop, List.drop_zero, Option.map_some, SeqStorage.insert]
  | e :: e' :: elements, p :: pubsubTopics, c :: contentTopics, _, _ =>
      rw [batchInsert, if_pos hcheck]
      · simp
      · simp

/-- **When a batch agrees** with inserting its elements one by one. -/
theorem batchInsert_agrees_iff (h : s.WellFormed) {elements : List SyncID}
    {pubsubTopics : List PubsubTopic} {contentTopics : List ContentTopic}
    (hp : pubsubTopics.length = elements.length) (hc : contentTopics.length = elements.length)
    (hsorted : elements.Pairwise (· ≤ ·)) :
    (∃ s', s.batchInsert elements pubsubTopics contentTopics = some (.ok (), s') ∧
        s'.Agrees (insertEach elements pubsubTopics contentTopics s)) ↔
      s.InsertsAtFront elements := by
  obtain ⟨s', hloop⟩ := exists_batchLoop elements 0 pubsubTopics contentTopics s hp hc
  obtain ⟨hiff, heach⟩ := batchLoop_iff h hsorted hloop
  have hbatch : s.batchInsert elements pubsubTopics contentTopics = some (.ok (), s') := by
    rw [batchInsert_of_sorted hp hc hsorted, hloop, Option.map_some]
  constructor
  · rintro ⟨t, ht, hagrees⟩
    obtain rfl : s' = t := congrArg Prod.snd (Option.some.inj (hbatch.symm.trans ht))
    exact hiff.mp hagrees.sorted
  · intro hfront
    refine ⟨s', hbatch, ?_⟩
    rw [heach hfront]
    exact ⟨rfl, (wellFormed_insertEach elements pubsubTopics contentTopics h).sorted, fun _ => rfl⟩

/-- Two elements before the only one that is stored. -/
theorem batchInsert_agrees_before :
    ∃ s', (storageAfter 8 100 [.insert (SyncID.atTime 5) "A" "c"]).batchInsert
        [SyncID.atTime 2, SyncID.atTime 3] ["A", "B"] ["c", "d"] = some (.ok (), s') ∧
      s'.Agrees (insertEach [SyncID.atTime 2, SyncID.atTime 3] ["A", "B"] ["c", "d"]
        (storageAfter 8 100 [.insert (SyncID.atTime 5) "A" "c"])) := by
  refine (batchInsert_agrees_iff (sound_storageAfter 8 100 _).wellFormed rfl rfl ?_).mpr ?_
  · decide
  · exact Or.inr ⟨SyncID.atTime 2, rfl, by decide, by decide⟩

/-- A batch of three into an empty storage: the third goes before the second. -/
theorem batchInsert_misplaces : ¬ ∀ (s : SeqStorage) (elements : List SyncID)
    (pubsubTopics : List PubsubTopic) (contentTopics : List ContentTopic), s.WellFormed →
    s.SlotsInRange → pubsubTopics.length = elements.length →
    contentTopics.length = elements.length → elements.Pairwise (· ≤ ·) →
    ∃ s', s.batchInsert elements pubsubTopics contentTopics = some (.ok (), s') ∧
      s'.Agrees (insertEach elements pubsubTopics contentTopics s) := by
  intro hall
  obtain ⟨s', hs', hagrees⟩ := hall {} [SyncID.atTime 1, SyncID.atTime 2, SyncID.atTime 3]
    ["A", "A", "A"] ["c", "c", "c"] (wellFormed_empty 8 100) (slotsInRange_empty 8 100) rfl rfl
    (by decide)
  have helements : (((SeqStorage.batchInsert {} [SyncID.atTime 1, SyncID.atTime 2, SyncID.atTime 3]
      ["A", "A", "A"] ["c", "c", "c"]).map Prod.snd).map SeqStorage.elements) =
      some [SyncID.atTime 1, SyncID.atTime 3, SyncID.atTime 2] := by decide
  rw [hs', Option.map_some, Option.map_some, Option.some_inj] at helements
  have hsorted := hagrees.sorted
  rw [helements] at hsorted
  revert hsorted
  decide

end SeqStorage

end LogosDelivery.StoreSync
