import LogosDelivery.StoreSync.StorageOrder

/-! # The difference of a listed item set and the storage

`processItemSetRange` of `storage/seq_storage.nim` once more, now with the two loops as they are
written: they walk by index through the listed elements and through the three parallel sequences of
the storage, and every index is checked.  `none` stands for an `IndexDefect`.

On aligned sequences no check fails, and the loops find what `SeqStorage.processItemSetRange` finds
(`processItemSetRange_eq_some`).  With a sorted list this is the exact difference: the hashes of
the local elements that are not listed, and the listed elements that are not here
(`processItemSetRange_exact`). -/

namespace LogosDelivery.StoreSync

open Lib

namespace Checked

/-! ### The loops with their indexes -/

section Loops

variable (self : SeqStorage) (pubsubTopicSet contentTopicSet : PackedSet ℤ)

/-- `topicSet.len > 0 and index notin topicSet`. -/
def outOfScope (topicSet : PackedSet ℤ) (index : ℕ) : Bool :=
  decide (0 < topicSet.len) && decide ((index : ℤ) ∉ topicSet)

/-- `topicSet.len > 0 and indexes[i] notin topicSet`: nothing is read for an empty set. -/
def outOfScopeAt (topicSet : PackedSet ℤ) (indexes : List ℕ) (i : ℕ) : Option Bool :=
  if 0 < topicSet.len then do
    let index ← indexes[i]?
    return decide ((index : ℤ) ∉ topicSet)
  else some false

/-- The `n` rounds of `getFilteredElements` from index `i` on. -/
def filteredElements : ℕ → ℕ → Option (List SyncID)
  | 0, _ => some []
  | n + 1, i => do
      let pubsubOut ← outOfScopeAt pubsubTopicSet self.pubsubTopicIndexes i
      if pubsubOut then filteredElements n (i + 1)
      else do
        let contentOut ← outOfScopeAt contentTopicSet self.contentTopicIndexes i
        if contentOut then filteredElements n (i + 1)
        else do
          let element ← self.elements[i]?
          let rest ← filteredElements n (i + 1)
          return element :: rest

def getFilteredElements (slice : ℕ × ℕ) : Option (List SyncID) :=
  filteredElements self pubsubTopicSet contentTopicSet (slice.2 - slice.1) slice.1

/-- The loop over `j < m`; the result is the index `i` that it leaves off at. -/
def mergeLoop (elements : List SyncID) (m : ℕ) : ℕ → ℕ → ℕ → Exchange → Option (ℕ × Exchange)
  | 0, _, _, _ => none
  | fuel + 1, i, j, ex =>
      if j < m then do
        let ourElement ← self.elements[j]?
        let pubsub ← self.pubsubTopicIndexes[j]?
        let content ← self.contentTopicIndexes[j]?
        if outOfScope pubsubTopicSet pubsub then mergeLoop elements m fuel i (j + 1) ex
        else if outOfScope contentTopicSet content then mergeLoop elements m fuel i (j + 1) ex
        else if elements.length ≤ i then
          mergeLoop elements m fuel i (j + 1)
            { ex with hashToSend := ex.hashToSend ++ [ourElement.hash] }
        else do
          let theirElement ← elements[i]?
          if cmp theirElement ourElement = -1 then
            mergeLoop elements m fuel (i + 1) j
              { ex with idsToRecv := ex.idsToRecv ++ [theirElement] }
          else if cmp theirElement ourElement = 1 then
            mergeLoop elements m fuel i (j + 1)
              { ex with hashToSend := ex.hashToSend ++ [ourElement.hash] }
          else mergeLoop elements m fuel (i + 1) (j + 1) ex
      else some (i, ex)

/-- The loop over `i < n`. -/
def restLoop (elements : List SyncID) : ℕ → ℕ → List SyncID → Option (List SyncID)
  | 0, _, _ => none
  | fuel + 1, i, idsToRecv =>
      if i < elements.length then do
        let theirElement ← elements[i]?
        restLoop elements fuel (i + 1) (idsToRecv ++ [theirElement])
      else some idsToRecv

/-- Compares item sets and outputs the differences. -/
def processItemSetRange (inputBounds : Slice SyncID) (inputItemSet : ItemSet) (ex : Exchange) :
    Option Exchange :=
  match self.findIdxBounds inputBounds with
  | none =>
      let ex := { ex with idsToRecv := ex.idsToRecv ++ inputItemSet.elements }
      if inputItemSet.reconciled = false then
        some { ex with
          output := ex.output.addItemSet inputBounds { elements := [], reconciled := true } }
      else some { ex with output := ex.output.addSkip inputBounds }
  | some slice => do
      let n := inputItemSet.elements.length
      let m := slice.2
      -- Each round advances one of the two indexes.
      let merged ← mergeLoop self pubsubTopicSet contentTopicSet inputItemSet.elements m
        (n + (m - slice.1) + 1) 0 slice.1 ex
      let idsToRecv ← restLoop inputItemSet.elements (n + 1) merged.1 merged.2.idsToRecv
      let ex := { merged.2 with idsToRecv := idsToRecv }
      if inputItemSet.reconciled = false then do
        let elements ← getFilteredElements self pubsubTopicSet contentTopicSet slice
        return { ex with
          output := ex.output.addItemSet inputBounds
            { elements := elements, reconciled := true } }
      else return { ex with output := ex.output.addSkip inputBounds }

end Loops

/-! ### What the indexes read -/

section Reads

variable {self : SeqStorage} {m j : ℕ}

theorem passes_eq (ps cs : PackedSet ℤ) (our : SyncID × ℕ × ℕ) :
    SeqStorage.passes ps cs our = (!outOfScope ps our.2.1 && !outOfScope cs our.2.2) := rfl

theorem outOfScopeAt_eq {topicSet : PackedSet ℤ} {indexes : List ℕ} {i index : ℕ}
    (h : indexes[i]? = some index) :
    outOfScopeAt topicSet indexes i = some (outOfScope topicSet index) := by
  unfold outOfScopeAt outOfScope
  split_ifs with hlen
  · simp [h, hlen]
  · simp [hlen]

/-- The row at index `j` is read from the three sequences, and the rows behind it are left. -/
theorem drop_rows (h : self.WellFormed) (hm : m ≤ self.elements.length) (hj : j < m) :
    ∃ our pubsub content, self.elements[j]? = some our ∧
      self.pubsubTopicIndexes[j]? = some pubsub ∧ self.contentTopicIndexes[j]? = some content ∧
      (self.rows.take m).drop j = (our, pubsub, content) :: (self.rows.take m).drop (j + 1) := by
  have he : j < self.elements.length := by omega
  have hp : j < self.pubsubTopicIndexes.length := h.pubsub_aligned ▸ he
  have hc : j < self.contentTopicIndexes.length := h.content_aligned ▸ he
  have hlen : j < (self.rows.take m).length := by
    rw [List.length_take, h.rows_length]
    omega
  refine ⟨self.elements[j], self.pubsubTopicIndexes[j], self.contentTopicIndexes[j],
    List.getElem?_eq_getElem he, List.getElem?_eq_getElem hp, List.getElem?_eq_getElem hc, ?_⟩
  rw [List.drop_eq_getElem_cons hlen, List.getElem_take]
  simp only [SeqStorage.rows, List.getElem_zip]

theorem drop_rows_of_le (hj : m ≤ j) : (self.rows.take m).drop j = [] :=
  List.drop_eq_nil_of_le ((List.length_take_le m _).trans hj)

end Reads

/-! ### The loops against the lists -/

section Loops

variable {self : SeqStorage} {m : ℕ}

theorem filteredElements_eq (h : self.WellFormed) (hm : m ≤ self.elements.length)
    (ps cs : PackedSet ℤ) : ∀ (n i : ℕ), n = m - i →
      filteredElements self ps cs n i =
        some (SeqStorage.passing ps cs ((self.rows.take m).drop i))
  | 0, i, hn => by
      rw [drop_rows_of_le (by omega)]
      rfl
  | n + 1, i, hn => by
      obtain ⟨our, pubsub, content, he, hp, hc, hdrop⟩ := drop_rows h hm (j := i) (by omega)
      have ih := filteredElements_eq h hm ps cs n (i + 1) (by omega)
      simp only [filteredElements, outOfScopeAt_eq hp, outOfScopeAt_eq hc, he, ih, hdrop,
        Option.bind_eq_bind, Option.bind_some]
      have hpass := passes_eq ps cs (our, pubsub, content)
      split_ifs with hps hcs
      · rw [SeqStorage.passing_cons_of_not (by simp [hpass, hps])]
      · rw [SeqStorage.passing_cons_of_not (by simp [hpass, hcs])]
      · rw [SeqStorage.passing_cons (by simp [hpass, hps, hcs])]
        rfl

theorem restLoop_eq (elements : List SyncID) : ∀ (fuel i : ℕ) (idsToRecv : List SyncID),
    elements.length - i < fuel →
    restLoop elements fuel i idsToRecv = some (idsToRecv ++ elements.drop i)
  | 0, i, idsToRecv, hfuel => by omega
  | fuel + 1, i, idsToRecv, hfuel => by
      simp only [restLoop]
      split_ifs with hi
      · rw [List.getElem?_eq_getElem hi, Option.bind_eq_bind, Option.bind_some,
          restLoop_eq elements fuel (i + 1) _ (by omega), List.append_assoc,
          List.drop_eq_getElem_cons hi]
        rfl
      · rw [List.drop_eq_nil_of_le (not_lt.mp hi), List.append_nil]

/-- With a round for every element the loop by index leaves off where the loop over the lists has
only listed elements left. -/
theorem mergeLoop_eq (h : self.WellFormed) (hm : m ≤ self.elements.length)
    (ps cs : PackedSet ℤ) (elements : List SyncID) : ∀ (fuel i j : ℕ) (ex : Exchange),
    (elements.length - i) + (m - j) < fuel →
    ∃ i' ex', mergeLoop self ps cs elements m fuel i j ex = some (i', ex') ∧
      { ex' with idsToRecv := ex'.idsToRecv ++ elements.drop i' } =
        SeqStorage.mergeLoop ps cs fuel (elements.drop i) ((self.rows.take m).drop j) ex
  | 0, i, j, ex, hfuel => by omega
  | fuel + 1, i, j, ex, hfuel => by
      by_cases hj : j < m
      · obtain ⟨our, pubsub, content, he, hp, hc, hdrop⟩ := drop_rows h hm hj
        have hpass := passes_eq ps cs (our, pubsub, content)
        rw [hdrop]
        simp only [mergeLoop, SeqStorage.mergeLoop, if_pos hj, he, hp, hc, Option.bind_eq_bind,
          Option.bind_some]
        by_cases hps : outOfScope ps pubsub = true
        · rw [if_pos hps, if_pos (by simp [hpass, hps])]
          exact mergeLoop_eq h hm ps cs elements fuel i (j + 1) ex (by omega)
        · by_cases hcs : outOfScope cs content = true
          · rw [if_neg hps, if_pos hcs, if_pos (by simp [hpass, hcs])]
            exact mergeLoop_eq h hm ps cs elements fuel i (j + 1) ex (by omega)
          · have hin : ¬ SeqStorage.passes ps cs (our, pubsub, content) = false := by
              simp [hpass, hps, hcs]
            rw [if_neg hps, if_neg hcs, if_neg hin]
            by_cases hi : elements.length ≤ i
            · rw [if_pos hi, List.drop_eq_nil_of_le hi]
              have ih := mergeLoop_eq h hm ps cs elements fuel i (j + 1)
                { ex with hashToSend := ex.hashToSend ++ [our.hash] } (by omega)
              rw [List.drop_eq_nil_of_le hi] at ih
              exact ih
            · have hi' : i < elements.length := not_le.mp hi
              rw [if_neg hi, List.getElem?_eq_getElem hi', Option.bind_some,
                List.drop_eq_getElem_cons hi']
              dsimp only
              split_ifs with hlt hgt
              · rw [← hdrop]
                exact mergeLoop_eq h hm ps cs elements fuel (i + 1) j _ (by omega)
              · rw [← List.drop_eq_getElem_cons hi']
                exact mergeLoop_eq h hm ps cs elements fuel i (j + 1) _ (by omega)
              · exact mergeLoop_eq h hm ps cs elements fuel (i + 1) (j + 1) ex (by omega)
      · refine ⟨i, ex, by rw [mergeLoop, if_neg hj], ?_⟩
        rw [drop_rows_of_le (not_lt.mp hj)]
        rfl

end Loops

/-! ### A range -/

section Range

variable {self : SeqStorage} {r : Slice SyncID} {slice : ℕ × ℕ}

/-- The index range of some bounds ends within the storage. -/
theorem slice_le (h : self.WellFormed) (hf : self.findIdxBounds r = some slice) :
    slice.2 ≤ self.elements.length := by
  simp only [SeqStorage.findIdxBounds] at hf
  split_ifs at hf
  obtain rfl := Option.some.inj hf
  exact upperBound_le h.sorted r.b

theorem getFilteredElements_eq_some (h : self.WellFormed)
    (hf : self.findIdxBounds r = some slice) (ps cs : PackedSet ℤ) :
    getFilteredElements self ps cs slice = some (self.getFilteredElements slice ps cs) :=
  filteredElements_eq h (slice_le h hf) ps cs (slice.2 - slice.1) slice.1 rfl

/-- No check fails, and the loops by index find what the merge of the lists finds. -/
theorem processItemSetRange_eq_some (h : self.WellFormed) (r : Slice SyncID)
    (ps cs : PackedSet ℤ) (input : ItemSet) (ex : Exchange) :
    processItemSetRange self ps cs r input ex =
      some (self.processItemSetRange r ps cs input ex) := by
  unfold processItemSetRange SeqStorage.processItemSetRange
  cases hf : self.findIdxBounds r with
  | none =>
      dsimp only
      split_ifs <;> rfl
  | some slice =>
      have hm := slice_le h hf
      have hlen : (self.rowsIn slice).length = slice.2 - slice.1 := by
        rw [SeqStorage.rowsIn, List.length_drop, List.length_take, h.rows_length, min_eq_left hm]
      obtain ⟨i', ex', hloop, hex⟩ := mergeLoop_eq h hm ps cs input.elements
        (input.elements.length + (slice.2 - slice.1) + 1) 0 slice.1 ex (by omega)
      have hrest := restLoop_eq input.elements (input.elements.length + 1) i' ex'.idsToRecv
        (by omega)
      rw [List.drop_zero, ← SeqStorage.rowsIn] at hex
      simp only [hloop, hrest, hlen, ← hex, getFilteredElements_eq_some h hf,
        Option.bind_eq_bind, Option.bind_some]
      split_ifs <;> rfl

/-- The item set of a range is compared exactly: the hashes to send are those of the local elements
in scope that the list lacks, and the ids to receive are the listed elements that are missing
here, both in order. -/
theorem processItemSetRange_exact {s : SeqStorage} (hs : s.WellFormed) (bounds : Slice SyncID)
    (pubsubTopicSet contentTopicSet : PackedSet ℤ) {input : ItemSet}
    (hinput : input.elements.Pairwise (· < ·)) (ex : Exchange) :
    ∃ ex', processItemSetRange s pubsubTopicSet contentTopicSet bounds input ex = some ex' ∧
      ex'.hashToSend = ex.hashToSend ++
        ((s.visible pubsubTopicSet contentTopicSet bounds).filter
          (fun x => decide (x ∉ input.elements))).map SyncID.hash ∧
      ex'.idsToRecv = ex.idsToRecv ++
        input.elements.filter
          (fun x => decide (x ∉ s.visible pubsubTopicSet contentTopicSet bounds)) := by
  have hdiff := mergeDifference_eq_filter hinput
    (hs.visible_sorted pubsubTopicSet contentTopicSet bounds)
  refine ⟨_, processItemSetRange_eq_some hs bounds pubsubTopicSet contentTopicSet input ex, ?_⟩
  rw [s.processItemSetRange_eq]
  simp only [SeqStorage.sends, SeqStorage.recvs, SeqStorage.mergeWith]
  rw [SeqStorage.mergeLoop_eq _ _ _ _ (Nat.lt_succ_self _), hs.passing_ownRows, hdiff]
  exact ⟨rfl, rfl⟩

/-- Three messages, the second on another shard. -/
def threeRows : SeqStorage where
  elements := [⟨1, constFingerprint 1⟩, ⟨2, constFingerprint 2⟩, ⟨4, constFingerprint 4⟩]
  pubsubTopicIndexes := [0, 1, 0]
  contentTopicIndexes := [0, 0, 0]
  pubsubTopics := ["/waku/2/rs/1/0", "/waku/2/rs/1/1"]
  contentTopics := [""]

theorem threeRows_wellFormed : threeRows.WellFormed := ⟨by decide, rfl, rfl⟩

/-- A list with the third message, one that is out of scope here and one that is not here. -/
def threeListed : ItemSet where
  elements := [⟨2, constFingerprint 2⟩, ⟨3, constFingerprint 3⟩, ⟨4, constFingerprint 4⟩]
  reconciled := false

theorem processItemSetRange_threeRows :
    ∃ ex', processItemSetRange threeRows (.small [0]) ∅ ⟨SyncID.atTime 0, SyncID.atTime 9⟩
        threeListed {} = some ex' ∧
      ex'.hashToSend = [constFingerprint 1] ∧
      ex'.idsToRecv = [⟨2, constFingerprint 2⟩, ⟨3, constFingerprint 3⟩] := by
  have hsorted : threeListed.elements.Pairwise (· < ·) := by decide
  obtain ⟨ex', hex, hsend, hrecv⟩ := processItemSetRange_exact threeRows_wellFormed
    ⟨SyncID.atTime 0, SyncID.atTime 9⟩ (.small [0]) ∅ hsorted {}
  exact ⟨ex', hex, hsend.trans (by decide), hrecv.trans (by decide)⟩

end Range

end Checked

end LogosDelivery.StoreSync
