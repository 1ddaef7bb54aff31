import LogosDelivery.StoreSync.Merge

/-! # A payload as a list of entries

A `RangesData` keeps its ranges, its fingerprints and its item sets in three sequences that are
read in step.  When the counts match, it is the same as one list of entries, each a range with its
own fingerprint or item set (`ofEntries`, `exists_ofEntries`).

On entries the answer of a storage is local: every entry is answered by entries of its own, and
`processPayload` answers them one by one (`processPayload_ofEntries`).  The final merge of skip
ranges changes nothing but skips, so an argument about a session only has to follow the entries
that are still open. -/

namespace LogosDelivery.StoreSync

open Lib (PackedSet)

/-- The content of a range. -/
inductive RangeBody where
  | skip
  | fingerprint (f : Fingerprint)
  | itemSet (s : ItemSet)
deriving DecidableEq

abbrev Entry := Slice SyncID × RangeBody

namespace RangeBody

def type : RangeBody → RangeType
  | skip => .skip
  | fingerprint _ => .fingerprint
  | itemSet _ => .itemSet

def fingerprint? : RangeBody → Option Fingerprint
  | fingerprint f => some f
  | _ => none

def itemSet? : RangeBody → Option ItemSet
  | itemSet s => some s
  | _ => none

@[simp] theorem type_skip : skip.type = .skip := rfl
@[simp] theorem type_fingerprint (f : Fingerprint) : (fingerprint f).type = .fingerprint := rfl
@[simp] theorem type_itemSet (s : ItemSet) : (itemSet s).type = .itemSet := rfl

@[simp] theorem fingerprint?_skip : skip.fingerprint? = none := rfl
@[simp] theorem fingerprint?_fingerprint (f : Fingerprint) :
    (fingerprint f).fingerprint? = some f := rfl
@[simp] theorem fingerprint?_itemSet (s : ItemSet) : (itemSet s).fingerprint? = none := rfl

@[simp] theorem itemSet?_skip : skip.itemSet? = none := rfl
@[simp] theorem itemSet?_fingerprint (f : Fingerprint) : (fingerprint f).itemSet? = none := rfl
@[simp] theorem itemSet?_itemSet (s : ItemSet) : (itemSet s).itemSet? = some s := rfl

end RangeBody

/-- The three sequences of a list of entries. -/
def RangesData.ofEntries (cluster : UInt16) (shards : List UInt16) (es : List Entry) : RangesData where
  cluster := cluster
  shards := shards
  ranges := es.map (fun e => (e.1, e.2.type))
  fingerprints := es.filterMap (fun e => e.2.fingerprint?)
  itemSets := es.filterMap (fun e => e.2.itemSet?)

/-- As many fingerprints and item sets as there are ranges of the two kinds. -/
structure RangesData.CountsMatch (p : RangesData) : Prop where
  fingerprints : p.fingerprints.length = p.ranges.countP (fun r => decide (r.2 = .fingerprint))
  itemSets : p.itemSets.length = p.ranges.countP (fun r => decide (r.2 = .itemSet))

theorem RangesData.exists_ofEntries_aux : ∀ (ranges : List (Slice SyncID × RangeType))
    (fps : List Fingerprint) (sets : List ItemSet),
    fps.length = ranges.countP (fun r => decide (r.2 = .fingerprint)) →
    sets.length = ranges.countP (fun r => decide (r.2 = .itemSet)) →
    ∃ es : List Entry, ranges = es.map (fun e => (e.1, e.2.type)) ∧
      fps = es.filterMap (fun e => e.2.fingerprint?) ∧
      sets = es.filterMap (fun e => e.2.itemSet?)
  | [], fps, sets, hf, hs => by
      refine ⟨[], rfl, ?_, ?_⟩
      · simpa using hf
      · simpa using hs
  | (r, .skip) :: ranges, fps, sets, hf, hs => by
      obtain ⟨es, h1, h2, h3⟩ := exists_ofEntries_aux ranges fps sets (by simpa using hf)
        (by simpa using hs)
      exact ⟨(r, .skip) :: es, by simp [h1], by simp [h2, List.filterMap_cons],
        by simp [h3, List.filterMap_cons]⟩
  | (r, .fingerprint) :: ranges, fps, sets, hf, hs => by
      cases fps with
      | nil => simp at hf
      | cons f fps =>
          obtain ⟨es, h1, h2, h3⟩ := exists_ofEntries_aux ranges fps sets (by simpa using hf)
            (by simpa using hs)
          exact ⟨(r, .fingerprint f) :: es, by simp [h1],
            by simp [h2], by simp [h3, List.filterMap_cons]⟩
  | (r, .itemSet) :: ranges, fps, sets, hf, hs => by
      cases sets with
      | nil => simp at hs
      | cons s sets =>
          obtain ⟨es, h1, h2, h3⟩ := exists_ofEntries_aux ranges fps sets (by simpa using hf)
            (by simpa using hs)
          exact ⟨(r, .itemSet s) :: es, by simp [h1],
            by simp [h2, List.filterMap_cons], by simp [h3]⟩

/-- A payload whose counts match is a list of entries. -/
theorem RangesData.CountsMatch.exists_ofEntries {p : RangesData} (h : p.CountsMatch) :
    ∃ es, p = RangesData.ofEntries p.cluster p.shards es := by
  obtain ⟨es, h1, h2, h3⟩ := exists_ofEntries_aux _ _ _ h.fingerprints h.itemSets
  refine ⟨es, ?_⟩
  cases p
  simp only [RangesData.ofEntries, RangesData.mk.injEq, true_and]
  exact ⟨h1, h2, h3⟩

/-! ### Adding entries to an output -/

/-- Appends entries to the three sequences. -/
def RangesData.push (output : RangesData) (es : List Entry) : RangesData :=
  { output with
    ranges := output.ranges ++ es.map (fun e => (e.1, e.2.type))
    fingerprints := output.fingerprints ++ es.filterMap (fun e => e.2.fingerprint?)
    itemSets := output.itemSets ++ es.filterMap (fun e => e.2.itemSet?) }

namespace RangesData

variable (output : RangesData)

theorem addSkip_eq_push (r : Slice SyncID) : output.addSkip r = output.push [(r, .skip)] := by
  simp [addSkip, push, List.filterMap_cons]

theorem addFingerprint_eq_push (r : Slice SyncID) (f : Fingerprint) :
    output.addFingerprint r f = output.push [(r, .fingerprint f)] := by
  simp [addFingerprint, push, List.filterMap_cons]

theorem addItemSet_eq_push (r : Slice SyncID) (s : ItemSet) :
    output.addItemSet r s = output.push [(r, .itemSet s)] := by
  simp [addItemSet, push, List.filterMap_cons]

@[simp] theorem push_nil : output.push [] = output := by simp [push]

theorem push_push (es es' : List Entry) : (output.push es).push es' = output.push (es ++ es') := by
  simp [push]

theorem push_empty (es : List Entry) : ({} : RangesData).push es = ofEntries 0 [] es := by
  simp [push, ofEntries]

end RangesData

/-! ### The answer to one entry -/

namespace SeqStorage

variable (self : SeqStorage) (ps cs : PackedSet ℤ)

/-- What is said about a range of our own: nothing there, few elements, or many. -/
def describe (r : Slice SyncID) : RangeBody :=
  match self.findIdxBounds r with
  | none => .itemSet { elements := [], reconciled := true }
  | some slice =>
      if ((slice.2 - slice.1 : ℕ) : ℤ) ≤ self.lengthThreshold then
        .itemSet { elements := self.getFilteredElements slice ps cs, reconciled := false }
      else .fingerprint (self.computeFingerprintFromSlice (some slice) ps cs)

/-- The answer to a fingerprint of the range `r`. -/
def answerFingerprint (r : Slice SyncID) (f : Fingerprint) : List Entry :=
  if self.computeFingerprintFromSlice (self.findIdxBounds r) ps cs = f then [(r, .skip)]
  else
    match self.describe ps cs r with
    | .fingerprint _ =>
        (equalPartitioning r self.partitionCount).map (fun part => (part, self.describe ps cs part))
    | body => [(r, body)]

/-- The local rows that an item set of the range `r` is merged with. -/
def ownRows (r : Slice SyncID) : List (SyncID × ℕ × ℕ) :=
  match self.findIdxBounds r with
  | none => []
  | some slice => self.rowsIn slice

/-- The merge of an item set of the range `r` with the local rows. -/
def mergeWith (r : Slice SyncID) (set : ItemSet) : Exchange :=
  mergeLoop ps cs (set.elements.length + (self.ownRows r).length + 1) set.elements
    (self.ownRows r) {}

/-- The answer to an item set: our own elements, unless the set was already an answer. -/
def answerItemSet (r : Slice SyncID) (set : ItemSet) : Entry :=
  if set.reconciled = false then
    (r, .itemSet { elements := ((self.ownRows r).filter (passes ps cs)).map (·.1)
                   reconciled := true })
  else (r, .skip)

def answer : Entry → List Entry
  | (r, .skip) => [(r, .skip)]
  | (r, .fingerprint f) => self.answerFingerprint ps cs r f
  | (r, .itemSet set) => [self.answerItemSet ps cs r set]

/-- The hashes that answering an entry shows the peer to lack. -/
def sends : Entry → List WakuMessageHash
  | (r, .itemSet set) => (self.mergeWith ps cs r set).hashToSend
  | _ => []

/-- The ids that answering an entry shows to be missing here. -/
def recvs : Entry → List SyncID
  | (r, .itemSet set) => (self.mergeWith ps cs r set).idsToRecv
  | _ => []

theorem processPartition_eq (output : RangesData) (r : Slice SyncID) :
    self.processPartition ps cs output r = output.push [(r, self.describe ps cs r)] := by
  unfold processPartition describe
  cases self.findIdxBounds r with
  | none => exact RangesData.addItemSet_eq_push _ _ _
  | some slice =>
      dsimp only
      split_ifs
      · exact RangesData.addItemSet_eq_push _ _ _
      · exact RangesData.addFingerprint_eq_push _ _ _

theorem foldl_processPartition (parts : List (Slice SyncID)) (output : RangesData) :
    parts.foldl (self.processPartition ps cs) output =
      output.push (parts.map (fun part => (part, self.describe ps cs part))) := by
  induction parts generalizing output with
  | nil => simp
  | cons r parts ih =>
      rw [List.foldl_cons, ih, processPartition_eq, RangesData.push_push]
      rfl

theorem processFingerprintRange_eq (r : Slice SyncID) (f : Fingerprint) (output : RangesData) :
    self.processFingerprintRange r ps cs f output =
      output.push (self.answerFingerprint ps cs r f) := by
  unfold processFingerprintRange answerFingerprint
  dsimp only
  split_ifs with hf
  · exact RangesData.addSkip_eq_push _ _
  · unfold describe
    cases self.findIdxBounds r with
    | none => exact RangesData.addItemSet_eq_push _ _ _
    | some slice =>
        dsimp only
        split_ifs with hlen
        · exact RangesData.addItemSet_eq_push _ _ _
        · exact self.foldl_processPartition ps cs _ _

theorem processItemSetRange_eq (r : Slice SyncID) (set : ItemSet) (ex : Exchange) :
    self.processItemSetRange r ps cs set ex =
      { hashToSend := ex.hashToSend ++ self.sends ps cs (r, .itemSet set)
        idsToRecv := ex.idsToRecv ++ self.recvs ps cs (r, .itemSet set)
        output := ex.output.push (self.answer ps cs (r, .itemSet set)) } := by
  simp only [processItemSetRange, sends, recvs, answer, answerItemSet, mergeWith, ownRows]
  cases self.findIdxBounds r with
  | none =>
      dsimp only
      split_ifs with hrec
      · simp [mergeLoop, RangesData.addItemSet_eq_push]
      · simp [mergeLoop, RangesData.addSkip_eq_push]
  | some slice =>
      dsimp only
      rw [mergeLoop_eq _ _ _ ex (Nat.lt_succ_self _), mergeLoop_eq _ _ _ {} (Nat.lt_succ_self _)]
      split_ifs with hrec
      · rw [RangesData.addItemSet_eq_push]
        rfl
      · rw [RangesData.addSkip_eq_push]
        rfl

/-! ### The answer to a payload -/

theorem getElem?_of_drop_eq_cons {α : Type} {l rest : List α} {x : α} {i : ℕ}
    (h : l.drop i = x :: rest) : l[i]? = some x ∧ l.drop (i + 1) = rest := by
  constructor
  · rw [← List.head?_drop, h]
    rfl
  · rw [← List.tail_drop, h]
    rfl

/-- The loop answers the entries one by one. -/
theorem processRanges_eq (input : RangesData) : ∀ (es : List Entry) (i j : ℕ) (ex : Exchange),
    input.fingerprints.drop i = es.filterMap (fun e => e.2.fingerprint?) →
    input.itemSets.drop j = es.filterMap (fun e => e.2.itemSet?) →
    self.processRanges ps cs input (es.map (fun e => (e.1, e.2.type))) i j ex =
      some { hashToSend := ex.hashToSend ++ es.flatMap (self.sends ps cs)
             idsToRecv := ex.idsToRecv ++ es.flatMap (self.recvs ps cs)
             output := ex.output.push (es.flatMap (self.answer ps cs)) }
  | [], i, j, ex, _, _ => by simp [processRanges]
  | (r, .skip) :: es, i, j, ex, hf, hs => by
      simp only [List.map_cons, RangeBody.type_skip, processRanges]
      rw [processRanges_eq input es i j _ (by simpa [List.filterMap_cons] using hf)
        (by simpa [List.filterMap_cons] using hs), RangesData.addSkip_eq_push,
        RangesData.push_push]
      simp [sends, recvs, answer]
  | (r, .fingerprint f) :: es, i, j, ex, hf, hs => by
      obtain ⟨hget, hdrop⟩ := getElem?_of_drop_eq_cons
        (hf.trans (List.filterMap_cons_some rfl))
      simp only [List.map_cons, RangeBody.type_fingerprint, processRanges, hget, Option.bind_eq_bind,
        Option.bind_some]
      rw [processRanges_eq input es (i + 1) j _ hdrop (by simpa [List.filterMap_cons] using hs),
        processFingerprintRange_eq, RangesData.push_push]
      simp [sends, recvs, answer]
  | (r, .itemSet set) :: es, i, j, ex, hf, hs => by
      obtain ⟨hget, hdrop⟩ := getElem?_of_drop_eq_cons
        (hs.trans (List.filterMap_cons_some rfl))
      simp only [List.map_cons, RangeBody.type_itemSet, processRanges, hget, Option.bind_eq_bind,
        Option.bind_some]
      rw [processRanges_eq input es i (j + 1) _ (by simpa [List.filterMap_cons] using hf) hdrop,
        processItemSetRange_eq]
      simp only [RangesData.push_push, List.flatMap_cons, List.append_assoc]

end SeqStorage

/-! ### Open entries and the merge of skips -/

/-- The entries that are still to be reconciled. -/
def openEntries (es : List Entry) : List Entry := es.filter (fun e => decide (e.2 ≠ .skip))

theorem mem_openEntries {es : List Entry} {e : Entry} :
    e ∈ openEntries es ↔ e ∈ es ∧ e.2 ≠ .skip := by
  simp [openEntries]

section MergeSkips

variable {β : Type} [DecidableEq β] (skip : β)

/-- A range put in front of a merged list: a skip grows into the skip after it. -/
def mergeInto (e : Slice SyncID × β) : List (Slice SyncID × β) → List (Slice SyncID × β)
  | [] => [e]
  | next :: rest =>
      if e.2 = skip ∧ next.2 = skip then (⟨e.1.a, next.1.b⟩, skip) :: rest else e :: next :: rest

/-- Neighbouring skips merged into one. -/
def mergeSkips (l : List (Slice SyncID × β)) : List (Slice SyncID × β) :=
  l.foldr (mergeInto skip) []

theorem mergeInto_of_ne {e : Slice SyncID × β} (h : e.2 ≠ skip) (l : List (Slice SyncID × β)) :
    mergeInto skip e l = e :: l := by
  cases l with
  | nil => rfl
  | cons next rest => exact if_neg (fun hand => h hand.1)

/-- Two skips in a row are one. -/
theorem mergeInto_mergeInto (r r' : Slice SyncID) (l : List (Slice SyncID × β)) :
    mergeInto skip (r, skip) (mergeInto skip (r', skip) l) =
      mergeInto skip (⟨r.a, r'.b⟩, skip) l := by
  cases l with
  | nil => simp [mergeInto]
  | cons next rest =>
      by_cases hnext : next.2 = skip
      · simp [mergeInto, hnext]
      · simp [mergeInto, hnext]

theorem mergeSkips_cons (e : Slice SyncID × β) (l : List (Slice SyncID × β)) :
    mergeSkips skip (e :: l) = mergeInto skip e (mergeSkips skip l) := rfl

/-- Merging keeps every range that is not a skip. -/
theorem filter_mergeSkips (l : List (Slice SyncID × β)) :
    (mergeSkips skip l).filter (fun e => decide (e.2 ≠ skip)) =
      l.filter (fun e => decide (e.2 ≠ skip)) := by
  induction l with
  | nil => rfl
  | cons e l ih =>
      rw [mergeSkips_cons, List.filter_cons, ← ih]
      cases mergeSkips skip l with
      | nil => rw [mergeInto, List.filter_cons]
      | cons next rest =>
          rw [mergeInto]
          split_ifs with hboth hopen hopen
          · exact absurd hboth.1 (by simpa using hopen)
          · rw [List.filter_cons_of_neg (by simp), List.filter_cons_of_neg (by simp [hboth.2])]
          · exact List.filter_cons_of_pos hopen
          · exact List.filter_cons_of_neg hopen

theorem map_mergeSkips {γ : Type} [DecidableEq γ] (skip' : γ) (f : β → γ)
    (hf : ∀ x, f x = skip' ↔ x = skip) (l : List (Slice SyncID × β)) :
    (mergeSkips skip l).map (fun e => (e.1, f e.2)) =
      mergeSkips skip' (l.map (fun e => (e.1, f e.2))) := by
  induction l with
  | nil => rfl
  | cons e l ih =>
      rw [mergeSkips_cons, List.map_cons, mergeSkips_cons, ← ih]
      cases mergeSkips skip l with
      | nil => rfl
      | cons next rest =>
          rw [mergeInto, List.map_cons, mergeInto]
          simp only [hf]
          split_ifs with hboth
          · rw [List.map_cons, (hf skip).mpr rfl]
          · rfl

end MergeSkips

/-- Merging two neighbouring skips, seen on the list around them. -/
theorem merge_pair {α : Type} {l : List α} {k : ℕ} {x y : α} (hx : l[k]? = some x)
    (hy : l[k + 1]? = some y) (z : α) :
    l.drop k = x :: y :: l.drop (k + 2) ∧
      (l.eraseIdx (k + 1)).set k z = l.take k ++ z :: l.drop (k + 2) := by
  obtain ⟨hk, rfl⟩ := List.getElem?_eq_some_iff.mp hx
  obtain ⟨hk1, rfl⟩ := List.getElem?_eq_some_iff.mp hy
  constructor
  · rw [← List.drop_eq_getElem_cons, ← List.drop_eq_getElem_cons]
  · rw [List.eraseIdx_eq_take_drop_succ, List.take_succ_eq_append_getElem hk, List.append_assoc,
      List.set_append_right _ _ (by simp), List.length_take, min_eq_left hk.le, Nat.sub_self]
    rfl

/-- The loop merges the skips, and notices whether there is anything else. -/
theorem mergeSkipsLoop_eq : ∀ (n : ℕ) (ranges : List (Slice SyncID × RangeType)) (b : Bool),
    n < ranges.length →
    SeqStorage.mergeSkipsLoop (n + 1) ranges b =
      ((ranges.take n).foldr (mergeInto .skip) (ranges.drop n),
        b && (ranges.take (n + 1)).all (fun r => decide (r.2 = .skip)))
  | 0, ranges, b, hn => by
      cases ranges with
      | nil => simp at hn
      | cons r rest => simp [SeqStorage.mergeSkipsLoop]
  | k + 1, ranges, b, hn => by
      obtain ⟨cur, hcur⟩ : ∃ cur, ranges[k + 1]? = some cur :=
        ⟨_, List.getElem?_eq_getElem (by omega)⟩
      obtain ⟨prev, hprev⟩ : ∃ prev, ranges[k]? = some prev :=
        ⟨_, List.getElem?_eq_getElem (by omega)⟩
      obtain ⟨hdrop, hset⟩ := merge_pair hprev hcur (⟨prev.1.a, cur.1.b⟩, RangeType.skip)
      have hklen : (ranges.take k).length = k := by simp; omega
      have htake : ranges.take (k + 1) = ranges.take k ++ [prev] := by
        rw [List.take_add_one, hprev]
        rfl
      have htake' : ranges.take (k + 2) = ranges.take k ++ [prev, cur] := by
        rw [List.take_add_one, hcur, htake, List.append_assoc]
        rfl
      have hdrop' : ranges.drop (k + 1) = cur :: ranges.drop (k + 2) := by
        rw [← List.tail_drop, hdrop]
        rfl
      rw [SeqStorage.mergeSkipsLoop, hcur]
      dsimp only
      rw [hprev, htake, hdrop', List.foldr_append, List.foldr_cons, List.foldr_nil, mergeInto]
      dsimp only
      split_ifs with hopen hskip hskip
      · exact absurd hskip (by tauto)
      · rw [mergeSkipsLoop_eq k ranges _ (by omega), hdrop, htake, htake']
        simp [Bool.and_assoc, Bool.and_comm]
      · -- the pair becomes one skip
        have hlen : k < (ranges.take k ++ ((⟨prev.1.a, cur.1.b⟩, RangeType.skip) ::
            ranges.drop (k + 2))).length := by
          rw [List.length_append, hklen, List.length_cons]
          omega
        have hnew : (ranges.take k ++ ((⟨prev.1.a, cur.1.b⟩, RangeType.skip) ::
            ranges.drop (k + 2))).take (k + 1) =
            ranges.take k ++ [(⟨prev.1.a, cur.1.b⟩, RangeType.skip)] := by
          rw [List.take_append, hklen, List.take_take]
          simp
        rw [hset, mergeSkipsLoop_eq k _ _ hlen, List.take_left' hklen, List.drop_left' hklen, hnew,
          htake']
        simp [hskip.1, hskip.2]
      · exact absurd hopen (by tauto)

theorem mergeSkipsLoop_length (ranges : List (Slice SyncID × RangeType)) :
    SeqStorage.mergeSkipsLoop ranges.length ranges true =
      (mergeSkips .skip ranges, ranges.all (fun r => decide (r.2 = .skip))) := by
  cases hlast : ranges.reverse with
  | nil =>
      rw [List.reverse_eq_nil_iff.mp hlast]
      rfl
  | cons last init =>
      have hranges : ranges = init.reverse ++ [last] := by
        rw [← List.reverse_reverse ranges, hlast, List.reverse_cons]
      have hlen : ranges.length = init.reverse.length + 1 := by
        rw [hranges, List.length_append, List.length_singleton]
      rw [hlen, mergeSkipsLoop_eq _ ranges true (by omega), ← hlen, List.take_length, Bool.true_and,
        hranges, List.take_left, List.drop_left, mergeSkips, List.foldr_append]
      rfl

/-- What goes back: the answers with their skips merged, or nothing when nothing is open. -/
def replyEntries (answers : List Entry) : List Entry :=
  if openEntries answers = [] then [] else mergeSkips .skip answers

theorem openEntries_mergeSkips (es : List Entry) :
    openEntries (mergeSkips .skip es) = openEntries es := filter_mergeSkips _ es

@[simp] theorem openEntries_replyEntries (answers : List Entry) :
    openEntries (replyEntries answers) = openEntries answers := by
  unfold replyEntries
  split_ifs with hnil
  · exact hnil.symm
  · exact openEntries_mergeSkips answers

theorem filterMap_openEntries {β : Type} (f : RangeBody → Option β) (hskip : f .skip = none)
    (es : List Entry) : (openEntries es).filterMap (fun e => f e.2) = es.filterMap (fun e => f e.2) := by
  unfold openEntries
  rw [List.filterMap_filter]
  refine List.filterMap_congr ?_
  intro e _
  split_ifs with he
  · rfl
  · have : e.2 = .skip := by simpa using he
    rw [this, hskip]

theorem filterMap_mergeSkips {β : Type} (f : RangeBody → Option β) (hskip : f .skip = none)
    (es : List Entry) :
    (mergeSkips .skip es).filterMap (fun e => f e.2) = es.filterMap (fun e => f e.2) := by
  rw [← filterMap_openEntries f hskip, openEntries_mergeSkips, filterMap_openEntries f hskip]

theorem RangeBody.type_eq_skip (body : RangeBody) : body.type = .skip ↔ body = .skip := by
  cases body <;> simp

/-- As many bodies of a kind as ranges of it. -/
theorem length_filterMap_bodies {α : Type} {f : RangeBody → Option α} {type : RangeType}
    (h : ∀ body : RangeBody, (f body).isSome ↔ body.type = type) (es : List Entry) :
    (es.filterMap (fun e => f e.2)).length =
      (es.map (fun e => (e.1, e.2.type))).countP (fun r => decide (r.2 = type)) := by
  rw [List.length_filterMap_eq_countP, List.countP_map]
  apply List.countP_congr
  intro e _
  simp [h e.2]

theorem RangesData.countsMatch_ofEntries (cluster : UInt16) (shards : List UInt16)
    (es : List Entry) : (RangesData.ofEntries cluster shards es).CountsMatch where
  fingerprints := length_filterMap_bodies (fun body => by cases body <;> simp) es
  itemSets := length_filterMap_bodies (fun body => by cases body <;> simp) es

/-- **The answer to a payload.**  The hashes and ids are those of the entries, one after the other;
the reply is made of the answers to the entries. -/
theorem SeqStorage.processPayload_eq (self : SeqStorage) (cluster : UInt16) (shards : List UInt16)
    (es : List Entry) :
    let ps := self.pubsubScope (shards.map (relayShardTopic cluster))
    self.processPayload (RangesData.ofEntries cluster shards es) =
      some { hashToSend := es.flatMap (self.sends ps ∅)
             idsToRecv := es.flatMap (self.recvs ps ∅)
             output := RangesData.ofEntries 0 [] (replyEntries (es.flatMap (self.answer ps ∅))) } := by
  intro ps
  have hloop := self.processRanges_eq ps ∅ (RangesData.ofEntries cluster shards es) es 0 0 {} rfl rfl
  rw [RangesData.push_empty] at hloop
  set answers := es.flatMap (self.answer ps ∅) with hanswers
  have hproc : self.processPayload (RangesData.ofEntries cluster shards es) =
      (self.processRanges ps ∅ (RangesData.ofEntries cluster shards es)
        (es.map (fun e => (e.1, e.2.type))) 0 0 {}).bind (fun ex =>
          let merged := mergeSkipsLoop ex.output.ranges.length ex.output.ranges true
          some { ex with
            output := if merged.2 then {} else { ex.output with ranges := merged.1 } }) := rfl
  rw [hproc, hloop, Option.bind_some, mergeSkipsLoop_length]
  dsimp only [List.nil_append]
  have hflag : (RangesData.ofEntries 0 [] answers).ranges.all (fun r => decide (r.2 = .skip)) = true ↔
      openEntries answers = [] := by
    simp [RangesData.ofEntries, openEntries, RangeBody.type_eq_skip]
  congr 2
  unfold replyEntries
  by_cases hnil : openEntries answers = []
  · rw [if_pos (hflag.mpr hnil), if_pos hnil]
    rfl
  · rw [if_neg (fun h => hnil (hflag.mp h)), if_neg hnil]
    unfold RangesData.ofEntries
    dsimp only
    rw [map_mergeSkips _ _ _ RangeBody.type_eq_skip, filterMap_mergeSkips _ rfl,
      filterMap_mergeSkips _ rfl]

/-- The open entries of the reply are the open ones among the answers; a reply with nothing open is
empty. -/
theorem SeqStorage.processPayload_ofEntries (self : SeqStorage) (cluster : UInt16)
    (shards : List UInt16) (es : List Entry) :
    let ps := self.pubsubScope (shards.map (relayShardTopic cluster))
    ∃ reply : List Entry,
      self.processPayload (RangesData.ofEntries cluster shards es) =
        some { hashToSend := es.flatMap (self.sends ps ∅)
               idsToRecv := es.flatMap (self.recvs ps ∅)
               output := RangesData.ofEntries 0 [] reply } ∧
      openEntries reply = openEntries (es.flatMap (self.answer ps ∅)) ∧
      (openEntries reply = [] → reply = []) := by
  intro ps
  refine ⟨_, self.processPayload_eq cluster shards es, openEntries_replyEntries _, ?_⟩
  intro hnil
  rw [openEntries_replyEntries] at hnil
  exact if_pos hnil

end LogosDelivery.StoreSync
