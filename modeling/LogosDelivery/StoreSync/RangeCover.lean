import LogosDelivery.StoreSync.WireBounds

/-! # No range is lost

A reply covers the ranges it answers: either everything was reconciled and it is empty, or its
ranges follow one another from the first bound that was received to the last one.  Two things stand
against that.  The slices of a range that differs are cut by time alone, so the hashes of its own
bounds are lost, and a range with less than a nanosecond for each slice is left out.
`keepsRanges_iff` says when neither matters.

The cuts are those of `equalPartitioning` where the difference of the times is an `int64`; the
arithmetic of the source is checked and raises a defect beyond it. -/

namespace LogosDelivery.StoreSync

open Lib (PackedSet)

variable {lo hi : SyncID}

/-- The ranges run from `lo` to `hi`, each from where the one before ends. -/
def SpansTo (hi : SyncID) : SyncID → List (Slice SyncID) → Prop
  | lo, [] => lo = hi
  | lo, r :: rest => r.a = lo ∧ SpansTo hi r.b rest

/-- The first lower bound. -/
def RangesData.lower (p : RangesData) : SyncID := (p.ranges.head?.map (·.1.a)).getD SyncID.zero

/-- The last upper bound. -/
def RangesData.upper (p : RangesData) : SyncID := (p.ranges.getLast?.map (·.1.b)).getD SyncID.zero

namespace SeqStorage

variable (self : SeqStorage) (ps cs : PackedSet ℤ)

/-! ### What is to be shown -/

/-- Nothing is left to do for a received range. -/
def Reconciled : Entry → Prop
  | (_, .skip) => True
  | (r, .fingerprint f) => self.computeFingerprintFromSlice (self.findIdxBounds r) ps cs = f
  | (_, .itemSet set) => set.reconciled = true

/-- A fingerprint or an item set is the own one of its range. -/
def Owns : Entry → Prop
  | (_, .skip) => True
  | (r, .fingerprint f) => self.computeFingerprintFromSlice (self.findIdxBounds r) ps cs = f
  | (r, .itemSet set) => ((self.ownRows r).filter (passes ps cs)).map (·.1) = set.elements

/-- The reply is empty and everything was reconciled, or its ranges run from the first bound to the
last one, each with the fingerprint or the item set of its own. -/
def KeepsRanges (input output : RangesData) : Prop :=
  (output = {} ∧ ∀ e ∈ input.entries, self.Reconciled ps cs e) ∨
    (output.ranges ≠ [] ∧
      SpansTo input.upper input.lower (output.ranges.map (·.1)) ∧
      output.CountsMatch ∧ ∀ e ∈ output.entries, self.Owns ps cs e)

/-! ### When it holds -/

/-- The answers to the ranges follow one another from `lo` to `hi`.  A range in slices starts and
ends at the empty hash of its times, one that is left out has no part in it, and what lies between
two skips does not matter. -/
def Follow (hi : SyncID) : SyncID → Bool → List Entry → Prop
  | lo, _, [] => lo = hi
  | lo, skipping, e :: es =>
      match self.fate ps cs e with
      | .skip => (skipping = true ∨ e.1.a = lo) ∧ Follow hi e.1.b true es
      | .whole => e.1.a = lo ∧ Follow hi e.1.b false es
      | .split => SyncID.atTime e.1.a.time = lo ∧ Follow hi (SyncID.atTime e.1.b.time) false es
      | .dropped => Follow hi lo skipping es

/-- **The condition on a payload.**  All ranges are reconciled, or one is answered and the answers
follow one another. -/
def Covers (input : RangesData) : Prop :=
  (∀ e ∈ input.entries, self.fate ps cs e = .skip) ∨
    (∃ e ∈ input.entries, self.fate ps cs e = .whole ∨ self.fate ps cs e = .split) ∧
      self.Follow ps cs input.upper input.lower false input.entries

/-! ### The merge of skips -/

/-- The entries follow one another, where a skip behind a skip may start anywhere. -/
def SpansSkips (hi : SyncID) : SyncID → Bool → List Entry → Prop
  | lo, _, [] => lo = hi
  | lo, skipping, (r, body) :: es =>
      (skipping = true ∧ body = .skip ∨ r.a = lo) ∧ SpansSkips hi r.b (decide (body = .skip)) es

/-- Merged entries start where the first one does. -/
theorem spansTo_mergeInto (e : Entry) (es : List Entry) :
    SpansTo hi lo ((mergeInto .skip e es).map (·.1)) ↔
      e.1.a = lo ∧ SpansTo hi e.1.a ((mergeInto .skip e es).map (·.1)) := by
  cases es with
  | nil => simp [mergeInto, SpansTo]
  | cons next rest =>
      rw [mergeInto]
      split_ifs <;> simp [SpansTo]

theorem spansTo_mergeSkips (hi : SyncID) : ∀ (es : List Entry) (lo : SyncID),
    (SpansTo hi lo ((mergeSkips .skip es).map (·.1)) ↔ SpansSkips hi lo false es) ∧
    ∀ first, SpansTo hi first ((mergeSkips .skip ((⟨first, lo⟩, .skip) :: es)).map (·.1)) ↔
      SpansSkips hi lo true es
  | [], lo => by simp [mergeSkips, mergeInto, SpansTo, SpansSkips]
  | (r, body) :: es, lo => by
      obtain ⟨hplain, hskip⟩ := spansTo_mergeSkips hi es r.b
      by_cases hbody : body = .skip
      · subst hbody
        constructor
        · rw [mergeSkips_cons, spansTo_mergeInto, ← mergeSkips_cons, hskip r.a]
          simp [SpansSkips]
        · intro first
          rw [mergeSkips_cons, mergeSkips_cons, mergeInto_mergeInto, ← mergeSkips_cons, hskip first]
          simp [SpansSkips]
      · have hcons : mergeSkips .skip ((r, body) :: es) = (r, body) :: mergeSkips .skip es := by
          rw [mergeSkips_cons]
          exact mergeInto_of_ne RangeBody.skip hbody _
        constructor
        · rw [hcons, List.map_cons, SpansTo, hplain]
          simp [SpansSkips, hbody]
        · intro first
          have hboth : ¬ ((RangeBody.skip = .skip) ∧ body = .skip) := fun h => hbody h.2
          rw [mergeSkips_cons, hcons, mergeInto, if_neg hboth, List.map_cons, List.map_cons, SpansTo,
            SpansTo, hplain]
          simp [SpansSkips, hbody]

/-! ### The answers -/

/-- Slices follow one another. -/
theorem spansSkips_tiles {start stop : ℤ} {parts : List (Slice SyncID)}
    (h : Tiles start stop parts) (rest : List Entry) :
    SpansSkips hi (SyncID.atTime start) false
        (parts.map (fun part => (part, self.describe ps cs part)) ++ rest) ↔
      SpansSkips hi (SyncID.atTime stop) false rest := by
  induction h with
  | nil t => rfl
  | cons hlt _ ih =>
      rw [List.map_cons, List.cons_append, SpansSkips]
      rw [decide_eq_false (self.describe_ne_skip ps cs _), ih]
      simp

theorem spansSkips_slices (skipping : Bool) {r : Slice SyncID} (hcount : 1 ≤ self.partitionCount)
    (hlen : self.partitionCount ≤ r.b.time - r.a.time) (rest : List Entry) :
    SpansSkips hi lo skipping (self.slices ps cs r ++ rest) ↔
      SyncID.atTime r.a.time = lo ∧ SpansSkips hi (SyncID.atTime r.b.time) false rest := by
  have htiles := equalPartitioning_tiles r hcount hlen
  unfold slices
  generalize equalPartitioning r self.partitionCount = parts at htiles
  generalize r.b.time = stop at htiles hlen ⊢
  generalize r.a.time = start at htiles hlen ⊢
  cases htiles with
  | nil => omega
  | cons hlt htail =>
      rw [List.map_cons, List.cons_append, SpansSkips]
      rw [decide_eq_false (self.describe_ne_skip ps cs _), self.spansSkips_tiles ps cs htail]
      simp [self.describe_ne_skip ps cs]

theorem spansSkips_answers : ∀ (es : List Entry) (lo : SyncID) (skipping : Bool),
    SpansSkips hi lo skipping (es.flatMap (self.answer ps cs)) ↔
      self.Follow ps cs hi lo skipping es
  | [], _, _ => Iff.rfl
  | e :: es, lo, skipping => by
      rw [List.flatMap_cons, Follow]
      rcases self.answer_cases ps cs e with ⟨hfate, ha⟩ | ⟨hfate, body, hbody, ha⟩ |
        ⟨hfate, hcount, hlen, ha⟩ | ⟨hfate, ha⟩
      · rw [hfate, ha, List.singleton_append, SpansSkips, decide_eq_true rfl, spansSkips_answers es]
        simp
      · rw [hfate, ha, List.singleton_append, SpansSkips, decide_eq_false hbody,
          spansSkips_answers es]
        simp [hbody]
      · rw [hfate, ha, self.spansSkips_slices ps cs skipping hcount hlen, spansSkips_answers es]
      · rw [hfate, ha, List.nil_append, spansSkips_answers es]

theorem fate_eq_skip_iff (e : Entry) : self.fate ps cs e = .skip ↔ self.Reconciled ps cs e := by
  obtain ⟨r, body⟩ := e
  cases body with
  | skip => exact iff_of_true rfl trivial
  | itemSet set =>
      unfold fate Reconciled
      cases set.reconciled <;> simp
  | fingerprint f =>
      by_cases hf : self.computeFingerprintFromSlice (self.findIdxBounds r) ps cs = f
      · exact iff_of_true (if_pos hf) hf
      · refine iff_of_false ?_ hf
        rw [fate, if_neg hf]
        cases self.findIdxBounds r with
        | none => simp
        | some slice =>
            dsimp only
            split_ifs <;> simp

/-- Something goes back exactly when a range is answered whole or in slices. -/
theorem exists_open_answers (es : List Entry) :
    openEntries (es.flatMap (self.answer ps cs)) ≠ [] ↔
      ∃ e ∈ es, self.fate ps cs e = .whole ∨ self.fate ps cs e = .split := by
  have hopen : ∀ e, (∃ e' ∈ self.answer ps cs e, e'.2 ≠ .skip) ↔
      self.fate ps cs e = .whole ∨ self.fate ps cs e = .split := by
    intro e
    rcases self.answer_cases ps cs e with ⟨hfate, ha⟩ | ⟨hfate, body, hbody, ha⟩ |
      ⟨hfate, hcount, hlen, ha⟩ | ⟨hfate, ha⟩
    · simp [hfate, ha]
    · simp [hfate, ha, hbody]
    · have htiles := equalPartitioning_tiles e.1 hcount hlen
      rw [hfate, ha, slices]
      refine iff_of_true ?_ (Or.inr rfl)
      cases hparts : equalPartitioning e.1 self.partitionCount with
      | nil =>
          have hnil : Tiles e.1.a.time e.1.b.time [] := hparts ▸ htiles
          generalize e.1.b.time = stop at hnil hlen
          cases hnil
          omega
      | cons part parts =>
          exact ⟨(part, self.describe ps cs part), List.mem_cons_self,
            self.describe_ne_skip ps cs part⟩
    · simp [hfate, ha]
  constructor
  · intro h
    obtain ⟨e', he'⟩ := List.exists_mem_of_ne_nil _ h
    obtain ⟨hmem, hne⟩ := mem_openEntries.mp he'
    obtain ⟨e, he, hans⟩ := List.mem_flatMap.mp hmem
    exact ⟨e, he, (hopen e).mp ⟨e', hans, hne⟩⟩
  · rintro ⟨e, he, hfate⟩
    obtain ⟨e', hans, hne⟩ := (hopen e).mpr hfate
    exact List.ne_nil_of_mem (mem_openEntries.mpr ⟨List.mem_flatMap.mpr ⟨e, he, hans⟩, hne⟩)

/-- What is said about a range is its own. -/
theorem owns_describe (r : Slice SyncID) : self.Owns ps cs (r, self.describe ps cs r) := by
  unfold describe
  cases hidx : self.findIdxBounds r with
  | none => simp [Owns, ownRows, hidx]
  | some slice =>
      dsimp only
      split_ifs
      · simp [Owns, ownRows, hidx, getFilteredElements]
      · simp [Owns, hidx]

theorem owns_answer {e e' : Entry} (h : e' ∈ self.answer ps cs e) : self.Owns ps cs e' := by
  obtain ⟨r, body⟩ := e
  cases body with
  | skip =>
      rw [List.mem_singleton.mp h]
      trivial
  | itemSet set =>
      rw [List.mem_singleton.mp h, answerItemSet]
      split_ifs
      · rfl
      · trivial
  | fingerprint f =>
      have hdescribed := self.owns_describe ps cs r
      change e' ∈ self.answerFingerprint ps cs r f at h
      unfold answerFingerprint at h
      split_ifs at h with hf
      · rw [List.mem_singleton.mp h]
        trivial
      · cases hbody : self.describe ps cs r with
        | skip => exact absurd hbody (self.describe_ne_skip ps cs r)
        | itemSet set =>
            rw [hbody] at h hdescribed
            rw [List.mem_singleton.mp h]
            exact hdescribed
        | fingerprint g =>
            rw [hbody] at h
            obtain ⟨part, -, rfl⟩ := List.mem_map.mp h
            exact self.owns_describe ps cs part

/-- Merging leaves the open entries alone, and a skip says nothing. -/
theorem owns_replyEntries {es : List Entry} {e : Entry}
    (h : e ∈ replyEntries (es.flatMap (self.answer ps cs))) : self.Owns ps cs e := by
  by_cases hskip : e.2 = .skip
  · obtain ⟨r, body⟩ := e
    obtain rfl : body = .skip := hskip
    trivial
  · have hmem := mem_openEntries.mpr ⟨h, hskip⟩
    rw [openEntries_replyEntries] at hmem
    obtain ⟨e₀, -, hans⟩ := List.mem_flatMap.mp (mem_openEntries.mp hmem).1
    exact self.owns_answer ps cs hans

/-! ### The reply -/

theorem mergeSkips_ne_nil {es : List Entry} (h : es ≠ []) : mergeSkips .skip es ≠ [] := by
  cases es with
  | nil => exact absurd rfl h
  | cons e es =>
      rw [mergeSkips_cons]
      cases mergeSkips .skip es with
      | nil => simp [mergeInto]
      | cons next rest =>
          rw [mergeInto]
          split_ifs <;> simp

/-- For any payload with a fingerprint and an item set for each range of the two kinds. -/
theorem keepsRanges_iff {input : RangesData} (hcounts : input.CountsMatch) :
    let ps := self.pubsubScope (input.shards.map (relayShardTopic input.cluster))
    ∃ ex, self.processPayload input = some ex ∧
      (self.KeepsRanges ps ∅ input ex.output ↔ self.Covers ps ∅ input) := by
  intro ps
  obtain ⟨es, hes⟩ := hcounts.exists_ofEntries
  have hentries : input.entries = es := by rw [hes, RangesData.entries_ofEntries]
  have hprocess := self.processPayload_eq input.cluster input.shards es
  rw [← hes] at hprocess
  refine ⟨_, hprocess, ?_⟩
  unfold KeepsRanges Covers
  rw [hentries, RangesData.entries_ofEntries]
  dsimp only
  simp only [self.fate_eq_skip_iff ps ∅]
  by_cases hopen : openEntries (es.flatMap (self.answer ps ∅)) = []
  · -- nothing goes back
    have hnone : ¬ ∃ e ∈ es, self.fate ps ∅ e = .whole ∨ self.fate ps ∅ e = .split := by
      intro hany
      exact (self.exists_open_answers ps ∅ es).mpr hany hopen
    have hreply : replyEntries (es.flatMap (self.answer ps ∅)) = [] := if_pos hopen
    rw [hreply]
    refine ⟨?_, ?_⟩
    · rintro (⟨-, hall⟩ | ⟨hne, -⟩)
      · exact Or.inl hall
      · exact absurd rfl hne
    · rintro (hall | ⟨hany, -⟩)
      · exact Or.inl ⟨rfl, hall⟩
      · exact absurd hany hnone
  · have hany := (self.exists_open_answers ps ∅ es).mp hopen
    have hreply : replyEntries (es.flatMap (self.answer ps ∅)) =
        mergeSkips .skip (es.flatMap (self.answer ps ∅)) := if_neg hopen
    have hne : mergeSkips .skip (es.flatMap (self.answer ps ∅)) ≠ [] := by
      refine mergeSkips_ne_nil ?_
      intro hnil
      rw [hnil] at hopen
      exact hopen rfl
    have hranges : (RangesData.ofEntries 0 [] (mergeSkips .skip
        (es.flatMap (self.answer ps ∅)))).ranges.map (·.1) =
        (mergeSkips .skip (es.flatMap (self.answer ps ∅))).map (·.1) := by
      simp [RangesData.ofEntries]
    have howns : ∀ e ∈ mergeSkips .skip (es.flatMap (self.answer ps ∅)), self.Owns ps ∅ e := by
      intro e he
      exact self.owns_replyEntries ps ∅ (hreply ▸ he)
    have hnotall : ¬ ∀ e ∈ es, self.Reconciled ps ∅ e := by
      intro hall
      obtain ⟨e, he, hfate⟩ := hany
      have hskip := (self.fate_eq_skip_iff ps ∅ e).mpr (hall e he)
      rw [hskip] at hfate
      simp at hfate
    have hspans := (spansTo_mergeSkips input.upper
      (es.flatMap (self.answer ps ∅)) input.lower).1
    rw [hreply, hranges, hspans, self.spansSkips_answers ps ∅]
    refine ⟨?_, ?_⟩
    · rintro (⟨-, hall⟩ | ⟨-, hfollow, -⟩)
      · exact absurd hall hnotall
      · exact Or.inr ⟨hany, hfollow⟩
    · rintro (hall | ⟨-, hfollow⟩)
      · exact absurd hall hnotall
      · refine Or.inr ⟨?_, hfollow, RangesData.countsMatch_ofEntries _ _ _, howns⟩
        intro hnil
        exact hne (List.map_eq_nil_iff.mp hnil)

/-- Two messages of one time, more than the node lists. -/
def twoAtFive : SeqStorage where
  elements := [⟨5, constFingerprint 1⟩, ⟨5, constFingerprint 2⟩]
  pubsubTopicIndexes := [0, 0]
  contentTopicIndexes := [0, 0]
  pubsubTopics := ["/waku/2/rs/0/0"]
  contentTopics := ["/a"]
  lengthThreshold := 1

/-- The fingerprint of a peer that has neither of them, over the times from `5` to `stop`. -/
def differsFromFive (stop : ℤ) : RangesData where
  shards := [0]
  ranges := [(⟨SyncID.zero, SyncID.atTime 5⟩, .skip),
    (⟨SyncID.atTime 5, SyncID.atTime stop⟩, .fingerprint)]
  fingerprints := [emptyFingerprint]

/-- Eight nanoseconds are enough for the slices, and their bounds have empty hashes. -/
theorem keepsRanges_eightNanoseconds :
    ∃ ex, twoAtFive.processPayload (differsFromFive 13) = some ex ∧
      twoAtFive.KeepsRanges (.small [0]) ∅ (differsFromFive 13) ex.output := by
  have hcounts : (differsFromFive 13).CountsMatch := ⟨by decide, by decide⟩
  obtain ⟨ex, hprocess, hiff⟩ := twoAtFive.keepsRanges_iff hcounts
  have hscope : twoAtFive.pubsubScope ([0].map (relayShardTopic 0)) = .small [0] := by decide +kernel
  refine ⟨ex, hprocess, ?_⟩
  rw [← hscope]
  refine hiff.mpr (Or.inr ⟨?_, ?_⟩)
  · refine ⟨(⟨SyncID.atTime 5, SyncID.atTime 13⟩, .fingerprint emptyFingerprint), ?_, Or.inr ?_⟩
    · decide
    · change twoAtFive.fate (twoAtFive.pubsubScope ([0].map (relayShardTopic 0))) ∅ _ = _
      rw [hscope]
      decide +kernel
  · change twoAtFive.Follow (twoAtFive.pubsubScope ([0].map (relayShardTopic 0))) ∅
      (SyncID.atTime 13) SyncID.zero false [(⟨SyncID.zero, SyncID.atTime 5⟩, .skip),
        (⟨SyncID.atTime 5, SyncID.atTime 13⟩, .fingerprint emptyFingerprint)]
    have hsplit : twoAtFive.fate (.small [0]) ∅
        (⟨SyncID.atTime 5, SyncID.atTime 13⟩, .fingerprint emptyFingerprint) = .split := by
      decide +kernel
    rw [hscope, Follow, Follow, hsplit]
    exact ⟨Or.inr rfl, rfl, rfl⟩

/-- One nanosecond is not: the range is not answered, and the reply says that all is reconciled. -/
theorem not_keepsRanges_oneNanosecond :
    ¬ ∀ (self : SeqStorage) (input : RangesData) (lo : SyncID),
      self.WellFormed → 2 ≤ self.partitionCount →
      ContiguousFrom lo input.ranges → input.CountsMatch →
      ∃ ex, self.processPayload input = some ex ∧
        self.KeepsRanges (self.pubsubScope (input.shards.map (relayShardTopic input.cluster))) ∅
          input ex.output := by
  intro h
  obtain ⟨ex, hprocess, hkeeps⟩ := h twoAtFive (differsFromFive 6) SyncID.zero
    ⟨by decide +kernel, rfl, rfl⟩ (by decide) ⟨rfl, by decide, rfl, by decide, trivial⟩
    ⟨by decide, by decide⟩
  have hempty : twoAtFive.processPayload (differsFromFive 6) = some {} := rfl
  rw [hempty] at hprocess
  obtain rfl := Option.some.inj hprocess
  rcases hkeeps with ⟨-, hall⟩ | ⟨hne, -⟩
  · have hdiffer : twoAtFive.computeFingerprintFromSlice
        (twoAtFive.findIdxBounds ⟨SyncID.atTime 5, SyncID.atTime 6⟩)
        (twoAtFive.pubsubScope ([0].map (relayShardTopic 0))) ∅ = emptyFingerprint :=
      hall (⟨SyncID.atTime 5, SyncID.atTime 6⟩, .fingerprint emptyFingerprint) (by decide)
    exact absurd hdiffer (by decide +kernel)
  · exact hne rfl

end SeqStorage

end LogosDelivery.StoreSync
