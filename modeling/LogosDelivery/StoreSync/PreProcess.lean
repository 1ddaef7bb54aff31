import LogosDelivery.StoreSync.CodecRoundTrip
import LogosDelivery.StoreSync.Rounds

/-! # What the pre-processing keeps of a payload

`preProcessPayload` narrows a payload to the shards that both sides cover and to the times from the
lower bound on.  Out of a well formed payload it makes a well formed one over the same span, whose
ranges that are not skips are those of the payload that end after the lower bound, each with its own
fingerprint or item set, the first of them cut at the lower bound (`preProcessPayload_spec`). -/

namespace LogosDelivery.StoreSync

/-- A set of shards covers a shard; the empty one covers every shard. -/
def CoversShard (shards : List UInt16) (shard : UInt16) : Prop := shards = [] ∨ shard ∈ shards

/-- The two sides have no shard in common, or are on different clusters. -/
def SyncReconciliation.OutOfScope (self : SyncReconciliation) (p : RangesData) : Prop :=
  p.cluster ≠ self.cluster ∨
    p.shards ≠ [] ∧ self.shards ≠ [] ∧ ∀ shard ∈ p.shards, shard ∉ self.shards

/-- The upper bound of the last range. -/
def lastBound (lo : SyncID) (ranges : List (Slice SyncID × RangeType)) : SyncID :=
  (ranges.getLast?.map (fun r => r.1.b)).getD lo

/-- An entry from time `t` on. -/
def cutAt (t : ℤ) (e : Entry) : Entry :=
  if e.1.a.time < t then
    (⟨SyncID.atTime t, e.1.b⟩,
      match e.2 with
      | .itemSet set =>
          .itemSet { set with
            elements := set.elements.filter (fun x => decide (SyncID.atTime t ≤ x)) }
      | body => body)
  else e

/-- What the pre-processing at time `t` makes of a payload whose first range starts at `lo`. -/
structure PreProcessed (self : SyncReconciliation) (t : ℤ) (lo : SyncID) (p q : RangesData) :
    Prop where
  cluster : q.cluster = p.cluster
  shards : ∀ shard, CoversShard q.shards shard ↔
    CoversShard p.shards shard ∧ CoversShard self.shards shard
  counts : q.CountsMatch
  contiguous : ContiguousFrom lo q.ranges
  span : lastBound lo q.ranges = lastBound lo p.ranges
  above : ∀ r ∈ q.ranges, r.2 ≠ .skip → SyncID.atTime t ≤ r.1.a
  /-- The ranges with their data, in order. -/
  kept : ∃ es es' : List Entry, p = RangesData.ofEntries p.cluster p.shards es ∧
    q = RangesData.ofEntries q.cluster q.shards es' ∧
    openEntries es' =
      ((openEntries es).filter (fun e => decide (SyncID.atTime t < e.1.b))).map (cutAt t)

/-! ### The scope -/

theorem SyncReconciliation.scopeShards_eq_none_iff (self : SyncReconciliation)
    (shards : List UInt16) : self.scopeShards shards = none ↔
      shards ≠ [] ∧ self.shards ≠ [] ∧ ∀ shard ∈ shards, shard ∉ self.shards := by
  unfold SyncReconciliation.scopeShards
  simp only [List.length_pos_iff, Nat.lt_one_iff, List.length_eq_zero_iff]
  split_ifs with hboth hempty hself
  · refine iff_of_true rfl ⟨hboth.1, hboth.2, fun shard hshard hmem => ?_⟩
    have hnot := List.filter_eq_nil_iff.mp hempty shard hmem
    exact hnot (by simpa using hshard)
  · refine iff_of_false (by simp) fun hdisjoint => hempty ?_
    rw [List.filter_eq_nil_iff]
    intro shard hshard hmem
    exact hdisjoint.2.2 shard (by simpa using hmem) hshard
  · refine iff_of_false (by simp) fun h => hboth ⟨h.1, h.2.1⟩
  · refine iff_of_false (by simp) fun h => hboth ⟨h.1, h.2.1⟩

theorem covers_scopeShards {self : SyncReconciliation} {shards scope : List UInt16}
    (h : self.scopeShards shards = some scope) (shard : UInt16) :
    CoversShard scope shard ↔ CoversShard shards shard ∧ CoversShard self.shards shard := by
  unfold SyncReconciliation.scopeShards at h
  simp only [List.length_pos_iff, Nat.lt_one_iff, List.length_eq_zero_iff] at h
  unfold CoversShard
  split_ifs at h with hboth hempty hself
  · obtain rfl := Option.some.inj h
    simp only [hempty, hboth.1, hboth.2, false_or, List.mem_filter, decide_eq_true_eq]
    exact and_comm
  · obtain rfl := Option.some.inj h
    have hnil : shards = [] := by
      by_contra hne
      exact hboth ⟨hne, hself⟩
    simp [hnil]
  · obtain rfl := Option.some.inj h
    simp [not_not.mp hself]

/-! ### The ranges -/

theorem lastBound_cons (lo : SyncID) (r : Slice SyncID) (type : RangeType)
    (ranges : List (Slice SyncID × RangeType)) :
    lastBound lo ((r, type) :: ranges) = lastBound r.b ranges := by
  unfold lastBound
  cases ranges with
  | nil => rfl
  | cons next rest => rw [List.getLast?_cons_cons]; simp [List.getLast?_cons]

/-- The pre-processing leaves the ranges contiguous, over the same span. -/
theorem contiguousFrom_clipEntries (t : ℤ) : ∀ {es : List Entry} {lo : SyncID},
    ContiguousFrom lo (es.map (fun e => (e.1, e.2.type))) →
      ContiguousFrom lo ((clipEntries t es).map (fun e => (e.1, e.2.type))) ∧
        lastBound lo ((clipEntries t es).map (fun e => (e.1, e.2.type))) =
          lastBound lo (es.map (fun e => (e.1, e.2.type)))
  | [], _, _ => ⟨trivial, rfl⟩
  | (r, body) :: es, lo, h => by
      obtain ⟨hlo, hlt, hrest⟩ := h
      obtain ⟨ihContiguous, ihSpan⟩ := contiguousFrom_clipEntries t hrest
      simp only [List.map_cons, lastBound_cons]
      by_cases hskip : body = .skip
      · subst hskip
        simp only [clipEntries, List.map_cons, lastBound_cons]
        exact ⟨⟨hlo, hlt, ihContiguous⟩, ihSpan⟩
      · rw [clipEntries_open t hskip]
        split_ifs with holder hcross
        · simp only [List.map_cons, lastBound_cons]
          exact ⟨⟨hlo, hlt, ihContiguous⟩, ihSpan⟩
        · -- the range is split in two
          have hsplit : SyncID.atTime t < r.b := cmp_eq_neg_one_iff.mp (not_not.mp holder)
          have hbelow : lo < SyncID.atTime t := by
            rw [← hlo]
            exact SyncID.lt_atTime_iff.mpr hcross
          simp only [List.map_cons, lastBound_cons]
          exact ⟨⟨hlo, hbelow, rfl, hsplit, hrest⟩, trivial⟩
        · simp only [List.map_cons, lastBound_cons]
          exact ⟨⟨hlo, hlt, hrest⟩, trivial⟩

/-- Nothing is cut of the ranges that start at or above the lower bound. -/
theorem cutAt_of_contiguousFrom {t : ℤ} : ∀ {es : List Entry} {lo : SyncID},
    ContiguousFrom lo (es.map (fun e => (e.1, e.2.type))) → SyncID.atTime t ≤ lo →
      ((openEntries es).filter (fun e => decide (SyncID.atTime t < e.1.b))).map (cutAt t) =
        openEntries es
  | [], _, _, _ => rfl
  | (r, body) :: es, lo, h, hle => by
      obtain ⟨hlo, hlt, hrest⟩ := h
      have hb : SyncID.atTime t < r.b := hle.trans_lt hlt
      have ih := cutAt_of_contiguousFrom hrest hb.le
      by_cases hskip : body = .skip
      · have hclosed : openEntries ((r, body) :: es) = openEntries es :=
          List.filter_cons_of_neg (by simp [hskip])
        rw [hclosed, ih]
      · have hopen : openEntries ((r, body) :: es) = (r, body) :: openEntries es :=
          List.filter_cons_of_pos (by simp [hskip])
        have hsame : cutAt t (r, body) = (r, body) := by
          rw [cutAt, if_neg]
          rw [hlo, not_lt]
          exact SyncID.atTime_le_iff.mp hle
        rw [hopen, List.filter_cons_of_pos (by simpa using hb), List.map_cons, ih, hsame]

theorem clip_eq_cutAt {t : ℤ} {r : Slice SyncID} {body : RangeBody} (h : r.a.time < t) :
    ((⟨SyncID.atTime t, r.b⟩, body.clip (SyncID.atTime t)) : Entry) = cutAt t (r, body) := by
  rw [cutAt, if_pos h]
  cases body with
  | skip => rfl
  | fingerprint f => rfl
  | itemSet set =>
      have hkeep : ∀ x : SyncID, decide (cmp x (SyncID.atTime t) ≠ -1) =
          decide (SyncID.atTime t ≤ x) := by
        intro x
        rw [decide_eq_decide, Ne, cmp_eq_neg_one_iff, not_lt]
      simp only [RangeBody.clip, hkeep]

/-- The open entries are those that end after the lower bound, cut there. -/
theorem openEntries_clipEntries (t : ℤ) : ∀ {es : List Entry} {lo : SyncID},
    ContiguousFrom lo (es.map (fun e => (e.1, e.2.type))) →
      openEntries (clipEntries t es) =
        ((openEntries es).filter (fun e => decide (SyncID.atTime t < e.1.b))).map (cutAt t)
  | [], _, _ => rfl
  | (r, body) :: es, lo, h => by
      obtain ⟨hlo, hlt, hrest⟩ := h
      have ih := openEntries_clipEntries t hrest
      have hclosed : ∀ es' : List Entry, openEntries ((r, .skip) :: es') = openEntries es' :=
        fun es' => List.filter_cons_of_neg (by simp)
      by_cases hskip : body = .skip
      · subst hskip
        rw [clipEntries, hclosed, hclosed, ih]
      have hopen : openEntries ((r, body) :: es) = (r, body) :: openEntries es :=
        List.filter_cons_of_pos (by simp [hskip])
      rw [clipEntries_open t hskip, hopen]
      split_ifs with holder hcross
      · -- all of the range is older
        have hnot : ¬ SyncID.atTime t < r.b := by
          rwa [← cmp_eq_neg_one_iff]
        rw [hclosed, ih, List.filter_cons_of_neg (by simpa using hnot)]
      · have hsplit : SyncID.atTime t < r.b := cmp_eq_neg_one_iff.mp (not_not.mp holder)
        have hclipped : cutAt t (r, body) ∈ openEntries [cutAt t (r, body)] := by
          rw [mem_openEntries, ← clip_eq_cutAt hcross]
          refine ⟨List.mem_singleton_self _, ?_⟩
          cases body with
          | skip => exact absurd rfl hskip
          | fingerprint f => simp [RangeBody.clip]
          | itemSet set => simp [RangeBody.clip]
        rw [List.filter_cons_of_pos (by simpa using hsplit), List.map_cons,
          cutAt_of_contiguousFrom hrest hsplit.le, clip_eq_cutAt hcross]
        have hne := (mem_openEntries.mp hclipped).2
        rw [openEntries, List.filter_cons_of_neg (by simp), List.filter_cons_of_pos (by simp [hne])]
        rfl
      · have hsplit : SyncID.atTime t < r.b := cmp_eq_neg_one_iff.mp (not_not.mp holder)
        have hsame : cutAt t (r, body) = (r, body) := if_neg hcross
        rw [List.filter_cons_of_pos (by simpa using hsplit), List.map_cons, hsame,
          cutAt_of_contiguousFrom hrest hsplit.le, hopen]

theorem atTime_le_cutAt (t : ℤ) (e : Entry) : SyncID.atTime t ≤ (cutAt t e).1.a := by
  unfold cutAt
  split_ifs with h
  · exact le_rfl
  · exact SyncID.atTime_le_iff.mpr (not_lt.mp h)

namespace SyncReconciliation

/-- **The pre-processing** of a payload with contiguous ranges and matching counts: refused out of
scope, and otherwise narrowed to the common scope and the times from the lower bound on. -/
theorem preProcessPayload_spec (self : SyncReconciliation) {p : RangesData} {lo : SyncID}
    (hcounts : p.CountsMatch) (hcontiguous : ContiguousFrom lo p.ranges) (t : ℤ) :
    (self.preProcessPayload p t = some none ↔ self.OutOfScope p) ∧
      (¬ self.OutOfScope p →
        ∃ q, self.preProcessPayload p t = some (some q) ∧ PreProcessed self t lo p q) := by
  obtain ⟨es, hes⟩ := hcounts.exists_ofEntries
  have hpre := self.preProcessPayload_ofEntries p.cluster p.shards es t
  rw [← hes] at hpre
  have hentries : ContiguousFrom lo (es.map (fun e => (e.1, e.2.type))) := by
    rw [hes] at hcontiguous
    exact hcontiguous
  constructor
  · rw [hpre, Option.some.injEq, OutOfScope, ← scopeShards_eq_none_iff]
    split_ifs with hcluster
    · exact iff_of_true rfl (Or.inl hcluster)
    · rw [Option.map_eq_none_iff]
      exact (or_iff_right hcluster).symm
  · intro hin
    have hcluster : ¬ p.cluster ≠ self.cluster := fun h => hin (Or.inl h)
    have hsome : self.scopeShards p.shards ≠ none := fun h =>
      hin (Or.inr ((self.scopeShards_eq_none_iff p.shards).mp h))
    obtain ⟨scope, hscope⟩ := Option.ne_none_iff_exists'.mp hsome
    rw [if_neg hcluster, hscope] at hpre
    have hopen := openEntries_clipEntries t hentries
    obtain ⟨hclipped, hspan⟩ := contiguousFrom_clipEntries t hentries
    refine ⟨_, hpre, rfl, fun shard => covers_scopeShards hscope shard,
      RangesData.countsMatch_ofEntries _ _ _, hclipped, ?_, ?_, es, _, hes, rfl, hopen⟩
    · rw [hes]
      exact hspan
    · intro r hr hskip
      obtain ⟨e, he, rfl⟩ := List.mem_map.mp hr
      have hne : e.2 ≠ .skip := fun hbody => hskip (by rw [hbody]; rfl)
      have hmem : e ∈ openEntries (clipEntries t es) := mem_openEntries.mpr ⟨he, hne⟩
      rw [hopen] at hmem
      obtain ⟨e₀, -, rfl⟩ := List.mem_map.mp hmem
      exact atTime_le_cutAt t e₀

/-- A fingerprint range before the lower bound and an item set range across it. -/
def crossingRanges : RangesData where
  cluster := 1
  shards := [3]
  ranges := [(⟨SyncID.atTime 0, SyncID.atTime 10⟩, .fingerprint),
    (⟨SyncID.atTime 10, SyncID.atTime 20⟩, .itemSet)]
  fingerprints := [constFingerprint 7]
  itemSets := [{ elements := [SyncID.atTime 12, SyncID.atTime 18], reconciled := false }]

theorem preProcessPayload_crossingRanges :
    ∃ q, ({ cluster := 1, shards := [3, 4], storage := {}, pendingTimeout := 30 } :
        SyncReconciliation).preProcessPayload crossingRanges 15 = some (some q) ∧
      PreProcessed { cluster := 1, shards := [3, 4], storage := {}, pendingTimeout := 30 } 15
        (SyncID.atTime 0) crossingRanges q := by
  refine (preProcessPayload_spec _ ⟨by decide, by decide⟩ ?_ 15).2 ?_
  · exact ⟨rfl, by decide, rfl, by decide, trivial⟩
  · rintro (hcluster | ⟨-, -, hdisjoint⟩)
    · exact hcluster rfl
    · exact hdisjoint 3 (by decide) (by decide)

end SyncReconciliation

end LogosDelivery.StoreSync
