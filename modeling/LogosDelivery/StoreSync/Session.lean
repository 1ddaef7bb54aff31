import LogosDelivery.StoreSync.StorageOrder
import LogosDelivery.StoreSync.Termination

/-! # A session finds the difference of two storages

Two storages that do not change answer each other's payloads with `processPayload` until a reply is
empty (`session`).  The invariant relates the payload in flight to what is still to be found: the
side that answers still has to send, on every open range, what the other lacks there, and so does
the side that asked, except on the ranges where its item set was already an answer
(`answererOwes`, `askerOwes`).  Answering an entry moves a part of this debt to the hashes sent and
the rest to the entries of the reply (`answer_owes`), so at the end of the session the hashes sent
are exactly the difference (`session_exact`). -/

namespace LogosDelivery.StoreSync

/-! ### Elements in scope and in range -/

/-- The elements of `l` within the bounds. -/
def within (l : List SyncID) (r : Slice SyncID) : List SyncID := l.filter (inBounds r)

/-- The elements of `own` that `other` lacks. -/
def missing (own other : List SyncID) : List SyncID := own.filter (fun x => decide (x ∉ other))

theorem missing_within (own other : List SyncID) (r : Slice SyncID) :
    missing (within own r) (within other r) = within (missing own other) r := by
  unfold missing within
  rw [List.filter_filter, List.filter_filter]
  apply List.filter_congr
  intro x _
  by_cases hx : inBounds r x = true <;> simp [hx]

theorem missing_self (l : List SyncID) : missing l l = [] := by
  simp [missing, List.filter_eq_nil_iff]

/-- An element with a real hash is between two time bounds when its time is, the upper one
excluded. -/
theorem inBounds_atTime {x : SyncID} (hx : x.hash ≠ emptyFingerprint) {s t : ℤ} :
    inBounds ⟨SyncID.atTime s, SyncID.atTime t⟩ x = true ↔ s ≤ x.time ∧ x.time < t := by
  rw [inBounds_iff, SyncID.atTime_le_iff]
  apply and_congr_right
  intro _
  rw [SyncID.le_iff]
  constructor
  · rintro (h | ⟨_, h⟩)
    · exact h
    · exact absurd (le_antisymm h (emptyFingerprint_le _)) hx
  · exact Or.inl

/-- The elements of a part of a time slice, by a condition on their times. -/
theorem within_eq_filter {l : List SyncID} (hl : ∀ x ∈ l, x.hash ≠ emptyFingerprint)
    {lo hi lo' hi' : ℤ} {inPart : SyncID → Bool}
    (h : ∀ x ∈ l, (lo' ≤ x.time ∧ x.time < hi') ↔
      (inPart x = true ∧ lo ≤ x.time ∧ x.time < hi)) :
    within l ⟨SyncID.atTime lo', SyncID.atTime hi'⟩ =
      (within l ⟨SyncID.atTime lo, SyncID.atTime hi⟩).filter inPart := by
  unfold within
  rw [List.filter_filter]
  apply List.filter_congr
  intro x hx
  rw [Bool.eq_iff_iff, Bool.and_eq_true, inBounds_atTime (hl x hx), inBounds_atTime (hl x hx)]
  exact h x hx

/-- A tiling distributes the elements over its slices. -/
theorem Tiles.perm_within {l : List SyncID} (hl : ∀ x ∈ l, x.hash ≠ emptyFingerprint) {lo hi : ℤ}
    {parts : List (Slice SyncID)} (h : Tiles lo hi parts) :
    (parts.flatMap (within l)).Perm (within l ⟨SyncID.atTime lo, SyncID.atTime hi⟩) := by
  induction h with
  | nil t =>
      have hnil : within l ⟨SyncID.atTime t, SyncID.atTime t⟩ = [] := by
        rw [within, List.filter_eq_nil_iff]
        intro x hx hin
        have := (inBounds_atTime (hl x hx)).mp hin
        omega
      rw [hnil]
      exact List.Perm.refl _
  | @cons lo ub hi rest hlt hrest ih =>
      have hub := hrest.le
      -- the elements before `ub` are in the first slice, the others in the rest
      have hfirst : within l ⟨SyncID.atTime lo, SyncID.atTime ub⟩ =
          (within l ⟨SyncID.atTime lo, SyncID.atTime hi⟩).filter (fun x => decide (x.time < ub)) := by
        refine within_eq_filter hl (fun x _ => ?_)
        rw [decide_eq_true_eq]
        omega
      have hothers : within l ⟨SyncID.atTime ub, SyncID.atTime hi⟩ =
          (within l ⟨SyncID.atTime lo, SyncID.atTime hi⟩).filter (fun x => !decide (x.time < ub)) := by
        refine within_eq_filter hl (fun x _ => ?_)
        rw [Bool.not_eq_true', decide_eq_false_iff_not]
        omega
      rw [List.flatMap_cons]
      refine (ih.append_left _).trans ?_
      rw [hfirst, hothers]
      exact List.filter_append_perm _ _

/-- A time slice inside another one has fewer elements. -/
theorem within_subset {l : List SyncID} {r r' : Slice SyncID} (ha : r'.a ≤ r.a) (hb : r.b ≤ r'.b)
    {x : SyncID} (hx : x ∈ within l r) : x ∈ within l r' := by
  obtain ⟨hmem, hin⟩ := List.mem_filter.mp hx
  obtain ⟨h1, h2⟩ := inBounds_iff.mp hin
  exact List.mem_filter.mpr ⟨hmem, inBounds_iff.mpr ⟨ha.trans h1, h2.trans hb⟩⟩

theorem mem_within {l : List SyncID} {r : Slice SyncID} {x : SyncID} :
    x ∈ within l r ↔ x ∈ l ∧ inBounds r x = true := List.mem_filter

/-! ### Storages that can be reconciled -/

/-- A row's pubsub topic is asked for; without topics every row is. -/
def SeqStorage.asked (s : SeqStorage) (topics : List PubsubTopic) (row : SyncID × ℕ × ℕ) : Bool :=
  decide (topics = []) || decide (∃ t ∈ topics, s.pubsubTopics[row.2.1]? = some t)

/-- The elements whose pubsub topic is asked for. -/
def SeqStorage.inScope (s : SeqStorage) (topics : List PubsubTopic) : List SyncID :=
  (s.rows.filter (s.asked topics)).map (·.1)

/-- What a session needs of each side. -/
structure SeqStorage.Reconcilable (s : SeqStorage) : Prop where
  wellFormed : s.WellFormed
  two_le_partitionCount : 2 ≤ s.partitionCount
  no_pending : ∀ row ∈ s.rows, s.pubsubTopics[row.2.1]? ≠ some pendingPubsubTopic
  no_zero_hash : ∀ x ∈ s.elements, x.hash ≠ emptyFingerprint
  /-- A time window too short to be partitioned holds at most `lengthThreshold` elements. -/
  sparse : ∀ t w : ℤ, w < s.partitionCount →
    ((s.elements.filter (fun x => decide (t ≤ x.time ∧ x.time < t + w))).length : ℤ) ≤
      s.lengthThreshold

namespace SeqStorage

variable {s : SeqStorage}

theorem Reconcilable.visible_eq_within (h : s.Reconcilable) (topics : List PubsubTopic)
    (r : Slice SyncID) : s.visible (s.pubsubScope topics) ∅ r = within (s.inScope topics) r := by
  have hfilter : s.rows.filter (passes (s.pubsubScope topics) ∅) = s.rows.filter (s.asked topics) := by
    apply List.filter_congr
    intro row hrow
    rw [Bool.eq_iff_iff, passes_pubsubScope]
    simp only [asked, Bool.or_eq_true, decide_eq_true_eq]
    constructor
    · rintro (h0 | ⟨t, ht, hmem | rfl⟩)
      · exact Or.inl h0
      · exact Or.inr ⟨t, hmem, ht⟩
      · exact absurd ht (h.no_pending row hrow)
    · rintro (h0 | ⟨t, hmem, ht⟩)
      · exact Or.inl h0
      · exact Or.inr ⟨t, ht, Or.inl hmem⟩
  unfold visible within inScope
  rw [hfilter]

theorem WellFormed.inScope_sublist (h : s.WellFormed) (topics : List PubsubTopic) :
    (s.inScope topics).Sublist s.elements := by
  rw [← h.rows_map_fst]
  exact List.filter_sublist.map _

theorem Reconcilable.inScope_hash (h : s.Reconcilable) (topics : List PubsubTopic) :
    ∀ x ∈ s.inScope topics, x.hash ≠ emptyFingerprint :=
  fun x hx => h.no_zero_hash x ((h.wellFormed.inScope_sublist topics).subset hx)

theorem Reconcilable.within_sorted (h : s.Reconcilable) (topics : List PubsubTopic)
    (r : Slice SyncID) : (within (s.inScope topics) r).Pairwise (· < ·) := by
  rw [← h.visible_eq_within]
  exact h.wellFormed.visible_sorted _ _ _

/-- The fingerprint of a range is the `xor` of the hashes in scope there. -/
theorem Reconcilable.fingerprint_eq (h : s.Reconcilable) (topics : List PubsubTopic)
    (r : Slice SyncID) :
    s.computeFingerprintFromSlice (s.findIdxBounds r) (s.pubsubScope topics) ∅ =
      xorAll ((within (s.inScope topics) r).map SyncID.hash) := by
  rw [h.wellFormed.computeFingerprintFromSlice_eq, h.visible_eq_within]

/-- What is said about a range: nothing is there, or the elements in scope, or, when there are too
many elements, their fingerprint. -/
theorem Reconcilable.describe_cases (h : s.Reconcilable) (topics : List PubsubTopic)
    (r : Slice SyncID) :
    (s.describe (s.pubsubScope topics) ∅ r = .itemSet { elements := [], reconciled := true } ∧
      within (s.inScope topics) r = []) ∨
    s.describe (s.pubsubScope topics) ∅ r =
      .itemSet { elements := within (s.inScope topics) r, reconciled := false } ∨
    (s.describe (s.pubsubScope topics) ∅ r =
        .fingerprint (xorAll ((within (s.inScope topics) r).map SyncID.hash)) ∧
      s.lengthThreshold < (s.elements.filter (inBounds r)).length) := by
  unfold describe
  cases hf : s.findIdxBounds r with
  | none =>
      refine Or.inl ⟨rfl, ?_⟩
      rw [← h.visible_eq_within, h.wellFormed.visible_of_none hf]
  | some slice =>
      dsimp only
      split_ifs with hlen
      · right; left
        rw [h.wellFormed.getFilteredElements_eq hf, h.visible_eq_within]
      · right; right
        rw [← hf, h.fingerprint_eq]
        refine ⟨rfl, ?_⟩
        rw [← h.wellFormed.slice_length hf]
        exact not_le.mp hlen

theorem Reconcilable.passing_ownRows (h : s.Reconcilable) (topics : List PubsubTopic)
    (r : Slice SyncID) :
    passing (s.pubsubScope topics) ∅ (s.ownRows r) = within (s.inScope topics) r := by
  rw [h.wellFormed.passing_ownRows, h.visible_eq_within]

theorem Reconcilable.sends_itemSet (h : s.Reconcilable) (topics : List PubsubTopic)
    (r : Slice SyncID) (set : ItemSet) (hset : set.elements.Pairwise (· < ·)) :
    s.sends (s.pubsubScope topics) ∅ (r, .itemSet set) =
      (missing (within (s.inScope topics) r) set.elements).map SyncID.hash := by
  show (s.mergeWith _ _ r set).hashToSend = _
  unfold mergeWith
  rw [mergeLoop_hashToSend (by omega) hset (h.wellFormed.ownRows_sorted r), h.passing_ownRows]
  rfl

theorem Reconcilable.answer_itemSet (h : s.Reconcilable) (topics : List PubsubTopic)
    (r : Slice SyncID) (set : ItemSet) :
    s.answer (s.pubsubScope topics) ∅ (r, .itemSet set) =
      [if set.reconciled = false then
        (r, .itemSet { elements := within (s.inScope topics) r, reconciled := true })
      else (r, .skip)] := by
  rw [← h.passing_ownRows]
  rfl

theorem Reconcilable.mem_recvs (h : s.Reconcilable) (topics : List PubsubTopic)
    {r : Slice SyncID} {set : ItemSet} (hset : set.elements.Pairwise (· < ·)) {x : SyncID}
    (hx : x ∈ s.recvs (s.pubsubScope topics) ∅ (r, .itemSet set)) :
    x ∈ set.elements ∧ x ∉ within (s.inScope topics) r := by
  obtain ⟨earlier, later, hsplit, hcase⟩ := mergeLoop_idsToRecv
    (Nat.lt_succ_self _) (h.wellFormed.ownRows_sorted r) hx
  rw [h.passing_ownRows] at hcase
  refine ⟨by rw [hsplit]; simp, ?_⟩
  rcases hcase with hout | ⟨y, hy, hle⟩
  · exact hout
  · rw [hsplit] at hset
    have hlt := (List.pairwise_append.mp hset).2.2 y hy x List.mem_cons_self
    exact absurd hlt (not_lt.mpr hle)

end SeqStorage

/-! ### What is still to be found -/

/-- The range is a time slice inside `lo .. hi`. -/
def Inner (lo hi : ℤ) (r : Slice SyncID) : Prop :=
  ∃ s t, r = ⟨SyncID.atTime s, SyncID.atTime t⟩ ∧ lo ≤ s ∧ t ≤ hi

/-- An entry that says the truth about the elements `l` of its sender. -/
def Honest (lo hi : ℤ) (l : List SyncID) : Entry → Prop
  | (_, .skip) => True
  | (r, .fingerprint f) => Inner lo hi r ∧ f = xorAll ((within l r).map SyncID.hash)
  | (r, .itemSet set) => Inner lo hi r ∧ set.elements = within l r

/-- What the side that answers an entry still has to send, `own` being its elements. -/
def answererOwes (own other : List SyncID) : Entry → List SyncID
  | (_, .skip) => []
  | (r, _) => missing (within own r) (within other r)

/-- What the side that sent an entry still has to send, `own` being its elements. -/
def askerOwes (own other : List SyncID) : Entry → List SyncID
  | (_, .skip) => []
  | (r, .fingerprint _) => missing (within own r) (within other r)
  | (r, .itemSet set) => if set.reconciled then [] else missing (within own r) (within other r)

/-- Equal fingerprints at a compared range mean equal elements there. -/
def NoCollision (l l' : List SyncID) (compared : List (Slice SyncID)) : Prop :=
  ∀ r ∈ compared, xorAll ((within l r).map SyncID.hash) = xorAll ((within l' r).map SyncID.hash) →
    within l r = within l' r

theorem NoCollision.symm {l l' : List SyncID} {compared : List (Slice SyncID)}
    (h : NoCollision l l' compared) : NoCollision l' l compared :=
  fun r hr he => (h r hr he.symm).symm

section Answer

variable {X : SeqStorage} (hX : X.Reconcilable) (topics : List PubsubTopic) {lo hi : ℤ}
  {other : List SyncID}

include hX

theorem honest_describe {r : Slice SyncID} (hr : Inner lo hi r) :
    Honest lo hi (X.inScope topics) (r, X.describe (X.pubsubScope topics) ∅ r) := by
  obtain ⟨hd, hnil⟩ | hd | ⟨hd, _⟩ := hX.describe_cases topics r
  · rw [hd]
    exact ⟨hr, hnil.symm⟩
  · rw [hd]
    exact ⟨hr, rfl⟩
  · rw [hd]
    exact ⟨hr, rfl⟩

/-- The debts of an entry that describes a range are the two differences there. -/
theorem describe_owes (other : List SyncID) (r : Slice SyncID) :
    askerOwes (X.inScope topics) other (r, X.describe (X.pubsubScope topics) ∅ r) =
        missing (within (X.inScope topics) r) (within other r) ∧
      answererOwes other (X.inScope topics) (r, X.describe (X.pubsubScope topics) ∅ r) =
        missing (within other r) (within (X.inScope topics) r) := by
  obtain ⟨hd, hnil⟩ | hd | ⟨hd, _⟩ := hX.describe_cases topics r
  · rw [hd, hnil]
    exact ⟨rfl, by simp [answererOwes, hnil]⟩
  · rw [hd]
    exact ⟨rfl, rfl⟩
  · rw [hd]
    exact ⟨rfl, rfl⟩

/-- A range that is described by a fingerprint is long enough to be partitioned. -/
theorem partition_tiles {s t : ℤ}
    (hlen : X.lengthThreshold <
      (X.elements.filter (inBounds ⟨SyncID.atTime s, SyncID.atTime t⟩)).length) :
    Tiles s t (equalPartitioning ⟨SyncID.atTime s, SyncID.atTime t⟩ X.partitionCount) := by
  have hpc := hX.two_le_partitionCount
  have hlong : X.partitionCount ≤ t - s := by
    by_contra hshort
    have hsparse := hX.sparse s (t - s) (by omega)
    have hcount : X.elements.filter (inBounds ⟨SyncID.atTime s, SyncID.atTime t⟩) =
        X.elements.filter (fun x => decide (s ≤ x.time ∧ x.time < s + (t - s))) := by
      apply List.filter_congr
      intro x hx
      rw [Bool.eq_iff_iff, inBounds_atTime (hX.no_zero_hash x hx), decide_eq_true_eq]
      omega
    rw [hcount] at hlen
    omega
  exact equalPartitioning_tiles ⟨SyncID.atTime s, SyncID.atTime t⟩ (by omega) hlong

/-- The answer to a fingerprint is honest again, and shares out both debts. -/
theorem answerFingerprint_owes {r : Slice SyncID} (hr : Inner lo hi r)
    (ho : ∀ x ∈ other, x.hash ≠ emptyFingerprint)
    (hcoll : NoCollision (X.inScope topics) other [r]) :
    let f := xorAll ((within other r).map SyncID.hash)
    (∀ e ∈ X.answerFingerprint (X.pubsubScope topics) ∅ r f,
      Honest lo hi (X.inScope topics) e) ∧
    ((X.answerFingerprint (X.pubsubScope topics) ∅ r f).flatMap
        (askerOwes (X.inScope topics) other)).Perm
      (missing (within (X.inScope topics) r) (within other r)) ∧
    ((X.answerFingerprint (X.pubsubScope topics) ∅ r f).flatMap
        (answererOwes other (X.inScope topics))).Perm
      (missing (within other r) (within (X.inScope topics) r)) := by
  intro f
  unfold SeqStorage.answerFingerprint
  rw [hX.fingerprint_eq]
  split_ifs with heq
  · -- equal fingerprints: nothing is missing on either side
    have hsame := hcoll r List.mem_cons_self heq
    rw [hsame, missing_self]
    refine ⟨?_, List.Perm.refl _, List.Perm.refl _⟩
    intro e he
    obtain rfl := List.mem_singleton.mp he
    trivial
  · obtain ⟨howes, howes'⟩ := describe_owes hX topics other r
    have hhonest := honest_describe hX topics hr
    obtain ⟨hd, hnil⟩ | hd | ⟨hd, hlen⟩ := hX.describe_cases topics r
    · rw [hd] at howes howes' hhonest ⊢
      simp only [List.mem_singleton, List.flatMap_singleton, howes, howes']
      exact ⟨by rintro e rfl; exact hhonest, List.Perm.refl _, List.Perm.refl _⟩
    · rw [hd] at howes howes' hhonest ⊢
      simp only [List.mem_singleton, List.flatMap_singleton, howes, howes']
      exact ⟨by rintro e rfl; exact hhonest, List.Perm.refl _, List.Perm.refl _⟩
    · -- too many elements: the parts share out what the range owes
      obtain ⟨s, t, rfl, hs, ht⟩ := hr
      have htiles := partition_tiles hX hlen
      rw [hd]
      dsimp only
      refine ⟨?_, ?_, ?_⟩
      · intro e he
        obtain ⟨part, hpart, rfl⟩ := List.mem_map.mp he
        obtain ⟨s', t', rfl, h1, _, h3⟩ := htiles.mem hpart
        exact honest_describe hX topics ⟨s', t', rfl, by omega, by omega⟩
      · rw [List.flatMap_map, missing_within]
        refine List.Perm.trans (List.Perm.of_eq ?_) (htiles.perm_within ?_)
        · apply List.flatMap_congr
          intro part _
          rw [(describe_owes hX topics other part).1, missing_within]
        · intro x hx
          exact hX.inScope_hash topics x (List.mem_filter.mp hx).1
      · rw [List.flatMap_map, missing_within]
        refine List.Perm.trans (List.Perm.of_eq ?_) (htiles.perm_within ?_)
        · apply List.flatMap_congr
          intro part _
          rw [(describe_owes hX topics other part).2, missing_within]
        · intro x hx
          exact ho x (List.mem_filter.mp hx).1

/-- **Answering an entry.**  The answer is honest; the hashes sent and the debt of the answer make
up what the answering side owed, and the other side owes what it owed before. -/
theorem answer_owes (ho : ∀ x ∈ other, x.hash ≠ emptyFingerprint)
    (hsorted : ∀ r, (within other r).Pairwise (· < ·)) {e : Entry} (he : Honest lo hi other e)
    (hcoll : ∀ r f, e = (r, .fingerprint f) → NoCollision (X.inScope topics) other [r]) :
    (∀ e' ∈ X.answer (X.pubsubScope topics) ∅ e, Honest lo hi (X.inScope topics) e') ∧
    (X.sends (X.pubsubScope topics) ∅ e ++
        ((X.answer (X.pubsubScope topics) ∅ e).flatMap
          (askerOwes (X.inScope topics) other)).map SyncID.hash).Perm
      ((answererOwes (X.inScope topics) other e).map SyncID.hash) ∧
    ((X.answer (X.pubsubScope topics) ∅ e).flatMap (answererOwes other (X.inScope topics))).Perm
      (askerOwes other (X.inScope topics) e) := by
  obtain ⟨r, body⟩ := e
  cases body with
  | skip =>
      refine ⟨?_, List.Perm.refl _, List.Perm.refl _⟩
      intro e' he'
      obtain rfl := List.mem_singleton.mp he'
      trivial
  | fingerprint f =>
      obtain ⟨hr, rfl⟩ := he
      obtain ⟨h1, h2, h3⟩ := answerFingerprint_owes hX topics hr ho (hcoll r _ rfl)
      exact ⟨h1, h2.map _, h3⟩
  | itemSet set =>
      obtain ⟨hr, hset⟩ := he
      have hsend := hX.sends_itemSet topics r set (by rw [hset]; exact hsorted r)
      rw [hset] at hsend
      rw [hsend, hX.answer_itemSet]
      cases hrec : set.reconciled with
      | false =>
          refine ⟨?_, ?_, ?_⟩
          · intro e' he'
            obtain rfl := List.mem_singleton.mp he'
            exact ⟨hr, rfl⟩
          · simp [askerOwes, answererOwes]
          · simp [askerOwes, answererOwes, hrec]
      | true =>
          refine ⟨?_, ?_, ?_⟩
          · intro e' he'
            obtain rfl := List.mem_singleton.mp he'
            trivial
          · simp [askerOwes, answererOwes]
          · simp [askerOwes, answererOwes, hrec]

/-- An id that is asked for is one that the other side has and this side lacks. -/
theorem recvs_missing (hsorted : ∀ r, (within other r).Pairwise (· < ·)) {e : Entry}
    (he : Honest lo hi other e) {x : SyncID} (hx : x ∈ X.recvs (X.pubsubScope topics) ∅ e) :
    x ∈ missing (within other ⟨SyncID.atTime lo, SyncID.atTime hi⟩)
      (within (X.inScope topics) ⟨SyncID.atTime lo, SyncID.atTime hi⟩) := by
  obtain ⟨r, body⟩ := e
  cases body with
  | skip => simp [SeqStorage.recvs] at hx
  | fingerprint f => simp [SeqStorage.recvs] at hx
  | itemSet set =>
      obtain ⟨⟨s, t, rfl, hs, ht⟩, hset⟩ := he
      obtain ⟨hmem, hout⟩ := hX.mem_recvs topics (by rw [hset]; exact hsorted _) hx
      rw [hset] at hmem
      have ha : SyncID.atTime lo ≤ SyncID.atTime s := SyncID.atTime_le_iff.mpr hs
      have hb : SyncID.atTime t ≤ SyncID.atTime hi := SyncID.atTime_le_iff.mpr ht
      rw [missing, List.mem_filter, decide_eq_true_eq]
      refine ⟨within_subset ha hb hmem, ?_⟩
      intro hown
      exact hout (mem_within.mpr ⟨(mem_within.mp hown).1, (mem_within.mp hmem).2⟩)

end Answer

/-! ### The session -/

/-- What the two sides of a session find, the one that answers the first payload and the one that
sent it, with the ranges whose fingerprints are compared. -/
structure SessionLog where
  answererSend : List WakuMessageHash := []
  answererRecv : List SyncID := []
  askerSend : List WakuMessageHash := []
  askerRecv : List SyncID := []
  compared : List (Slice SyncID) := []

/-- The ranges of a payload that carry a fingerprint. -/
def RangesData.fingerprintRanges (p : RangesData) : List (Slice SyncID) :=
  (p.ranges.filter (fun r => decide (r.2 = .fingerprint))).map (·.1)

/-- The two sides answer in turn until a reply is empty.  A reply goes back with the header of the
session.  `none` means that the fuel runs out or a payload is defective. -/
def session : ℕ → SeqStorage → SeqStorage → RangesData → Option SessionLog
  | 0, _, _, _ => none
  | n + 1, answerer, asker, payload => do
      let ex ← answerer.processPayload payload
      let log ←
        if ex.output.ranges = [] then some {}
        else
          session n asker answerer
            { ex.output with cluster := payload.cluster, shards := payload.shards }
      return {
        answererSend := ex.hashToSend ++ log.askerSend
        answererRecv := ex.idsToRecv ++ log.askerRecv
        askerSend := log.answererSend
        askerRecv := log.answererRecv
        compared := payload.fingerprintRanges ++ log.compared }

theorem flatMap_openEntries {β : Type} {g : Entry → List β} (hg : ∀ e : Entry, e.2 = .skip → g e = [])
    (es : List Entry) : (openEntries es).flatMap g = es.flatMap g := by
  induction es with
  | nil => rfl
  | cons e es ih =>
      by_cases he : e.2 = .skip
      · rw [openEntries, List.filter_cons_of_neg (by simpa using he), ← openEntries, ih,
          List.flatMap_cons, hg e he, List.nil_append]
      · rw [openEntries, List.filter_cons_of_pos (by simpa using he), ← openEntries,
          List.flatMap_cons, ih, List.flatMap_cons]

theorem answererOwes_skip (own other : List SyncID) (e : Entry) (h : e.2 = .skip) :
    answererOwes own other e = [] := by
  obtain ⟨r, body⟩ := e
  cases h
  rfl

theorem askerOwes_skip (own other : List SyncID) (e : Entry) (h : e.2 = .skip) :
    askerOwes own other e = [] := by
  obtain ⟨r, body⟩ := e
  cases h
  rfl

theorem mem_fingerprintRanges {cluster : UInt16} {shards : List UInt16} {es : List Entry}
    {r : Slice SyncID} {f : Fingerprint} (h : (r, .fingerprint f) ∈ es) :
    r ∈ (RangesData.ofEntries cluster shards es).fingerprintRanges := by
  unfold RangesData.fingerprintRanges
  refine List.mem_map.mpr ⟨(r, .fingerprint), ?_, rfl⟩
  exact List.mem_filter.mpr ⟨List.mem_map.mpr ⟨_, h, rfl⟩, by simp⟩

/-- A side found what it owed, and asks only for what it lacks. -/
structure Settled (lo hi : ℤ) (own other owed : List SyncID) (send : List WakuMessageHash)
    (recv : List SyncID) : Prop where
  send_perm : send.Perm (owed.map SyncID.hash)
  recv_missing : ∀ x ∈ recv, x ∈ missing (within other ⟨SyncID.atTime lo, SyncID.atTime hi⟩)
    (within own ⟨SyncID.atTime lo, SyncID.atTime hi⟩)

/-- One answer, and a log for the rest of the session. -/
theorem Settled.step {X Y : SeqStorage} (hX : X.Reconcilable) (hY : Y.Reconcilable)
    (topics : List PubsubTopic) {lo hi : ℤ} {es reply : List Entry}
    (hes : ∀ e ∈ es, Honest lo hi (Y.inScope topics) e)
    (hcoll : ∀ r f, (r, .fingerprint f) ∈ es →
      NoCollision (X.inScope topics) (Y.inScope topics) [r])
    (hopen : openEntries reply =
      openEntries (es.flatMap (X.answer (X.pubsubScope topics) ∅))) :
    (∀ e ∈ reply, Honest lo hi (X.inScope topics) e) ∧
    (∀ {send recv}, Settled lo hi (X.inScope topics) (Y.inScope topics)
        (reply.flatMap (askerOwes (X.inScope topics) (Y.inScope topics))) send recv →
      Settled lo hi (X.inScope topics) (Y.inScope topics)
        (es.flatMap (answererOwes (X.inScope topics) (Y.inScope topics)))
        (es.flatMap (X.sends (X.pubsubScope topics) ∅) ++ send)
        (es.flatMap (X.recvs (X.pubsubScope topics) ∅) ++ recv)) ∧
    (∀ {send recv}, Settled lo hi (Y.inScope topics) (X.inScope topics)
        (reply.flatMap (answererOwes (Y.inScope topics) (X.inScope topics))) send recv →
      Settled lo hi (Y.inScope topics) (X.inScope topics)
        (es.flatMap (askerOwes (Y.inScope topics) (X.inScope topics))) send recv) := by
  have hone : ∀ e ∈ es, _ := fun e he => answer_owes hX topics (hY.inScope_hash topics)
    (hY.within_sorted topics) (hes e he) (fun r f h => hcoll r f (h ▸ he))
  refine ⟨?_, ?_, ?_⟩
  · intro e he
    by_cases hskip : e.2 = .skip
    · obtain ⟨r, body⟩ := e
      cases hskip
      trivial
    · have hmem : e ∈ openEntries reply := mem_openEntries.mpr ⟨he, hskip⟩
      rw [hopen, mem_openEntries, List.mem_flatMap] at hmem
      obtain ⟨⟨e₀, he₀, hanswer⟩, _⟩ := hmem
      exact (hone e₀ he₀).1 e hanswer
  · intro send recv h
    constructor
    · have hdebt := h.send_perm
      rw [← flatMap_openEntries (askerOwes_skip _ _), hopen, flatMap_openEntries (askerOwes_skip _ _),
        List.flatMap_assoc, List.map_flatMap] at hdebt
      refine (hdebt.append_left _).trans ?_
      refine (List.flatMap_append_perm _ _ _).trans ?_
      rw [List.map_flatMap]
      exact List.Perm.flatMap_left _ (fun e he => (hone e he).2.1)
    · intro x hx
      rcases List.mem_append.mp hx with hx | hx
      · obtain ⟨e, he, hxe⟩ := List.mem_flatMap.mp hx
        exact recvs_missing hX topics (hY.within_sorted topics) (hes e he) hxe
      · exact h.recv_missing x hx
  · intro send recv h
    refine ⟨?_, h.recv_missing⟩
    have hdebt := h.send_perm
    rw [← flatMap_openEntries (answererOwes_skip _ _), hopen,
      flatMap_openEntries (answererOwes_skip _ _), List.flatMap_assoc] at hdebt
    refine hdebt.trans (List.Perm.map _ ?_)
    exact List.Perm.flatMap_left _ (fun e he => (hone e he).2.2)

theorem Settled.empty {lo hi : ℤ} {own other : List SyncID} : Settled lo hi own other [] [] [] :=
  ⟨List.Perm.refl _, by simp⟩

/-- If the entries are honest and no compared range has a collision, the log settles the debts of
the entries. -/
def SessionLog.Settles (log : SessionLog) (lo hi : ℤ) (answerer asker : List SyncID)
    (es : List Entry) : Prop :=
  (∀ e ∈ es, Honest lo hi asker e) → NoCollision answerer asker log.compared →
    Settled lo hi answerer asker (es.flatMap (answererOwes answerer asker)) log.answererSend
        log.answererRecv ∧
      Settled lo hi asker answerer (es.flatMap (askerOwes asker answerer)) log.askerSend log.askerRecv

theorem NoCollision.of_entry {l l' : List SyncID} {cluster : UInt16} {shards : List UInt16}
    {es : List Entry} {compared : List (Slice SyncID)}
    (h : NoCollision l l' ((RangesData.ofEntries cluster shards es).fingerprintRanges ++ compared))
    {r : Slice SyncID} {f : Fingerprint} (hr : (r, .fingerprint f) ∈ es) : NoCollision l l' [r] := by
  intro r' hr'
  rw [List.mem_singleton.mp hr']
  exact h r (List.mem_append_left _ (mem_fingerprintRanges hr))

section Session

variable (cluster : UInt16) (shards : List UInt16) (lo hi : ℤ)

/-- A session ends with an answer that leaves nothing open. -/
theorem session_last {X Y : SeqStorage} (hX : X.Reconcilable) (hY : Y.Reconcilable) {es : List Entry}
    (hproc : (X.processPayload (RangesData.ofEntries cluster shards es)) = some
      { hashToSend := es.flatMap (X.sends (X.pubsubScope (shards.map (relayShardTopic cluster))) ∅)
        idsToRecv := es.flatMap (X.recvs (X.pubsubScope (shards.map (relayShardTopic cluster))) ∅)
        output := RangesData.ofEntries 0 [] [] })
    (hopen : openEntries [] = openEntries
      (es.flatMap (X.answer (X.pubsubScope (shards.map (relayShardTopic cluster))) ∅))) :
    ∃ log, (∀ m, 0 < m → session m X Y (RangesData.ofEntries cluster shards es) = some log) ∧
      log.Settles lo hi (X.inScope (shards.map (relayShardTopic cluster)))
        (Y.inScope (shards.map (relayShardTopic cluster))) es := by
  refine ⟨⟨es.flatMap (X.sends (X.pubsubScope (shards.map (relayShardTopic cluster))) ∅) ++ [],
    es.flatMap (X.recvs (X.pubsubScope (shards.map (relayShardTopic cluster))) ∅) ++ [], [], [],
    (RangesData.ofEntries cluster shards es).fingerprintRanges ++ []⟩, ?_, ?_⟩
  · intro m hm
    obtain ⟨m, rfl⟩ : ∃ k, m = k + 1 := ⟨m - 1, by omega⟩
    simp only [session, hproc, Option.bind_eq_bind, Option.bind_some]
    rfl
  · intro hes hcoll
    obtain ⟨_, hstep, hstep'⟩ := Settled.step hX hY _ hes (fun r f h => hcoll.of_entry h) hopen
    exact ⟨hstep Settled.empty, hstep' Settled.empty⟩

/-- A session goes on with an answer that leaves something open. -/
theorem session_next {X Y : SeqStorage} (hX : X.Reconcilable) (hY : Y.Reconcilable)
    {es reply : List Entry} (hne : reply ≠ [])
    (hproc : (X.processPayload (RangesData.ofEntries cluster shards es)) = some
      { hashToSend := es.flatMap (X.sends (X.pubsubScope (shards.map (relayShardTopic cluster))) ∅)
        idsToRecv := es.flatMap (X.recvs (X.pubsubScope (shards.map (relayShardTopic cluster))) ∅)
        output := RangesData.ofEntries 0 [] reply })
    (hopen : openEntries reply = openEntries
      (es.flatMap (X.answer (X.pubsubScope (shards.map (relayShardTopic cluster))) ∅)))
    {n : ℕ} {log : SessionLog}
    (hlog : ∀ m, n < m → session m Y X (RangesData.ofEntries cluster shards reply) = some log)
    (hsettles : log.Settles lo hi (Y.inScope (shards.map (relayShardTopic cluster)))
      (X.inScope (shards.map (relayShardTopic cluster))) reply) :
    ∃ log', (∀ m, n + 1 < m →
        session m X Y (RangesData.ofEntries cluster shards es) = some log') ∧
      log'.Settles lo hi (X.inScope (shards.map (relayShardTopic cluster)))
        (Y.inScope (shards.map (relayShardTopic cluster))) es := by
  refine ⟨⟨es.flatMap (X.sends (X.pubsubScope (shards.map (relayShardTopic cluster))) ∅) ++
      log.askerSend,
    es.flatMap (X.recvs (X.pubsubScope (shards.map (relayShardTopic cluster))) ∅) ++ log.askerRecv,
    log.answererSend, log.answererRecv,
    (RangesData.ofEntries cluster shards es).fingerprintRanges ++ log.compared⟩, ?_, ?_⟩
  · intro m hm
    obtain ⟨m, rfl⟩ : ∃ k, m = k + 1 := ⟨m - 1, by omega⟩
    have hranges : (RangesData.ofEntries 0 [] reply).ranges ≠ [] := by
      simpa [RangesData.ofEntries] using hne
    have hrest := hlog m (by omega)
    simp only [session, hproc, Option.bind_eq_bind, Option.bind_some, if_neg hranges]
    simp only [RangesData.ofEntries] at hrest ⊢
    rw [hrest]
    rfl
  · intro hes hcoll
    obtain ⟨hhonest, hstep, hstep'⟩ := Settled.step hX hY _ hes (fun r f h => hcoll.of_entry h) hopen
    obtain ⟨hans, hask⟩ := hsettles hhonest
      (fun r hr he => hcoll.symm r (List.mem_append_right _ hr) he)
    exact ⟨hstep hask, hstep' hans⟩

/-- A session whose ranks are at most `n` needs no more than `n + 1` answers, and settles the debts
of its first payload. -/
theorem session_ofEntries : ∀ (n : ℕ) {X Y : SeqStorage}, X.Reconcilable → Y.Reconcilable →
    ∀ es : List Entry, (∀ e ∈ es, rank e ≤ n) →
    ∃ log, (∀ m, n < m → session m X Y (RangesData.ofEntries cluster shards es) = some log) ∧
      log.Settles lo hi (X.inScope (shards.map (relayShardTopic cluster)))
        (Y.inScope (shards.map (relayShardTopic cluster))) es := by
  intro n
  induction n with
  | zero =>
      intro X Y hX hY es hrank
      obtain ⟨reply, hproc, hopen, hempty⟩ := X.processPayload_ofEntries cluster shards es
      -- every answer has rank zero, so the reply is empty
      have hreply : reply = [] := by
        apply hempty
        rw [hopen, List.eq_nil_iff_forall_not_mem]
        intro e he
        obtain ⟨hmem, hskip⟩ := mem_openEntries.mp he
        obtain ⟨e₀, he₀, hanswer⟩ := List.mem_flatMap.mp hmem
        have h1 := X.rank_answer _ _ hX.two_le_partitionCount hanswer
        have h2 := hrank e₀ he₀
        have h3 := rank_pos hskip
        omega
      subst hreply
      exact session_last cluster shards lo hi hX hY hproc hopen
  | succ n ih =>
      intro X Y hX hY es hrank
      obtain ⟨reply, hproc, hopen, hempty⟩ := X.processPayload_ofEntries cluster shards es
      by_cases hnil : reply = []
      · subst hnil
        obtain ⟨log, hlog, hsettles⟩ := session_last cluster shards lo hi hX hY hproc hopen
        exact ⟨log, fun m hm => hlog m (by omega), hsettles⟩
      · have hreply : ∀ e ∈ reply, rank e ≤ n :=
          X.rank_reply _ _ hX.two_le_partitionCount hrank hopen
        obtain ⟨log, hlog, hsettles⟩ := ih hY hX reply hreply
        exact session_next cluster shards lo hi hX hY hnil hproc hopen hlog hsettles

end Session

/-! ### Exactness -/

/-- The first payload of `initiate`: the fingerprint of the whole range. -/
def SeqStorage.initPayload (self : SeqStorage) (cluster : UInt16) (shards : List UInt16)
    (bounds : Slice SyncID) : RangesData where
  cluster := cluster
  shards := shards
  ranges := [(bounds, .fingerprint)]
  fingerprints := [self.computeFingerprint bounds (shards.map (relayShardTopic cluster)) []]
  itemSets := []

/-- An element that both sides hold is in scope on both sides or on neither. -/
def ScopesAgree (topics : List PubsubTopic) (own other : SeqStorage) : Prop :=
  ∀ x ∈ own.elements, x ∈ other.elements → (x ∈ own.inScope topics ↔ x ∈ other.inScope topics)

/-- The hashes sent are those of the own elements in scope and in range that the other side lacks,
once each; the ids asked for are in range, held by the other side and lacking here.  What a side
holds is taken in scope; when the scopes agree it is the same without. -/
structure ExactFor (topics : List PubsubTopic) (r : Slice SyncID) (own other : SeqStorage)
    (send : List WakuMessageHash) (recv : List SyncID) : Prop where
  send_perm : send.Perm
    ((missing (within (own.inScope topics) r) (other.inScope topics)).map SyncID.hash)
  recv_missing : ∀ x ∈ recv, x ∈ within (other.inScope topics) r ∧ x ∉ own.inScope topics
  of_agree : ScopesAgree topics own other →
    send.Perm ((missing (within (own.inScope topics) r) other.elements).map SyncID.hash) ∧
      ∀ x ∈ recv, x ∈ within other.elements r ∧ x ∉ own.elements

theorem missing_within_eq (own other : List SyncID) (r : Slice SyncID) :
    missing (within own r) (within other r) = missing (within own r) other := by
  apply List.filter_congr
  intro x hx
  rw [decide_eq_decide, mem_within]
  have := (mem_within.mp hx).2
  tauto

theorem Settled.exactFor {topics : List PubsubTopic} {lo hi : ℤ} {own other : SeqStorage}
    (hown : own.WellFormed) (hother : other.WellFormed)
    {send : List WakuMessageHash} {recv : List SyncID}
    (h : Settled lo hi (own.inScope topics) (other.inScope topics)
      (missing (within (own.inScope topics) ⟨SyncID.atTime lo, SyncID.atTime hi⟩)
        (within (other.inScope topics) ⟨SyncID.atTime lo, SyncID.atTime hi⟩)) send recv) :
    ExactFor topics ⟨SyncID.atTime lo, SyncID.atTime hi⟩ own other send recv := by
  have hsub := (hown.inScope_sublist topics).subset
  have hsub' := (hother.inScope_sublist topics).subset
  have hsend := h.send_perm
  rw [missing_within_eq] at hsend
  have hrecv : ∀ x ∈ recv, x ∈ within (other.inScope topics) ⟨SyncID.atTime lo, SyncID.atTime hi⟩ ∧
      x ∉ own.inScope topics := by
    intro x hx
    have hmem := h.recv_missing x hx
    rw [missing_within_eq, missing, List.mem_filter, decide_eq_true_eq] at hmem
    exact hmem
  refine ⟨hsend, hrecv, ?_⟩
  intro hagree
  constructor
  · refine hsend.trans (List.Perm.of_eq (congrArg _ ?_))
    apply List.filter_congr
    intro x hx
    have hxs := (mem_within.mp hx).1
    rw [decide_eq_decide, not_iff_not]
    constructor
    · exact fun hx' => hsub' hx'
    · exact fun hx' => (hagree x (hsub hxs) hx').mp hxs
  · intro x hx
    obtain ⟨hin, hout⟩ := hrecv x hx
    obtain ⟨hmem, hbounds⟩ := mem_within.mp hin
    refine ⟨mem_within.mpr ⟨hsub' hmem, hbounds⟩, ?_⟩
    intro hel
    exact hout ((hagree x hel (hsub' hmem)).mpr hmem)

/-- **Range reconciliation is exact.**  The session that `A` starts with the fingerprint of a time
range ends, and if equal fingerprints at the compared ranges mean equal elements, each side has
sent exactly what the other lacks and asked only for what it lacks itself. -/
theorem session_exact (cluster : UInt16) (shards : List UInt16) (A B : SeqStorage)
    (hA : A.Reconcilable) (hB : B.Reconcilable) (lo hi : ℤ) :
    ∃ n log, (∀ m, n ≤ m → session m B A
        (A.initPayload cluster shards ⟨SyncID.atTime lo, SyncID.atTime hi⟩) = some log) ∧
      (NoCollision (A.inScope (shards.map (relayShardTopic cluster)))
          (B.inScope (shards.map (relayShardTopic cluster))) log.compared →
        ExactFor (shards.map (relayShardTopic cluster)) ⟨SyncID.atTime lo, SyncID.atTime hi⟩ A B
            log.askerSend log.askerRecv ∧
          ExactFor (shards.map (relayShardTopic cluster)) ⟨SyncID.atTime lo, SyncID.atTime hi⟩ B A
            log.answererSend log.answererRecv) := by
  set topics := shards.map (relayShardTopic cluster) with htopics
  set r : Slice SyncID := ⟨SyncID.atTime lo, SyncID.atTime hi⟩ with hr
  set f := xorAll ((within (A.inScope topics) r).map SyncID.hash) with hf
  have hfirst : A.initPayload cluster shards r =
      RangesData.ofEntries cluster shards [(r, .fingerprint f)] := by
    have hprint : A.computeFingerprint r topics [] = f := hA.fingerprint_eq topics r
    unfold SeqStorage.initPayload
    rw [← htopics, hprint]
    rfl
  obtain ⟨log, hlog, hsettles⟩ := session_ofEntries cluster shards lo hi (rank (r, .fingerprint f))
    hB hA [(r, .fingerprint f)] (by simp)
  refine ⟨rank (r, .fingerprint f) + 1, log, ?_, ?_⟩
  · intro m hm
    rw [hfirst]
    exact hlog m (by omega)
  · intro hcoll
    have hhonest : ∀ e ∈ [(r, RangeBody.fingerprint f)], Honest lo hi (A.inScope topics) e := by
      intro e he
      obtain rfl := List.mem_singleton.mp he
      exact ⟨⟨lo, hi, rfl, le_rfl, le_rfl⟩, rfl⟩
    obtain ⟨hans, hask⟩ := hsettles hhonest hcoll.symm
    rw [List.flatMap_singleton] at hans hask
    exact ⟨Settled.exactFor hA.wellFormed hB.wellFormed hask,
      Settled.exactFor hB.wellFormed hA.wellFormed hans⟩

/-- A storage with one message of shard `0`. -/
def oneMessage (e : SyncID) : SeqStorage := SeqStorage.insert {} e "/waku/2/rs/1/0" "/a"

theorem oneMessage_rows (e : SyncID) : (oneMessage e).rows = [(e, 0, 0)] := rfl

theorem oneMessage_reconcilable (e : SyncID) (he : e.hash ≠ emptyFingerprint) :
    (oneMessage e).Reconcilable where
  wellFormed := (SeqStorage.wellFormed_empty 8 100).insert e _ _
  two_le_partitionCount := by show (2 : ℤ) ≤ 8; omega
  no_pending := by
    rw [oneMessage_rows]
    intro row hrow
    obtain rfl := List.mem_singleton.mp hrow
    show some "/waku/2/rs/1/0" ≠ some pendingPubsubTopic
    decide
  no_zero_hash := by
    show ∀ x ∈ [e], _
    simpa using he
  sparse := by
    intro t w _
    have hlen : ((oneMessage e).elements.filter
        (fun x => decide (t ≤ x.time ∧ x.time < t + w))).length ≤ 1 := List.length_filter_le _ [e]
    show _ ≤ (100 : ℤ)
    omega

theorem within_singleton (e : SyncID) (r : Slice SyncID) : within [e] r = [] ∨ within [e] r = [e] := by
  unfold within
  rw [List.filter_singleton]
  cases inBounds r e <;> simp

/-- Two storages with a message each exchange them. -/
theorem session_exact_two_messages : ∃ n log,
    (∀ m, n ≤ m → session m (oneMessage ⟨7, constFingerprint 1⟩) (oneMessage ⟨5, fullFingerprint⟩)
      ((oneMessage ⟨5, fullFingerprint⟩).initPayload 1 [0]
        ⟨SyncID.atTime 0, SyncID.atTime 100⟩) = some log) ∧
    log.askerSend = [fullFingerprint] ∧ log.answererSend = [constFingerprint 1] := by
  obtain ⟨n, log, hlog, hexact⟩ := session_exact 1 [0] (oneMessage ⟨5, fullFingerprint⟩)
    (oneMessage ⟨7, constFingerprint 1⟩) (oneMessage_reconcilable _ (by decide))
    (oneMessage_reconcilable _ (by decide)) 0 100
  have hscope : ([0].map (relayShardTopic 1) : List PubsubTopic) = ["/waku/2/rs/1/0"] := by decide
  rw [hscope] at hexact
  have hcoll : NoCollision ((oneMessage ⟨5, fullFingerprint⟩).inScope ["/waku/2/rs/1/0"])
      ((oneMessage ⟨7, constFingerprint 1⟩).inScope ["/waku/2/rs/1/0"]) log.compared := by
    intro r _
    show xorAll ((within [⟨5, fullFingerprint⟩] r).map SyncID.hash) =
      xorAll ((within [⟨7, constFingerprint 1⟩] r).map SyncID.hash) → within [⟨5, fullFingerprint⟩] r =
      within [⟨7, constFingerprint 1⟩] r
    rcases within_singleton ⟨5, fullFingerprint⟩ r with h | h <;>
      rcases within_singleton ⟨7, constFingerprint 1⟩ r with h' | h' <;> rw [h, h'] <;> decide
  obtain ⟨hA, hB⟩ := hexact hcoll
  refine ⟨n, log, hlog, ?_, ?_⟩
  · exact List.perm_singleton.mp (hA.send_perm.trans (List.Perm.of_eq (by decide)))
  · exact List.perm_singleton.mp (hB.send_perm.trans (List.Perm.of_eq (by decide)))

end LogosDelivery.StoreSync
