import LogosDelivery.StoreSync.CodecRoundTrip
import LogosDelivery.StoreSync.Session

/-! # The bounds on the wire

A fingerprint or an item set means something only together with the bounds it was computed over,
and a bound travels without the part of its hash that the codec drops (`decodedBound`).  This
module says for which payloads of a node the receiver gets the bounds of the sender.

The first payload of `initiate` ends at a full hash, which is never written: its bounds do not
arrive, whatever the time range (`initiate_not_sameBounds`).  A reply carries the bounds of the
peer's own payload, or time slices with empty hashes.  Its ranges are followed one by one: `Sent`
is what was written before a range, and `SeqStorage.Conveys` that every open range of the reply
starts and ends where the codec says it does. -/

namespace LogosDelivery.StoreSync

open LogosDelivery.Lib (PackedSet VarintCodec)

/-- The ranges that carry a fingerprint or an item set. -/
def RangesData.openRanges (p : RangesData) : List (Slice SyncID × RangeType) :=
  p.ranges.filter (fun r => decide (r.2 ≠ .skip))

/-- The receiver of a payload gets its fingerprints and item sets with the bounds of the sender. -/
def RangesData.SameBounds (L : VarintCodec) (p : RangesData) : Prop :=
  ∃ bytes q, p.deltaEncode L = some bytes ∧ RangesData.deltaDecode L bytes = .ok q ∧
    q.openRanges = p.openRanges

/-- The first payload of a session, over the index without the expired promises. -/
def SyncReconciliation.initiate (self : SyncReconciliation) (moment clock offset syncRange : ℤ)
    (shards : List UInt16) : SyncReconciliation × RangesData :=
  let self := self.expirePending moment
  let timeRange := calculateTimeRange clock offset syncRange
  let lower : SyncID := ⟨timeRange.a, emptyFingerprint⟩
  let upper : SyncID := ⟨timeRange.b, fullFingerprint⟩
  (self, self.storage.initPayload self.cluster shards ⟨lower, upper⟩)

/-! ### Single bounds -/

theorem cutHash_emptyFingerprint (last : WakuMessageHash) :
    cutHash last emptyFingerprint = emptyFingerprint := by
  apply Subtype.ext
  rw [cutHash_val]
  show (List.replicate 32 0).take _ ++ List.replicate ((List.replicate 32 0).length - _) 0 =
    List.replicate 32 0
  have hle := sameBytes_le last.1 emptyFingerprint.1
  rw [emptyFingerprint.2] at hle
  rw [List.take_replicate, min_eq_left hle, List.length_replicate, List.replicate_append_replicate]
  congr 1
  omega

/-- A bound with the empty hash always arrives. -/
theorem decodedBound_atTime (last : SyncID) (t : ℤ) :
    decodedBound last (SyncID.atTime t) = SyncID.atTime t := by
  unfold decodedBound
  split_ifs
  · exact SyncID.ext rfl (cutHash_emptyFingerprint last.hash)
  · rfl

theorem decodedBound_of_empty (last : SyncID) {bound : SyncID} (h : bound.hash = emptyFingerprint) :
    decodedBound last bound = bound := by
  have hbound : bound = SyncID.atTime bound.time := SyncID.ext rfl h
  rw [hbound]
  exact decodedBound_atTime last bound.time

/-! ### A payload of entries -/

/-- Ranges with their fingerprints and item sets, read in step. -/
def zipEntries : List (Slice SyncID × RangeType) → List Fingerprint → List ItemSet → List Entry
  | (r, .skip) :: rest, fps, sets => (r, .skip) :: zipEntries rest fps sets
  | (r, .fingerprint) :: rest, f :: fps, sets => (r, .fingerprint f) :: zipEntries rest fps sets
  | (r, .itemSet) :: rest, fps, set :: sets => (r, .itemSet set) :: zipEntries rest fps sets
  | _, _, _ => []

/-- The entries of a payload. -/
def RangesData.entries (p : RangesData) : List Entry := zipEntries p.ranges p.fingerprints p.itemSets

theorem RangesData.entries_ofEntries (cluster : UInt16) (shards : List UInt16) (es : List Entry) :
    (RangesData.ofEntries cluster shards es).entries = es := by
  unfold entries ofEntries
  dsimp only
  induction es with
  | nil => rfl
  | cons e es ih =>
      obtain ⟨r, body⟩ := e
      cases body with
      | skip => simpa [zipEntries, List.filterMap_cons] using ih
      | fingerprint f => simpa [zipEntries, List.filterMap_cons] using ih
      | itemSet set => simpa [zipEntries, List.filterMap_cons] using ih

/-- The entries that are written: the leading skip up to the first bound, unless that is zero. -/
def withLeading : List Entry → List Entry
  | [] => []
  | (r, body) :: es =>
      if r.a ≠ SyncID.zero then (⟨SyncID.zero, r.a⟩, .skip) :: (r, body) :: es else (r, body) :: es

theorem deltaEncode_ofEntries (L : VarintCodec) (cluster : UInt16) (shards : List UInt16)
    (es : List Entry) :
    (RangesData.ofEntries cluster shards es).deltaEncode L =
      some (encodeHeader L (RangesData.ofEntries cluster shards es) ++
        encodeEntries L SyncID.zero (withLeading es)) := by
  have henc : ∀ last, encodeRanges L (RangesData.ofEntries cluster shards es) last
      (es.map (fun e => (e.1, e.2.type))) 0 0 = some (encodeEntries L last es) :=
    fun last => encodeRanges_eq L _ es last 0 0 rfl rfl
  cases es with
  | nil => simp [RangesData.deltaEncode, RangesData.ofEntries, withLeading, encodeEntries]
  | cons e es =>
      obtain ⟨r, body⟩ := e
      have hcons : (RangesData.ofEntries cluster shards ((r, body) :: es)).ranges =
          (r, body.type) :: es.map (fun e => (e.1, e.2.type)) := rfl
      rw [List.map_cons] at henc
      rw [RangesData.deltaEncode, withLeading]
      simp only [hcons]
      split_ifs with hzero
      · rw [henc]
        rfl
      · rw [henc]
        rfl

/-- The open ranges of these entries arrive, when the bound before them was written as `last` and
read as `lower`. -/
def Conveyed (last lower : SyncID) : List Entry → Prop
  | [] => True
  | (r, body) :: es =>
      (body ≠ .skip → lower = r.a ∧ decodedBound last r.b = r.b) ∧
        Conveyed r.b (decodedBound last r.b) es

/-- After an open range that arrived both sides are at the same bound. -/
theorem conveyed_open (last lower : SyncID) (r : Slice SyncID) {body : RangeBody}
    (h : body ≠ .skip) (es : List Entry) :
    Conveyed last lower ((r, body) :: es) ↔
      lower = r.a ∧ decodedBound last r.b = r.b ∧ Conveyed r.b r.b es := by
  rw [Conveyed, ← and_assoc]
  constructor
  · rintro ⟨hbounds, hrest⟩
    obtain ⟨ha, hb⟩ := hbounds h
    rw [hb] at hrest
    exact ⟨⟨ha, hb⟩, hrest⟩
  · rintro ⟨⟨ha, hb⟩, hrest⟩
    rw [hb]
    exact ⟨fun _ => ⟨ha, rfl⟩, hrest⟩

theorem conveyed_iff : ∀ (es : List Entry) (last lower : SyncID),
    ((decodedEntries last lower es).map (fun e => (e.1, e.2.type))).filter
          (fun r => decide (r.2 ≠ .skip)) =
        (es.map (fun e => (e.1, e.2.type))).filter (fun r => decide (r.2 ≠ .skip)) ↔
      Conveyed last lower es
  | [], _, _ => by simp [decodedEntries, Conveyed]
  | (r, body) :: es, last, lower => by
      have ih := conveyed_iff es r.b (decodedBound last r.b)
      rw [decodedEntries, Conveyed, List.map_cons, List.map_cons, ← ih]
      by_cases hskip : body = .skip
      · subst hskip
        rw [List.filter_cons_of_neg (by simp), List.filter_cons_of_neg (by simp)]
        simp
      · have hty : body.type ≠ .skip := fun h => hskip ((RangeBody.type_eq_skip body).mp h)
        rw [List.filter_cons_of_pos (by simpa using hty), List.filter_cons_of_pos (by simpa using hty),
          List.cons.injEq, Prod.mk.injEq, Slice.ext_iff]
        simp [hskip]

/-- **The bounds arrive** exactly when the entries that are written convey their open ranges. -/
theorem sameBounds_ofEntries {L : VarintCodec} (hL : L.Lawful) {cluster : UInt16}
    {shards : List UInt16} (hshards : shards.length ≤ 65536) {es : List Entry}
    (hw : Writable SyncID.zero (withLeading es)) :
    (RangesData.ofEntries cluster shards es).SameBounds L ↔
      Conveyed SyncID.zero SyncID.zero (withLeading es) := by
  have henc := deltaEncode_ofEntries L cluster shards es
  have hdec := deltaDecode_entries hL (RangesData.ofEntries cluster shards es) hshards hw
  have hopen : (RangesData.ofEntries cluster shards es).openRanges =
      ((withLeading es).map (fun e => (e.1, e.2.type))).filter (fun r => decide (r.2 ≠ .skip)) := by
    cases es with
    | nil => rfl
    | cons e es =>
        rw [withLeading]
        split_ifs
        · exact (List.filter_cons_of_neg (by simp)).symm
        · rfl
  rw [← conveyed_iff, ← hopen]
  constructor
  · rintro ⟨bytes, q, hbytes, hq, hbounds⟩
    obtain rfl := Option.some.inj (henc.symm.trans hbytes)
    obtain rfl := Except.ok.inj (hdec.symm.trans hq)
    exact hbounds
  · exact fun h => ⟨_, _, henc, hdec, h⟩

/-! ### Following the ranges of a reply -/

/-- What was written before a range. -/
inductive Sent where
  | nothing
  /-- The last bound, which arrived. -/
  | upTo (bound : SyncID)
  /-- A skip up to `bound`, which may still grow, after the bound `last`. -/
  | skipping (last bound : SyncID)
deriving DecidableEq

namespace Sent

/-- Where the receiver takes a range to start that starts at `a`. -/
def lower : Sent → SyncID → SyncID
  | nothing, a => decodedBound SyncID.zero a
  | upTo bound, _ => bound
  | skipping last bound, _ => decodedBound last bound

/-- The bound against which the upper bound of a range is written that starts at `a`. -/
def last : Sent → SyncID → SyncID
  | nothing, a => a
  | upTo bound, _ => bound
  | skipping _ bound, _ => bound

/-- A skip range comes next. -/
def skip : Sent → Slice SyncID → Sent
  | nothing, r => skipping r.a r.b
  | upTo bound, r => skipping bound r.b
  | skipping last _, r => skipping last r.b

end Sent

/-- The open ones of these entries arrive when their skips are merged. -/
def AnswersConveyed : Sent → List Entry → Prop
  | _, [] => True
  | s, (r, body) :: es =>
      if body = .skip then AnswersConveyed (s.skip r) es
      else s.lower r.a = r.a ∧ decodedBound (s.last r.a) r.b = r.b ∧ AnswersConveyed (.upTo r.b) es

theorem answersConveyed_skip (s : Sent) (r : Slice SyncID) (es : List Entry) :
    AnswersConveyed s ((r, .skip) :: es) ↔ AnswersConveyed (s.skip r) es := by
  rw [AnswersConveyed, if_pos rfl]

theorem answersConveyed_open (s : Sent) (r : Slice SyncID) {body : RangeBody} (h : body ≠ .skip)
    (es : List Entry) :
    AnswersConveyed s ((r, body) :: es) ↔
      s.lower r.a = r.a ∧ decodedBound (s.last r.a) r.b = r.b ∧ AnswersConveyed (.upTo r.b) es := by
  rw [AnswersConveyed, if_neg h]

/-- Merged entries after a bound that arrived, and after a skip. -/
theorem conveyed_mergeSkips : ∀ es : List Entry,
    (∀ bound, Conveyed bound bound (mergeSkips .skip es) ↔ AnswersConveyed (.upTo bound) es) ∧
      ∀ last lower (r : Slice SyncID),
        Conveyed last lower (mergeInto .skip (r, .skip) (mergeSkips .skip es)) ↔
          AnswersConveyed (.skipping last r.b) es
  | [] => by simp [mergeSkips, mergeInto, Conveyed, AnswersConveyed]
  | (r, body) :: es => by
      obtain ⟨ih1, ih2⟩ := conveyed_mergeSkips es
      by_cases hskip : body = .skip
      · subst hskip
        constructor
        · intro bound
          rw [mergeSkips_cons, ih2, answersConveyed_skip]
          rfl
        · intro last lower r'
          rw [mergeSkips_cons, mergeInto_mergeInto, ih2, answersConveyed_skip]
          rfl
      · have hopen := fun last lower => (conveyed_open last lower r hskip (mergeSkips .skip es)).trans
          (and_congr_right' (and_congr_right' (ih1 r.b)))
        rw [mergeSkips_cons, mergeInto_of_ne _ hskip]
        constructor
        · intro bound
          rw [hopen, answersConveyed_open _ _ hskip]
          rfl
        · intro last lower r'
          have hmerge : mergeInto RangeBody.skip (r', .skip) ((r, body) :: mergeSkips .skip es) =
              (r', .skip) :: (r, body) :: mergeSkips .skip es := if_neg (fun h => hskip h.2)
          rw [hmerge, Conveyed, hopen, answersConveyed_open _ _ hskip]
          simp [Sent.lower, Sent.last]

/-- The first bound of a merged list is the first bound. -/
theorem mergeInto_head (e : Entry) (es : List Entry) :
    ∃ r body rest, mergeInto RangeBody.skip e es = (r, body) :: rest ∧ r.a = e.1.a := by
  cases es with
  | nil => exact ⟨e.1, e.2, [], rfl, rfl⟩
  | cons next es =>
      rw [mergeInto]
      split_ifs
      · exact ⟨_, _, _, rfl, rfl⟩
      · exact ⟨e.1, e.2, _, rfl, rfl⟩

theorem conveyed_withLeading {r : Slice SyncID} {body : RangeBody} {es : List Entry} :
    Conveyed SyncID.zero SyncID.zero (withLeading ((r, body) :: es)) ↔
      Conveyed r.a (decodedBound SyncID.zero r.a) ((r, body) :: es) := by
  rw [withLeading]
  split_ifs with hzero
  · rw [Conveyed]
    simp
  · rw [not_not] at hzero
    rw [hzero, show decodedBound SyncID.zero SyncID.zero = SyncID.zero from decodedBound_atTime _ 0]

/-- The reply as a whole. -/
theorem conveyed_replyEntries (answers : List Entry) :
    Conveyed SyncID.zero SyncID.zero (withLeading (replyEntries answers)) ↔
      AnswersConveyed .nothing answers := by
  have hmerged : Conveyed SyncID.zero SyncID.zero (withLeading (mergeSkips .skip answers)) ↔
      AnswersConveyed .nothing answers := by
    cases answers with
    | nil => simp [mergeSkips, withLeading, Conveyed, AnswersConveyed]
    | cons e es =>
        obtain ⟨r, body⟩ := e
        obtain ⟨r', body', rest, hhead, ha⟩ := mergeInto_head (r, body) (mergeSkips .skip es)
        rw [mergeSkips_cons, hhead, conveyed_withLeading, ha, ← hhead]
        by_cases hskip : body = .skip
        · subst hskip
          rw [(conveyed_mergeSkips es).2, answersConveyed_skip]
          rfl
        · rw [mergeInto_of_ne _ hskip, answersConveyed_open _ _ hskip, conveyed_open _ _ _ hskip,
            (conveyed_mergeSkips es).1]
          rfl
  unfold replyEntries
  split_ifs with hnil
  · -- nothing is open, so there is nothing to convey
    refine ⟨fun _ => ?_, fun _ => trivial⟩
    have hskips : ∀ (es : List Entry) (s : Sent), openEntries es = [] → AnswersConveyed s es := by
      intro es
      induction es with
      | nil => exact fun _ _ => trivial
      | cons e es ih =>
          intro s h
          obtain ⟨r, body⟩ := e
          by_cases hskip : body = .skip
          · subst hskip
            rw [answersConveyed_skip]
            exact ih _ (by simpa [openEntries] using h)
          · simp [openEntries, hskip] at h
    exact hskips answers .nothing hnil
  · exact hmerged

/-! ### The ranges a node answers -/

/-- How a range is answered: by a skip, over the same bounds, in time slices, or not at all. -/
inductive Fate where
  | skip
  | whole
  | split
  | dropped
deriving DecidableEq

namespace SeqStorage

variable (self : SeqStorage) (ps cs : PackedSet ℤ)

/-- A fingerprint that differs is answered whole when few elements are here, and in slices when
there are many; but a range with less than a nanosecond for each slice is not cut at all, and then
left out. -/
def fate : Entry → Fate
  | (_, .skip) => .skip
  | (r, .fingerprint f) =>
      if self.computeFingerprintFromSlice (self.findIdxBounds r) ps cs = f then .skip
      else
        match self.findIdxBounds r with
        | none => .whole
        | some slice =>
            if ((slice.2 - slice.1 : ℕ) : ℤ) ≤ self.lengthThreshold then .whole
            else if self.partitionCount < 1 ∨ r.b.time - r.a.time < self.partitionCount then .dropped
            else .split
  | (_, .itemSet set) => if set.reconciled = false then .whole else .skip

/-- **The condition on a received payload.**  Every range that is answered whole or in slices starts
where the receiver of the answer takes it to start, and the upper bound of one that is answered
whole is not cut. -/
def Conveys : Sent → List Entry → Prop
  | _, [] => True
  | s, e :: es =>
      match self.fate ps cs e with
      | .skip => Conveys (s.skip e.1) es
      | .whole => s.lower e.1.a = e.1.a ∧ decodedBound (s.last e.1.a) e.1.b = e.1.b ∧
          Conveys (.upTo e.1.b) es
      | .split => s.lower (SyncID.atTime e.1.a.time) = SyncID.atTime e.1.a.time ∧
          Conveys (.upTo (SyncID.atTime e.1.b.time)) es
      | .dropped => Conveys s es

theorem describe_ne_skip (r : Slice SyncID) : self.describe ps cs r ≠ .skip := by
  unfold describe
  cases self.findIdxBounds r with
  | none => simp
  | some slice =>
      dsimp only
      split_ifs <;> simp

/-- The time slices of a range, each with what is said about it. -/
def slices (r : Slice SyncID) : List Entry :=
  (equalPartitioning r self.partitionCount).map (fun part => (part, self.describe ps cs part))

theorem equalPartitioning_of_not_pos (r : Slice SyncID) {count : ℤ} (h : count < 1) :
    equalPartitioning r count = [] := by
  unfold equalPartitioning
  dsimp only
  split_ifs
  · rfl
  · rw [Int.toNat_of_nonpos (by omega)]
    rfl

/-- An answer follows the fate of its range. -/
theorem answer_cases (e : Entry) :
    (self.fate ps cs e = .skip ∧ self.answer ps cs e = [(e.1, .skip)]) ∨
    (self.fate ps cs e = .whole ∧ ∃ body, body ≠ .skip ∧ self.answer ps cs e = [(e.1, body)]) ∨
    (self.fate ps cs e = .split ∧ 1 ≤ self.partitionCount ∧
      self.partitionCount ≤ e.1.b.time - e.1.a.time ∧ self.answer ps cs e = self.slices ps cs e.1) ∨
    (self.fate ps cs e = .dropped ∧ self.answer ps cs e = []) := by
  obtain ⟨r, body⟩ := e
  cases body with
  | skip => exact Or.inl ⟨rfl, rfl⟩
  | itemSet set =>
      unfold fate answer answerItemSet
      dsimp only
      split_ifs
      · exact Or.inr (Or.inl ⟨rfl, _, by simp, rfl⟩)
      · exact Or.inl ⟨rfl, rfl⟩
  | fingerprint f =>
      show (self.fate ps cs (r, .fingerprint f) = .skip ∧ self.answerFingerprint ps cs r f = _) ∨
        (_ ∧ ∃ body, body ≠ RangeBody.skip ∧ self.answerFingerprint ps cs r f = _) ∨
        (_ ∧ _ ∧ _ ∧ self.answerFingerprint ps cs r f = _) ∨ _ ∧ self.answerFingerprint ps cs r f = _
      by_cases hf : self.computeFingerprintFromSlice (self.findIdxBounds r) ps cs = f
      · exact Or.inl ⟨if_pos hf, if_pos hf⟩
      rw [fate, answerFingerprint, if_neg hf, if_neg hf]
      cases hidx : self.findIdxBounds r with
      | none =>
          have hbody : self.describe ps cs r = .itemSet { elements := [], reconciled := true } := by
            rw [describe, hidx]
          rw [hbody]
          exact Or.inr (Or.inl ⟨rfl, _, by simp, rfl⟩)
      | some slice =>
          dsimp only
          by_cases hfew : ((slice.2 - slice.1 : ℕ) : ℤ) ≤ self.lengthThreshold
          · have hbody : self.describe ps cs r = .itemSet
                { elements := self.getFilteredElements slice ps cs, reconciled := false } := by
              rw [describe, hidx]
              exact if_pos hfew
            rw [hbody, if_pos hfew]
            exact Or.inr (Or.inl ⟨rfl, _, by simp, rfl⟩)
          · have hbody : self.describe ps cs r =
                .fingerprint (self.computeFingerprintFromSlice (some slice) ps cs) := by
              rw [describe, hidx]
              exact if_neg hfew
            rw [hbody, if_neg hfew]
            refine Or.inr (Or.inr ?_)
            split_ifs with hshort
            · refine Or.inr ⟨rfl, List.map_eq_nil_iff.mpr ?_⟩
              exact hshort.elim (equalPartitioning_of_not_pos r) equalPartitioning_of_lt
            · rw [not_or, not_lt, not_lt] at hshort
              exact Or.inl ⟨rfl, hshort.1, hshort.2, rfl⟩

/-- Slices arrive one after the other: their inner bounds have empty hashes. -/
theorem answersConveyed_tiles {lo hi : ℤ} {parts : List (Slice SyncID)} (h : Tiles lo hi parts)
    (rest : List Entry) :
    AnswersConveyed (.upTo (SyncID.atTime lo))
        (parts.map (fun part => (part, self.describe ps cs part)) ++ rest) ↔
      AnswersConveyed (.upTo (SyncID.atTime hi)) rest := by
  induction h with
  | nil t => rfl
  | cons hlt _ ih =>
      rw [List.map_cons, List.cons_append, answersConveyed_open _ _ (self.describe_ne_skip ps cs _), ih]
      simp [Sent.lower, decodedBound_atTime]

theorem answersConveyed_slices (s : Sent) {r : Slice SyncID} (hcount : 1 ≤ self.partitionCount)
    (hlen : self.partitionCount ≤ r.b.time - r.a.time) (rest : List Entry) :
    AnswersConveyed s (self.slices ps cs r ++ rest) ↔
      s.lower (SyncID.atTime r.a.time) = SyncID.atTime r.a.time ∧
        AnswersConveyed (.upTo (SyncID.atTime r.b.time)) rest := by
  have htiles := equalPartitioning_tiles r hcount hlen
  unfold slices
  generalize equalPartitioning r self.partitionCount = parts at htiles
  generalize r.b.time = hi at htiles hlen ⊢
  generalize r.a.time = lo at htiles hlen ⊢
  cases htiles with
  | nil => omega
  | cons hlt htail =>
      rw [List.map_cons, List.cons_append, answersConveyed_open _ _ (self.describe_ne_skip ps cs _),
        self.answersConveyed_tiles ps cs htail]
      simp [decodedBound_atTime]

/-- The answers convey their open ranges exactly when the condition holds. -/
theorem answersConveyed_iff : ∀ (es : List Entry) (s : Sent),
    AnswersConveyed s (es.flatMap (self.answer ps cs)) ↔ self.Conveys ps cs s es
  | [], _ => Iff.rfl
  | e :: es, s => by
      rw [List.flatMap_cons, Conveys]
      rcases self.answer_cases ps cs e with ⟨hfate, ha⟩ | ⟨hfate, body, hbody, ha⟩ |
        ⟨hfate, hcount, hlen, ha⟩ | ⟨hfate, ha⟩
      · rw [hfate, ha, List.singleton_append, answersConveyed_skip, answersConveyed_iff es]
      · rw [hfate, ha, List.singleton_append, answersConveyed_open _ _ hbody, answersConveyed_iff es]
      · rw [hfate, ha, self.answersConveyed_slices ps cs s hcount hlen, answersConveyed_iff es]
      · rw [hfate, ha, List.nil_append, answersConveyed_iff es]

end SeqStorage

/-! ### Replies can be written -/

theorem Writable.mono {last last' : SyncID} {es : List Entry} (h : Writable last es)
    (hle : last' ≤ last) : Writable last' es := by
  cases es with
  | nil => trivial
  | cons e es => exact ⟨lt_of_le_of_lt hle h.1, h.2⟩

theorem writable_mergeInto {last : SyncID} {e : Entry} {es : List Entry} (h : Writable last (e :: es)) :
    Writable last (mergeInto .skip e es) := by
  cases es with
  | nil => exact h
  | cons next es =>
      rw [mergeInto]
      split_ifs with hboth
      · obtain ⟨hlt, _, _, hlt', hmax, _, hrest⟩ := h
        exact ⟨hlt.trans hlt', hmax, by simp, hrest⟩
      · exact h

theorem writable_mergeSkips : ∀ {es : List Entry} {last : SyncID}, Writable last es →
    Writable last (mergeSkips .skip es)
  | [], _, _ => trivial
  | _ :: _, _, h => by
      rw [mergeSkips_cons]
      exact writable_mergeInto ⟨h.1, h.2.1, h.2.2.1, writable_mergeSkips h.2.2.2⟩

theorem writable_withLeading {es : List Entry} (hw : Writable SyncID.zero es)
    (hstart : ∀ e ∈ es, 0 ≤ e.1.a.time ∧ e.1.a < e.1.b) :
    Writable SyncID.zero (withLeading (replyEntries es)) := by
  unfold replyEntries
  split_ifs
  · trivial
  cases es with
  | nil => trivial
  | cons e es =>
      obtain ⟨h0, hlt⟩ := hstart e List.mem_cons_self
      obtain ⟨r, body, rest, hhead, ha⟩ := mergeInto_head e (mergeSkips .skip es)
      have hmerged := writable_mergeSkips hw
      have hfrom := @writable_mergeSkips (e :: es) e.1.a ⟨hlt, hw.2⟩
      rw [mergeSkips_cons, hhead] at hmerged hfrom ⊢
      rw [withLeading]
      split_ifs with hzero
      · rw [ha] at hzero ⊢
        refine ⟨lt_of_le_of_ne (SyncID.zero_le h0) (Ne.symm hzero), ?_, by simp, hfrom⟩
        exact (SyncID.time_le_of_le hlt.le).trans hw.2.1
      · exact hmerged

namespace SeqStorage

variable {self : SeqStorage} (h : self.WellFormed) (ps cs : PackedSet ℤ)

/-- The bounds of an answer lie in the times of its range. -/
theorem answer_bounds {e e' : Entry} (he' : e' ∈ self.answer ps cs e) (hlt : e.1.a < e.1.b) :
    e.1.a.time ≤ e'.1.a.time ∧ e'.1.a < e'.1.b ∧ e'.1.b.time ≤ e.1.b.time := by
  have hown : e.1.a.time ≤ e.1.a.time ∧ e.1.a < e.1.b ∧ e.1.b.time ≤ e.1.b.time :=
    ⟨le_rfl, hlt, le_rfl⟩
  rcases self.answer_cases ps cs e with ⟨_, ha⟩ | ⟨_, body, _, ha⟩ | ⟨_, hcount, hlen, ha⟩ | ⟨_, ha⟩
  · rw [ha, List.mem_singleton] at he'
    rw [he']
    exact hown
  · rw [ha, List.mem_singleton] at he'
    rw [he']
    exact hown
  · rw [ha, slices, List.mem_map] at he'
    obtain ⟨part, hpart, rfl⟩ := he'
    obtain ⟨s, t, rfl, h1, h2, h3⟩ := (equalPartitioning_tiles e.1 hcount hlen).mem hpart
    exact ⟨h1, SyncID.lt_of_time_lt h2, h3⟩
  · rw [ha] at he'
    simp at he'

/-- Slices go up to the time `hi`, where the other entries go on. -/
theorem writable_tiles {lo hi : ℤ} {parts : List (Slice SyncID)} (htiles : Tiles lo hi parts)
    (hne : lo < hi) (hmax : hi ≤ maxTimestamp)
    (hsets : ∀ part ∈ parts, ∀ set, self.describe ps cs part = .itemSet set → set.Encodable)
    {rest : List Entry} : ∀ last : SyncID, last.time ≤ lo → Writable (SyncID.atTime hi) rest →
    Writable last (parts.map (fun part => (part, self.describe ps cs part)) ++ rest) := by
  induction htiles with
  | nil t => omega
  | @cons lo ub hi parts hlo htail ih =>
      intro last hle hrest
      have hub := htail.le
      refine ⟨SyncID.lt_of_time_lt (lt_of_le_of_lt hle hlo), ?_, hsets _ List.mem_cons_self, ?_⟩
      · show ub ≤ maxTimestamp
        omega
      · rcases eq_or_lt_of_le hub with rfl | hlt
        · cases htail with
          | nil => exact hrest
          | cons hlt htail =>
              have := htail.le
              omega
        · exact ih hlt hmax (fun part hpart => hsets part (List.mem_cons_of_mem _ hpart)) _ le_rfl hrest

include h

theorem describe_itemSet {r : Slice SyncID} {set : ItemSet}
    (hset : self.describe ps cs r = .itemSet set) : set.elements = self.visible ps cs r := by
  unfold describe at hset
  cases hidx : self.findIdxBounds r with
  | none =>
      rw [hidx] at hset
      cases hset
      exact (h.visible_of_none hidx ps cs).symm
  | some slice =>
      rw [hidx] at hset
      dsimp only at hset
      split_ifs at hset
      cases hset
      exact h.getFilteredElements_eq hidx ps cs

/-- The item sets that go back hold the local elements of their range. -/
theorem answer_itemSet {e : Entry} {r : Slice SyncID} {set : ItemSet}
    (hmem : (r, .itemSet set) ∈ self.answer ps cs e) : set.elements = self.visible ps cs r := by
  obtain ⟨r₀, body⟩ := e
  cases body with
  | skip => simp [answer] at hmem
  | itemSet theirs =>
      rw [answer, List.mem_singleton, answerItemSet] at hmem
      split_ifs at hmem
      · cases hmem
        exact h.passing_ownRows r
      · cases hmem
  | fingerprint f =>
      rw [answer, answerFingerprint] at hmem
      split_ifs at hmem
      · simp at hmem
      · cases hbody : self.describe ps cs r₀ with
        | skip => exact absurd hbody (self.describe_ne_skip ps cs r₀)
        | itemSet own =>
            rw [hbody, List.mem_singleton] at hmem
            cases hmem
            exact describe_itemSet h ps cs hbody
        | fingerprint g =>
            rw [hbody] at hmem
            obtain ⟨part, _, hpart⟩ := List.mem_map.mp hmem
            obtain ⟨rfl, hset⟩ := Prod.mk.inj hpart
            exact describe_itemSet h ps cs hset

/-- A seq of local elements can be written. -/
theorem visible_encodable (hlength : self.elements.length < 2 ^ 63) {r : Slice SyncID}
    (h0 : 0 ≤ r.a.time) (hmax : r.b.time ≤ maxTimestamp) {set : ItemSet}
    (hset : set.elements = self.visible ps cs r) : set.Encodable := by
  refine ⟨?_, ?_, ?_⟩
  · have hrows := h.rows_length
    have hle : (self.visible ps cs r).length ≤ self.rows.length := by
      rw [visible_eq, List.length_map]
      exact (List.length_filter_le _ _).trans (List.length_filter_le _ _)
    rw [hset]
    omega
  · intro x hx
    rw [hset, visible, List.mem_filter, inBounds_iff] at hx
    have h1 := SyncID.time_le_of_le hx.2.1
    have h2 := SyncID.time_le_of_le hx.2.2
    omega
  · rw [hset]
    exact (h.visible_sorted ps cs r).imp (fun hxy => SyncID.time_le_of_le hxy.le)

/-- The answers to received ranges go up and can be written. -/
theorem writable_answers (hlength : self.elements.length < 2 ^ 63) : ∀ (es : List Entry)
    (last : SyncID), 0 ≤ last.time → ReceivedFrom last (es.map (fun e => (e.1, e.2.type))) →
    Writable last (es.flatMap (self.answer ps cs)) ∧
      ∀ e' ∈ es.flatMap (self.answer ps cs), 0 ≤ e'.1.a.time ∧ e'.1.a < e'.1.b
  | [], _, _, _ => ⟨trivial, by simp⟩
  | e :: es, last, h0, hreceived => by
      obtain ⟨ha, hlt, hmax, _, hrest⟩ := hreceived
      replace ha : e.1.a = last := ha
      replace hlt : last < e.1.b := hlt
      replace hmax : e.1.b.time ≤ maxTimestamp := hmax
      have htime := SyncID.time_le_of_le hlt.le
      obtain ⟨ih, ihstart⟩ := writable_answers hlength es e.1.b (by omega) hrest
      have hbounds : ∀ e' ∈ self.answer ps cs e, 0 ≤ e'.1.a.time ∧ e'.1.a < e'.1.b ∧
          e'.1.b.time ≤ maxTimestamp := by
        intro e' he'
        obtain ⟨h1, h2, h3⟩ := answer_bounds ps cs he' (ha ▸ hlt)
        rw [ha] at h1
        exact ⟨by omega, h2, by omega⟩
      have hsets : ∀ e' ∈ self.answer ps cs e, ∀ set, e'.2 = .itemSet set → set.Encodable := by
        rintro ⟨r, body⟩ he' set rfl
        obtain ⟨h1, _, h3⟩ := hbounds _ he'
        exact visible_encodable h ps cs hlength h1 h3 (answer_itemSet h ps cs he')
      rw [List.flatMap_cons]
      constructor
      · rcases self.answer_cases ps cs e with ⟨_, hans⟩ | ⟨_, body, _, hans⟩ | ⟨_, hcount, hlen, hans⟩ |
          ⟨_, hans⟩
        · rw [hans, List.singleton_append]
          exact ⟨hlt, hmax, by simp, ih⟩
        · rw [hans] at hsets ⊢
          rw [List.singleton_append]
          exact ⟨hlt, hmax, hsets _ (List.mem_singleton_self _), ih⟩
        · rw [hans] at hsets ⊢
          refine writable_tiles ps cs (equalPartitioning_tiles e.1 hcount hlen) (by omega) hmax ?_ last
            (by rw [ha]) (ih.mono (SyncID.atTime_le_iff.mpr le_rfl))
          intro part hpart set hset
          exact hsets _ (List.mem_map_of_mem hpart) set hset
        · rw [hans, List.nil_append]
          exact ih.mono hlt.le
      · intro e' he'
        rcases List.mem_append.mp he' with he' | he'
        · exact ⟨(hbounds e' he').1, (hbounds e' he').2.1⟩
        · exact ihstart e' he'

end SeqStorage

/-- The pre-processing leaves ranges as they come out of the decoder. -/
theorem receivedFrom_clipEntries (lowerBound : ℤ) : ∀ (es : List Entry) (last : SyncID),
    ReceivedFrom last (es.map (fun e => (e.1, e.2.type))) →
    ReceivedFrom last ((clipEntries lowerBound es).map (fun e => (e.1, e.2.type)))
  | [], _, _ => trivial
  | (r, body) :: es, last, h => by
      obtain ⟨ha, hlt, hmax, hempty, hrest⟩ := h
      replace ha : r.a = last := ha
      have ih := receivedFrom_clipEntries lowerBound es r.b hrest
      by_cases hskip : body = .skip
      · subst hskip
        exact ⟨ha, hlt, hmax, hempty, ih⟩
      · rw [clipEntries_open lowerBound hskip]
        split_ifs with hbefore hcross
        · exact ⟨ha, hlt, hmax, hempty, ih⟩
        · -- the range crosses the lower bound, so its upper bound has a later time than `last`
          have hsplit : SyncID.atTime lowerBound < r.b := cmp_eq_neg_one_iff.mp (not_not.mp hbefore)
          have htime := SyncID.time_le_of_le hsplit.le
          replace htime : lowerBound ≤ r.b.time := htime
          rw [ha] at hcross
          refine ⟨ha, SyncID.lt_of_time_lt hcross, htime.trans hmax, fun _ => rfl, rfl, hsplit, hmax, ?_,
            hrest⟩
          intro _
          exact hempty (show last.time ≠ r.b.time by omega)
        · exact ⟨ha, hlt, hmax, hempty, hrest⟩

/-! ### The payloads of a node -/

namespace SyncReconciliation

/-- A node as its operations leave it: the index is well formed and, as a seq, shorter than the
largest `int`; the shards are a set. -/
structure Valid (node : SyncReconciliation) : Prop where
  wellFormed : node.storage.WellFormed
  length_lt : node.storage.elements.length < 2 ^ 63
  shards_nodup : node.shards.Nodup

theorem length_le_of_nodup {shards : List UInt16} (h : shards.Nodup) : shards.length ≤ 65536 := by
  have hmap : (shards.map UInt16.toFin).Nodup := h.map UInt16.toFin_injective
  have hcard := hmap.length_le_card
  rw [List.length_map, Fintype.card_fin] at hcard
  exact hcard

/-- The shards of a reply are those of the node, some of them, or those of the peer. -/
theorem scopeShards_length {self : SyncReconciliation} (h : self.shards.Nodup)
    {shards scope : List UInt16} (hshards : shards.length ≤ 65536)
    (hscope : self.scopeShards shards = some scope) : scope.length ≤ 65536 := by
  unfold scopeShards at hscope
  dsimp only at hscope
  split_ifs at hscope
  · obtain rfl := Option.some.inj hscope
    exact (List.length_filter_le _ _).trans (length_le_of_nodup h)
  · obtain rfl := Option.some.inj hscope
    exact length_le_of_nodup h
  · obtain rfl := Option.some.inj hscope
    exact hshards

/-- The reply to a payload keeps the bounds of its open ranges.  Out of scope it has none. -/
def Conveys (self : SyncReconciliation) (lowerBound : ℤ) (recvPayload : RangesData) : Prop :=
  ∀ scope, recvPayload.cluster = self.cluster → self.scopeShards recvPayload.shards = some scope →
    self.storage.Conveys (self.scopeSet scope) ∅ .nothing
      (clipEntries lowerBound recvPayload.entries)

theorem sameBounds_reply {L : VarintCodec} (hL : L.Lawful) {self : SyncReconciliation}
    (h : self.Valid) {cluster : UInt16} {shards : List UInt16} (hshards : shards.length ≤ 65536)
    {es : List Entry} (hreceived : ReceivedFrom SyncID.zero (es.map (fun e => (e.1, e.2.type))))
    (lowerBound : ℤ) (peerId : PeerId) (now : ℤ) :
    ∃ self' reply diffs,
      self.reconcileRound (RangesData.ofEntries cluster shards es) lowerBound peerId now =
        some (self', reply, diffs) ∧
      (reply.SameBounds L ↔ self.Conveys lowerBound (RangesData.ofEntries cluster shards es)) := by
  unfold Conveys
  rw [RangesData.entries_ofEntries]
  by_cases hout : cluster ≠ self.cluster ∨ self.scopeShards shards = none
  · refine ⟨_, _, _, self.reconcileRound_outOfScope es lowerBound peerId now hout, ?_⟩
    have hw : Writable SyncID.zero (withLeading []) := trivial
    rw [sameBounds_ofEntries hL (length_le_of_nodup h.shards_nodup) hw]
    refine iff_of_true trivial ?_
    intro scope hcluster hscope
    rcases hout with hne | hnone
    · exact absurd hcluster hne
    · cases hnone.symm.trans hscope
  · rw [not_or, not_not] at hout
    obtain ⟨hcluster, hsome⟩ := hout
    obtain ⟨scope, hscope⟩ := Option.ne_none_iff_exists'.mp hsome
    refine ⟨_, _, _, self.reconcileRound_inScope es lowerBound peerId now hcluster hscope, ?_⟩
    obtain ⟨hw, hstart⟩ := SeqStorage.writable_answers h.wellFormed (self.scopeSet scope) ∅ h.length_lt
      (clipEntries lowerBound es) SyncID.zero le_rfl (receivedFrom_clipEntries lowerBound es _ hreceived)
    rw [roundReply, sameBounds_ofEntries hL (scopeShards_length h.shards_nodup hshards hscope)
      (writable_withLeading hw hstart), conveyed_replyEntries, SeqStorage.answersConveyed_iff]
    constructor
    · intro hconveys scope' _ hscope'
      obtain rfl := Option.some.inj (hscope.symm.trans hscope')
      exact hconveys
    · exact fun hconveys => hconveys scope hcluster hscope

end SyncReconciliation

theorem ReceivedFrom.mem : ∀ {ranges : List (Slice SyncID × RangeType)} {last : SyncID},
    ReceivedFrom last ranges → 0 ≤ last.time → ∀ r ∈ ranges,
    0 ≤ r.1.a.time ∧ r.1.a < r.1.b ∧ r.1.b.time ≤ maxTimestamp
  | (r, _) :: _, last, ⟨ha, hlt, hmax, _, hrest⟩, h0, r', hr' => by
      rcases List.mem_cons.mp hr' with rfl | hr'
      · replace ha : r.a = last := ha
        rw [ha]
        exact ⟨h0, hlt, hmax⟩
      · exact hrest.mem (h0.trans (SyncID.time_le_of_le hlt.le)) r' hr'

/-- A full hash is never written in full after an empty one. -/
theorem decodedBound_fullFingerprint (s t : ℤ) :
    decodedBound (SyncID.atTime s) ⟨t, fullFingerprint⟩ ≠ ⟨t, fullFingerprint⟩ := by
  intro h
  have hhash := congrArg SyncID.hash h
  unfold decodedBound at hhash
  split_ifs at hhash
  · exact absurd hhash (show cutHash emptyFingerprint fullFingerprint ≠ fullFingerprint by decide)
  · exact absurd hhash (show emptyFingerprint ≠ fullFingerprint by decide)

/-- The bounds of the first payload never arrive. -/
theorem initPayload_not_sameBounds {L : VarintCodec} (hL : L.Lawful) (storage : SeqStorage)
    (cluster : UInt16) {shards : List UInt16} (hshards : shards.length ≤ 65536) (s t : ℤ) :
    ¬ (storage.initPayload cluster shards
      ⟨SyncID.atTime s, ⟨t, fullFingerprint⟩⟩).SameBounds L := by
  intro hsame
  set r : Slice SyncID := ⟨SyncID.atTime s, ⟨t, fullFingerprint⟩⟩ with hr
  set f := storage.computeFingerprint r (shards.map (relayShardTopic cluster)) [] with hf
  have hfirst : storage.initPayload cluster shards r =
      RangesData.ofEntries cluster shards [(r, .fingerprint f)] := rfl
  -- the receiver accepts the range only if it lies within the timestamps
  obtain ⟨h0, hlt, hmax⟩ : 0 ≤ s ∧ SyncID.atTime s < ⟨t, fullFingerprint⟩ ∧ t ≤ maxTimestamp := by
    obtain ⟨bytes, q, _, hq, hbounds⟩ := hsame
    obtain ⟨_, es, hes, hreceived⟩ := deltaDecode_received hq
    have hmem : (r, RangeType.fingerprint) ∈ q.openRanges := by
      rw [hbounds]
      exact List.mem_singleton_self _
    rw [hes] at hmem
    exact hreceived.mem le_rfl _ (List.mem_filter.mp hmem).1
  have hw : Writable SyncID.zero (withLeading [(r, .fingerprint f)]) := by
    rw [withLeading]
    split_ifs with hzero
    · refine ⟨lt_of_le_of_ne (SyncID.zero_le h0) (Ne.symm hzero), ?_, by simp, hlt, hmax, by simp, trivial⟩
      exact (SyncID.time_le_of_le hlt.le).trans hmax
    · rw [not_not] at hzero
      refine ⟨?_, hmax, by simp, trivial⟩
      rw [← hzero]
      exact hlt
  rw [hfirst, sameBounds_ofEntries hL hshards hw, conveyed_withLeading,
    conveyed_open _ _ _ (by simp)] at hsame
  exact decodedBound_fullFingerprint s t hsame.2.1

/-! ### Payloads with empty hashes -/

theorem Sent.lower_of_empty {s : Sent} {a : SyncID} (hs : s.last a = a)
    (ha : a.hash = emptyFingerprint) : s.lower a = a := by
  cases s with
  | nothing => exact decodedBound_of_empty _ ha
  | upTo bound => exact hs
  | skipping last bound =>
      replace hs : bound = a := hs
      rw [Sent.lower, hs]
      exact decodedBound_of_empty _ ha

theorem Sent.last_skip (s : Sent) (r : Slice SyncID) (a : SyncID) : (s.skip r).last a = r.b := by
  cases s <;> rfl

/-- **Replies among time slices.**  When the received bounds have empty hashes and no range is left
out, the reply keeps all bounds. -/
theorem SeqStorage.conveys_of_empty (self : SeqStorage) (ps cs : PackedSet ℤ) : ∀ (es : List Entry)
    (last : SyncID) (s : Sent), ReceivedFrom last (es.map (fun e => (e.1, e.2.type))) →
    last.hash = emptyFingerprint → s.last last = last → (∀ e ∈ es, e.1.b.hash = emptyFingerprint) →
    (∀ e ∈ es, self.fate ps cs e ≠ .dropped) → self.Conveys ps cs s es
  | [], _, _, _, _, _, _, _ => trivial
  | e :: es, last, s, hreceived, hlast, hs, hempty, hkept => by
      obtain ⟨ha, _, _, _, hrest⟩ := hreceived
      replace ha : e.1.a = last := ha
      have hb := hempty e List.mem_cons_self
      have htimeA : SyncID.atTime e.1.a.time = e.1.a := SyncID.ext rfl (by rw [ha, hlast]; rfl)
      have htimeB : SyncID.atTime e.1.b.time = e.1.b := SyncID.ext rfl hb.symm
      have hlower : s.lower e.1.a = e.1.a := by
        rw [ha]
        exact Sent.lower_of_empty hs hlast
      have ih := fun s' hs' => SeqStorage.conveys_of_empty self ps cs es e.1.b s' hrest hb hs'
        (fun e' he' => hempty e' (List.mem_cons_of_mem _ he'))
        (fun e' he' => hkept e' (List.mem_cons_of_mem _ he'))
      rw [Conveys]
      cases hfate : self.fate ps cs e with
      | skip => exact ih _ (Sent.last_skip s _ _)
      | whole => exact ⟨hlower, decodedBound_of_empty _ hb, ih _ rfl⟩
      | split =>
          dsimp only
          rw [htimeA, htimeB]
          exact ⟨hlower, ih _ rfl⟩
      | dropped => exact absurd hfate (hkept e List.mem_cons_self)

/-! ### Both sides on the same bounds -/

/-- **Which bounds arrive.**  Those of the first payload of `initiate` never do; those of a reply do
exactly when the received payload meets `Conveys`. -/
theorem sameBounds_iff (L : VarintCodec) (hL : L.Lawful) :
    (∀ (node : SyncReconciliation) (moment clock offset syncRange : ℤ) (shards : List UInt16),
      shards.Nodup → ¬ (node.initiate moment clock offset syncRange shards).2.SameBounds L) ∧
    ∀ (node : SyncReconciliation), node.Valid → ∀ (buffer : List Byte) (recvPayload : RangesData),
      RangesData.deltaDecode L buffer = .ok recvPayload →
      ∀ (lowerBound : ℤ) (peerId : PeerId) (now : ℤ), ∃ node' reply diffs,
        node.reconcileRound recvPayload lowerBound peerId now = some (node', reply, diffs) ∧
        (reply.SameBounds L ↔ node.Conveys lowerBound recvPayload) := by
  constructor
  · intro node moment clock offset syncRange shards hshards
    exact initPayload_not_sameBounds hL _ _ (SyncReconciliation.length_le_of_nodup hshards) _ _
  · intro node h buffer recvPayload hdecode lowerBound peerId now
    obtain ⟨hshards, es, hes, hreceived⟩ := deltaDecode_received hdecode
    rw [hes]
    exact SyncReconciliation.sameBounds_reply hL h hshards hreceived lowerBound peerId now

/-- A node with one message, at time `7`. -/
def nodeAtSeven : SyncReconciliation where
  cluster := 1
  shards := [0]
  storage := oneMessage ⟨7, constFingerprint 1⟩
  pendingTimeout := 60

theorem nodeAtSeven_valid : nodeAtSeven.Valid where
  wellFormed := (oneMessage_reconcilable _ (by decide)).wellFormed
  length_lt := by decide
  shards_nodup := by decide

/-- A session over the times up to `7`: the receiver reads the bound `7` with an empty hash, and
over the bounds it reads its fingerprint is another one, although it holds the same message. -/
theorem initiate_upTo_seven :
    ¬ (nodeAtSeven.initiate 0 7 0 7 [0]).2.SameBounds Lib.leb128 ∧
    ∃ bytes q, (nodeAtSeven.initiate 0 7 0 7 [0]).2.deltaEncode Lib.leb128 = some bytes ∧
      RangesData.deltaDecode Lib.leb128 bytes = .ok q ∧
      q.ranges = [(⟨SyncID.zero, SyncID.atTime 7⟩, .fingerprint)] ∧
      q.fingerprints = [constFingerprint 1] ∧
      nodeAtSeven.storage.computeFingerprint ⟨SyncID.zero, SyncID.atTime 7⟩ ["/waku/2/rs/1/0"] [] =
        emptyFingerprint := by
  refine ⟨?_, _, _, rfl, rfl, ?_, ?_, ?_⟩
  · exact initPayload_not_sameBounds Lib.leb128_lawful _ _ (by decide) _ _
  · decide +kernel
  · decide +kernel
  · decide +kernel

/-- What the receiver reads of that first payload. -/
def readUpToSeven : RangesData where
  cluster := 1
  shards := [0]
  ranges := [(⟨SyncID.zero, SyncID.atTime 7⟩, .fingerprint)]
  fingerprints := [constFingerprint 1]
  itemSets := []

/-- The reply to it keeps its bounds: they have empty hashes. -/
theorem sameBounds_readUpToSeven :
    ¬ (nodeAtSeven.initiate 0 7 0 7 [0]).2.SameBounds Lib.leb128 ∧
    ∃ node' reply diffs, nodeAtSeven.reconcileRound readUpToSeven 0 "peer" 0 =
        some (node', reply, diffs) ∧ reply.SameBounds Lib.leb128 := by
  obtain ⟨hinit, hreply⟩ := sameBounds_iff Lib.leb128 Lib.leb128_lawful
  refine ⟨hinit nodeAtSeven 0 7 0 7 [0] (by decide), ?_⟩
  obtain ⟨node', reply, diffs, hround, hiff⟩ := hreply nodeAtSeven nodeAtSeven_valid
    ([1, 1, 0, 7, 1] ++ (constFingerprint 1).1) readUpToSeven rfl 0 "peer" 0
  refine ⟨node', reply, diffs, hround, hiff.mpr ?_⟩
  intro scope _ hscope
  obtain rfl : [0] = scope := Option.some.inj hscope
  refine SeqStorage.conveys_of_empty _ _ _ _ SyncID.zero .nothing ?_ rfl rfl ?_ ?_
  · exact ⟨rfl, by decide, by decide, fun _ => rfl, trivial⟩
  · decide +kernel
  · decide +kernel

end LogosDelivery.StoreSync
