import LogosDelivery.StoreSync.Dialogue

/-! # What a session over the wire finds

The two nodes start with nothing pending and hold `own` and `other` in the scope they share.  A
payload on its way is described by `InFlight`: its open ranges lie between `floor` and `hi`, say the
truth about the side that sent them, and keep clear of the ids that were asked for so far.  A turn
moves what the reader owes to its transfer queue or to the reply and keeps the invariant
(`InFlight.turn`); the ranks of `Termination` bound the number of turns.  From the common lower bound
on each side has then queued exactly the hashes that the other lacked at the start, and asked only
for ids that it lacked itself (`converse_exact`). -/

namespace LogosDelivery.StoreSync

open LogosDelivery.Lib (VarintCodec)

/-! ### The scope of a session -/

theorem SeqStorage.inScope_congr (s : SeqStorage) {topics topics' : List PubsubTopic}
    (h : ∀ t, t ∈ topics ↔ t ∈ topics') : s.inScope topics = s.inScope topics' := by
  have hnil : topics = [] ↔ topics' = [] := by
    rw [List.eq_nil_iff_forall_not_mem, List.eq_nil_iff_forall_not_mem]
    exact forall_congr' fun t => not_congr (h t)
  have hasked : s.asked topics = s.asked topics' := by
    funext row
    simp only [asked, hnil, h]
  rw [inScope, inScope, hasked]

namespace SyncReconciliation

/-- The shards of the node cover a session over `shared`. -/
def ScopedTo (self : SyncReconciliation) (shared : List UInt16) : Prop :=
  self.shards = [] ∨ shared ≠ [] ∧ ∀ shard ∈ shared, shard ∈ self.shards

/-- The shards that a side makes of those asked for are covered by it. -/
theorem scopedTo_of_scopeShards {self : SyncReconciliation} {shards shared : List UInt16}
    (h : self.scopeShards shards = some shared) : self.ScopedTo shared := by
  unfold scopeShards at h
  simp only [List.length_pos_iff, Nat.lt_one_iff, List.length_eq_zero_iff] at h
  split_ifs at h with hboth hempty hself
  · obtain rfl := Option.some.inj h
    exact Or.inr ⟨hempty, fun shard hmem => (List.mem_filter.mp hmem).1⟩
  · obtain rfl := Option.some.inj h
    exact Or.inr ⟨hself, fun _ hmem => hmem⟩
  · exact Or.inl (not_not.mp hself)

/-- They are part of those asked for. -/
theorem scopeShards_subset {self : SyncReconciliation} {shards shared : List UInt16}
    (h : self.scopeShards shards = some shared) : shards = [] ∨ shared ≠ [] ∧ shared ⊆ shards := by
  unfold scopeShards at h
  simp only [List.length_pos_iff, Nat.lt_one_iff, List.length_eq_zero_iff] at h
  split_ifs at h with hboth hempty hself
  · obtain rfl := Option.some.inj h
    exact Or.inr ⟨hempty, fun shard hmem => by simpa using (List.mem_filter.mp hmem).2⟩
  · refine Or.inl ?_
    by_contra hne
    exact hboth ⟨hne, hself⟩
  · obtain rfl := Option.some.inj h
    rcases eq_or_ne shards [] with hnil | hne
    · exact Or.inl hnil
    · exact Or.inr ⟨hne, fun _ hmem => hmem⟩

namespace ScopedTo

variable {self : SyncReconciliation} {shared shards : List UInt16} (h : self.ScopedTo shared)

include h

/-- The scope of the session stays the same from side to side. -/
theorem scopeShards (hsame : ∀ shard, shard ∈ shards ↔ shard ∈ shared) :
    ∃ scope, self.scopeShards shards = some scope ∧ ∀ shard, shard ∈ scope ↔ shard ∈ shared := by
  have hnil : shards = [] ↔ shared = [] := by
    rw [List.eq_nil_iff_forall_not_mem, List.eq_nil_iff_forall_not_mem]
    exact forall_congr' fun shard => not_congr (hsame shard)
  unfold SyncReconciliation.scopeShards
  simp only [List.length_pos_iff, Nat.lt_one_iff, List.length_eq_zero_iff]
  rcases h with hself | ⟨hne, hcovers⟩
  · rw [if_neg (fun hboth => hboth.2 hself), if_neg (not_not.mpr hself)]
    exact ⟨shards, rfl, hsame⟩
  · obtain ⟨shard, hshard⟩ := List.exists_mem_of_ne_nil _ hne
    have hself : self.shards ≠ [] := List.ne_nil_of_mem (hcovers shard hshard)
    have hmem : ∀ shard, shard ∈ self.shards.filter (fun s => decide (s ∈ shards)) ↔
        shard ∈ shared := by
      intro shard
      rw [List.mem_filter, decide_eq_true_eq, hsame]
      exact ⟨And.right, fun hs => ⟨hcovers shard hs, hs⟩⟩
    rw [if_pos ⟨fun hs => hne (hnil.mp hs), hself⟩,
      if_neg (List.ne_nil_of_mem ((hmem shard).mpr hshard))]
    exact ⟨_, rfl, hmem⟩

theorem not_outOfScope {payload : RangesData} (hcluster : payload.cluster = self.cluster)
    (hsame : ∀ shard, shard ∈ payload.shards ↔ shard ∈ shared) :
    self.isOutOfScope payload = false := by
  unfold isOutOfScope
  rw [decide_eq_false (not_not.mpr hcluster), Bool.false_or]
  by_cases hboth : 0 < self.shards.length ∧ 0 < payload.shards.length
  · obtain ⟨shard, hshard⟩ := List.exists_mem_of_length_pos hboth.2
    have hself : self.shards ≠ [] := List.ne_nil_of_length_pos hboth.1
    have hcovers := (h.resolve_left hself).2 shard ((hsame shard).mp hshard)
    have hpos : 0 < (self.shards.filter (fun s => decide (s ∈ payload.shards))).length :=
      List.length_pos_of_mem (List.mem_filter.mpr ⟨hcovers, decide_eq_true hshard⟩)
    rw [beq_eq_false_iff_ne.mpr hpos.ne', Bool.and_false, Bool.and_false]
  · have hpair : (decide (0 < self.shards.length) && decide (0 < payload.shards.length)) = false := by
      rw [← Bool.decide_and]
      exact decide_eq_false hboth
    rw [hpair, Bool.false_and, Bool.and_false]

end ScopedTo

theorem not_outOfScope_of_ranges {self : SyncReconciliation} {payload : RangesData}
    (h : payload.ranges ≠ []) : self.isOutOfScope payload = false := by
  unfold isOutOfScope
  rw [beq_eq_false_iff_ne.mpr (fun hlen => h (List.length_eq_zero_iff.mp hlen)), Bool.false_and]

end SyncReconciliation

/-! ### A side that answers -/

/-- What the two sides hold in scope at the start: real hashes, in order, that tell the ids apart,
and fingerprints of the second side that tell its ranges from those of the first. -/
structure Facing (own other : List SyncID) : Prop where
  own_hash : ∀ x ∈ own, x.hash ≠ emptyFingerprint
  other_hash : ∀ x ∈ other, x.hash ≠ emptyFingerprint
  other_sorted : ∀ r, (within other r).Pairwise (· < ·)
  hash_inj : ∀ x ∈ own, ∀ y ∈ other, x.hash = y.hash → x = y
  distinguished : Distinguished other own

/-- An index about to answer the entries `cs`, on whose ranges it shows `own`. -/
structure Reading (s : SeqStorage) (topics : List PubsubTopic) (own other : List SyncID) (start : ℤ)
    (cs : List Entry) : Prop where
  wellFormed : s.WellFormed
  two_le_partitionCount : 2 ≤ s.partitionCount
  carried : Carried cs
  shows : ∀ e ∈ openEntries cs, s.ShowsOn topics own e.1
  tells : ∀ e ∈ openEntries cs, TellsOf own other e
  start_le : ∀ e ∈ openEntries cs, ∀ set, e.2 = .itemSet set → start ≤ e.1.a.time

namespace Reading

variable {s : SeqStorage} {topics : List PubsubTopic} {own other : List SyncID} {start : ℤ}
  {cs : List Entry} (h : Reading s topics own other start cs)

include h

theorem answers {e : Entry} (he : e ∈ cs) : Answers own e (s.answer (s.pubsubScope topics) ∅ e) := by
  obtain ⟨r, body⟩ := e
  by_cases hskip : body = .skip
  · subst hskip
    exact Answers.skip r
  · have hopen : (r, body) ∈ openEntries cs := mem_openEntries.mpr ⟨he, hskip⟩
    exact h.wellFormed.answers_answer h.two_le_partitionCount (h.carried.bounds he).1
      (h.shows _ hopen)

theorem tellsOf {e : Entry} (he : e ∈ cs) : TellsOf own other e := by
  obtain ⟨r, body⟩ := e
  by_cases hskip : body = .skip
  · subst hskip
    trivial
  · exact h.tells _ (mem_openEntries.mpr ⟨he, hskip⟩)

/-- The differences that the answers find. -/
theorem found (hface : Facing own other) :
    cs.flatMap (s.sends (s.pubsubScope topics) ∅) = (cs.flatMap (sentBy own)).map SyncID.hash ∧
      ∀ x ∈ cs.flatMap (s.recvs (s.pubsubScope topics) ∅), ∃ e ∈ openEntries cs,
        (∃ set, e.2 = .itemSet set) ∧ x ∈ within other e.1 ∧ x ∉ own := by
  have hone : ∀ e ∈ cs,
      s.sends (s.pubsubScope topics) ∅ e = (sentBy own e).map SyncID.hash ∧
        ∀ x ∈ s.recvs (s.pubsubScope topics) ∅ e, (∃ set, e.2 = .itemSet set) ∧
          x ∈ within other e.1 ∧ x ∉ own := by
    intro e he
    obtain ⟨r, body⟩ := e
    by_cases hskip : body = .skip
    · subst hskip
      exact ⟨rfl, by simp [SeqStorage.recvs]⟩
    · exact h.wellFormed.found (h.shows _ (mem_openEntries.mpr ⟨he, hskip⟩)) (h.tellsOf he)
        hface.other_sorted
  constructor
  · rw [List.map_flatMap]
    exact List.flatMap_congr fun e he => (hone e he).1
  · intro x hx
    obtain ⟨e, he, hx⟩ := List.mem_flatMap.mp hx
    obtain ⟨⟨set, hset⟩, hmem⟩ := (hone e he).2 x hx
    exact ⟨e, mem_openEntries.mpr ⟨he, by simp [hset]⟩, ⟨set, hset⟩, hmem⟩

/-- What the answers leave to be found. -/
theorem debts (hface : Facing own other) :
    (∀ e' ∈ cs.flatMap (s.answer (s.pubsubScope topics) ∅), TellsOf other own e') ∧
      (cs.flatMap (sentBy own) ++ (cs.flatMap (s.answer (s.pubsubScope topics) ∅)).flatMap
          (askerDebt (lacked start own other))).Perm
        (cs.flatMap (answererDebt (lacked start own other))) ∧
      ((cs.flatMap (s.answer (s.pubsubScope topics) ∅)).flatMap
          (answererDebt (lacked start other own))).Perm
        (cs.flatMap (askerDebt (lacked start other own))) := by
  have hone := fun e he => (h.answers he).debts (h.tellsOf he) (h.carried.bounds he).1
    (fun set hset => h.start_le e (mem_openEntries.mpr ⟨he, by simp [hset]⟩) set hset)
    hface.distinguished hface.own_hash hface.other_hash
  refine ⟨?_, ?_, ?_⟩
  · intro e' he'
    obtain ⟨e, he, hmem⟩ := List.mem_flatMap.mp he'
    exact (hone e he).1 e' hmem
  · rw [List.flatMap_assoc]
    refine (List.flatMap_append_perm _ _ _).trans ?_
    exact List.Perm.flatMap_left _ fun e he => (hone e he).2.1
  · rw [List.flatMap_assoc]
    exact List.Perm.flatMap_left _ fun e he => (hone e he).2.2

/-- The answers arrive as they are sent. -/
theorem conveyed : Conveyed SyncID.zero SyncID.zero
    (withLeading (replyEntries (cs.flatMap (s.answer (s.pubsubScope topics) ∅)))) := by
  rw [conveyed_replyEntries, SeqStorage.answersConveyed_iff]
  refine SeqStorage.conveys_of_empty s _ _ cs SyncID.zero .nothing h.carried.received rfl rfl
    h.carried.upper ?_
  intro e he
  obtain ⟨r, body⟩ := e
  by_cases hskip : body = .skip
  · subst hskip
    simp [SeqStorage.fate]
  · exact h.wellFormed.fate_ne_dropped h.two_le_partitionCount
      (h.shows _ (mem_openEntries.mpr ⟨he, hskip⟩)) _ _

theorem reply_upper :
    ∀ e ∈ withLeading (replyEntries (cs.flatMap (s.answer (s.pubsubScope topics) ∅))),
      e.1.b.hash = emptyFingerprint := by
  apply withLeading_upper
  unfold replyEntries
  split_ifs
  · simp
  · refine mergeSkips_bounds (P := fun x => x.hash = emptyFingerprint) ?_
    intro e' he'
    obtain ⟨e, he, hmem⟩ := List.mem_flatMap.mp he'
    exact s.answer_hash _ _ (h.carried.bounds he).1 e' hmem

/-- **The reply reaches the other side** with its open ranges. -/
theorem transmitted {L : VarintCodec} (hL : L.Lawful) (cluster : UInt16) {shards : List UInt16}
    (hshards : shards.length ≤ 65536) (hlength : s.elements.length < 2 ^ 63) :
    ∃ rawPayload es', (RangesData.ofEntries cluster shards
        (replyEntries (cs.flatMap (s.answer (s.pubsubScope topics) ∅)))).deltaEncode L =
          some rawPayload ∧
      RangesData.deltaDecode L rawPayload = .ok (RangesData.ofEntries cluster shards es') ∧
      openEntries es' = openEntries (cs.flatMap (s.answer (s.pubsubScope topics) ∅)) ∧
      Carried es' := by
  obtain ⟨hw, hstart⟩ := SeqStorage.writable_answers h.wellFormed (s.pubsubScope topics) ∅ hlength
    cs SyncID.zero le_rfl h.carried.received
  obtain ⟨rawPayload, es', henc, hdec, hopen, hcarried⟩ := StoreSync.transmitted hL cluster
    hshards (writable_withLeading hw hstart) h.conveyed h.reply_upper
  rw [openEntries_replyEntries] at hopen
  exact ⟨rawPayload, es', henc, hdec, hopen, hcarried⟩

end Reading

/-! ### A payload on its way -/

/-- A payload for a side that held `own` and has the lower bound `bound`, from one that held `other`
and has `bound'`; `asked` and `asked'` are the ids that the two have asked for so far.  `start` is
the lower bound that both sides and the session have in common. -/
structure InFlight (own other : List SyncID) (start hi floor bound bound' : ℤ)
    (asked asked' : List SyncID) (es : List Entry) : Prop where
  carried : Carried es
  floor_le : ∀ e ∈ openEntries es, floor ≤ e.1.a.time
  le_hi : ∀ e ∈ openEntries es, e.1.b.time ≤ hi
  tells : ∀ e ∈ openEntries es, TellsOf own other e
  clear : ∀ e ∈ openEntries es, ∀ x ∈ asked, inBounds e.1 x = false
  clear' : ∀ e ∈ openEntries es, Asks e → ∀ x ∈ asked', inBounds e.1 x = false
  start_le : ∀ e ∈ openEntries es, ∀ set, e.2 = .itemSet set → start ≤ max floor bound
  reach : start ≤ max (max floor bound) bound'

theorem InOrder.exists_cut {t : ℤ} {es : List Entry} (h : InOrder es) {e : Entry}
    (he : e ∈ openEntries (clipEntries t es)) : ∃ e₀ ∈ openEntries es, CutFrom t e₀ e := by
  rw [h.openEntries_clipEntries, List.mem_map] at he
  obtain ⟨e₀, hmem, rfl⟩ := he
  obtain ⟨he₀, hsplit⟩ := List.mem_filter.mp hmem
  obtain ⟨hslice, hlt⟩ := h.slice e₀ he₀
  exact ⟨e₀, he₀, cutFrom_cutAt hslice hlt (of_decide_eq_true hsplit)⟩

theorem InOrder.apart {es : List Entry} (h : InOrder es) {e e' : Entry} (he : e ∈ openEntries es)
    (he' : e' ∈ openEntries es) (hne : e ≠ e') : e.1.b ≤ e'.1.a ∨ e'.1.b ≤ e.1.a := by
  have hsymm : Std.Symm (fun e e' : Entry => e.1.b ≤ e'.1.a ∨ e'.1.b ≤ e.1.a) :=
    ⟨fun _ _ h => h.symm⟩
  have hpair : (openEntries es).Pairwise (fun e e' => e.1.b ≤ e'.1.a ∨ e'.1.b ≤ e.1.a) :=
    h.follow.imp Or.inl
  exact hpair.forall he he' hne

/-- Outside a range is outside its parts. -/
theorem outside_part {r r' : Slice SyncID} (hlower : r'.a ≤ r.a) (hupper : r.b ≤ r'.b) {x : SyncID}
    (h : inBounds r' x = false) : inBounds r x = false := by
  rw [Bool.eq_false_iff] at h ⊢
  intro hin
  obtain ⟨h1, h2⟩ := inBounds_iff.mp hin
  exact h (inBounds_iff.mpr ⟨hlower.trans h1, h2.trans hupper⟩)

/-- Two ranges that follow one another share no element with a real hash. -/
theorem outside_other {r r' : Slice SyncID} (hslice : TimeSlice r) (hslice' : TimeSlice r')
    (h : r.b ≤ r'.a ∨ r'.b ≤ r.a) {x : SyncID} (hx : x.hash ≠ emptyFingerprint)
    (hin : inBounds r x = true) : inBounds r' x = false := by
  rw [Bool.eq_false_iff]
  intro hin'
  have hr : r = ⟨SyncID.atTime r.a.time, SyncID.atTime r.b.time⟩ := Slice.ext hslice.lower hslice.upper
  have hr' : r' = ⟨SyncID.atTime r'.a.time, SyncID.atTime r'.b.time⟩ :=
    Slice.ext hslice'.lower hslice'.upper
  rw [hr, inBounds_atTime hx] at hin
  rw [hr', inBounds_atTime hx] at hin'
  rcases h with h | h
  · have := SyncID.time_le_of_le h
    omega
  · have := SyncID.time_le_of_le h
    omega

namespace InFlight

variable {own other : List SyncID} {start hi floor bound bound' : ℤ} {asked asked' : List SyncID}
  {es : List Entry} (h : InFlight own other start hi floor bound bound' asked asked' es)

include h

/-- After the cut at its lower bound the reader is about to answer ranges from there on. -/
theorem reading {X₀ : SyncReconciliation} {a : Attribution} (hX : X₀.Ready a)
    {topics : List PubsubTopic} (hown : X₀.storage.inScope topics = own) :
    Reading (SyncReconciliation.promiseAll X₀.storage asked) topics own other start
      (clipEntries bound es) := by
  have hcs := h.carried.clipEntries bound
  obtain ⟨hcount, _⟩ := SeqStorage.promiseAll_partitioning asked X₀.storage
  refine ⟨(SeqStorage.WellFormed.mem_promiseAll asked hX.sound.wellFormed).1, ?_, hcs, ?_, ?_, ?_⟩
  · rw [hcount]
    exact hX.reconcilable.two_le_partitionCount
  · intro e he
    obtain ⟨e₀, he₀, hcut⟩ := h.carried.inOrder.exists_cut he
    rw [← hown]
    exact hX.showsOn topics hcut.slice fun x hx =>
      outside_part hcut.lower hcut.upper.le (h.clear e₀ he₀ x hx)
  · intro e he
    obtain ⟨e₀, he₀, hcut⟩ := h.carried.inOrder.exists_cut he
    exact hcut.tells (h.tells e₀ he₀)
  · intro e he set hset
    obtain ⟨e₀, he₀, hcut⟩ := h.carried.inOrder.exists_cut he
    obtain ⟨set', hset'⟩ := hcut.itemSet hset
    exact (h.start_le e₀ he₀ set' hset').trans (hcut.of_start (h.floor_le e₀ he₀))

/-- The ids that the reader asks for are those of the other side that it lacks. -/
theorem found {s : SeqStorage} {topics : List PubsubTopic}
    (hread : Reading s topics own other start (clipEntries bound es)) (hface : Facing own other)
    {x : SyncID} (hx : x ∈ (clipEntries bound es).flatMap (s.recvs (s.pubsubScope topics) ∅)) :
    x ∈ other ∧ x ∉ own ∧ start ≤ x.time ∧ x.time < hi := by
  obtain ⟨e, he, ⟨set, hset⟩, hmem, hout⟩ := (hread.found hface).2 x hx
  obtain ⟨e₀, he₀, hcut⟩ := h.carried.inOrder.exists_cut he
  obtain ⟨hother, hin⟩ := mem_within.mp hmem
  have hr : e.1 = ⟨SyncID.atTime e.1.a.time, SyncID.atTime e.1.b.time⟩ :=
    Slice.ext hcut.slice.lower hcut.slice.upper
  rw [hr, inBounds_atTime (hface.other_hash x hother)] at hin
  have hstart := hread.start_le e he set hset
  have hhi := h.le_hi e₀ he₀
  rw [← hcut.upper] at hhi
  exact ⟨hother, hout, by omega, by omega⟩

/-- **A turn keeps the invariant**, the two sides changing places. -/
theorem next {s : SeqStorage} {topics : List PubsubTopic}
    (hread : Reading s topics own other start (clipEntries bound es)) (hface : Facing own other)
    {es' : List Entry} (hcarried : Carried es')
    (hopen : openEntries es' = openEntries ((clipEntries bound es).flatMap
      (s.answer (s.pubsubScope topics) ∅))) :
    InFlight other own start hi (max floor bound) bound' bound asked'
      (asked ++ (clipEntries bound es).flatMap (s.recvs (s.pubsubScope topics) ∅)) es' := by
  -- an open entry of the reply answers one that asks, which is cut from one that was received
  have horigin : ∀ e' ∈ openEntries es', ∃ e ∈ openEntries (clipEntries bound es),
      ∃ e₀ ∈ openEntries es, Inside e e' ∧ CutFrom bound e₀ e ∧ TellsOf other own e' := by
    intro e' he'
    rw [hopen] at he'
    obtain ⟨hmem, hne⟩ := mem_openEntries.mp he'
    obtain ⟨e, he, hanswer⟩ := List.mem_flatMap.mp hmem
    obtain ⟨hslice, hlt, _⟩ := hread.carried.bounds he
    have hinside := (hread.answers he).inside hanswer hne hslice hlt
    have hasks : e.2 ≠ .skip := by
      intro hskip
      obtain ⟨r, body⟩ := e
      obtain rfl : body = .skip := hskip
      exact hinside.asks
    have he : e ∈ openEntries (clipEntries bound es) := mem_openEntries.mpr ⟨he, hasks⟩
    obtain ⟨e₀, he₀, hcut⟩ := h.carried.inOrder.exists_cut he
    exact ⟨e, he, e₀, he₀, hinside, hcut, (hread.debts hface).1 e' hmem⟩
  constructor
  · exact hcarried
  · intro e' he'
    obtain ⟨e, he, e₀, he₀, hinside, hcut, _⟩ := horigin e' he'
    exact (hcut.of_start (h.floor_le e₀ he₀)).trans (SyncID.time_le_of_le hinside.lower)
  · intro e' he'
    obtain ⟨e, he, e₀, he₀, hinside, hcut, _⟩ := horigin e' he'
    have hupper := hinside.upper
    rw [hcut.upper] at hupper
    exact (SyncID.time_le_of_le hupper).trans (h.le_hi e₀ he₀)
  · intro e' he'
    obtain ⟨e, he, e₀, he₀, hinside, hcut, htells⟩ := horigin e' he'
    exact htells
  · intro e' he' x hx
    obtain ⟨e, he, e₀, he₀, hinside, hcut, _⟩ := horigin e' he'
    exact outside_part (hcut.lower.trans hinside.lower) (hinside.upper.trans hcut.upper.le)
      (h.clear' e₀ he₀ (hcut.asks hinside.asks) x hx)
  · intro e' he' hasks x hx
    obtain ⟨e, he, e₀, he₀, hinside, hcut, _⟩ := horigin e' he'
    rcases List.mem_append.mp hx with hx | hx
    · exact outside_part (hcut.lower.trans hinside.lower) (hinside.upper.trans hcut.upper.le)
        (h.clear e₀ he₀ x hx)
    · -- a new id comes from an item set, and this is about the range of a fingerprint
      obtain ⟨f, hf⟩ := hinside.of_asks hasks
      obtain ⟨e₂, he₂, ⟨set, hset⟩, hmem, _⟩ := (hread.found hface).2 x hx
      have hne : e ≠ e₂ := by
        rintro rfl
        simp [hf] at hset
      obtain ⟨hother, hin⟩ := mem_within.mp hmem
      have horder := hread.carried.inOrder
      have hapart := horder.apart he₂ he hne.symm
      refine outside_part hinside.lower hinside.upper ?_
      exact outside_other (horder.slice e₂ he₂).1 (horder.slice e he).1 hapart
        (hface.other_hash x hother) hin
  · intro e' he' set hset
    exact h.reach
  · have hreach := h.reach
    omega

end InFlight

/-! ### One turn over the wire -/

/-- A side in the middle of a session.  It was `X₀` at the start, held `own` in the shared scope, and
has asked for `recv` and found `send` since then. -/
structure Engaged (X₀ : SyncReconciliation) (a : Attribution) (shared : List UInt16)
    (own other : List SyncID) (start : ℤ) (side : SyncReconciliation.Side) (recv : List SyncID)
    (send : List WakuMessageHash) : Prop where
  ready : X₀.Ready a
  covers : X₀.ScopedTo shared
  own_eq : X₀.storage.inScope (shared.map (relayShardTopic X₀.cluster)) = own
  length_lt : X₀.storage.elements.length + other.length < 2 ^ 63
  face : Facing own other
  bound_le : side.lowerBound ≤ start
  advanced : SyncReconciliation.Advanced X₀ side.node side.peerId recv send
  recv_missing : ∀ x ∈ recv, x ∈ other ∧ x ∉ own

namespace Engaged

variable {X₀ : SyncReconciliation} {a : Attribution} {shared : List UInt16} {own other : List SyncID}
  {start : ℤ} {side : SyncReconciliation.Side} {recv : List SyncID} {send : List WakuMessageHash}
  (h : Engaged X₀ a shared own other start side recv send)

include h

theorem node_scoped : side.node.ScopedTo shared := by
  unfold SyncReconciliation.ScopedTo
  rw [h.advanced.shards]
  exact h.covers

/-- The topics of a scope with the shared shards. -/
theorem inScope_scope {scope : List UInt16} (hscope : ∀ shard, shard ∈ scope ↔ shard ∈ shared) :
    X₀.storage.inScope (scope.map (relayShardTopic side.node.cluster)) = own := by
  rw [← h.own_eq, h.advanced.cluster]
  refine SeqStorage.inScope_congr _ fun t => ?_
  simp only [List.mem_map, hscope]

/-- The index has room for what the other side holds. -/
theorem node_length : side.node.storage.elements.length < 2 ^ 63 := by
  rw [h.advanced.storage]
  obtain ⟨hwell, hmem⟩ := SeqStorage.WellFormed.mem_promiseAll recv h.ready.sound.wellFormed
  have hsub : (SyncReconciliation.promiseAll X₀.storage recv).elements ⊆
      X₀.storage.elements ++ other := by
    intro x hx
    rw [List.mem_append]
    exact ((hmem x).mp hx).imp_right fun hrecv => (h.recv_missing x hrecv).1
  have hle := (List.subperm_of_subset hwell.nodup hsub).length_le
  rw [List.length_append] at hle
  exact hle.trans_lt h.length_lt

/-- A round of this side, with the ids it asks for and the elements it finds the other to lack. -/
theorem round (now : ℤ) (found : List SyncID) {recv' : List SyncID}
    (hrecv : ∀ x ∈ recv', x ∈ other ∧ x ∉ own)
    (hfound : ∀ x ∈ found, x ∈ own) :
    Engaged X₀ a shared own other start { side with node :=
        ((side.node.trackPromised now recv').scheduleTransfers side.peerId
          (found.map SyncID.hash)).1 } (recv ++ recv') (send ++ found.map SyncID.hash) := by
  have hall : ∀ x ∈ recv ++ recv', x ∈ other ∧ x ∉ own := by
    intro x hx
    exact (List.mem_append.mp hx).elim (h.recv_missing x) (hrecv x)
  refine ⟨h.ready, h.covers, h.own_eq, h.length_lt, h.face, h.bound_le, ?_, hall⟩
  refine h.advanced.round now h.ready.unlimited ?_
  intro hash hmem
  obtain ⟨y, hy, rfl⟩ := List.mem_map.mp hmem
  refine ⟨by rw [h.ready.idle]; exact Finset.notMem_empty _, ?_⟩
  intro x hx hsame
  obtain ⟨hother, hout⟩ := hall x hx
  exact hout (h.face.hash_inj y (hfound y hy) x hother hsame.symm ▸ hfound y hy)

end Engaged

theorem mem_of_mem_sentBy {own : List SyncID} {e : Entry} {x : SyncID} (hx : x ∈ sentBy own e) :
    x ∈ own := by
  obtain ⟨r, body⟩ := e
  cases body with
  | skip => simp [sentBy] at hx
  | fingerprint f => simp [sentBy] at hx
  | itemSet set => exact (mem_within.mp (List.mem_filter.mp hx).1).1

theorem askerDebt_of_skip (debt : List SyncID) (e : Entry) (h : e.2 = .skip) :
    askerDebt debt e = [] := by
  obtain ⟨r, body⟩ := e
  cases h
  rfl

theorem answererDebt_of_skip (debt : List SyncID) (e : Entry) (h : e.2 = .skip) :
    answererDebt debt e = [] := by
  obtain ⟨r, body⟩ := e
  cases h
  rfl

/-- The elements that `own` lacks from `start` on keep clear of every lower bound below. -/
theorem lacked_above {own : List SyncID} (other : List SyncID) {start bound : ℤ}
    (hown : ∀ x ∈ own, x.hash ≠ emptyFingerprint) (hbound : bound ≤ start) :
    ∀ x ∈ lacked start own other, x.hash ≠ emptyFingerprint ∧ bound ≤ x.time := by
  intro x hx
  obtain ⟨hmem, _, hstart⟩ := mem_lacked.mp hx
  exact ⟨hown x hmem, hbound.trans hstart⟩

/-- The debts of a payload, of which a turn sends a part and leaves the rest to the reply. -/
theorem InFlight.debts {own other : List SyncID} {start hi floor bound bound' : ℤ}
    {asked asked' : List SyncID} {es : List Entry}
    (h : InFlight own other start hi floor bound bound' asked asked' es) (hface : Facing own other)
    (hbound : bound ≤ start) {s : SeqStorage} {topics : List PubsubTopic}
    (hread : Reading s topics own other start (clipEntries bound es)) {es' : List Entry}
    (hopen : openEntries es' = openEntries ((clipEntries bound es).flatMap
      (s.answer (s.pubsubScope topics) ∅))) :
    ((clipEntries bound es).flatMap (sentBy own) ++
        (openEntries es').flatMap (askerDebt (lacked start own other))).Perm
      ((openEntries es).flatMap (answererDebt (lacked start own other))) ∧
    ((openEntries es').flatMap (answererDebt (lacked start other own))).Perm
      ((openEntries es).flatMap (askerDebt (lacked start other own))) := by
  obtain ⟨_, hsent, hrest⟩ := hread.debts hface
  have hclip := answererDebt_clipEntries (lacked_above other hface.own_hash hbound) h.carried.inOrder
  have hclip' := askerDebt_clipEntries (lacked_above own hface.other_hash hbound) h.carried.inOrder
  rw [flatMap_openEntries (answererDebt_of_skip _)] at hclip
  rw [flatMap_openEntries (askerDebt_of_skip _)] at hclip'
  rw [hopen, ← hclip, ← hclip']
  constructor
  · rw [flatMap_openEntries (askerDebt_of_skip _)]
    exact hsent
  · rw [flatMap_openEntries (answererDebt_of_skip _)]
    exact hrest

/-- What becomes of a payload `es` at a side that has asked for `recv` and found `send`: the entries
`es'` of the reply, the ids `new` it asks for now and the elements `found` it sends. -/
structure Turned (X₀ : SyncReconciliation) (a : Attribution) (shared : List UInt16)
    (own other : List SyncID) (start hi floor bound' : ℤ) (side : SyncReconciliation.Side)
    (recv recv' : List SyncID) (send : List WakuMessageHash) (es : List Entry)
    (node : SyncReconciliation) (es' : List Entry) (new found : List SyncID) : Prop where
  engaged : Engaged X₀ a shared own other start { side with node := node } (recv ++ new)
    (send ++ found.map SyncID.hash)
  inFlight : InFlight other own start hi (max floor side.lowerBound) bound' side.lowerBound recv'
    (recv ++ new) es'
  rank_le : ∀ n, (∀ e ∈ es, rank e ≤ n + 1) → ∀ e ∈ es', rank e ≤ n
  new_missing : ∀ x ∈ new, x ∈ other ∧ x ∉ own ∧ start ≤ x.time ∧ x.time < hi
  sent : (found ++ (openEntries es').flatMap (askerDebt (lacked start own other))).Perm
    ((openEntries es).flatMap (answererDebt (lacked start own other)))
  rest : ((openEntries es').flatMap (answererDebt (lacked start other own))).Perm
    ((openEntries es).flatMap (askerDebt (lacked start other own)))

/-- **A turn.**  The payload is answered, and the answer reaches the other side. -/
theorem Engaged.handle {L : VarintCodec} (hL : L.Lawful) {X₀ : SyncReconciliation} {a : Attribution}
    {shared : List UInt16} {own other : List SyncID} {start hi floor bound' : ℤ}
    {side : SyncReconciliation.Side} {recv recv' : List SyncID} {send : List WakuMessageHash}
    (h : Engaged X₀ a shared own other start side recv send) {shards scope : List UInt16}
    {rawPayload : List Byte} {es : List Entry}
    (hdec : RangesData.deltaDecode L rawPayload = .ok (RangesData.ofEntries X₀.cluster shards es))
    (hscope : side.node.scopeShards shards = some scope)
    (hsame : ∀ shard, shard ∈ scope ↔ shard ∈ shared)
    (hfl : InFlight own other start hi floor side.lowerBound bound' recv recv' es)
    (hopen : openEntries es ≠ []) (now : ℤ) :
    ∃ node rawPayload' es' new found,
      RangesData.deltaDecode L rawPayload' = .ok (RangesData.ofEntries X₀.cluster scope es') ∧
      (side.node.handlePayload L rawPayload side.lowerBound side.peerId now =
          some (node, .last rawPayload') ∧ openEntries es' = [] ∨
        side.node.handlePayload L rawPayload side.lowerBound side.peerId now =
          some (node, .reply rawPayload') ∧ openEntries es' ≠ []) ∧
      Turned X₀ a shared own other start hi floor bound' side recv recv' send es node es' new
        found := by
  have hcluster : X₀.cluster = side.node.cluster := h.advanced.cluster.symm
  have hread := hfl.reading h.ready (h.inScope_scope hsame)
  rw [← h.advanced.storage] at hread
  obtain ⟨hsends, hrecvs⟩ := hread.found h.face
  obtain ⟨hshards, _⟩ := deltaDecode_received hdec
  have hnodup : side.node.shards.Nodup := by
    rw [h.advanced.shards]
    exact h.ready.shards_nodup
  obtain ⟨rawPayload', es', henc, hdec', hopen', hcarried⟩ := hread.transmitted hL X₀.cluster
    (SyncReconciliation.scopeShards_length hnodup hshards hscope) h.node_length
  have hnew : ∀ x ∈ _, _ := fun x hx => hfl.found hread h.face hx
  have hown : ∀ x ∈ (clipEntries side.lowerBound es).flatMap (sentBy own), x ∈ own := by
    intro x hx
    obtain ⟨e, _, hmem⟩ := List.mem_flatMap.mp hx
    exact mem_of_mem_sentBy hmem
  have hengaged := h.round now _ (fun x hx => ⟨(hnew x hx).1, (hnew x hx).2.1⟩) hown
  have hround := side.node.reconcileRound_inScope es side.lowerBound side.peerId now hcluster hscope
  have hturned : Turned X₀ a shared own other start hi floor bound' side recv recv' send es _ es' _ _ :=
    ⟨hengaged, hfl.next hread h.face hcarried hopen',
      fun n hrank => SeqStorage.rank_reply _ _ _ hread.two_le_partitionCount
        (fun e he => rank_clip side.lowerBound hrank he) hopen',
      hnew, (hfl.debts h.face h.bound_le hread hopen').1,
      (hfl.debts h.face h.bound_le hread hopen').2⟩
  refine ⟨_, rawPayload', es', _, _, hdec', ?_, hturned⟩
  have hranges : (RangesData.ofEntries X₀.cluster shards es).ranges ≠ [] := by
    intro hnil
    obtain rfl := List.map_eq_nil_iff.mp hnil
    exact hopen rfl
  have hfinished : ¬ (RangesData.ofEntries X₀.cluster shards es).isFinished = true :=
    fun hfin => hopen (isFinished_iff.mp hfin)
  have hsent : side.node.roundSends scope side.lowerBound es =
      ((clipEntries side.lowerBound es).flatMap (sentBy own)).map SyncID.hash := hsends
  have hreply : (RangesData.ofEntries side.node.cluster scope
      (side.node.roundReply scope side.lowerBound es)).deltaEncode L = some rawPayload' := by
    rw [← hcluster]
    exact henc
  have hlast : (RangesData.ofEntries side.node.cluster scope
      (side.node.roundReply scope side.lowerBound es)).isFinished = true ↔ openEntries es' = [] := by
    rw [isFinished_iff, hopen', SyncReconciliation.roundReply, openEntries_replyEntries]
    exact Iff.rfl
  unfold SyncReconciliation.handlePayload
  rw [hdec]
  dsimp only
  rw [if_neg (by simp [SyncReconciliation.not_outOfScope_of_ranges hranges]), if_neg hfinished, hround]
  simp only [Option.bind_eq_bind, Option.bind_some, hreply, hsent]
  by_cases hnil : openEntries es' = []
  · rw [if_pos (hlast.mpr hnil)]
    exact Or.inl ⟨rfl, hnil⟩
  · rw [if_neg (fun hfin => hnil (hlast.mp hfin))]
    exact Or.inr ⟨rfl, hnil⟩

/-! ### A whole session -/

/-- What a side finds of what it owes, from a payload on: it sends `found` and asks for `new`. -/
structure Finds (own other : List SyncID) (start hi : ℤ) (owed found new : List SyncID) : Prop where
  perm : found.Perm owed
  new_missing : ∀ x ∈ new, x ∈ other ∧ x ∉ own ∧ start ≤ x.time ∧ x.time < hi

/-- **A session from a payload on** ends, after at most as many turns as its entries have rank, and
settles the debts of the payload. -/
theorem converse_settles {L : VarintCodec} (hL : L.Lawful) {shared : List UInt16} {start hi : ℤ} :
    ∀ (n : ℕ) (now : ℕ → ℤ) {X₀ Y₀ : SyncReconciliation} {a b : Attribution}
      {own other : List SyncID} {X Y : SyncReconciliation.Side} {floor : ℤ} {recv recv' : List SyncID}
      {send send' : List WakuMessageHash} {shards : List UInt16} {rawPayload : List Byte}
      {es : List Entry},
      Engaged X₀ a shared own other start X recv send →
      Engaged Y₀ b shared other own start Y recv' send' → X₀.cluster = Y₀.cluster →
      InFlight own other start hi floor X.lowerBound Y.lowerBound recv recv' es →
      RangesData.deltaDecode L rawPayload = .ok (RangesData.ofEntries X₀.cluster shards es) →
      (∃ scope, X.node.scopeShards shards = some scope ∧
        ∀ shard, shard ∈ scope ↔ shard ∈ shared) →
      openEntries es ≠ [] → (∀ e ∈ es, rank e ≤ n) →
      ∃ node node' new new' found found',
        (∀ m, n ≤ m → SyncReconciliation.converse L now m X Y rawPayload = some (node, node')) ∧
        SyncReconciliation.Advanced X₀ node X.peerId (recv ++ new)
          (send ++ found.map SyncID.hash) ∧
        SyncReconciliation.Advanced Y₀ node' Y.peerId (recv' ++ new')
          (send' ++ found'.map SyncID.hash) ∧
        Finds own other start hi
          ((openEntries es).flatMap (answererDebt (lacked start own other))) found new ∧
        Finds other own start hi
          ((openEntries es).flatMap (askerDebt (lacked start other own))) found' new' := by
  intro n
  induction n with
  | zero =>
      intro now X₀ Y₀ a b own other X Y floor recv recv' send send' shards rawPayload es _ _ _ _ _ _
        hopen hrank
      obtain ⟨e, he⟩ := List.exists_mem_of_ne_nil _ hopen
      obtain ⟨hmem, hne⟩ := mem_openEntries.mp he
      have hpos := rank_pos hne
      have hzero := hrank e hmem
      omega
  | succ n ih =>
      intro now X₀ Y₀ a b own other X Y floor recv recv' send send' shards rawPayload es hX hY hcluster
        hfl hdec ⟨scope, hscope, hsame⟩ hopen hrank
      obtain ⟨node, rawPayload', es', new, found, hdec', hturn, hturned⟩ :=
        hX.handle hL hdec hscope hsame hfl hopen (now 0)
      rw [hcluster] at hdec'
      obtain ⟨scope', hscope', hsame'⟩ := hY.node_scoped.scopeShards hsame
      rcases hturn with ⟨hlast, hnil⟩ | ⟨hreply, hmore⟩
      · -- the other side reads a finished payload
        have hdone : Y.node.handlePayload L rawPayload' Y.lowerBound Y.peerId (now 1) =
            some (Y.node, .done) := by
          unfold SyncReconciliation.handlePayload
          rw [hdec']
          dsimp only
          rw [hY.node_scoped.not_outOfScope hY.advanced.cluster.symm hsame,
            isFinished_iff.mpr hnil]
          rfl
        have hsent := hturned.sent
        have hrest := hturned.rest
        rw [hnil, List.flatMap_nil] at hsent hrest
        rw [List.append_nil] at hsent
        refine ⟨node, Y.node, new, [], found, [], ?_, hturned.engaged.advanced, ?_,
          ⟨hsent, hturned.new_missing⟩, ⟨hrest, by simp⟩⟩
        · intro m hm
          obtain ⟨m, rfl⟩ : ∃ k, m = k + 1 := ⟨m - 1, by omega⟩
          simp only [SyncReconciliation.converse, hlast, hdone]
        · simpa using hY.advanced
      · obtain ⟨node₂, node₁, new₂, new₁, found₂, found₁, hrun, hadv₂, hadv₁, hfinds₂, hfinds₁⟩ :=
          ih (fun k => now (k + 1)) hY hturned.engaged hcluster.symm hturned.inFlight hdec'
            ⟨scope', hscope', hsame'⟩ hmore (hturned.rank_le n hrank)
        refine ⟨node₁, node₂, new ++ new₁, new₂, found ++ found₁, found₂, ?_, ?_, hadv₂, ⟨?_, ?_⟩,
          ⟨hfinds₂.perm.trans hturned.rest, hfinds₂.new_missing⟩⟩
        · intro m hm
          obtain ⟨m, rfl⟩ : ∃ k, m = k + 1 := ⟨m - 1, by omega⟩
          simp only [SyncReconciliation.converse, hreply, hrun m (by omega), Option.map_some,
            Prod.swap_prod_mk]
        · rw [List.map_append, ← List.append_assoc, ← List.append_assoc]
          exact hadv₁
        · exact (hfinds₁.perm.append_left found).trans hturned.sent
        · intro x hx
          exact (List.mem_append.mp hx).elim (hturned.new_missing x) (hfinds₁.new_missing x)

end LogosDelivery.StoreSync
