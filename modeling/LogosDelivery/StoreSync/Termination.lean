import LogosDelivery.StoreSync.Rounds

/-! # Every session ends

The rank of an entry is a bound on the number of rounds it can stay open: a reconciled item set is
answered by a skip, an unreconciled one by a reconciled one, and a fingerprint by an item set or by
fingerprints of strictly shorter ranges.  Every answer to an entry has a smaller rank
(`rank_answer`), whatever the storage holds, and the pre-processing never raises one
(`rank_clip`), so a session has no more rounds than the largest rank of its first payload. -/

namespace LogosDelivery.StoreSync

open Lib (PackedSet)

/-! ### Ranks -/

/-- The number of rounds an entry can stay open. -/
def rank : Entry → ℕ
  | (_, .skip) => 0
  | (_, .itemSet set) => if set.reconciled then 1 else 2
  | (r, .fingerprint _) => 3 + (r.b.time - r.a.time).toNat

theorem rank_itemSet_le (r : Slice SyncID) (set : ItemSet) : rank (r, .itemSet set) ≤ 2 := by
  show (if set.reconciled then 1 else 2) ≤ 2
  split_ifs <;> omega

theorem rank_pos {e : Entry} (h : e.2 ≠ .skip) : 0 < rank e := by
  obtain ⟨r, x⟩ := e
  cases x with
  | skip => exact absurd rfl h
  | fingerprint f =>
      show 0 < 3 + _
      omega
  | itemSet set =>
      unfold rank
      dsimp only
      split_ifs <;> omega

theorem rank_of_skip {e : Entry} (h : e.2 = .skip) : rank e = 0 := by
  obtain ⟨r, x⟩ := e
  cases h
  rfl

namespace SeqStorage

variable (self : SeqStorage) (ps cs : PackedSet ℤ)

theorem rank_describe_le (r : Slice SyncID) :
    rank (r, self.describe ps cs r) ≤ 3 + (r.b.time - r.a.time).toNat := by
  unfold describe
  cases self.findIdxBounds r with
  | none =>
      have := rank_itemSet_le r { elements := [], reconciled := true }
      dsimp only
      omega
  | some slice =>
      dsimp only
      split_ifs with hlen
      · have := rank_itemSet_le r
          { elements := self.getFilteredElements slice ps cs, reconciled := false }
        omega
      · exact le_rfl

/-- The entries that answer a fingerprint are item sets, skips or shorter fingerprints. -/
theorem rank_answerFingerprint (hpc : 2 ≤ self.partitionCount) {r : Slice SyncID}
    {f : Fingerprint} {e : Entry} (he : e ∈ self.answerFingerprint ps cs r f) :
    rank e < rank (r, .fingerprint f) := by
  show rank e < 3 + (r.b.time - r.a.time).toNat
  unfold answerFingerprint at he
  split_ifs at he with hf
  · obtain rfl := List.mem_singleton.mp he
    show 0 < 3 + _
    omega
  · cases hd : self.describe ps cs r with
    | skip =>
        rw [hd] at he
        obtain rfl := List.mem_singleton.mp he
        show 0 < 3 + _
        omega
    | itemSet set =>
        rw [hd] at he
        obtain rfl := List.mem_singleton.mp he
        have := rank_itemSet_le r set
        omega
    | fingerprint g =>
        rw [hd] at he
        obtain ⟨part, hpart, rfl⟩ := List.mem_map.mp he
        have hshort := equalPartitioning_shorter hpc hpart
        have hle := self.rank_describe_le ps cs part
        -- a part exists only if the range is at least `partitionCount` long
        have hlong : 0 < r.b.time - r.a.time := by
          by_contra hneg
          rw [equalPartitioning_of_lt (by omega)] at hpart
          simp at hpart
        omega

/-- **Every answer to an open entry has a smaller rank.** -/
theorem rank_answer (hpc : 2 ≤ self.partitionCount) {e e' : Entry}
    (he' : e' ∈ self.answer ps cs e) : rank e' ≤ rank e - 1 := by
  obtain ⟨r, x⟩ := e
  cases x with
  | skip =>
      obtain rfl := List.mem_singleton.mp he'
      exact Nat.zero_le _
  | fingerprint f =>
      have := self.rank_answerFingerprint ps cs hpc he'
      omega
  | itemSet set =>
      obtain rfl := List.mem_singleton.mp he'
      unfold answerItemSet
      cases hrec : set.reconciled with
      | false => simp [rank, hrec]
      | true => simp [rank]

/-- A reply to entries has smaller ranks than they have. -/
theorem rank_reply (hpc : 2 ≤ self.partitionCount) {es reply : List Entry} {n : ℕ}
    (hn : ∀ e ∈ es, rank e ≤ n + 1)
    (hopen : openEntries reply = openEntries (es.flatMap (self.answer ps cs))) :
    ∀ e ∈ reply, rank e ≤ n := by
  intro e he
  by_cases hskip : e.2 = .skip
  · rw [rank_of_skip hskip]
    exact Nat.zero_le n
  · have hmem : e ∈ openEntries reply := mem_openEntries.mpr ⟨he, hskip⟩
    rw [hopen, mem_openEntries, List.mem_flatMap] at hmem
    obtain ⟨⟨e₀, he₀, hanswer⟩, _⟩ := hmem
    have h1 := self.rank_answer ps cs hpc hanswer
    have h2 := hn e₀ he₀
    omega

end SeqStorage

/-! ### The pre-processing -/

theorem rank_clip_body {r : Slice SyncID} {body : RangeBody} {lowerBound : ℤ}
    (h : r.a.time < lowerBound) :
    rank (⟨SyncID.atTime lowerBound, r.b⟩, body.clip (SyncID.atTime lowerBound)) ≤ rank (r, body) := by
  cases body with
  | skip => exact le_rfl
  | itemSet set => exact le_rfl
  | fingerprint f =>
      show 3 + (r.b.time - lowerBound).toNat ≤ 3 + (r.b.time - r.a.time).toNat
      omega

/-- The pre-processing does not raise the rank of an entry. -/
theorem rank_clip (lowerBound : ℤ) {es : List Entry} {n : ℕ} (hn : ∀ e ∈ es, rank e ≤ n) {e : Entry}
    (he : e ∈ clipEntries lowerBound es) : rank e ≤ n := by
  rcases mem_clipEntries lowerBound he with h | h | ⟨r, body, hmem, hlt, rfl⟩
  · rw [rank_of_skip h]
    exact Nat.zero_le n
  · exact hn e h
  · exact (rank_clip_body hlt).trans (hn _ hmem)

/-! ### Rounds -/

/-- Who answers a payload: the node as it is at that moment, the lower bound of its session, the
peer and the time. -/
structure Turn where
  node : SyncReconciliation
  lowerBound : ℤ
  peerId : PeerId
  now : ℤ

/-- A round on entries: a reply exists, and its entries have smaller ranks. -/
theorem reconcileRound_rank (turn : Turn) (hpc : 2 ≤ turn.node.storage.partitionCount)
    (cluster : UInt16) (shards : List UInt16) (es : List Entry) {n : ℕ}
    (hn : ∀ e ∈ es, rank e ≤ n + 1) :
    ∃ cluster' shards' reply,
      (turn.node.reconcileRound (RangesData.ofEntries cluster shards es) turn.lowerBound turn.peerId
        turn.now).map (fun r => r.2.1) = some (RangesData.ofEntries cluster' shards' reply) ∧
        ∀ e ∈ reply, rank e ≤ n := by
  obtain ⟨_, hround⟩ | ⟨scope, reply, _, _, hround, hopen⟩ :=
    turn.node.reconcileRound_ofEntries cluster shards es turn.lowerBound turn.peerId turn.now
  · rw [hround]
    exact ⟨_, _, [], rfl, by simp⟩
  · rw [hround]
    exact ⟨_, _, reply, rfl, turn.node.storage.rank_reply _ _ hpc
      (fun e he => rank_clip turn.lowerBound hn he) hopen⟩

theorem isFinished_ofEntries {cluster : UInt16} {shards : List UInt16} {es : List Entry}
    (h : ∀ e ∈ es, rank e ≤ 0) : (RangesData.ofEntries cluster shards es).isFinished = true := by
  have hall : (es.map (fun e => (e.1, e.2.type))).all (fun r => decide (r.2 = .skip)) = true := by
    rw [List.all_map, List.all_eq_true]
    rintro ⟨r, x⟩ he
    cases x with
    | skip => rfl
    | fingerprint f =>
        have := rank_pos (e := (r, .fingerprint f)) (by simp)
        have := h _ he
        omega
    | itemSet set =>
        have := rank_pos (e := (r, .itemSet set)) (by simp)
        have := h _ he
        omega
  simp only [RangesData.isFinished, RangesData.ofEntries, hall, Bool.or_true]

/-- The payload in flight after `k` rounds, if no round met a defect: the two sides answer in turn
until a payload is finished. -/
def payloadAfter (turns : ℕ → Turn) (first : RangesData) : ℕ → Option RangesData
  | 0 => some first
  | k + 1 =>
      match payloadAfter turns first k with
      | none => none
      | some payload =>
          if payload.isFinished then some payload
          else
            ((turns k).node.reconcileRound payload (turns k).lowerBound (turns k).peerId
              (turns k).now).map (fun r => r.2.1)

/-- After `k` rounds the session is over or every rank has gone down by `k`. -/
theorem payloadAfter_rank (turns : ℕ → Turn)
    (hpc : ∀ k, 2 ≤ (turns k).node.storage.partitionCount) (cluster : UInt16) (shards : List UInt16)
    (es : List Entry) {n : ℕ} (hn : ∀ e ∈ es, rank e ≤ n) : ∀ k ≤ n, ∃ payload,
      payloadAfter turns (RangesData.ofEntries cluster shards es) k = some payload ∧
        (payload.isFinished = true ∨ ∃ cluster' shards' es',
          payload = RangesData.ofEntries cluster' shards' es' ∧ ∀ e ∈ es', rank e ≤ n - k)
  | 0, _ => ⟨_, rfl, Or.inr ⟨cluster, shards, es, rfl, hn⟩⟩
  | k + 1, hk => by
      obtain ⟨payload, hpayload, hcase⟩ :=
        payloadAfter_rank turns hpc cluster shards es hn k (by omega)
      unfold payloadAfter
      rw [hpayload]
      dsimp only
      split_ifs with hfin
      · exact ⟨payload, rfl, Or.inl hfin⟩
      · obtain ⟨cluster', shards', es', rfl, hrank⟩ := hcase.resolve_left hfin
        obtain ⟨c, s, reply, hround, hreply⟩ := reconcileRound_rank (turns k) (hpc k) cluster' shards'
          es' (n := n - (k + 1)) (fun e he => by have := hrank e he; omega)
        exact ⟨_, hround, Or.inr ⟨c, s, reply, rfl, hreply⟩⟩

/-- The rank of a range as far as its type tells. -/
def rangeRank (r : Slice SyncID × RangeType) : ℕ :=
  match r.2 with
  | .skip => 0
  | .itemSet => 2
  | .fingerprint => 3 + (r.1.b.time - r.1.a.time).toNat

theorem rank_le_rangeRank (e : Entry) : rank e ≤ rangeRank (e.1, e.2.type) := by
  obtain ⟨r, x⟩ := e
  cases x with
  | skip => exact le_rfl
  | fingerprint f => exact le_rfl
  | itemSet set => exact rank_itemSet_le r set

/-- A bound on the rounds of a session that starts with this payload. -/
def RangesData.roundBound (p : RangesData) : ℕ := (p.ranges.map rangeRank).foldr max 0

theorem le_foldr_max {l : List ℕ} {x : ℕ} (h : x ∈ l) : x ≤ l.foldr max 0 := by
  induction l with
  | nil => simp at h
  | cons y l ih =>
      rw [List.foldr_cons]
      rcases List.mem_cons.mp h with rfl | h
      · exact le_max_left _ _
      · exact (ih h).trans (le_max_right _ _)

/-- **Every session ends.**  Whatever the two sides hold at each round and whatever lower bounds
they use, no round meets a defect and a finished payload is reached within `roundBound` rounds of
the first payload. -/
theorem session_reaches_finished (turns : ℕ → Turn)
    (hpc : ∀ k, 2 ≤ (turns k).node.storage.partitionCount) (first : RangesData)
    (hfirst : first.CountsMatch) :
    ∃ n payload, n ≤ first.roundBound ∧ payloadAfter turns first n = some payload ∧
      payload.isFinished = true := by
  obtain ⟨es, hes⟩ := hfirst.exists_ofEntries
  have hrank : ∀ e ∈ es, rank e ≤ first.roundBound := by
    intro e he
    have hmem : (e.1, e.2.type) ∈ first.ranges := by
      rw [hes]
      exact List.mem_map_of_mem he
    exact (rank_le_rangeRank e).trans (le_foldr_max (List.mem_map_of_mem hmem))
  obtain ⟨payload, hpayload, hcase⟩ :=
    payloadAfter_rank turns hpc first.cluster first.shards es hrank first.roundBound le_rfl
  rw [← hes] at hpayload
  refine ⟨first.roundBound, payload, le_rfl, hpayload, ?_⟩
  rcases hcase with hfin | ⟨c, s, es', rfl, hzero⟩
  · exact hfin
  · exact isFinished_ofEntries (fun e he => by have := hzero e he; omega)

/-- One side holds an element that the other lacks. -/
def unequalTurns (k : ℕ) : Turn where
  node :=
    { cluster := 1
      shards := []
      storage :=
        if k % 2 = 0 then {} else SeqStorage.insert {} ⟨5, fullFingerprint⟩ "/waku/2/rs/1/0" "/a"
      pendingTimeout := 10 }
  lowerBound := 0
  peerId := "peer"
  now := 0

/-- The fingerprint of the first hundred nanoseconds. -/
def hundredPayload : RangesData :=
  RangesData.ofEntries 1 [] [(⟨SyncID.atTime 0, SyncID.atTime 100⟩, .fingerprint fullFingerprint)]

theorem unequal_session_reaches_finished :
    ∃ n payload, n ≤ hundredPayload.roundBound ∧
      payloadAfter unequalTurns hundredPayload n = some payload ∧ payload.isFinished = true := by
  apply session_reaches_finished unequalTurns
  · intro k
    unfold unequalTurns
    dsimp only
    split_ifs <;> decide
  · exact RangesData.countsMatch_ofEntries _ _ _

end LogosDelivery.StoreSync
