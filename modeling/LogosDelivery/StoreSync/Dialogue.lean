import LogosDelivery.StoreSync.Advance
import LogosDelivery.StoreSync.Termination
import LogosDelivery.StoreSync.WireBounds

/-! # A session over the wire

`processRequest` on both ends of a connection: each side reads the other's payload, checks the scope
and whether anything is left, and answers with a round of its own (`handlePayload`, `converse`).  The
payloads go through the codec, the two sides may hold different lower bounds and cover different
shards, and the ids a side asks for are in its index from that round on.

What travels are time slices that arrive as they were sent (`Carried`, `Carried.transmitted`).  The
invariant `InFlight` relates the payload on its way to what both sides held at the start: no id that
the reader asked for lies in an open range, and none that the other side asked for lies in a range
that still wants an answer, so each side describes its ranges as if it had not changed
(`Ready.showsOn`).  The session ends, and each side has then queued exactly what the other lacked
(`converse_exact`).

A connection that fails is left out: an error in a read or a write ends the session on that side and
changes nothing. -/

namespace LogosDelivery.StoreSync

open LogosDelivery.Lib (PackedSet VarintCodec)

namespace SyncReconciliation

/-! ### One side of a session -/

/-- A peer on another cluster or with no shared shard answers with its header alone. -/
def isOutOfScope (self : SyncReconciliation) (payload : RangesData) : Bool :=
  payload.ranges.length == 0 &&
    (decide (payload.cluster ≠ self.cluster) ||
      (decide (0 < self.shards.length) && decide (0 < payload.shards.length) &&
        (self.shards.filter (fun s => decide (s ∈ payload.shards))).length == 0))

/-- `$shards` -/
def showShards (shards : List UInt16) : String :=
  "@[" ++ ", ".intercalate (shards.map toString) ++ "]"

/-- What the loop of `processRequest` does after a payload: it ends with an error, or without, or
with a last payload, or goes on after a reply. -/
inductive Handled where
  | failed (error : String)
  | done
  | last (rawPayload : List Byte)
  | reply (rawPayload : List Byte)

/-- One turn of the loop of `processRequest`.  `none` is a defect. -/
def handlePayload (L : VarintCodec) (self : SyncReconciliation) (buffer : List Byte)
    (lowerBound : ℤ) (peerId : PeerId) (now : ℤ) : Option (SyncReconciliation × Handled) :=
  match RangesData.deltaDecode L buffer with
  | .error error =>
      some (self, .failed ("remote " ++ peerId ++ " payload decoding error: " ++ error))
  | .ok recvPayload =>
      if self.isOutOfScope recvPayload then
        some (self, .failed ("remote " ++ peerId ++ " is outside the sync scope: cluster " ++
          toString recvPayload.cluster ++ ", shards " ++ showShards recvPayload.shards))
      else if recvPayload.isFinished then some (self, .done)
      else do
        let (self, sendPayload, _) ← self.reconcileRound recvPayload lowerBound peerId now
        let rawPayload ← sendPayload.deltaEncode L
        return (self, if sendPayload.isFinished then .last rawPayload else .reply rawPayload)

/-- One end of a connection: its node, the lower bound of its session and the peer at the other
end. -/
structure Side where
  node : SyncReconciliation
  lowerBound : ℤ
  peerId : PeerId

/-- A session while `rawPayload`, after which its sender waits for a reply, is on its way to `self`.
The result are both nodes, the reader's first, and `none` unless both sides end in order. -/
def converse (L : VarintCodec) (now : ℕ → ℤ) :
    ℕ → Side → Side → List Byte → Option (SyncReconciliation × SyncReconciliation)
  | 0, _, _, _ => none
  | fuel + 1, self, other, rawPayload =>
      match self.node.handlePayload L rawPayload self.lowerBound self.peerId (now 0) with
      | some (node, .last rawPayload) =>
          match other.node.handlePayload L rawPayload other.lowerBound other.peerId (now 1) with
          | some (node', .done) => some (node, node')
          | _ => none
      | some (node, .reply rawPayload) =>
          (converse L (fun k => now (k + 1)) fuel other { self with node := node } rawPayload).map
            Prod.swap
      | _ => none

end SyncReconciliation

/-! ### Payloads of time slices -/

/-- Entries as they come out of the decoder when every bound is a time. -/
structure Carried (es : List Entry) : Prop where
  received : ReceivedFrom SyncID.zero (es.map (fun e => (e.1, e.2.type)))
  upper : ∀ e ∈ es, e.1.b.hash = emptyFingerprint

theorem receivedFrom_lower : ∀ {es : List Entry} {last : SyncID},
    ReceivedFrom last (es.map (fun e => (e.1, e.2.type))) → last.hash = emptyFingerprint →
      (∀ e ∈ es, e.1.b.hash = emptyFingerprint) →
        (∀ e ∈ es, e.1.a.hash = emptyFingerprint ∧ last ≤ e.1.a) ∧
          es.Pairwise (fun e e' => e.1.b ≤ e'.1.a)
  | [], _, _, _, _ => by simp
  | e :: es, last, ⟨ha, hlt, _, _, hrest⟩, hlast, hupper => by
      replace ha : e.1.a = last := ha
      replace hlt : last < e.1.b := hlt
      obtain ⟨ihlower, ihfollow⟩ := receivedFrom_lower hrest (hupper e List.mem_cons_self)
        (fun e' he' => hupper e' (List.mem_cons_of_mem _ he'))
      constructor
      · intro e' he'
        rcases List.mem_cons.mp he' with rfl | he'
        · exact ⟨by rw [ha, hlast], ha.ge⟩
        · exact ⟨(ihlower e' he').1, hlt.le.trans (ihlower e' he').2⟩
      · exact List.pairwise_cons.mpr ⟨fun e' he' => (ihlower e' he').2, ihfollow⟩

namespace Carried

variable {es : List Entry} (h : Carried es)

include h

theorem bounds {e : Entry} (he : e ∈ es) :
    TimeSlice e.1 ∧ e.1.a < e.1.b ∧ 0 ≤ e.1.a.time ∧ e.1.b.time ≤ maxTimestamp := by
  obtain ⟨h0, hlt, hmax⟩ := h.received.mem le_rfl _ (List.mem_map_of_mem he)
  have hlower := (receivedFrom_lower h.received rfl h.upper).1 e he
  exact ⟨⟨SyncID.ext rfl hlower.1, SyncID.ext rfl (h.upper e he)⟩, hlt, h0, hmax⟩

theorem inOrder : InOrder es where
  slice e he := by
    obtain ⟨hslice, hlt, _⟩ := h.bounds (mem_openEntries.mp he).1
    exact ⟨hslice, hlt⟩
  follow := (receivedFrom_lower h.received rfl h.upper).2.sublist List.filter_sublist

theorem clipEntries (lowerBound : ℤ) : Carried (clipEntries lowerBound es) := by
  refine ⟨receivedFrom_clipEntries lowerBound es _ h.received, ?_⟩
  have hupper := h.upper
  clear h
  induction es with
  | nil => simp [StoreSync.clipEntries]
  | cons e es ih =>
      obtain ⟨r, body⟩ := e
      have hr : r.b.hash = emptyFingerprint := hupper _ List.mem_cons_self
      have htail : ∀ e ∈ es, e.1.b.hash = emptyFingerprint :=
        fun e he => hupper e (List.mem_cons_of_mem _ he)
      have ih := ih htail
      by_cases hskip : body = .skip
      · subst hskip
        rw [StoreSync.clipEntries]
        exact List.forall_mem_cons.mpr ⟨hr, ih⟩
      · rw [clipEntries_open lowerBound hskip]
        split_ifs
        · exact List.forall_mem_cons.mpr ⟨hr, ih⟩
        · exact List.forall_mem_cons.mpr ⟨rfl, List.forall_mem_cons.mpr ⟨hr, htail⟩⟩
        · exact List.forall_mem_cons.mpr ⟨hr, htail⟩

end Carried

/-! ### Through the codec -/

/-- The open ranges arrive as they were sent. -/
theorem openEntries_decodedEntries : ∀ {es : List Entry} {last lower : SyncID},
    Conveyed last lower es → openEntries (decodedEntries last lower es) = openEntries es
  | [], _, _, _ => rfl
  | (r, body) :: es, last, lower, h => by
      by_cases hskip : body = .skip
      · subst hskip
        rw [decodedEntries, openEntries_cons_skip, openEntries_cons_skip,
          openEntries_decodedEntries h.2]
      · obtain ⟨rfl, hb, hrest⟩ := (conveyed_open last lower r hskip es).mp h
        rw [decodedEntries, hb, openEntries_cons_open hskip, openEntries_cons_open hskip,
          openEntries_decodedEntries hrest]

theorem decodedEntries_upper : ∀ {es : List Entry} {last lower : SyncID},
    (∀ e ∈ es, e.1.b.hash = emptyFingerprint) →
      ∀ e ∈ decodedEntries last lower es, e.1.b.hash = emptyFingerprint
  | [], _, _, _ => by simp [decodedEntries]
  | (r, body) :: es, last, lower, h => by
      have hb : r.b.hash = emptyFingerprint := h _ List.mem_cons_self
      rw [decodedEntries, decodedBound_of_empty last hb]
      exact List.forall_mem_cons.mpr
        ⟨hb, decodedEntries_upper fun e he => h e (List.mem_cons_of_mem _ he)⟩

/-- Merging skips makes no new bounds. -/
theorem mergeSkips_bounds {P : SyncID → Prop} {es : List Entry}
    (h : ∀ e ∈ es, P e.1.a ∧ P e.1.b) : ∀ e ∈ mergeSkips .skip es, P e.1.a ∧ P e.1.b := by
  induction es with
  | nil => simp [mergeSkips]
  | cons e es ih =>
      obtain ⟨he, hes⟩ := List.forall_mem_cons.mp h
      have ih := ih hes
      rw [mergeSkips_cons]
      cases hmerged : mergeSkips RangeBody.skip es with
      | nil => exact List.forall_mem_cons.mpr ⟨he, by simp⟩
      | cons next rest =>
          rw [hmerged] at ih
          obtain ⟨hnext, hrest⟩ := List.forall_mem_cons.mp ih
          rw [mergeInto]
          split_ifs
          · exact List.forall_mem_cons.mpr ⟨⟨he.1, hnext.2⟩, hrest⟩
          · exact List.forall_mem_cons.mpr ⟨he, ih⟩

theorem withLeading_upper {es : List Entry}
    (h : ∀ e ∈ es, e.1.a.hash = emptyFingerprint ∧ e.1.b.hash = emptyFingerprint) :
    ∀ e ∈ withLeading es, e.1.b.hash = emptyFingerprint := by
  cases es with
  | nil => simp [withLeading]
  | cons e es =>
      rw [withLeading]
      split_ifs
      · exact List.forall_mem_cons.mpr ⟨(h e List.mem_cons_self).1, fun e' he' => (h e' he').2⟩
      · exact fun e' he' => (h e' he').2

theorem openEntries_withLeading (es : List Entry) : openEntries (withLeading es) = openEntries es := by
  cases es with
  | nil => rfl
  | cons e es =>
      rw [withLeading]
      split_ifs
      · exact openEntries_cons_skip _ _
      · rfl

theorem isFinished_iff {cluster : UInt16} {shards : List UInt16} {es : List Entry} :
    (RangesData.ofEntries cluster shards es).isFinished = true ↔ openEntries es = [] := by
  have hranges : (RangesData.ofEntries cluster shards es).ranges =
      es.map (fun e => (e.1, e.2.type)) := rfl
  rw [RangesData.isFinished, hranges, Bool.or_eq_true, openEntries, List.filter_eq_nil_iff,
    List.all_map, List.all_eq_true]
  constructor
  · rintro (hnil | hall) e he
    · simp at hnil
      simp [hnil] at he
    · have hskip := of_decide_eq_true (hall e he)
      simpa using (RangeBody.type_eq_skip e.2).mp hskip
  · intro hall
    refine Or.inr fun e he => ?_
    have hskip : e.2 = .skip := by simpa using hall e he
    exact decide_eq_true ((RangeBody.type_eq_skip e.2).mpr hskip)

/-- What arrives of a payload that can be written. -/
theorem decoded {L : VarintCodec} (hL : L.Lawful) (cluster : UInt16) {shards : List UInt16}
    (hshards : shards.length ≤ 65536) {es : List Entry}
    (hw : Writable SyncID.zero (withLeading es)) :
    ∃ rawPayload, (RangesData.ofEntries cluster shards es).deltaEncode L = some rawPayload ∧
      RangesData.deltaDecode L rawPayload = .ok (RangesData.ofEntries cluster shards
        (decodedEntries SyncID.zero SyncID.zero (withLeading es))) ∧
      ReceivedFrom SyncID.zero ((decodedEntries SyncID.zero SyncID.zero (withLeading es)).map
        (fun e => (e.1, e.2.type))) := by
  have hpush : ∀ es' : List Entry, ({ cluster := cluster, shards := shards } : RangesData).push es' =
      RangesData.ofEntries cluster shards es' := by
    intro es'
    simp [RangesData.push, RangesData.ofEntries]
  have hdec := (deltaDecode_entries hL (RangesData.ofEntries cluster shards es) hshards hw).trans
    (congrArg _ (hpush _))
  refine ⟨_, deltaEncode_ofEntries L _ _ es, hdec, ?_⟩
  obtain ⟨_, es', hes', hreceived⟩ := deltaDecode_received hdec
  have hsame := congrArg RangesData.entries hes'
  rw [RangesData.entries_ofEntries, RangesData.entries_ofEntries] at hsame
  rw [hsame]
  exact hreceived

/-- **A payload of time slices arrives**, with a leading skip at most. -/
theorem transmitted {L : VarintCodec} (hL : L.Lawful) (cluster : UInt16) {shards : List UInt16}
    (hshards : shards.length ≤ 65536) {es : List Entry}
    (hw : Writable SyncID.zero (withLeading es))
    (hconveyed : Conveyed SyncID.zero SyncID.zero (withLeading es))
    (hupper : ∀ e ∈ withLeading es, e.1.b.hash = emptyFingerprint) :
    ∃ rawPayload es', (RangesData.ofEntries cluster shards es).deltaEncode L = some rawPayload ∧
      RangesData.deltaDecode L rawPayload = .ok (RangesData.ofEntries cluster shards es') ∧
      openEntries es' = openEntries es ∧ Carried es' := by
  obtain ⟨rawPayload, henc, hdec, hreceived⟩ := decoded hL cluster hshards hw
  refine ⟨rawPayload, _, henc, hdec, ?_, hreceived, decodedEntries_upper hupper⟩
  rw [openEntries_decodedEntries hconveyed, openEntries_withLeading]

/-- The answers of an index to time slices are time slices. -/
theorem SeqStorage.answer_hash (self : SeqStorage) (ps cs : PackedSet ℤ) {e : Entry}
    (h : TimeSlice e.1) : ∀ e' ∈ self.answer ps cs e,
      e'.1.a.hash = emptyFingerprint ∧ e'.1.b.hash = emptyFingerprint := by
  have hown : e.1.a.hash = emptyFingerprint ∧ e.1.b.hash = emptyFingerprint :=
    ⟨congrArg SyncID.hash h.lower, congrArg SyncID.hash h.upper⟩
  intro e' he'
  rcases self.answer_cases ps cs e with ⟨_, ha⟩ | ⟨_, body, _, ha⟩ | ⟨_, hcount, hlen, ha⟩ | ⟨_, ha⟩
  · rw [ha, List.mem_singleton] at he'
    rw [he']
    exact hown
  · rw [ha, List.mem_singleton] at he'
    rw [he']
    exact hown
  · rw [ha, slices, List.mem_map] at he'
    obtain ⟨part, hpart, rfl⟩ := he'
    obtain ⟨s, t, rfl, _⟩ := (equalPartitioning_tiles e.1 hcount hlen).mem hpart
    exact ⟨rfl, rfl⟩
  · rw [ha] at he'
    simp at he'

theorem SeqStorage.WellFormed.fate_ne_dropped {s : SeqStorage} (h : s.WellFormed)
    {topics : List PubsubTopic} {own : List SyncID} {e : Entry} (hcount : 2 ≤ s.partitionCount)
    (hshows : s.ShowsOn topics own e.1) (ps cs : PackedSet ℤ) : s.fate ps cs e ≠ .dropped := by
  obtain ⟨r, body⟩ := e
  cases body with
  | skip => simp [fate]
  | itemSet set =>
      unfold fate
      dsimp only
      split_ifs <;> simp
  | fingerprint f =>
      rw [fate]
      by_cases heq : s.computeFingerprintFromSlice (s.findIdxBounds r) ps cs = f
      · simp [heq]
      rw [if_neg heq]
      cases hf : s.findIdxBounds r with
      | none => simp
      | some slice =>
          dsimp only
          by_cases hfew : ((slice.2 - slice.1 : ℕ) : ℤ) ≤ s.lengthThreshold
          · simp [hfew]
          rw [if_neg hfew, if_neg]
          · simp
          · -- a range that is too short to be partitioned has few elements
            intro hshort
            have hlen := hshows.sparse (hshort.resolve_left (by omega))
            rw [← h.slice_length hf] at hlen
            exact hfew hlen

end LogosDelivery.StoreSync
