import LogosDelivery.StoreSync.Codec
import LogosDelivery.StoreSync.Payload

/-! # Decoding undoes encoding

A payload is written as a header and a list of entries, each with its upper bound relative to the
bound before.  The sender cuts a hash after the first byte in which it differs from its full
predecessor; the receiver only knows the cut predecessor.  The cut bound still lies between the
full predecessor and the full bound (`lt_decodedBound`, `decodedBound_le`), so the receiver's
bounds are increasing too, and nothing but the bounds changes (`decodeRanges_entries`). -/

namespace LogosDelivery.StoreSync

open LogosDelivery.Lib (VarintCodec)

/-! ### Bounds as the receiver sees them -/

/-- The hash up to the first byte that differs from the hash before, and zero after it. -/
def cutHash (last hash : WakuMessageHash) : WakuMessageHash :=
  emptyFingerprint.setBytes (hash.1.take (sameBytes last.1 hash.1))

/-- The bound that is decoded for `bound` when it is sent after `last`. -/
def decodedBound (last bound : SyncID) : SyncID :=
  if bound.time = last.time then ⟨bound.time, cutHash last.hash bound.hash⟩
  else SyncID.atTime bound.time

theorem sameBytes_le : ∀ x y : List Byte, sameBytes x y ≤ y.length
  | [], _ => by simp [sameBytes]
  | _ :: _, [] => by simp [sameBytes]
  | a :: x, b :: y => by
      have := sameBytes_le x y
      rw [sameBytes]
      split_ifs <;> simp only [List.length_cons] <;> omega

/-- The cut bytes are above the predecessor and not above the full ones. -/
theorem cut_between : ∀ x y : List Byte, x.length = y.length → x < y →
    x < y.take (sameBytes x y) ++ List.replicate (y.length - sameBytes x y) 0 ∧
      y.take (sameBytes x y) ++ List.replicate (y.length - sameBytes x y) 0 ≤ y
  | [], [], _, h => absurd h (lt_irrefl _)
  | [], _ :: _, hl, _ => by simp at hl
  | _ :: _, [], hl, _ => by simp at hl
  | a :: x, b :: y, hl, h => by
      have hl' : x.length = y.length := by simpa using hl
      rw [sameBytes]
      by_cases hab : a = b
      · subst hab
        have hxy : x < y := by
          rcases List.cons_lt_cons_iff.mp h with h | h
          · exact absurd h (lt_irrefl _)
          · exact h.2
        obtain ⟨h1, h2⟩ := cut_between x y hl' hxy
        rw [if_neg (by simp), List.take_succ_cons, List.length_cons, Nat.add_sub_add_right,
          List.cons_append]
        exact ⟨List.cons_lt_cons_iff.mpr (Or.inr ⟨rfl, h1⟩), List.cons_le_cons _ h2⟩
      · have hlt : a < b := by
          rcases List.cons_lt_cons_iff.mp h with h | h
          · exact h
          · exact absurd h.1 hab
        rw [if_pos hab, List.take_succ_cons, List.take_zero, List.length_cons, Nat.add_sub_cancel,
          List.cons_append, List.nil_append]
        exact ⟨List.cons_lt_cons_iff.mpr (Or.inl hlt),
          List.cons_le_cons _ (replicate_zero_le _ y rfl)⟩

theorem cutHash_val (last hash : WakuMessageHash) :
    (cutHash last hash).1 = hash.1.take (sameBytes last.1 hash.1) ++
      List.replicate (hash.1.length - sameBytes last.1 hash.1) 0 := by
  have hle := sameBytes_le last.1 hash.1
  have hlen := hash.2
  show ((hash.1.take _) ++ (List.replicate 32 0).drop _).take 32 = _
  rw [List.drop_replicate, List.length_take, min_eq_left hle, hlen]
  apply List.take_of_length_le
  rw [List.length_append, List.length_take, List.length_replicate]
  omega

theorem lt_cutHash {last hash : WakuMessageHash} (h : last < hash) : last < cutHash last hash := by
  show last.1 < (cutHash last hash).1
  rw [cutHash_val]
  exact (cut_between last.1 hash.1 (by rw [last.2, hash.2]) h).1

theorem cutHash_le {last hash : WakuMessageHash} (h : last < hash) : cutHash last hash ≤ hash := by
  show (cutHash last hash).1 ≤ hash.1
  rw [cutHash_val]
  exact (cut_between last.1 hash.1 (by rw [last.2, hash.2]) h).2

/-- The decoded bound is above the bound before. -/
theorem lt_decodedBound {last bound : SyncID} (h : last < bound) : last < decodedBound last bound := by
  unfold decodedBound
  rcases SyncID.lt_iff.mp h with ht | ⟨ht, hh⟩
  · rw [if_neg (by omega)]
    exact SyncID.lt_of_time_lt ht
  · rw [if_pos ht.symm]
    exact SyncID.lt_iff.mpr (Or.inr ⟨ht, lt_cutHash hh⟩)

/-- The decoded bound is not above the bound that was sent. -/
theorem decodedBound_le {last bound : SyncID} (h : last < bound) : decodedBound last bound ≤ bound := by
  unfold decodedBound
  rcases SyncID.lt_iff.mp h with ht | ⟨ht, hh⟩
  · rw [if_neg (by omega)]
    exact SyncID.atTime_le_iff.mpr le_rfl
  · rw [if_pos ht.symm]
    exact SyncID.le_iff.mpr (Or.inr ⟨rfl, cutHash_le hh⟩)

theorem decodedBound_time (last bound : SyncID) : (decodedBound last bound).time = bound.time := by
  unfold decodedBound
  split_ifs <;> rfl

/-- A bound that loses nothing: its hash is zero where its time goes up, and zero after the first
byte that differs from the hash before where it does not. -/
def Lossless (last bound : SyncID) : Prop :=
  if bound.time = last.time then
    bound.hash.1.drop (sameBytes last.hash.1 bound.hash.1) =
      List.replicate (bound.hash.1.length - sameBytes last.hash.1 bound.hash.1) 0
  else bound.hash = emptyFingerprint

theorem decodedBound_of_lossless {last bound : SyncID} (h : Lossless last bound) :
    decodedBound last bound = bound := by
  unfold Lossless at h
  unfold decodedBound
  split_ifs at h ⊢ with ht
  · apply SyncID.ext
    · rfl
    · apply Subtype.ext
      show (cutHash last.hash bound.hash).1 = bound.hash.1
      rw [cutHash_val, ← h, List.take_append_drop]
  · exact SyncID.ext rfl h.symm

/-! ### Reading what was written -/

theorem timeDifference_eq {a b : ℤ} (hb : 0 ≤ b) (hab : b ≤ a) (ha : a ≤ maxTimestamp) :
    ((timeDifference a b : ℕ) : ℤ) = a - b ∧ timeDifference a b < 2 ^ 63 := by
  unfold maxTimestamp at ha
  unfold timeDifference
  rw [Int.emod_eq_of_lt (by omega) (by omega)]
  omega

section Readers

variable {L : VarintCodec} {buffer suffix : List Byte} {idx : ℕ}

theorem drop_next {piece : List Byte} (h : buffer.drop idx = piece ++ suffix) :
    buffer.drop (idx + piece.length) = suffix := by
  rw [← List.drop_drop, h, List.drop_left]

theorem length_left {piece : List Byte} (h : buffer.drop idx = piece ++ suffix) :
    buffer.length - idx = piece.length + suffix.length := by
  rw [← List.length_drop, h, List.length_append]

theorem getElem?_next {b : Byte} (h : buffer.drop idx = b :: suffix) : buffer[idx]? = some b := by
  rw [← List.head?_drop, h]
  rfl

theorem drop_next_byte {b : Byte} (h : buffer.drop idx = b :: suffix) :
    buffer.drop (idx + 1) = suffix := by
  rw [← List.tail_drop, h]
  rfl

theorem setBytes_val (hash : Fingerprint) : emptyFingerprint.setBytes hash.1 = hash := by
  apply Subtype.ext
  show (hash.1 ++ (List.replicate 32 0).drop hash.1.length).take 32 = hash.1
  rw [hash.2, List.drop_replicate, Nat.sub_self, List.replicate_zero, List.append_nil]
  exact List.take_of_length_le (by rw [hash.2])

theorem getHash_ok {hash : WakuMessageHash} (h : buffer.drop idx = hash.1 ++ suffix) :
    getHash idx buffer = .ok (hash, idx + HashLen) := by
  have hlen := length_left h
  have h32 := hash.2
  unfold getHash
  rw [if_neg (by unfold HashLen; omega), h, show HashLen = hash.1.length from h32.symm,
    List.take_left, setBytes_val]

theorem getFingerprint_ok {f : Fingerprint} (h : buffer.drop idx = f.1 ++ suffix) :
    getFingerprint idx buffer = .ok (f, idx + HashLen) := by
  have hlen := length_left h
  have h32 := f.2
  unfold getFingerprint
  rw [if_neg (by unfold HashLen; omega), h, show HashLen = f.1.length from h32.symm,
    List.take_left, setBytes_val]

theorem getReconciled_ok {reconciled : Bool}
    (h : buffer.drop idx = (if reconciled then 1 else 0) :: suffix) :
    getReconciled idx buffer = .ok (reconciled, idx + 1) := by
  unfold getReconciled
  rw [getElem?_next h]
  cases reconciled <;> rfl

theorem getRangeType_ok {type : RangeType} (h : buffer.drop idx = type.toByte :: suffix) :
    getRangeType idx buffer = .ok (type, idx + 1) := by
  unfold getRangeType
  rw [getElem?_next h]
  cases type <;> rfl

/-- The bytes of a hash prefix, with its length in front. -/
theorem updateHash_ok {hash : WakuMessageHash} {n : ℕ} (hn : n ≤ 32)
    (h : buffer.drop idx = Fin.ofNat 256 n :: hash.1.take n ++ suffix) :
    updateHash idx buffer emptyFingerprint =
      .ok (emptyFingerprint.setBytes (hash.1.take n), idx + (n + 1)) := by
  have hval : (Fin.ofNat 256 n).val = n := Nat.mod_eq_of_lt (by omega)
  have hlen := length_left h
  have h32 := hash.2
  rw [List.length_cons, List.length_take, min_eq_left (by omega)] at hlen
  have hrest : buffer.drop (idx + 1) = hash.1.take n ++ suffix := drop_next_byte h
  unfold updateHash
  rw [getElem?_next h]
  dsimp only
  rw [hval, if_neg (by omega), if_neg (by omega), hrest, List.take_left' (by simp [h32, hn])]
  congr 2
  omega

variable (hL : L.Lawful)

include hL

/-- A varint of at most nine bytes is read back. -/
theorem fromBytes_varintSlice {v : ℕ} (hv : v < 2 ^ 63)
    (h : buffer.drop idx = L.toBytes v ++ suffix) :
    L.fromBytes (varintSlice idx buffer) = (v, (L.toBytes v).length) := by
  have hlen : (L.toBytes v).length ≤ VarIntLen := hL.length_toBytes_le v 9 (by omega) (by omega)
  unfold varintSlice
  rw [h, List.take_append, List.take_of_length_le hlen]
  exact hL.fromBytes_toBytes v (by omega) _

theorem getVarint_ok {v : ℕ} (hv : v < 2 ^ 63) (h : buffer.drop idx = L.toBytes v ++ suffix) :
    getVarint L idx buffer = some (v, idx + (L.toBytes v).length) := by
  have hpos := hL.toBytes_pos v
  have hlen := length_left h
  unfold getVarint
  rw [if_neg (by omega), fromBytes_varintSlice hL hv h]
  dsimp only
  rw [if_neg (by omega)]

theorem getTimeDiff_ok {v : ℕ} (hv : v < 2 ^ 63) (h : buffer.drop idx = L.toBytes v ++ suffix) :
    getTimeDiff L idx buffer = ((v : ℤ), idx + (L.toBytes v).length) := by
  unfold getTimeDiff
  rw [fromBytes_varintSlice hL hv h]

theorem getItemSetLength_ok {v : ℕ} (hv : v < 2 ^ 63)
    (h : buffer.drop idx = L.toBytes v ++ suffix) :
    getItemSetLength L idx buffer = (v, idx + (L.toBytes v).length) := by
  unfold getItemSetLength
  rw [fromBytes_varintSlice hL hv h]

theorem getTimestamp_ok {v : ℕ} (hv : v < 2 ^ 63) (h : buffer.drop idx = L.toBytes v ++ suffix)
    (hsuffix : 8 ≤ suffix.length) :
    getTimestamp L idx buffer = .ok ((v : ℤ), idx + (L.toBytes v).length) := by
  have hpos := hL.toBytes_pos v
  have hlen := length_left h
  unfold getTimestamp
  rw [if_neg (by unfold VarIntLen; omega), fromBytes_varintSlice hL hv h]

theorem getCluster_ok {cluster : UInt16}
    (h : buffer.drop idx = L.toBytes cluster.toNat ++ suffix) :
    getCluster L idx buffer = .ok (cluster, idx + (L.toBytes cluster.toNat).length) := by
  have hlt := cluster.toNat_lt
  unfold getCluster
  rw [getVarint_ok hL (by omega) h]
  dsimp only
  rw [if_neg (by omega), UInt16.ofNat_toNat]

theorem getShardsLoop_ok : ∀ (rest done : List UInt16) (i idx : ℕ),
    buffer.drop idx = rest.flatMap (fun shard => L.toBytes shard.toNat) ++ suffix →
    getShardsLoop L buffer rest.length i idx done =
      .ok (done ++ rest, idx + (rest.flatMap (fun shard => L.toBytes shard.toNat)).length)
  | [], done, i, idx, _ => by simp [getShardsLoop]
  | shard :: rest, done, i, idx, h => by
      have hlt := shard.toNat_lt
      rw [List.flatMap_cons, List.append_assoc] at h
      rw [List.length_cons, getShardsLoop, getVarint_ok hL (by omega) h]
      dsimp only
      rw [if_neg (by omega), UInt16.ofNat_toNat,
        getShardsLoop_ok rest (done ++ [shard]) (i + 1) _ (drop_next h), List.flatMap_cons,
        List.length_append, List.append_assoc, Nat.add_assoc]
      rfl

theorem length_le_flatMap_toBytes (shards : List UInt16) :
    shards.length ≤ (shards.flatMap (fun shard => L.toBytes shard.toNat)).length := by
  induction shards with
  | nil => simp
  | cons shard shards ih =>
      have := hL.toBytes_pos shard.toNat
      rw [List.flatMap_cons, List.length_append, List.length_cons]
      omega

theorem getShards_ok {shards : List UInt16} (hs : shards.length ≤ 65536)
    (h : buffer.drop idx = L.toBytes shards.length ++
      (shards.flatMap (fun shard => L.toBytes shard.toNat) ++ suffix)) :
    getShards L idx buffer = .ok (shards, idx + (L.toBytes shards.length ++
      shards.flatMap (fun shard => L.toBytes shard.toNat)).length) := by
  have hrest := drop_next h
  have hleft := length_left hrest
  have hbytes := length_le_flatMap_toBytes hL shards
  unfold getShards
  rw [getVarint_ok hL (by omega) h]
  dsimp only
  rw [if_neg (by omega), getShardsLoop_ok hL shards [] 0 _ hrest, List.nil_append,
    List.length_append, Nat.add_assoc]

/-! ### Item sets -/

theorem decodeElements_ok : ∀ (rest done : List SyncID) (idx : ℕ) (lastTime : ℤ), 0 ≤ lastTime →
    (∀ x ∈ rest, lastTime ≤ x.time ∧ x.time ≤ maxTimestamp) →
    rest.Pairwise (fun x y => x.time ≤ y.time) →
    buffer.drop idx = encodeElements L lastTime rest ++ suffix →
    decodeElements L buffer rest.length idx lastTime done =
      .ok (done ++ rest, idx + (encodeElements L lastTime rest).length)
  | [], done, idx, lastTime, _, _, _, _ => by simp [decodeElements, encodeElements]
  | id :: rest, done, idx, lastTime, h0, hle, hsorted, h => by
      obtain ⟨hlast, hmax⟩ := hle id List.mem_cons_self
      obtain ⟨hdiff, hlt⟩ := timeDifference_eq h0 hlast hmax
      rw [encodeElements, List.append_assoc, List.append_assoc] at h
      have h1 := drop_next h
      have h2 := drop_next h1
      have hid := id.hash.2
      have hsuffix : 8 ≤ (id.hash.1 ++ (encodeElements L id.time rest ++ suffix)).length := by
        rw [List.length_append]
        omega
      have hrest := decodeElements_ok rest (done ++ [id]) _ id.time (h0.trans hlast)
        (fun x hx => ⟨List.rel_of_pairwise_cons hsorted hx, (hle x (List.mem_cons_of_mem _ hx)).2⟩)
        (List.pairwise_cons.mp hsorted).2 h2
      simp only [List.length_cons, decodeElements, getTimestamp_ok hL hlt h hsuffix, getHash_ok h1,
        hdiff, bind, Except.bind]
      rw [if_neg (by omega), show lastTime + (id.time - lastTime) = id.time by omega]
      rw [show HashLen = id.hash.1.length from hid.symm, hrest, encodeElements, List.append_assoc,
        List.length_append, List.length_append]
      congr 2
      omega

end Readers

/-- An item set that can be written: its times are timestamps and do not go down. -/
structure ItemSet.Encodable (s : ItemSet) : Prop where
  length_lt : s.elements.length < 2 ^ 63
  times : ∀ x ∈ s.elements, 0 ≤ x.time ∧ x.time ≤ maxTimestamp
  sorted : s.elements.Pairwise (fun x y => x.time ≤ y.time)

theorem getItemSet_ok {L : VarintCodec} (hL : L.Lawful) {buffer suffix : List Byte} {idx : ℕ}
    {s : ItemSet} (hs : s.Encodable) (h : buffer.drop idx = s.deltaEncode L ++ suffix) :
    getItemSet L idx buffer s.elements.length = .ok (s, idx + (s.deltaEncode L).length) := by
  unfold ItemSet.deltaEncode at h
  rw [List.append_assoc] at h
  have hslice : (buffer.drop idx).drop 0 = encodeElements L 0 s.elements ++
      ([if s.reconciled then 1 else 0] ++ suffix) := by
    rw [List.drop_zero, h]
  have hel := decodeElements_ok hL s.elements [] 0 0 le_rfl hs.times hs.sorted hslice
  have hrec := getReconciled_ok (drop_next hslice)
  unfold getItemSet ItemSet.deltaDecode
  simp only [hel, hrec, bind, Except.bind, List.nil_append, pure, Except.pure]
  unfold ItemSet.deltaEncode
  rw [List.length_append, Nat.zero_add]
  rfl

/-! ### Ranges -/

/-- The bytes of the content of a range. -/
def RangeBody.bytes (L : VarintCodec) : RangeBody → List Byte
  | .skip => []
  | .fingerprint f => f.1
  | .itemSet s => L.toBytes s.elements.length ++ s.deltaEncode L

/-- The bytes of a list of entries that starts after `last`. -/
def encodeEntries (L : VarintCodec) (last : SyncID) : List Entry → List Byte
  | [] => []
  | (r, body) :: es =>
      encodeUpperBound L r.b last ++ body.type.toByte :: (body.bytes L ++ encodeEntries L r.b es)

theorem encodeRanges_eq (L : VarintCodec) (value : RangesData) : ∀ (es : List Entry) (last : SyncID)
    (i j : ℕ), value.fingerprints.drop i = es.filterMap (fun e => e.2.fingerprint?) →
    value.itemSets.drop j = es.filterMap (fun e => e.2.itemSet?) →
    encodeRanges L value last (es.map (fun e => (e.1, e.2.type))) i j =
      some (encodeEntries L last es)
  | [], last, i, j, _, _ => rfl
  | (r, .skip) :: es, last, i, j, hf, hs => by
      have ih := encodeRanges_eq L value es r.b i j (by simpa [List.filterMap_cons] using hf)
        (by simpa [List.filterMap_cons] using hs)
      simp only [List.map_cons, RangeBody.type_skip, encodeRanges, ih, Option.bind_eq_bind,
        Option.bind_some]
      rfl
  | (r, .fingerprint f) :: es, last, i, j, hf, hs => by
      obtain ⟨hget, hdrop⟩ := SeqStorage.getElem?_of_drop_eq_cons
        (hf.trans (List.filterMap_cons_some rfl))
      have ih := encodeRanges_eq L value es r.b (i + 1) j hdrop
        (by simpa [List.filterMap_cons] using hs)
      simp only [List.map_cons, RangeBody.type_fingerprint, encodeRanges, hget, ih,
        Option.bind_eq_bind, Option.bind_some]
      rfl
  | (r, .itemSet set) :: es, last, i, j, hf, hs => by
      obtain ⟨hget, hdrop⟩ := SeqStorage.getElem?_of_drop_eq_cons
        (hs.trans (List.filterMap_cons_some rfl))
      have ih := encodeRanges_eq L value es r.b i (j + 1) (by simpa [List.filterMap_cons] using hf)
        hdrop
      simp only [List.map_cons, RangeBody.type_itemSet, encodeRanges, hget, ih,
        Option.bind_eq_bind, Option.bind_some]
      rfl

/-- The entries as the receiver sees them: each starts where the one before ended. -/
def decodedEntries (last lower : SyncID) : List Entry → List Entry
  | [] => []
  | (r, body) :: es =>
      (⟨lower, decodedBound last r.b⟩, body) :: decodedEntries r.b (decodedBound last r.b) es

/-- The upper bounds go up from `last` on, within the timestamps, and the item sets can be
written. -/
def Writable (last : SyncID) : List Entry → Prop
  | [] => True
  | (r, body) :: es => last < r.b ∧ r.b.time ≤ maxTimestamp ∧
      (∀ s, body = .itemSet s → s.Encodable) ∧ Writable r.b es

theorem length_le_encodeEntries (L : VarintCodec) : ∀ (es : List Entry) (last : SyncID),
    es.length ≤ (encodeEntries L last es).length
  | [], _ => by simp
  | (r, body) :: es, last => by
      have ih := length_le_encodeEntries L es r.b
      rw [encodeEntries, List.length_append, List.length_cons, List.length_cons, List.length_append]
      omega

section Ranges

variable {L : VarintCodec} (hL : L.Lawful) {buffer suffix : List Byte}

include hL

/-- Reading an upper bound: first its time, then its hash. -/
theorem readUpperBound {idx : ℕ} {last bound : SyncID} (h0 : 0 ≤ last.time) (hlt : last < bound)
    (hmax : bound.time ≤ maxTimestamp)
    (h : buffer.drop idx = encodeUpperBound L bound last ++ suffix) :
    ∃ idx', getTimeDiff L idx buffer = (bound.time - last.time, idx') ∧
      getUpperHash idx' buffer (bound.time - last.time) =
        .ok ((decodedBound last bound).hash, idx + (encodeUpperBound L bound last).length) := by
  obtain ⟨hdiff, hsmall⟩ := timeDifference_eq h0 (SyncID.time_le_of_le hlt.le) hmax
  unfold encodeUpperBound at h ⊢
  dsimp only at h ⊢
  rw [List.append_assoc] at h
  refine ⟨_, by rw [getTimeDiff_ok hL hsmall h, hdiff], ?_⟩
  have hnext := drop_next h
  unfold getUpperHash decodedBound
  by_cases hzero : bound.time = last.time
  · have hd0 : timeDifference bound.time last.time = 0 := by omega
    have hsame := sameBytes_le last.hash.1 bound.hash.1
    have hlen := bound.hash.2
    rw [if_pos hd0] at hnext ⊢
    rw [if_pos (by omega), if_pos hzero, updateHash_ok (by omega) hnext, List.length_append,
      List.length_cons, List.length_take, min_eq_left hsame, Nat.add_assoc]
    rfl
  · have hd0 : timeDifference bound.time last.time ≠ 0 := by omega
    rw [if_neg hd0, if_neg (by omega), if_neg hzero, List.append_nil]
    rfl

/-- Reading the content of a range. -/
theorem getBody_ok {idx : ℕ} (bounds : Slice SyncID) {body : RangeBody} (payload : RangesData)
    (hbody : ∀ s, body = .itemSet s → s.Encodable)
    (h : buffer.drop idx = body.bytes L ++ suffix) :
    getBody L idx buffer bounds body.type payload =
      .ok (payload.push [(bounds, body)], idx + (body.bytes L).length) := by
  cases body with
  | skip =>
      rw [← RangesData.addSkip_eq_push]
      rfl
  | fingerprint f =>
      have hread : getFingerprint idx buffer = .ok (f, idx + HashLen) := getFingerprint_ok h
      have hlen : (RangeBody.bytes L (.fingerprint f)).length = HashLen := f.2
      rw [← RangesData.addFingerprint_eq_push, hlen]
      simp only [getBody, RangeBody.type_fingerprint, hread, bind, Except.bind]
      rfl
  | itemSet s =>
      have hs := hbody s rfl
      unfold RangeBody.bytes at h
      dsimp only at h
      rw [List.append_assoc] at h
      have hread := getItemSetLength_ok hL hs.length_lt h
      have hset := getItemSet_ok hL hs (drop_next h)
      rw [← RangesData.addItemSet_eq_push]
      simp only [getBody, RangeBody.type_itemSet, hread, hset, bind, Except.bind, RangeBody.bytes,
        List.length_append, Nat.add_assoc]
      rfl

/-- The loop reads back the entries, with the bounds as the receiver sees them. -/
theorem decodeRanges_entries : ∀ (es : List Entry) (last lower : SyncID) (idx fuel : ℕ)
    (payload : RangesData), lower ≤ last → lower.time = last.time → 0 ≤ last.time →
    Writable last es → es.length < fuel → buffer.drop idx = encodeEntries L last es →
    decodeRanges L buffer fuel idx lower payload =
      .ok (payload.push (decodedEntries last lower es))
  | _, _, _, _, 0, _, _, _, _, _, hfuel, _ => by omega
  | [], last, lower, idx, fuel + 1, payload, _, _, _, _, _, h => by
      have hend : buffer.length ≤ idx := List.drop_eq_nil_iff.mp h
      rw [decodeRanges, if_pos hend]
      exact congrArg Except.ok (RangesData.push_nil _).symm
  | (r, body) :: es, last, lower, idx, fuel + 1, payload, hle, htime, h0, hw, hfuel, h => by
      obtain ⟨hlt, hmax, hbody, hrest⟩ := hw
      rw [encodeEntries] at h
      have hpos : ¬ buffer.length ≤ idx := by
        intro hend
        rw [List.drop_eq_nil_iff.mpr hend] at h
        simp at h
      obtain ⟨idx', hdiff, hhash⟩ := readUpperBound hL h0 hlt hmax h
      have h1 := drop_next h
      have htype := getRangeType_ok h1
      have h2 := drop_next_byte h1
      have hcontent := getBody_ok hL ⟨lower, decodedBound last r.b⟩ payload hbody h2
      have hnext := decodeRanges_entries es r.b (decodedBound last r.b) _ fuel
        (payload.push [(⟨lower, decodedBound last r.b⟩, body)]) (decodedBound_le hlt)
        (decodedBound_time last r.b) (h0.trans (SyncID.time_le_of_le hlt.le)) hrest
        (by simpa using hfuel) (drop_next h2)
      -- the bound the receiver computes
      have hupper : (⟨lower.time + (r.b.time - last.time), (decodedBound last r.b).hash⟩ : SyncID) =
          decodedBound last r.b := by
        apply SyncID.ext
        · rw [decodedBound_time]
          show lower.time + (r.b.time - last.time) = r.b.time
          omega
        · rfl
      have hcmp : cmp lower (decodedBound last r.b) = -1 :=
        cmp_eq_neg_one_iff.mpr (lt_of_le_of_lt hle (lt_decodedBound hlt))
      rw [decodeRanges, if_neg hpos]
      simp only [hdiff, hhash, htype, bind, Except.bind, hupper, hcmp, hcontent, hnext]
      rw [if_neg (by omega), if_neg (by simp), RangesData.push_push]
      rfl

end Ranges

/-! ### Payloads -/

/-- Each range starts where the one before ends, the first one at `lo`, and ends above its start. -/
def ContiguousFrom (lo : SyncID) : List (Slice SyncID × RangeType) → Prop
  | [] => True
  | (r, _) :: rest => r.a = lo ∧ lo < r.b ∧ ContiguousFrom r.b rest

/-- The bounds lose nothing when they are sent one after the other, the first one after `last`. -/
def LosslessFrom (last : SyncID) : List (Slice SyncID × RangeType) → Prop
  | [] => True
  | (r, _) :: rest => Lossless last r.b ∧ LosslessFrom r.b rest

/-- A decoded range: neither bound is above the one that was sent, and the times are the same. -/
def Truncates (decoded sent : Slice SyncID × RangeType) : Prop :=
  decoded.2 = sent.2 ∧ decoded.1.a ≤ sent.1.a ∧ decoded.1.a.time = sent.1.a.time ∧
    decoded.1.b ≤ sent.1.b ∧ decoded.1.b.time = sent.1.b.time

theorem decodedEntries_fingerprints : ∀ (es : List Entry) (last lower : SyncID),
    (decodedEntries last lower es).filterMap (fun e => e.2.fingerprint?) =
      es.filterMap (fun e => e.2.fingerprint?)
  | [], _, _ => rfl
  | (r, body) :: es, last, lower => by
      rw [decodedEntries, List.filterMap_cons, List.filterMap_cons, decodedEntries_fingerprints es]

theorem decodedEntries_itemSets : ∀ (es : List Entry) (last lower : SyncID),
    (decodedEntries last lower es).filterMap (fun e => e.2.itemSet?) =
      es.filterMap (fun e => e.2.itemSet?)
  | [], _, _ => rfl
  | (r, body) :: es, last, lower => by
      rw [decodedEntries, List.filterMap_cons, List.filterMap_cons, decodedEntries_itemSets es]

/-- The decoded ranges are contiguous and truncate the ones that were sent. -/
theorem decodedEntries_ranges : ∀ (es : List Entry) (last lower : SyncID), lower ≤ last →
    lower.time = last.time → ContiguousFrom last (es.map (fun e => (e.1, e.2.type))) →
    ContiguousFrom lower ((decodedEntries last lower es).map (fun e => (e.1, e.2.type))) ∧
      List.Forall₂ Truncates ((decodedEntries last lower es).map (fun e => (e.1, e.2.type)))
        (es.map (fun e => (e.1, e.2.type)))
  | [], _, _, _, _, _ => ⟨trivial, List.Forall₂.nil⟩
  | (r, body) :: es, last, lower, hle, htime, h => by
      obtain ⟨ha, hlt, hrest⟩ := h
      obtain ⟨ih1, ih2⟩ := decodedEntries_ranges es r.b (decodedBound last r.b) (decodedBound_le hlt)
        (decodedBound_time last r.b) hrest
      refine ⟨⟨rfl, lt_of_le_of_lt hle (lt_decodedBound hlt), ih1⟩, List.Forall₂.cons ?_ ih2⟩
      refine ⟨rfl, ?_, ?_, decodedBound_le hlt, decodedBound_time last r.b⟩
      · show lower ≤ r.a
        rw [ha]
        exact hle
      · show lower.time = r.a.time
        rw [ha]
        exact htime

theorem decodedEntries_of_lossless : ∀ (es : List Entry) (last : SyncID),
    ContiguousFrom last (es.map (fun e => (e.1, e.2.type))) →
    LosslessFrom last (es.map (fun e => (e.1, e.2.type))) → decodedEntries last last es = es
  | [], _, _, _ => rfl
  | (r, body) :: es, last, hc, hl => by
      obtain ⟨ha, _, hrest⟩ := hc
      obtain ⟨hb, hlrest⟩ := hl
      have ha' : r.a = last := ha
      rw [decodedEntries, decodedBound_of_lossless hb, decodedEntries_of_lossless es r.b hrest hlrest,
        ← ha']

/-- A payload that can be written. -/
structure RangesData.Encodable (p : RangesData) : Prop where
  counts : p.CountsMatch
  contiguous : ∀ first rest, p.ranges = first :: rest →
    0 ≤ first.1.a.time ∧ ContiguousFrom first.1.a p.ranges
  times : ∀ r ∈ p.ranges, r.1.b.time ≤ maxTimestamp
  shards : p.shards.length ≤ 65536
  itemSets : ∀ s ∈ p.itemSets, s.Encodable

/-- The skip range that is sent in front when the first range starts above zero. -/
def RangesData.leading (p : RangesData) : List (Slice SyncID × RangeType) :=
  match p.ranges with
  | [] => []
  | (first, _) :: _ => if first.a ≠ SyncID.zero then [(⟨SyncID.zero, first.a⟩, .skip)] else []

/-- `q` is what is left of `p`: only the hashes of the bounds are cut. -/
structure RangesData.RoundTrips (p q : RangesData) : Prop where
  cluster : q.cluster = p.cluster
  shards : q.shards = p.shards
  fingerprints : q.fingerprints = p.fingerprints
  itemSets : q.itemSets = p.itemSets
  contiguous : ContiguousFrom SyncID.zero q.ranges
  truncates : List.Forall₂ Truncates q.ranges (p.leading ++ p.ranges)
  lossless : LosslessFrom SyncID.zero (p.leading ++ p.ranges) → q.ranges = p.leading ++ p.ranges

theorem writable_of_contiguous : ∀ (es : List Entry) (last : SyncID),
    ContiguousFrom last (es.map (fun e => (e.1, e.2.type))) →
    (∀ e ∈ es, e.1.b.time ≤ maxTimestamp) → (∀ s ∈ es.filterMap (fun e => e.2.itemSet?), s.Encodable) →
    Writable last es
  | [], _, _, _, _ => trivial
  | (r, body) :: es, last, hc, ht, hs => by
      obtain ⟨_, hlt, hrest⟩ := hc
      refine ⟨hlt, ht (r, body) List.mem_cons_self, ?_, writable_of_contiguous es r.b hrest
        (fun e he => ht e (List.mem_cons_of_mem _ he)) ?_⟩
      · rintro s rfl
        exact hs s (List.mem_filterMap.mpr ⟨_, List.mem_cons_self, rfl⟩)
      · intro s hmem
        obtain ⟨e, he, hes⟩ := List.mem_filterMap.mp hmem
        exact hs s (List.mem_filterMap.mpr ⟨e, List.mem_cons_of_mem _ he, hes⟩)

theorem SyncID.zero_le {x : SyncID} (h : 0 ≤ x.time) : SyncID.zero ≤ x := SyncID.atTime_le_iff.mpr h

/-- A payload is written as its header and its entries, the leading skip included. -/
theorem deltaEncode_eq (L : VarintCodec) {p : RangesData} (hp : p.Encodable) :
    ∃ es : List Entry, p.leading ++ p.ranges = es.map (fun e => (e.1, e.2.type)) ∧
      p.fingerprints = es.filterMap (fun e => e.2.fingerprint?) ∧
      p.itemSets = es.filterMap (fun e => e.2.itemSet?) ∧
      ContiguousFrom SyncID.zero (p.leading ++ p.ranges) ∧
      (∀ e ∈ es, e.1.b.time ≤ maxTimestamp) ∧
      p.deltaEncode L = some (encodeHeader L p ++ encodeEntries L SyncID.zero es) := by
  obtain ⟨es, hes⟩ := hp.counts.exists_ofEntries
  have hranges : p.ranges = es.map (fun e => (e.1, e.2.type)) := congrArg RangesData.ranges hes
  have hfps : p.fingerprints = es.filterMap (fun e => e.2.fingerprint?) :=
    congrArg RangesData.fingerprints hes
  have hsets : p.itemSets = es.filterMap (fun e => e.2.itemSet?) := congrArg RangesData.itemSets hes
  have htimes : ∀ e ∈ es, e.1.b.time ≤ maxTimestamp := by
    intro e he
    exact hp.times (e.1, e.2.type) (hranges ▸ List.mem_map_of_mem he)
  cases es with
  | nil =>
      have hnil : p.ranges = [] := hranges
      refine ⟨[], ?_, hfps, hsets, ?_, by simp, ?_⟩
      · rw [RangesData.leading, hnil]
        rfl
      · rw [RangesData.leading, hnil]
        trivial
      · rw [RangesData.deltaEncode, hnil]
        simp [encodeEntries]
  | cons e es =>
      obtain ⟨r, body⟩ := e
      have hcons : p.ranges = (r, body.type) :: es.map (fun e => (e.1, e.2.type)) := hranges
      obtain ⟨h0, hcont⟩ := hp.contiguous _ _ hcons
      have h0' : 0 ≤ r.a.time := h0
      have henc : ∀ last, encodeRanges L p last p.ranges 0 0 =
          some (encodeEntries L last ((r, body) :: es)) := by
        intro last
        rw [hranges]
        exact encodeRanges_eq L p _ last 0 0 hfps hsets
      by_cases hzero : r.a = SyncID.zero
      · have hlead : p.leading = [] := by
          rw [RangesData.leading, hcons]
          exact if_neg (not_not.mpr hzero)
        refine ⟨(r, body) :: es, by rw [hlead, List.nil_append, hranges], hfps, hsets, ?_, htimes, ?_⟩
        · rw [hlead, List.nil_append, ← hzero]
          exact hcont
        · rw [RangesData.deltaEncode]
          simp only [hcons]
          rw [if_neg (not_not.mpr hzero), ← hcons, henc]
          rfl
      · have hlead : p.leading = [(⟨SyncID.zero, r.a⟩, .skip)] := by
          rw [RangesData.leading, hcons]
          exact if_pos hzero
        have hlt : SyncID.zero < r.a := lt_of_le_of_ne (SyncID.zero_le h0') (Ne.symm hzero)
        have hrb : r.a < r.b := by
          rw [hcons] at hcont
          exact hcont.2.1
        refine ⟨(⟨SyncID.zero, r.a⟩, .skip) :: (r, body) :: es, ?_, ?_, ?_, ?_, ?_, ?_⟩
        · rw [hlead, hranges]
          rfl
        · exact hfps.trans (List.filterMap_cons_none rfl).symm
        · exact hsets.trans (List.filterMap_cons_none rfl).symm
        · rw [hlead]
          exact ⟨rfl, hlt, hcont⟩
        · intro e he
          rcases List.mem_cons.mp he with rfl | he
          · exact (SyncID.time_le_of_le hrb.le).trans (htimes (r, body) List.mem_cons_self)
          · exact htimes e he
        · rw [RangesData.deltaEncode]
          simp only [hcons]
          rw [if_pos hzero, ← hcons, henc]
          rfl

/-- The header and the entries are read back, with the bounds as the receiver sees them. -/
theorem deltaDecode_entries {L : VarintCodec} (hL : L.Lawful) (p : RangesData)
    (hshards : p.shards.length ≤ 65536) {es : List Entry} (hw : Writable SyncID.zero es) :
    RangesData.deltaDecode L (encodeHeader L p ++ encodeEntries L SyncID.zero es) =
      .ok (({ cluster := p.cluster, shards := p.shards } : RangesData).push
        (decodedEntries SyncID.zero SyncID.zero es)) := by
  set buffer := encodeHeader L p ++ encodeEntries L SyncID.zero es with hbuffer
  have h0 : buffer.drop 0 = L.toBytes p.cluster.toNat ++ (L.toBytes p.shards.length ++
      (p.shards.flatMap (fun shard => L.toBytes shard.toNat) ++ encodeEntries L SyncID.zero es)) := by
    rw [List.drop_zero, hbuffer, encodeHeader]
    simp only [List.append_assoc]
  have h1 := drop_next h0
  have hcluster := getCluster_ok hL h0
  have hread := getShards_ok hL hshards h1
  have h2 : buffer.drop (0 + (L.toBytes p.cluster.toNat).length + (L.toBytes p.shards.length ++
      p.shards.flatMap (fun shard => L.toBytes shard.toNat)).length) =
      encodeEntries L SyncID.zero es := by
    rw [← List.append_assoc] at h1
    exact drop_next h1
  have hpos : buffer.length ≠ 0 := by
    have := length_left h0
    have := hL.toBytes_pos p.cluster.toNat
    omega
  have hfuel : es.length < buffer.length + 1 := by
    have := length_le_encodeEntries L es SyncID.zero
    rw [hbuffer, List.length_append]
    omega
  have hloop := decodeRanges_entries hL es SyncID.zero SyncID.zero _ (buffer.length + 1)
    { cluster := p.cluster, shards := p.shards } le_rfl rfl le_rfl hw hfuel h2
  unfold RangesData.deltaDecode
  rw [if_neg hpos]
  simp only [hcluster, hread, bind, Except.bind, hloop]

/-- **Round trip.**  What was encoded is decoded again, with the bounds cut after the byte that
tells them from their predecessors. -/
theorem deltaDecode_deltaEncode (L : VarintCodec) (hL : L.Lawful) (p : RangesData)
    (hp : p.Encodable) :
    ∃ bytes q, p.deltaEncode L = some bytes ∧ RangesData.deltaDecode L bytes = .ok q ∧
      p.RoundTrips q := by
  obtain ⟨es, hranges, hfps, hsets, hcont, htimes, henc⟩ := deltaEncode_eq L hp
  have hcont' := hcont
  rw [hranges] at hcont'
  have hwritable := writable_of_contiguous es SyncID.zero hcont' htimes (hsets ▸ hp.itemSets)
  obtain ⟨hdec, htrunc⟩ := decodedEntries_ranges es SyncID.zero SyncID.zero le_rfl rfl hcont'
  refine ⟨_, ({ cluster := p.cluster, shards := p.shards } : RangesData).push
    (decodedEntries SyncID.zero SyncID.zero es), henc, ?_, ?_⟩
  · exact deltaDecode_entries hL p hp.shards hwritable
  · refine ⟨rfl, rfl, ?_, ?_, ?_, ?_, ?_⟩
    · rw [hfps, ← decodedEntries_fingerprints es SyncID.zero SyncID.zero]
      rfl
    · rw [hsets, ← decodedEntries_itemSets es SyncID.zero SyncID.zero]
      rfl
    · exact hdec
    · rw [hranges]
      exact htrunc
    · intro hl
      rw [hranges] at hl
      rw [hranges, ← congrArg (List.map (fun e : Entry => (e.1, e.2.type)))
        (decodedEntries_of_lossless es SyncID.zero hcont' hl)]
      rfl

/-- A fingerprint range and an item set range that meet inside one nanosecond. -/
def twoRanges : RangesData where
  cluster := 1
  shards := [3]
  ranges := [(⟨SyncID.atTime 5, ⟨9, constFingerprint 7⟩⟩, .fingerprint),
    (⟨⟨9, constFingerprint 7⟩, ⟨9, fullFingerprint⟩⟩, .itemSet)]
  fingerprints := [constFingerprint 3]
  itemSets := [{ elements := [⟨6, fullFingerprint⟩, ⟨6, constFingerprint 1⟩], reconciled := true }]

theorem twoRanges_encodable : twoRanges.Encodable where
  counts := ⟨by decide, by decide⟩
  contiguous := by
    intro first rest h
    obtain ⟨rfl, _⟩ := List.cons.inj h
    exact ⟨by decide, rfl, by decide, rfl, by decide, trivial⟩
  times := by decide
  shards := by decide
  itemSets := by
    intro s hs
    obtain rfl := List.mem_singleton.mp hs
    exact ⟨by decide, by decide, by decide⟩

theorem twoRanges_round_trip :
    ∃ bytes q, twoRanges.deltaEncode Lib.leb128 = some bytes ∧
      RangesData.deltaDecode Lib.leb128 bytes = .ok q ∧ twoRanges.RoundTrips q :=
  deltaDecode_deltaEncode Lib.leb128 Lib.leb128_lawful twoRanges twoRanges_encodable

/-! ### What is accepted is well formed -/

section Accepted

variable {L : VarintCodec} {buffer : List Byte}

theorem bind_ok {α β : Type} {x : Except String α} {f : α → Except String β} {b : β}
    (h : x >>= f = .ok b) : ∃ a, x = .ok a ∧ f a = .ok b := by
  cases x with
  | error e => cases h
  | ok a => exact ⟨a, rfl, h⟩

theorem getBody_accepted {idx idx' : ℕ} {bounds : Slice SyncID} {type : RangeType}
    {payload q : RangesData} (h : getBody L idx buffer bounds type payload = .ok (q, idx')) :
    ∃ body : RangeBody, body.type = type ∧ q = payload.push [(bounds, body)] := by
  cases type with
  | skip =>
      obtain ⟨rfl, _⟩ := Prod.mk.inj (Except.ok.inj h)
      exact ⟨.skip, rfl, RangesData.addSkip_eq_push _ _⟩
  | fingerprint =>
      obtain ⟨⟨f, i⟩, _, h⟩ := bind_ok h
      obtain ⟨rfl, _⟩ := Prod.mk.inj (Except.ok.inj h)
      exact ⟨.fingerprint f, rfl, RangesData.addFingerprint_eq_push payload bounds f⟩
  | itemSet =>
      obtain ⟨⟨set, i⟩, _, h⟩ := bind_ok h
      obtain ⟨rfl, _⟩ := Prod.mk.inj (Except.ok.inj h)
      exact ⟨.itemSet set, rfl, RangesData.addItemSet_eq_push payload bounds set⟩

/-- Ranges as they come out of the decoder: contiguous from `last` on, within the timestamps, and
with an empty hash wherever the time goes up. -/
def ReceivedFrom (last : SyncID) : List (Slice SyncID × RangeType) → Prop
  | [] => True
  | (r, _) :: rest => r.a = last ∧ last < r.b ∧ r.b.time ≤ maxTimestamp ∧
      (last.time ≠ r.b.time → r.b.hash = emptyFingerprint) ∧ ReceivedFrom r.b rest

theorem ReceivedFrom.contiguousFrom : ∀ {ranges : List (Slice SyncID × RangeType)} {last : SyncID},
    ReceivedFrom last ranges → ContiguousFrom last ranges
  | [], _, _ => trivial
  | (_, _) :: _, _, h => ⟨h.1, h.2.1, h.2.2.2.2.contiguousFrom⟩

/-- The loop adds entries whose ranges follow each other from `last` on. -/
theorem decodeRanges_accepted : ∀ (fuel idx : ℕ) (last : SyncID) (payload q : RangesData),
    decodeRanges L buffer fuel idx last payload = .ok q →
    ∃ es : List Entry, q = payload.push es ∧
      ReceivedFrom last (es.map (fun e => (e.1, e.2.type)))
  | 0, _, _, _, _, h => by cases h
  | fuel + 1, idx, last, payload, q, h => by
      rw [decodeRanges] at h
      split_ifs at h with hend
      · obtain rfl := Except.ok.inj h
        exact ⟨[], (RangesData.push_nil _).symm, trivial⟩
      · dsimp only at h
        split_ifs at h with hmax
        obtain ⟨⟨hash, idx1⟩, hhash, h⟩ := bind_ok h
        dsimp only at h
        split_ifs at h with hcmp
        obtain ⟨⟨type, idx2⟩, _, h⟩ := bind_ok h
        obtain ⟨⟨payload', idx3⟩, hbody, h⟩ := bind_ok h
        obtain ⟨body, _, rfl⟩ := getBody_accepted hbody
        obtain ⟨es, rfl, hcont⟩ := decodeRanges_accepted fuel idx3 _ _ q h
        refine ⟨_ :: es, RangesData.push_push _ _ _, rfl, ?_, ?_, ?_, hcont⟩
        · exact cmp_eq_neg_one_iff.mp (not_not.mp hcmp)
        · show last.time + _ ≤ maxTimestamp
          omega
        · intro hne
          replace hne : last.time ≠ last.time + (getTimeDiff L idx buffer).1 := hne
          unfold getUpperHash at hhash
          rw [if_neg (by omega)] at hhash
          exact (Prod.mk.inj (Except.ok.inj hhash)).1.symm

theorem getShardsLoop_length : ∀ (n i idx idx' : ℕ) (shards q : List UInt16),
    getShardsLoop L buffer n i idx shards = .ok (q, idx') → q.length = shards.length + n
  | 0, _, _, _, _, _, h => by
      obtain ⟨rfl, _⟩ := Prod.mk.inj (Except.ok.inj h)
      rfl
  | n + 1, i, idx, idx', shards, q, h => by
      rw [getShardsLoop] at h
      cases hread : getVarint L idx buffer with
      | none =>
          rw [hread] at h
          cases h
      | some r =>
          rw [hread] at h
          dsimp only at h
          split_ifs at h
          have ih := getShardsLoop_length n _ _ _ _ q h
          rw [List.length_append, List.length_singleton] at ih
          omega

theorem getShards_length {idx idx' : ℕ} {shards : List UInt16}
    (h : getShards L idx buffer = .ok (shards, idx')) : shards.length ≤ 65536 := by
  unfold getShards at h
  cases hread : getVarint L idx buffer with
  | none =>
      rw [hread] at h
      cases h
  | some r =>
      rw [hread] at h
      dsimp only at h
      split_ifs at h with hcount
      have hlen := getShardsLoop_length _ _ _ _ _ _ h
      rw [List.length_nil] at hlen
      omega

/-- What the decoder lets through: entries received from zero on, under a header with at most
65536 shards. -/
theorem deltaDecode_received {p : RangesData} (h : RangesData.deltaDecode L buffer = .ok p) :
    p.shards.length ≤ 65536 ∧ ∃ es : List Entry, p = RangesData.ofEntries p.cluster p.shards es ∧
      ReceivedFrom SyncID.zero (es.map (fun e => (e.1, e.2.type))) := by
  unfold RangesData.deltaDecode at h
  split_ifs at h with hlen
  · obtain rfl := Except.ok.inj h
    exact ⟨Nat.zero_le _, [], rfl, trivial⟩
  · obtain ⟨⟨cluster, idx⟩, _, h⟩ := bind_ok h
    obtain ⟨⟨shards, idx'⟩, hshards, h⟩ := bind_ok h
    obtain ⟨es, rfl, hreceived⟩ := decodeRanges_accepted _ _ _ _ _ h
    exact ⟨getShards_length hshards, es, by simp [RangesData.push, RangesData.ofEntries], hreceived⟩

/-- **Accepted payloads are well formed**: each range has its fingerprint or item set, and the
ranges follow each other from zero with increasing bounds. -/
theorem deltaDecode_accepted {p : RangesData} (h : RangesData.deltaDecode L buffer = .ok p) :
    p.CountsMatch ∧ ContiguousFrom SyncID.zero p.ranges := by
  obtain ⟨_, es, hp, hreceived⟩ := deltaDecode_received h
  rw [hp]
  exact ⟨RangesData.countsMatch_ofEntries _ _ _, hreceived.contiguousFrom⟩

end Accepted

end LogosDelivery.StoreSync
