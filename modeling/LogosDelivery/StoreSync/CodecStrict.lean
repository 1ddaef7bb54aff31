import LogosDelivery.StoreSync.CodecChecked
import LogosDelivery.StoreSync.CodecRoundTrip

/-! # What the decoder checks of a buffer

On every buffer the decoder with its run time checks follows the plain one and never crashes
(`deltaDecode_follows`).  Of the varints that it reads for an accepted payload all are complete but,
possibly, those at the front of the elements: `getTimestamp` does not look at the length of the
varint, and an element whose first nine bytes all have the high bit set is taken at time difference
`0`, its hash being read from the same bytes.  `payloadFronts` finds the fronts of the elements in a
buffer, and `safeAndStrict_iff` says that nothing else goes wrong. -/

namespace LogosDelivery.StoreSync

open LogosDelivery.Lib (VarintCodec Reader ReadFailure Follows)
open LogosDelivery.Lib.Reader (advance_bind here_apply)

/-- A varint ends within these bytes. -/
def IsComplete (bytes : List Byte) : Prop := ∃ b ∈ bytes, b.val < 128

instance (bytes : List Byte) : Decidable (IsComplete bytes) :=
  inferInstanceAs (Decidable (∃ b ∈ bytes, b.val < 128))

/-! ### Where the elements are -/

section Fronts

variable (L : VarintCodec)

def skipVarint (bytes : List Byte) : List Byte :=
  bytes.drop (L.fromBytes (bytes.take VarIntLen)).2

def skipVarints : ℕ → List Byte → List Byte
  | 0, bytes => bytes
  | n + 1, bytes => skipVarints n (skipVarint L bytes)

/-- The shards, as many as the varint in front of them says. -/
def skipShards (bytes : List Byte) : List Byte :=
  skipVarints L (L.fromBytes (bytes.take VarIntLen)).1 (skipVarint L bytes)

/-- A time difference, and the part of a hash after a difference of zero. -/
def skipBound (bytes : List Byte) : List Byte :=
  if (L.fromBytes (bytes.take VarIntLen)).1 = 0 then
    match skipVarint L bytes with
    | [] => []
    | same :: rest => rest.drop same.val
  else skipVarint L bytes

/-- The bytes from which the timestamps of `n` elements are read, and what follows the elements. -/
def elementFronts : ℕ → List Byte → List (List Byte) × List Byte
  | 0, bytes => ([], bytes)
  | n + 1, bytes =>
      let (fronts, rest) := elementFronts n ((skipVarint L bytes).drop HashLen)
      (bytes.take VarIntLen :: fronts, rest)

/-- The fronts of the elements in the content of a range, and what follows it. -/
def bodyFronts (bytes : List Byte) : RangeType → List (List Byte) × List Byte
  | .skip => ([], bytes)
  | .fingerprint => ([], bytes.drop HashLen)
  | .itemSet =>
      let (fronts, rest) :=
        elementFronts L (L.fromBytes (bytes.take VarIntLen)).1 (skipVarint L bytes)
      (fronts, rest.drop 1)

/-- The range type that a byte stands for, where it stands for one. -/
def typeOfByte (byte : Byte) : RangeType :=
  if byte = 1 then .fingerprint else if byte = 2 then .itemSet else .skip

def rangeFronts : ℕ → List Byte → List (List Byte)
  | 0, _ => []
  | fuel + 1, bytes =>
      match skipBound L bytes with
      | [] => []
      | type :: rest =>
          let (fronts, rest) := bodyFronts L rest (typeOfByte type)
          fronts ++ rangeFronts fuel rest

/-- The bytes from which the timestamps of the elements of a buffer are read. -/
def payloadFronts (buffer : List Byte) : List (List Byte) :=
  rangeFronts L (buffer.length + 1) (skipShards L (skipVarint L buffer))

theorem skipVarint_length_le (bytes : List Byte) :
    (skipVarint L bytes).length ≤ bytes.length := by
  rw [skipVarint, List.length_drop]
  exact Nat.sub_le _ _

theorem skipBound_length_le (bytes : List Byte) : (skipBound L bytes).length ≤ bytes.length := by
  have hskip := skipVarint_length_le L bytes
  unfold skipBound
  split_ifs
  · cases hrest : skipVarint L bytes with
    | nil => exact Nat.zero_le _
    | cons same rest =>
        rw [hrest, List.length_cons] at hskip
        rw [List.length_drop]
        omega
  · exact hskip

theorem elementFronts_length_le : ∀ (n : ℕ) (bytes : List Byte),
    (elementFronts L n bytes).2.length ≤ bytes.length
  | 0, _ => le_rfl
  | n + 1, bytes => by
      have ih := elementFronts_length_le n ((skipVarint L bytes).drop HashLen)
      have hskip := skipVarint_length_le L bytes
      rw [List.length_drop] at ih
      exact ih.trans ((Nat.sub_le _ _).trans hskip)

theorem bodyFronts_length_le (bytes : List Byte) (type : RangeType) :
    (bodyFronts L bytes type).2.length ≤ bytes.length := by
  cases type with
  | skip => exact le_rfl
  | fingerprint =>
      show (bytes.drop HashLen).length ≤ _
      rw [List.length_drop]
      exact Nat.sub_le _ _
  | itemSet =>
      have hset := elementFronts_length_le L (L.fromBytes (bytes.take VarIntLen)).1
        (skipVarint L bytes)
      show (List.drop 1 _).length ≤ _
      rw [List.length_drop]
      exact (Nat.sub_le _ _).trans (hset.trans (skipVarint_length_le L bytes))

end Fronts

/-! ### A varint -/

section Varint

variable {L : VarintCodec} {buffer : List Byte} {idx : ℕ}

theorem varintSlice_length_le (idx : ℕ) (buffer : List Byte) :
    (varintSlice idx buffer).length ≤ 9 := by
  rw [varintSlice, List.length_take]
  exact min_le_left _ _

theorem isComplete_or_all (bytes : List Byte) : IsComplete bytes ∨ ∀ b ∈ bytes, 128 ≤ b.val := by
  by_cases h : IsComplete bytes
  · exact Or.inl h
  · exact Or.inr fun b hb => not_lt.mp fun hlt => h ⟨b, hb, hlt⟩

theorem IsComplete.findIdx_lt {bytes : List Byte} (h : IsComplete bytes) :
    bytes.findIdx (fun b => decide (b.val < 128)) < bytes.length := by
  obtain ⟨b, hb, hlt⟩ := h
  exact List.findIdx_lt_length_of_exists ⟨b, hb, decide_eq_true hlt⟩

theorem fromBytes_incomplete (hL : L.Strict) (h : ¬ IsComplete (varintSlice idx buffer)) :
    L.fromBytes (varintSlice idx buffer) = (0, 0) :=
  hL.incomplete _ (varintSlice_length_le idx buffer) ((isComplete_or_all _).resolve_left h)

theorem fromBytes_complete (hL : L.Strict) (h : IsComplete (varintSlice idx buffer)) :
    ∃ n < (varintSlice idx buffer).length, (L.fromBytes (varintSlice idx buffer)).2 = n + 1 :=
  ⟨_, h.findIdx_lt, hL.length _ (varintSlice_length_le idx buffer) h⟩

/-- A number of at most nine bytes has at most 63 bits. -/
theorem fromBytes_lt (hL : L.Strict) (idx : ℕ) (buffer : List Byte) :
    (L.fromBytes (varintSlice idx buffer)).1 < 2 ^ 63 := by
  by_cases hc : IsComplete (varintSlice idx buffer)
  · have hlen := varintSlice_length_le idx buffer
    obtain ⟨n, hn, hread⟩ := fromBytes_complete hL hc
    have hval := hL.value_lt _ hlen hc
    rw [hread] at hval
    exact hval.trans_le (Nat.pow_le_pow_right (by omega) (by omega))
  · rw [fromBytes_incomplete hL hc]
    exact Nat.pos_of_ne_zero (by decide)

/-- A varint is read from within the buffer. -/
theorem fromBytes_le (hL : L.Strict) (h : idx ≤ buffer.length) :
    idx + (L.fromBytes (varintSlice idx buffer)).2 ≤ buffer.length := by
  by_cases hc : IsComplete (varintSlice idx buffer)
  · obtain ⟨n, hn, hread⟩ := fromBytes_complete hL hc
    have hlen : (varintSlice idx buffer).length ≤ buffer.length - idx := by
      rw [varintSlice, List.length_take, List.length_drop]
      exact min_le_right _ _
    omega
  · rw [fromBytes_incomplete hL hc]
    exact h

theorem isComplete_of_fromBytes (hL : L.Strict) (h : (L.fromBytes (varintSlice idx buffer)).2 ≠ 0) :
    IsComplete (varintSlice idx buffer) := by
  by_contra hc
  rw [fromBytes_incomplete hL hc] at h
  exact h rfl

end Varint

/-! ### The checks that pass -/

section Checks

variable {L : VarintCodec} {buffer : List Byte}

open Checked

theorem sliceOf_eq {a b : ℕ} (hab : a ≤ b) (hb : b ≤ buffer.length) :
    sliceOf buffer a b = pure ((buffer.drop a).take (b - a)) := by
  rw [sliceOf, if_neg (not_lt.mpr hab), if_neg fun h => absurd h.2 (not_lt.mpr hb)]

theorem sliceOf_varint {idx : ℕ} (h : idx ≤ buffer.length) :
    sliceOf buffer idx (min (idx + VarIntLen) buffer.length) = pure (varintSlice idx buffer) := by
  rw [sliceOf_eq (le_min (Nat.le_add_right _ _) h) (min_le_right _ _), varintSlice]
  refine congrArg pure ?_
  rcases min_cases (idx + VarIntLen) buffer.length with ⟨hmin, -⟩ | ⟨hmin, hlt⟩
  · rw [hmin, Nat.add_sub_cancel_left]
  · rw [hmin, List.take_of_length_le (by rw [List.length_drop]),
      List.take_of_length_le (by rw [List.length_drop]; omega)]

theorem byteAt_eq {i : ℕ} {byte : Byte} (h : buffer[i]? = some byte) :
    byteAt buffer i = pure byte := by
  rw [byteAt, h]

theorem fromBytes_apply (field : VarintField) (slice : List Byte) (idx : ℕ) :
    Checked.fromBytes L field slice idx = .ok (L.fromBytes slice, idx, [⟨field, slice⟩]) := rfl

theorem toInt64_eq {val : ℕ} (h : val < 2 ^ 63) : toInt64 val = pure val := if_neg (not_le.mpr h)

theorem checkInt64_eq {val : ℤ} (h0 : 0 ≤ val) (h : val ≤ maxTimestamp) :
    checkInt64 val = pure val := by
  rw [checkInt64, if_neg]
  unfold maxTimestamp at h
  omega

theorem setBytes_eq {hash : Fingerprint} {slice : List Byte} (h : slice.length ≤ HashLen) :
    setBytes hash slice = pure (hash.setBytes slice) := if_neg (not_lt.mpr h)

end Checks

/-! ### The readers -/

/-- Every varint noted is complete, apart from the timestamps, which are read from `fronts`. -/
structure Logged (fronts : List (List Byte)) (reads : List VarintRead) : Prop where
  length : ∀ r ∈ reads, r.slice.length ≤ VarIntLen
  complete : ∀ r ∈ reads, r.field ≠ .timestamp → IsComplete r.slice
  fronts : (reads.filter (fun r => decide (r.field = .timestamp))).map (fun r => r.slice) = fronts

theorem Logged.nil : Logged [] [] := ⟨by simp, by simp, rfl⟩

theorem Logged.append {fronts fronts' : List (List Byte)} {reads reads' : List VarintRead}
    (h : Logged fronts reads) (h' : Logged fronts' reads') :
    Logged (fronts ++ fronts') (reads ++ reads') where
  length r hr := (List.mem_append.mp hr).elim (h.length r) (h'.length r)
  complete r hr := (List.mem_append.mp hr).elim (h.complete r) (h'.complete r)
  fronts := by rw [List.filter_append, List.map_append, h.fronts, h'.fronts]

theorem Logged.varint (field : VarintField) {idx : ℕ} {buffer : List Byte}
    (hfield : field ≠ .timestamp) (h : IsComplete (varintSlice idx buffer)) :
    Logged [] [⟨field, varintSlice idx buffer⟩] where
  length r hr := by
    rw [List.mem_singleton.mp hr]
    exact varintSlice_length_le idx buffer
  complete r hr _ := by
    rw [List.mem_singleton.mp hr]
    exact h
  fronts := by
    rw [List.filter_cons_of_neg (by simpa using hfield)]
    rfl

theorem Logged.timestamp (idx : ℕ) (buffer : List Byte) :
    Logged [varintSlice idx buffer] [⟨.timestamp, varintSlice idx buffer⟩] where
  length r hr := by
    rw [List.mem_singleton.mp hr]
    exact varintSlice_length_le idx buffer
  complete r hr hne := absurd (by rw [List.mem_singleton.mp hr]) hne
  fronts := rfl

/-- A reader has come to `next`, where `rest` is left, and has noted its varints. -/
structure Stands (buffer rest : List Byte) (fronts : List (List Byte)) (next : ℕ)
    (reads : List VarintRead) : Prop where
  le : next ≤ buffer.length
  rest : buffer.drop next = rest
  logged : Logged fronts reads

section Readers

variable {L : VarintCodec} {buffer : List Byte} {idx : ℕ}

theorem drop_fromBytes (L : VarintCodec) (buffer : List Byte) (idx : ℕ) :
    buffer.drop (idx + (L.fromBytes (varintSlice idx buffer)).2) =
      skipVarint L (buffer.drop idx) := by
  rw [skipVarint, List.drop_drop]
  rfl

/-- The bytes of a hash or of a fingerprint. -/
theorem hashSlice_follows (h : idx + HashLen ≤ buffer.length) :
    Follows ((do
        let slice ← Checked.sliceOf buffer idx (idx + HashLen)
        Reader.advance HashLen
        Checked.setBytes emptyFingerprint slice : Decoder Fingerprint) idx)
      (.ok (emptyFingerprint.setBytes ((buffer.drop idx).take HashLen), idx + HashLen))
      (fun _ next reads => Stands buffer ((buffer.drop idx).drop HashLen) [] next reads) := by
  have hslice : ((buffer.drop idx).take HashLen).length ≤ HashLen := by
    rw [List.length_take]
    exact min_le_left _ _
  rw [sliceOf_eq (Nat.le_add_right _ _) h, Nat.add_sub_cancel_left, Reader.pure_bind, advance_bind,
    setBytes_eq hslice]
  exact Follows.ok ⟨h, (List.drop_drop ..).symm, Logged.nil⟩

theorem getFingerprint_follows :
    Follows (Checked.getFingerprint buffer idx) (getFingerprint idx buffer)
      (fun _ next reads => Stands buffer ((buffer.drop idx).drop HashLen) [] next reads) := by
  unfold Checked.getFingerprint getFingerprint
  rw [here_apply]
  split_ifs with hlen
  · exact Follows.refused _
  · exact hashSlice_follows (not_lt.mp hlen)

theorem getHash_follows :
    Follows (Checked.getHash buffer idx) (getHash idx buffer)
      (fun _ next reads => Stands buffer ((buffer.drop idx).drop HashLen) [] next reads) := by
  unfold Checked.getHash getHash
  rw [here_apply]
  split_ifs with hlen
  · exact Follows.refused _
  · exact hashSlice_follows (not_lt.mp hlen)

theorem drop_eq_cons {byte : Byte} (h : buffer[idx]? = some byte) :
    buffer.drop idx = byte :: buffer.drop (idx + 1) := by
  obtain ⟨hlt, rfl⟩ := List.getElem?_eq_some_iff.mp h
  exact List.drop_eq_getElem_cons hlt

theorem getRangeType_follows :
    Follows (Checked.getRangeType buffer idx) (getRangeType idx buffer)
      (fun type next reads => ∃ byte rest, buffer.drop idx = byte :: rest ∧
        type = typeOfByte byte ∧ idx < next ∧ Stands buffer rest [] next reads) := by
  unfold Checked.getRangeType getRangeType
  rw [here_apply]
  cases hbyte : buffer[idx]? with
  | none =>
      rw [if_pos (List.getElem?_eq_none_iff.mp hbyte)]
      exact Follows.refused _
  | some byte =>
      have hlt := (List.getElem?_eq_some_iff.mp hbyte).1
      have hstands : Stands buffer (buffer.drop (idx + 1)) [] (idx + 1) [] :=
        ⟨hlt, rfl, Logged.nil⟩
      rw [if_neg (not_le.mpr hlt), byteAt_eq hbyte, Reader.pure_bind]
      dsimp only
      unfold Checked.toRangeType
      by_cases h0 : byte = 0
      · subst h0
        exact Follows.ok ⟨0, _, drop_eq_cons hbyte, rfl, Nat.lt_succ_self _, hstands⟩
      by_cases h1 : byte = 1
      · subst h1
        exact Follows.ok ⟨1, _, drop_eq_cons hbyte, rfl, Nat.lt_succ_self _, hstands⟩
      by_cases h2 : byte = 2
      · subst h2
        exact Follows.ok ⟨2, _, drop_eq_cons hbyte, rfl, Nat.lt_succ_self _, hstands⟩
      · have habove : 2 < byte := by
          rw [Fin.lt_def]
          have := Fin.val_ne_of_ne h0
          have := Fin.val_ne_of_ne h1
          have := Fin.val_ne_of_ne h2
          simp at *
          omega
        rw [if_pos habove, if_neg h0, if_neg h1, if_neg h2]
        exact Follows.refused _

theorem getReconciled_follows :
    Follows (Checked.getReconciled buffer idx) (getReconciled idx buffer)
      (fun _ next reads => ∃ byte rest, buffer.drop idx = byte :: rest ∧ byte.val < 128 ∧
        Stands buffer rest [] next reads) := by
  unfold Checked.getReconciled getReconciled
  rw [here_apply]
  cases hbyte : buffer[idx]? with
  | none =>
      rw [if_pos (List.getElem?_eq_none_iff.mp hbyte)]
      exact Follows.refused _
  | some byte =>
      have hlt := (List.getElem?_eq_some_iff.mp hbyte).1
      have hstands : Stands buffer (buffer.drop (idx + 1)) [] (idx + 1) [] :=
        ⟨hlt, rfl, Logged.nil⟩
      rw [if_neg (not_le.mpr hlt), byteAt_eq hbyte, Reader.pure_bind]
      dsimp only
      by_cases h0 : byte = 0
      · subst h0
        exact Follows.ok ⟨0, _, drop_eq_cons hbyte, by decide, hstands⟩
      by_cases h1 : byte = 1
      · subst h1
        exact Follows.ok ⟨1, _, drop_eq_cons hbyte, by decide, hstands⟩
      · have habove : 1 < byte := by
          rw [Fin.lt_def]
          have := Fin.val_ne_of_ne h0
          have := Fin.val_ne_of_ne h1
          simp at *
          omega
        rw [if_pos habove, if_neg h0, if_neg h1]
        exact Follows.refused _

theorem updateHash_follows (hash : WakuMessageHash) :
    Follows (Checked.updateHash buffer hash idx) (updateHash idx buffer hash)
      (fun _ next reads => ∃ same rest, buffer.drop idx = same :: rest ∧ same.val < 128 ∧
        Stands buffer (rest.drop same.val) [] next reads) := by
  unfold Checked.updateHash updateHash
  rw [here_apply]
  cases hbyte : buffer[idx]? with
  | none =>
      rw [if_pos (List.getElem?_eq_none_iff.mp hbyte)]
      exact Follows.refused _
  | some same =>
      have hlt := (List.getElem?_eq_some_iff.mp hbyte).1
      rw [if_neg (not_le.mpr hlt), byteAt_eq hbyte, Reader.pure_bind]
      dsimp only
      split_ifs with habove hshort
      · exact Follows.refused _
      · exact Follows.refused _
      · have hslice : ((buffer.drop (idx + 1)).take same.val).length ≤ HashLen := by
          rw [List.length_take]
          exact (min_le_left _ _).trans (not_lt.mp habove)
        rw [sliceOf_eq (Nat.le_add_right _ _) (not_lt.mp hshort), Nat.add_sub_cancel_left,
          Reader.pure_bind, advance_bind, setBytes_eq hslice, ← Nat.add_assoc]
        refine Follows.ok ⟨same, _, drop_eq_cons hbyte, by omega, not_lt.mp hshort, ?_, Logged.nil⟩
        exact (List.drop_drop ..).symm

theorem getTimestamp_follows (hL : L.Strict) :
    Follows (Checked.getTimestamp L buffer idx) (getTimestamp L idx buffer)
      (fun time next reads => 0 ≤ time ∧
        Stands buffer (skipVarint L (buffer.drop idx)) [varintSlice idx buffer] next reads) := by
  unfold Checked.getTimestamp getTimestamp
  rw [here_apply]
  split_ifs with hlen
  · exact Follows.refused _
  · have hle : idx ≤ buffer.length := by omega
    have hslice : (buffer.drop idx).take VarIntLen = varintSlice idx buffer := rfl
    rw [sliceOf_eq (Nat.le_add_right _ _) (not_lt.mp hlen), Nat.add_sub_cancel_left, hslice,
      Reader.pure_bind]
    refine Follows.ok_bind (fromBytes_apply .timestamp _ idx) ?_
    dsimp only
    rw [advance_bind, toInt64_eq (fromBytes_lt hL idx buffer), Reader.pure_bind]
    exact Follows.ok ⟨Int.natCast_nonneg _, fromBytes_le hL hle, drop_fromBytes L buffer idx,
      Logged.timestamp idx buffer⟩

theorem getTimeDiff_apply (hL : L.Strict) (h : idx ≤ buffer.length) :
    Checked.getTimeDiff L buffer idx =
      .ok ((getTimeDiff L idx buffer).1, (getTimeDiff L idx buffer).2,
        [⟨.timeDifference, varintSlice idx buffer⟩]) := by
  unfold Checked.getTimeDiff
  rw [here_apply, sliceOf_varint h, Reader.pure_bind,
    Reader.bind_ok _ (fromBytes_apply .timeDifference _ idx)]
  dsimp only
  rw [advance_bind, toInt64_eq (fromBytes_lt hL idx buffer), Reader.pure_bind]
  rfl

theorem getItemSetLength_apply (hL : L.Strict) (h : idx ≤ buffer.length) :
    Checked.getItemSetLength L buffer idx =
      .ok ((getItemSetLength L idx buffer).1, (getItemSetLength L idx buffer).2,
        [⟨.itemSetLength, varintSlice idx buffer⟩]) := by
  unfold Checked.getItemSetLength
  rw [here_apply, sliceOf_varint h, Reader.pure_bind,
    Reader.bind_ok _ (fromBytes_apply .itemSetLength _ idx)]
  dsimp only
  rw [advance_bind, toInt64_eq (fromBytes_lt hL idx buffer)]
  rfl

/-! ### The header -/

theorem getVarint_none (field : VarintField) (h : idx ≤ buffer.length)
    (hread : getVarint L idx buffer = none) :
    ∃ reads, Checked.getVarint L buffer field idx = .ok (none, idx, reads) := by
  unfold Checked.getVarint
  unfold getVarint at hread
  rw [here_apply]
  split_ifs at hread with hend
  · rw [if_pos hend]
    exact ⟨_, rfl⟩
  · dsimp only at hread
    split_ifs at hread with hlen
    rw [if_neg hend, sliceOf_varint h, Reader.pure_bind, Reader.bind_ok _ (fromBytes_apply field _ idx)]
    dsimp only
    rw [if_pos hlen]
    exact ⟨_, rfl⟩

/-- A varint of the header is complete. -/
theorem getVarint_some (field : VarintField) {val next : ℕ} (hL : L.Strict)
    (h : idx ≤ buffer.length) (hread : getVarint L idx buffer = some (val, next)) :
    Checked.getVarint L buffer field idx =
        .ok (some val, next, [⟨field, varintSlice idx buffer⟩]) ∧
      IsComplete (varintSlice idx buffer) ∧ val = (L.fromBytes (varintSlice idx buffer)).1 ∧
      next ≤ buffer.length ∧ buffer.drop next = skipVarint L (buffer.drop idx) := by
  unfold Checked.getVarint
  unfold getVarint at hread
  rw [here_apply]
  split_ifs at hread with hend
  dsimp only at hread
  split_ifs at hread with hlen
  obtain ⟨rfl, rfl⟩ := Prod.mk.inj (Option.some.inj hread)
  rw [if_neg hend, sliceOf_varint h, Reader.pure_bind, Reader.bind_ok _ (fromBytes_apply field _ idx)]
  dsimp only
  rw [if_neg hlen, advance_bind]
  exact ⟨rfl, isComplete_of_fromBytes hL hlen, rfl, fromBytes_le hL h, drop_fromBytes L buffer idx⟩

theorem getCluster_follows (hL : L.Strict) (h : idx ≤ buffer.length) :
    Follows (Checked.getCluster L buffer idx) (getCluster L idx buffer)
      (fun _ next reads => Stands buffer (skipVarint L (buffer.drop idx)) [] next reads) := by
  unfold Checked.getCluster getCluster
  cases hread : getVarint L idx buffer with
  | none =>
      obtain ⟨reads, hrun⟩ := getVarint_none .cluster h hread
      exact Follows.ok_bind hrun (Follows.refused _)
  | some r =>
      obtain ⟨val, next⟩ := r
      obtain ⟨hrun, hcomplete, -, hle, hrest⟩ := getVarint_some .cluster hL h hread
      refine Follows.ok_bind hrun ?_
      dsimp only
      split_ifs
      · exact Follows.refused _
      · exact Follows.ok ⟨hle, hrest, Logged.varint _ (by decide) hcomplete⟩

theorem getShardsLoop_follows (hL : L.Strict) : ∀ (n i idx : ℕ) (shards : List UInt16),
    idx ≤ buffer.length →
    Follows (Checked.getShardsLoop L buffer n i shards idx) (getShardsLoop L buffer n i idx shards)
      (fun _ next reads => Stands buffer (skipVarints L n (buffer.drop idx)) [] next reads)
  | 0, _, _, _, h => Follows.ok ⟨h, rfl, Logged.nil⟩
  | n + 1, i, idx, shards, h => by
      unfold Checked.getShardsLoop getShardsLoop
      cases hread : getVarint L idx buffer with
      | none =>
          obtain ⟨reads, hrun⟩ := getVarint_none .shard h hread
          exact Follows.ok_bind hrun (Follows.refused _)
      | some r =>
          obtain ⟨val, next⟩ := r
          obtain ⟨hrun, hcomplete, -, hle, hrest⟩ := getVarint_some .shard hL h hread
          refine Follows.ok_bind hrun ?_
          dsimp only
          split_ifs
          · exact Follows.refused _
          · refine (getShardsLoop_follows hL n _ next _ hle).imp fun _ last more hmore => ?_
            rw [hrest] at hmore
            exact ⟨hmore.le, hmore.rest,
              (Logged.varint _ (by decide) hcomplete).append hmore.logged⟩

theorem getShards_follows (hL : L.Strict) (h : idx ≤ buffer.length) :
    Follows (Checked.getShards L buffer idx) (getShards L idx buffer)
      (fun _ next reads => Stands buffer (skipShards L (buffer.drop idx)) [] next reads) := by
  unfold Checked.getShards getShards
  cases hread : getVarint L idx buffer with
  | none =>
      obtain ⟨reads, hrun⟩ := getVarint_none .shardCount h hread
      exact Follows.ok_bind hrun (Follows.refused _)
  | some r =>
      obtain ⟨count, next⟩ := r
      obtain ⟨hrun, hcomplete, hval, hle, hrest⟩ :=
        getVarint_some .shardCount hL h hread
      refine Follows.ok_bind hrun ?_
      dsimp only
      rw [here_apply, if_neg (not_lt.mpr hle)]
      split_ifs with hcount
      · exact Follows.refused _
      · rw [toInt64_eq (hval ▸ fromBytes_lt hL idx buffer), Reader.pure_bind]
        refine (getShardsLoop_follows hL count 0 next [] hle).imp fun _ last more hmore => ?_
        rw [hrest, hval] at hmore
        exact ⟨hmore.le, hmore.rest, (Logged.varint _ (by decide) hcomplete).append hmore.logged⟩

/-! ### Item sets -/

theorem elementFronts_succ (n : ℕ) (bytes : List Byte) :
    elementFronts L (n + 1) bytes =
      (bytes.take VarIntLen :: (elementFronts L n ((skipVarint L bytes).drop HashLen)).1,
        (elementFronts L n ((skipVarint L bytes).drop HashLen)).2) := rfl

theorem decodeElements_follows (hL : L.Strict) : ∀ (n idx : ℕ) (lastTime : ℤ)
    (elements : List SyncID), idx ≤ buffer.length → 0 ≤ lastTime → lastTime ≤ maxTimestamp →
    Follows (Checked.decodeElements L buffer n lastTime elements idx)
      (decodeElements L buffer n idx lastTime elements)
      (fun _ next reads => Stands buffer (elementFronts L n (buffer.drop idx)).2
        (elementFronts L n (buffer.drop idx)).1 next reads)
  | 0, _, _, _, h, _, _ => Follows.ok ⟨h, rfl, Logged.nil⟩
  | n + 1, idx, lastTime, elements, h, h0, hmax => by
      unfold Checked.decodeElements decodeElements
      refine Follows.bind (getTimestamp_follows hL) fun timeDiff next reads hstamp => ?_
      obtain ⟨hpos, hstands⟩ := hstamp
      rw [checkInt64_eq (by omega) (by omega), Reader.pure_bind]
      dsimp only
      split_ifs with habove
      · exact Follows.refused _
      · rw [checkInt64_eq (by omega) (by omega), Reader.pure_bind]
        refine Follows.bind getHash_follows fun hash next' reads' hhash => ?_
        refine (decodeElements_follows hL n next' _ _ hhash.le (by omega) (by omega)).imp ?_
        intro _ last more hmore
        rw [hhash.rest, hstands.rest] at hmore
        rw [elementFronts_succ]
        exact ⟨hmore.le, hmore.rest,
          hstands.logged.append (hhash.logged.append hmore.logged)⟩

theorem deltaDecodeItemSet_follows (hL : L.Strict) (n : ℕ) :
    Follows (Checked.deltaDecodeItemSet L buffer n 0) (ItemSet.deltaDecode L buffer n)
      (fun _ next reads => ∃ byte rest, (elementFronts L n buffer).2 = byte :: rest ∧
        byte.val < 128 ∧ Stands buffer rest (elementFronts L n buffer).1 next reads) := by
  unfold Checked.deltaDecodeItemSet ItemSet.deltaDecode
  refine Follows.bind (decodeElements_follows hL n 0 0 [] (Nat.zero_le _) le_rfl (by decide)) ?_
  intro elements next reads helements
  refine Follows.bind getReconciled_follows fun reconciled next' reads' hrecon => ?_
  obtain ⟨byte, rest, hdrop, hbyte, hstands⟩ := hrecon
  rw [helements.rest, List.drop_zero] at hdrop
  refine Follows.ok ⟨byte, rest, hdrop, hbyte, hstands.le, hstands.rest, ?_⟩
  have hlogged := helements.logged.append (hstands.logged.append Logged.nil)
  simpa only [List.append_nil, List.drop_zero] using hlogged

/-- An item set after its length.  Where the varint of the length is incomplete no element is
expected, and the byte that has to be `0` or `1` is one of it. -/
theorem getItemSet_follows (hL : L.Strict) (h : idx ≤ buffer.length) :
    Follows (Checked.getItemSet L buffer (getItemSetLength L idx buffer).1
        (getItemSetLength L idx buffer).2)
      (getItemSet L (getItemSetLength L idx buffer).2 buffer (getItemSetLength L idx buffer).1)
      (fun _ next reads => IsComplete (varintSlice idx buffer) ∧
        Stands buffer (bodyFronts L (buffer.drop idx) .itemSet).2
          (bodyFronts L (buffer.drop idx) .itemSet).1 next reads) := by
  have hle : (getItemSetLength L idx buffer).2 ≤ buffer.length := fromBytes_le hL h
  have hdrop : buffer.drop (getItemSetLength L idx buffer).2 = skipVarint L (buffer.drop idx) :=
    drop_fromBytes L buffer idx
  unfold Checked.getItemSet getItemSet
  generalize hn : (getItemSetLength L idx buffer).1 = n at *
  generalize hi : (getItemSetLength L idx buffer).2 = i at *
  have hfollows := @deltaDecodeItemSet_follows L (buffer.drop i) hL n
  rw [here_apply, sliceOf_eq hle le_rfl, Reader.pure_bind,
    List.take_of_length_le (by rw [List.length_drop])]
  rcases hfollows.cases with ⟨m, hrun, hplain⟩ | ⟨set, count, reads, hrun, hplain, hQ⟩
  · have hnested : Reader.nested (Checked.deltaDecodeItemSet L (buffer.drop i) n) i =
        .error (.refused m) := by
      rw [Reader.nested, hrun]
    rw [Reader.bind_error _ hnested, hplain]
    exact Follows.refused m
  · have hnested : Reader.nested (Checked.deltaDecodeItemSet L (buffer.drop i) n) i =
        .ok ((set, count), i, reads) := by
      rw [Reader.nested, hrun]
    rw [hplain]
    refine Follows.ok_bind hnested ?_
    dsimp only
    rw [advance_bind]
    obtain ⟨byte, rest, hfront, hbyte, hstands⟩ := hQ
    have hcomplete : IsComplete (varintSlice idx buffer) := by
      by_contra hc
      have hread := fromBytes_incomplete hL hc
      have hzero : n = 0 := by
        rw [← hn]
        exact congrArg Prod.fst hread
      have hsame : i = idx := by
        rw [← hi]
        exact congrArg (fun r => idx + r.2) hread
      subst hzero hsame
      have hmem : byte ∈ varintSlice i buffer := by
        rw [varintSlice, show buffer.drop i = byte :: rest from hfront]
        exact List.mem_cons_self
      exact hc ⟨byte, hmem, hbyte⟩
    have hrest : buffer.drop (i + count) = rest := by
      rw [← hstands.rest, List.drop_drop]
    have hcount : i + count ≤ buffer.length := by
      have hle' := hstands.le
      rw [List.length_drop] at hle'
      omega
    have hbody : bodyFronts L (buffer.drop idx) .itemSet =
        ((elementFronts L n (buffer.drop i)).1, rest) := by
      have hval : (L.fromBytes ((buffer.drop idx).take VarIntLen)).1 = n := hn
      unfold bodyFronts
      rw [hval, ← hdrop]
      exact Prod.ext rfl (congrArg (List.drop 1) hfront)
    rw [hbody]
    refine Follows.ok ⟨hcomplete, hcount, hrest, ?_⟩
    have hlogged := hstands.logged.append Logged.nil
    simpa only [List.append_nil] using hlogged

/-! ### Ranges -/

/-- The hash of an upper bound.  Where the varint of the time difference is incomplete the
difference is zero, and the length of the hash prefix is a byte of it. -/
theorem getUpperHash_follows (hL : L.Strict) (h : idx < buffer.length) :
    Follows (Checked.getUpperHash buffer (getTimeDiff L idx buffer).1 (getTimeDiff L idx buffer).2)
      (getUpperHash (getTimeDiff L idx buffer).2 buffer (getTimeDiff L idx buffer).1)
      (fun _ next reads => IsComplete (varintSlice idx buffer) ∧
        Stands buffer (skipBound L (buffer.drop idx)) [] next reads) := by
  have hle : (getTimeDiff L idx buffer).2 ≤ buffer.length := fromBytes_le hL h.le
  have hdrop : buffer.drop (getTimeDiff L idx buffer).2 = skipVarint L (buffer.drop idx) :=
    drop_fromBytes L buffer idx
  have hval : (getTimeDiff L idx buffer).1 = ((L.fromBytes (varintSlice idx buffer)).1 : ℤ) := rfl
  have hbound : skipBound L (buffer.drop idx) =
      if (L.fromBytes (varintSlice idx buffer)).1 = 0 then
        match skipVarint L (buffer.drop idx) with
        | [] => []
        | same :: rest => rest.drop same.val
      else skipVarint L (buffer.drop idx) := rfl
  unfold Checked.getUpperHash getUpperHash
  by_cases hzero : (L.fromBytes (varintSlice idx buffer)).1 = 0
  · have hdiff : (getTimeDiff L idx buffer).1 = 0 := by
      rw [hval, hzero]
      rfl
    rw [if_pos hdiff, if_pos hdiff]
    refine (updateHash_follows emptyFingerprint).imp fun _ next reads hQ => ?_
    obtain ⟨same, rest, hsame, hbyte, hstands⟩ := hQ
    refine ⟨?_, ?_⟩
    · by_contra hc
      have hidx : (getTimeDiff L idx buffer).2 = idx := by
        show idx + (L.fromBytes (varintSlice idx buffer)).2 = idx
        rw [fromBytes_incomplete hL hc, Nat.add_zero]
      rw [hidx] at hsame
      have hmem : same ∈ varintSlice idx buffer := by
        rw [varintSlice, hsame]
        exact List.mem_cons_self
      exact hc ⟨same, hmem, hbyte⟩
    · rw [hbound, if_pos hzero, ← hdrop, hsame]
      exact hstands
  · have hdiff : (getTimeDiff L idx buffer).1 ≠ 0 := by
      rw [hval]
      exact_mod_cast hzero
    rw [if_neg hdiff, if_neg hdiff, hbound, if_neg hzero]
    refine Follows.ok ⟨?_, hle, hdrop, Logged.nil⟩
    by_contra hc
    rw [fromBytes_incomplete hL hc] at hzero
    exact hzero rfl

theorem getBody_follows (hL : L.Strict) (h : idx ≤ buffer.length) (bounds : Slice SyncID)
    (type : RangeType) (payload : RangesData) :
    Follows (Checked.getBody L buffer bounds type payload idx)
      (getBody L idx buffer bounds type payload)
      (fun _ next reads => Stands buffer (bodyFronts L (buffer.drop idx) type).2
        (bodyFronts L (buffer.drop idx) type).1 next reads) := by
  unfold Checked.getBody getBody
  cases type with
  | skip => exact Follows.ok ⟨h, rfl, Logged.nil⟩
  | fingerprint =>
      refine Follows.bind getFingerprint_follows fun f next reads hstands => ?_
      refine Follows.ok ⟨hstands.le, hstands.rest, ?_⟩
      rw [List.append_nil]
      exact hstands.logged
  | itemSet =>
      refine Follows.ok_bind (getItemSetLength_apply hL h) ?_
      refine Follows.bind (getItemSet_follows hL h) fun set next reads hQ => ?_
      obtain ⟨hcomplete, hstands⟩ := hQ
      refine Follows.ok ⟨hstands.le, hstands.rest, ?_⟩
      have hlogged := (Logged.varint .itemSetLength (by decide) hcomplete).append
        hstands.logged
      rw [List.append_nil reads]
      exact hlogged

theorem rangeFronts_cons {fuel : ℕ} {bytes rest : List Byte} {type : Byte}
    (h : skipBound L bytes = type :: rest) :
    rangeFronts L (fuel + 1) bytes = (bodyFronts L rest (typeOfByte type)).1 ++
      rangeFronts L fuel (bodyFronts L rest (typeOfByte type)).2 := by
  rw [rangeFronts, h]

theorem rangeFronts_nil (hL : L.Strict) (fuel : ℕ) : rangeFronts L fuel [] = [] := by
  cases fuel with
  | zero => rfl
  | succ fuel =>
      have hread : L.fromBytes [] = (0, 0) := hL.incomplete [] (Nat.zero_le _) (by simp)
      have hskip : skipBound L [] = [] := by
        simp [skipBound, skipVarint, hread]
      rw [rangeFronts, hskip]

theorem map_bind {α β γ : Type} (x : Except String α) (g : α → Except String β) (f : β → γ) :
    (x >>= g).map f = x >>= fun a => (g a).map f := by
  cases x <;> rfl

/-- The loop ends: every round takes the byte of a range type. -/
theorem decodeRanges_follows (hL : L.Strict) : ∀ (fuel idx : ℕ) (lastBound : SyncID)
    (payload : RangesData), idx ≤ buffer.length → buffer.length < idx + fuel →
    0 ≤ lastBound.time → lastBound.time ≤ maxTimestamp →
    Follows (Checked.decodeRanges L buffer fuel lastBound payload idx)
      ((decodeRanges L buffer fuel idx lastBound payload).map (fun q => (q, buffer.length)))
      (fun _ _ reads => Logged (rangeFronts L fuel (buffer.drop idx)) reads)
  | 0, idx, _, _, h, hfuel, _, _ => absurd hfuel (by omega)
  | fuel + 1, idx, lastBound, payload, h, hfuel, h0, hmax => by
      unfold Checked.decodeRanges decodeRanges
      rw [here_apply]
      by_cases hend : buffer.length ≤ idx
      · rw [if_pos hend, if_pos hend]
        have hidx : idx = buffer.length := le_antisymm h hend
        subst hidx
        refine Follows.ok ?_
        rw [List.drop_length, rangeFronts_nil hL]
        exact Logged.nil
      rw [if_neg hend, if_neg hend]
      have hlt : idx < buffer.length := not_le.mp hend
      have hpos : 0 ≤ (getTimeDiff L idx buffer).1 := Int.natCast_nonneg _
      refine Follows.ok_bind (getTimeDiff_apply hL h) ?_
      rw [checkInt64_eq (by omega) (by omega), Reader.pure_bind]
      dsimp only
      by_cases habove : maxTimestamp - lastBound.time < (getTimeDiff L idx buffer).1
      · rw [if_pos habove, if_pos habove]
        exact Follows.refused _
      rw [if_neg habove, if_neg habove, map_bind]
      refine Follows.bind (getUpperHash_follows hL hlt) fun hash next reads hQ => ?_
      obtain ⟨hcomplete, hbound⟩ := hQ
      rw [checkInt64_eq (by omega) (by omega), Reader.pure_bind]
      dsimp only
      by_cases hcmp : cmp lastBound ⟨lastBound.time + (getTimeDiff L idx buffer).1, hash⟩ ≠ -1
      · rw [if_pos hcmp, if_pos hcmp]
        exact Follows.refused _
      rw [if_neg hcmp, if_neg hcmp, map_bind]
      refine Follows.bind getRangeType_follows fun type next' reads' hQ => ?_
      obtain ⟨byte, rest, hdrop, rfl, hnext, htype⟩ := hQ
      rw [hbound.rest] at hdrop
      dsimp only
      rw [map_bind]
      refine Follows.bind (getBody_follows hL htype.le _ _ payload) ?_
      intro payload' last more hbody
      have hfar : idx < last := by
        have hskip := skipBound_length_le L (buffer.drop idx)
        have hrest := bodyFronts_length_le L (buffer.drop next') (typeOfByte byte)
        rw [← hbody.rest, htype.rest] at hrest
        rw [hdrop, List.length_cons] at hskip
        rw [List.length_drop] at hskip hrest
        omega
      have hupper : lastBound.time + (getTimeDiff L idx buffer).1 ≤ maxTimestamp := by omega
      refine (decodeRanges_follows hL fuel last _ payload' hbody.le (by omega)
        (Int.add_nonneg h0 hpos) hupper).imp ?_
      intro _ _ rounds hrounds
      rw [hbody.rest, htype.rest] at hrounds
      rw [rangeFronts_cons hdrop]
      have hlogged := (Logged.varint .timeDifference (by decide) hcomplete).append
        (hbound.logged.append (htype.logged.append (hbody.logged.append hrounds)))
      rw [htype.rest] at hlogged
      exact hlogged

end Readers

/-- The two decoders on a whole buffer: the same payload or the same message, and the varints read
are those at the fronts of the elements and complete ones. -/
theorem deltaDecode_follows {L : VarintCodec} (hL : L.Strict) (buffer : List Byte) :
    (∃ message, Checked.deltaDecode L buffer = .error (.refused message) ∧
      RangesData.deltaDecode L buffer = .error message) ∨
    ∃ p reads, Checked.deltaDecode L buffer = .ok (p, reads) ∧
      RangesData.deltaDecode L buffer = .ok p ∧ Logged (payloadFronts L buffer) reads := by
  unfold Checked.deltaDecode RangesData.deltaDecode
  by_cases hempty : buffer.length = 0
  · rw [if_pos hempty, if_pos hempty]
    refine Or.inr ⟨{}, [], rfl, rfl, ?_⟩
    have hread : L.fromBytes [] = (0, 0) := hL.incomplete [] (Nat.zero_le _) (by simp)
    have hheader : skipShards L (skipVarint L []) = [] := by
      simp [skipShards, skipVarint, skipVarints, hread]
    rw [List.length_eq_zero_iff.mp hempty, payloadFronts, hheader, rangeFronts_nil hL]
    exact Logged.nil
  rw [if_neg hempty, if_neg hempty]
  have hfollows : Follows (Checked.decodePayload L buffer 0)
      (Except.map (fun q => (q, buffer.length)) (getCluster L 0 buffer >>= fun q =>
        getShards L q.2 buffer >>= fun r =>
          decodeRanges L buffer (buffer.length + 1) r.2 SyncID.zero
            { cluster := q.1, shards := r.1 }))
      (fun _ _ reads => Logged (payloadFronts L buffer) reads) := by
    rw [Checked.decodePayload, map_bind]
    refine Follows.bind (getCluster_follows hL (Nat.zero_le _)) fun cluster next reads hcl => ?_
    dsimp only
    rw [map_bind]
    refine Follows.bind (getShards_follows hL hcl.le) fun shards next' reads' hsh => ?_
    refine (decodeRanges_follows hL _ next' _ _ hsh.le (by omega) le_rfl (by decide)).imp ?_
    intro _ _ rounds hrounds
    rw [hsh.rest, hcl.rest, List.drop_zero] at hrounds
    exact hcl.logged.append (hsh.logged.append hrounds)
  rcases hfollows.cases_map with ⟨m, hrun, hplain⟩ | ⟨p, reads, hrun, hplain, hlogged⟩
  · rw [hrun]
    exact Or.inl ⟨m, rfl, hplain⟩
  · rw [hrun]
    exact Or.inr ⟨p, reads, rfl, hplain, hlogged⟩

/-! ### The times of the elements -/

/-- Non-decreasing times that no `int64` overflows. -/
structure ItemSet.Timed (set : ItemSet) : Prop where
  sorted : set.elements.Pairwise (fun x y => x.time ≤ y.time)
  bounds : ∀ x ∈ set.elements, 0 ≤ x.time ∧ x.time ≤ maxTimestamp

/-- A payload as the decoder lets it through. -/
structure RangesData.Accepted (p : RangesData) : Prop where
  counts : p.CountsMatch
  contiguous : ContiguousFrom SyncID.zero p.ranges
  timed : ∀ set ∈ p.itemSets, set.Timed

section Timed

variable {L : VarintCodec} {buffer : List Byte}

/-- Each element is at the time of the one before or later. -/
theorem decodeElements_timed : ∀ (n idx next : ℕ) (lastTime : ℤ) (elements q : List SyncID),
    decodeElements L buffer n idx lastTime elements = .ok (q, next) →
    ∃ added, q = elements ++ added ∧ added.Pairwise (fun x y => x.time ≤ y.time) ∧
      ∀ x ∈ added, lastTime ≤ x.time ∧ x.time ≤ maxTimestamp
  | 0, _, _, _, elements, q, h => by
      obtain ⟨rfl, -⟩ := Prod.mk.inj (Except.ok.inj h)
      exact ⟨[], (List.append_nil _).symm, List.Pairwise.nil, by simp⟩
  | n + 1, idx, next, lastTime, elements, q, h => by
      rw [decodeElements] at h
      obtain ⟨⟨timeDiff, idx1⟩, hstamp, h⟩ := bind_ok h
      dsimp only at h
      split_ifs at h with hmax
      obtain ⟨⟨hash, idx2⟩, -, h⟩ := bind_ok h
      obtain ⟨added, rfl, hsorted, hbounds⟩ := decodeElements_timed n _ _ _ _ _ h
      have hpos : 0 ≤ timeDiff := by
        unfold getTimestamp at hstamp
        split_ifs at hstamp
        rw [← (Prod.mk.inj (Except.ok.inj hstamp)).1]
        exact Int.natCast_nonneg _
      refine ⟨⟨lastTime + timeDiff, hash⟩ :: added, by simp, ?_, ?_⟩
      · exact List.pairwise_cons.mpr ⟨fun x hx => (hbounds x hx).1, hsorted⟩
      · intro x hx
        rcases List.mem_cons.mp hx with rfl | hx
        · exact ⟨by show lastTime ≤ lastTime + timeDiff; omega,
            by show lastTime + timeDiff ≤ maxTimestamp; omega⟩
        · have := hbounds x hx
          exact ⟨by omega, this.2⟩

theorem getItemSet_timed {idx n next : ℕ} {set : ItemSet}
    (h : getItemSet L idx buffer n = .ok (set, next)) : set.Timed := by
  obtain ⟨⟨set', count⟩, hset, h⟩ := bind_ok h
  obtain ⟨rfl, -⟩ := Prod.mk.inj (Except.ok.inj h)
  obtain ⟨⟨elements, idx1⟩, helements, hset⟩ := bind_ok hset
  obtain ⟨⟨reconciled, idx2⟩, -, hset⟩ := bind_ok hset
  obtain ⟨rfl, -⟩ := Prod.mk.inj (Except.ok.inj hset)
  obtain ⟨added, rfl, hsorted, hbounds⟩ := decodeElements_timed _ _ _ _ _ _ helements
  exact ⟨hsorted, hbounds⟩

theorem getBody_timed {idx next : ℕ} {bounds : Slice SyncID} {type : RangeType}
    {payload q : RangesData} (h : getBody L idx buffer bounds type payload = .ok (q, next))
    (htimed : ∀ set ∈ payload.itemSets, set.Timed) : ∀ set ∈ q.itemSets, set.Timed := by
  cases type with
  | skip =>
      obtain ⟨rfl, -⟩ := Prod.mk.inj (Except.ok.inj h)
      exact htimed
  | fingerprint =>
      obtain ⟨⟨f, idx1⟩, -, h⟩ := bind_ok h
      obtain ⟨rfl, -⟩ := Prod.mk.inj (Except.ok.inj h)
      exact htimed
  | itemSet =>
      obtain ⟨⟨set, idx1⟩, hset, h⟩ := bind_ok h
      obtain ⟨rfl, -⟩ := Prod.mk.inj (Except.ok.inj h)
      intro set' hset'
      rcases List.mem_append.mp hset' with hold | hnew
      · exact htimed set' hold
      · rw [List.mem_singleton.mp hnew]
        exact getItemSet_timed hset

theorem decodeRanges_timed : ∀ (fuel idx : ℕ) (lastBound : SyncID) (payload q : RangesData),
    decodeRanges L buffer fuel idx lastBound payload = .ok q →
    (∀ set ∈ payload.itemSets, set.Timed) → ∀ set ∈ q.itemSets, set.Timed
  | 0, _, _, _, _, h, _ => by cases h
  | fuel + 1, idx, lastBound, payload, q, h, htimed => by
      rw [decodeRanges] at h
      split_ifs at h with hend
      · obtain rfl := Except.ok.inj h
        exact htimed
      · dsimp only at h
        split_ifs at h with hmax
        obtain ⟨⟨hash, idx1⟩, -, h⟩ := bind_ok h
        dsimp only at h
        split_ifs at h with hcmp
        obtain ⟨⟨type, idx2⟩, -, h⟩ := bind_ok h
        obtain ⟨⟨payload', idx3⟩, hbody, h⟩ := bind_ok h
        exact decodeRanges_timed fuel idx3 _ _ q h (getBody_timed hbody htimed)

theorem accepted_of_deltaDecode {p : RangesData} (h : RangesData.deltaDecode L buffer = .ok p) :
    p.Accepted := by
  obtain ⟨hcounts, hcontiguous⟩ := deltaDecode_accepted h
  refine ⟨hcounts, hcontiguous, ?_⟩
  unfold RangesData.deltaDecode at h
  split_ifs at h with hlen
  · obtain rfl := Except.ok.inj h
    simp
  · obtain ⟨⟨cluster, idx⟩, -, h⟩ := bind_ok h
    obtain ⟨⟨shards, idx'⟩, -, h⟩ := bind_ok h
    exact decodeRanges_timed _ _ _ _ _ h (by simp)

end Timed

/-! ### What is caught -/

/-- The decoder ends on a buffer without a defect, and where it accepts the payload is well formed
and every varint that it read was complete within its nine bytes. -/
structure SafeAndStrict (L : VarintCodec) (buffer : List Byte) : Prop where
  ends : Checked.deltaDecode L buffer ≠ .error .unfinished
  noDefect : ∀ d, Checked.deltaDecode L buffer ≠ .error (.defect d)
  accepted : ∀ p reads, Checked.deltaDecode L buffer = .ok (p, reads) → p.Accepted
  complete : ∀ p reads, Checked.deltaDecode L buffer = .ok (p, reads) →
    ∀ r ∈ reads, r.slice.length ≤ VarIntLen ∧ IsComplete r.slice

/-- **What the decoder lets through.**  On an accepted buffer the fronts of the elements have to be
complete; everything else always holds. -/
theorem safeAndStrict_iff {L : VarintCodec} (hL : L.Strict) (buffer : List Byte) :
    SafeAndStrict L buffer ↔
      ((∃ p, RangesData.deltaDecode L buffer = .ok p) →
        ∀ front ∈ payloadFronts L buffer, IsComplete front) := by
  rcases deltaDecode_follows hL buffer with ⟨m, hrun, hplain⟩ | ⟨p, reads, hrun, hplain, hlogged⟩
  · refine iff_of_true ⟨?_, ?_, ?_, ?_⟩ ?_
    · rw [hrun]
      exact fun h => nomatch h
    · intro d h
      rw [hrun] at h
      exact nomatch h
    · intro p reads h
      rw [hrun] at h
      exact nomatch h
    · intro p reads h
      rw [hrun] at h
      exact nomatch h
    · rintro ⟨p, hp⟩
      rw [hplain] at hp
      exact nomatch hp
  · constructor
    · intro hsafe _ front hfront
      rw [← hlogged.fronts] at hfront
      obtain ⟨r, hr, rfl⟩ := List.mem_map.mp hfront
      exact (hsafe.complete p reads hrun r (List.mem_filter.mp hr).1).2
    · intro hfronts
      refine ⟨?_, ?_, ?_, ?_⟩
      · rw [hrun]
        exact fun h => nomatch h
      · intro d h
        rw [hrun] at h
        exact nomatch h
      · intro p' reads' h
        rw [hrun] at h
        obtain ⟨rfl, -⟩ := Prod.mk.inj (Except.ok.inj h)
        exact accepted_of_deltaDecode hplain
      · intro p' reads' h r hr
        rw [hrun] at h
        obtain ⟨-, rfl⟩ := Prod.mk.inj (Except.ok.inj h)
        refine ⟨hlogged.length r hr, ?_⟩
        by_cases hfield : r.field = .timestamp
        · apply hfronts ⟨p, hplain⟩
          rw [← hlogged.fronts]
          exact List.mem_map.mpr ⟨r, List.mem_filter.mpr ⟨hr, decide_eq_true hfield⟩, rfl⟩
        · exact hlogged.complete r hr hfield

/-- One item set of one element, on cluster 0 with no shards. -/
def oneElement (element : List Byte) : List Byte := [0, 0, 10, 2, 1] ++ element ++ [0]

theorem safeAndStrict_oneElement :
    SafeAndStrict Lib.leb128 (oneElement (5 :: List.replicate 32 7)) :=
  (safeAndStrict_iff Lib.leb128_strict _).mpr fun _ => by decide +kernel

/-- An element whose first nine bytes all have the high bit is accepted, at time zero. -/
theorem incomplete_timestamp_accepted : ¬ ∀ buffer, SafeAndStrict Lib.leb128 buffer := by
  intro hall
  have hrun : (Checked.deltaDecode Lib.leb128
      (oneElement (List.replicate 9 255 ++ List.replicate 23 0))).toOption.map
        (fun r => r.2.map (fun read => decide (IsComplete read.slice))) =
      some [true, true, true, true, false] := by decide +kernel
  cases hdec : Checked.deltaDecode Lib.leb128
      (oneElement (List.replicate 9 255 ++ List.replicate 23 0)) with
  | error e =>
      rw [hdec] at hrun
      cases hrun
  | ok r =>
      obtain ⟨p, reads⟩ := r
      rw [hdec] at hrun
      have hreads : reads.map (fun read => decide (IsComplete read.slice)) =
          [true, true, true, true, false] := Option.some.inj hrun
      have hmem : false ∈ reads.map (fun read => decide (IsComplete read.slice)) := by
        rw [hreads]
        decide
      obtain ⟨r, hr, hincomplete⟩ := List.mem_map.mp hmem
      exact of_decide_eq_false hincomplete ((hall _).complete p reads hdec r hr).2

end LogosDelivery.StoreSync
