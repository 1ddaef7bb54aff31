import LogosDelivery.Discovery.ShardUpdates
import LogosDelivery.Lib.Frames
import LogosDelivery.StoreSync.CodecChecked

/-! # The addresses in a record

`waku_enr/multiaddr.nim`.  The field is a row of frames: the length of an address in two bytes, then
its binary form.  The reader takes the bounds of every slice as the language checks them; the
library's addresses are a parameter.

Addresses that were written are read back, and of any bytes the reader gives the valid addresses
among the frames or refuses a broken one (`multiaddrs_codec`). -/

namespace LogosDelivery.Discovery

open Lib
open Lib.Reader (here advance refuse crash giveUp)
open StoreSync (Byte Defect)

/-- The library's addresses: their binary forms, and the address of a binary form, if it is valid. -/
structure MultiAddresses (A : Type) where
  buffer : A → List Byte
  init : List Byte → Option A
  init_buffer : ∀ a, init (buffer a) = some a

abbrev FieldReader (α : Type) := Reader Defect Empty α

section Codec

variable {A : Type} (M : MultiAddresses A)

def encodeMultiaddrs (multiaddrs : List A) : List Byte :=
  multiaddrs.foldl (fun buffer multiaddr =>
    let raw := M.buffer multiaddr
    let size := toBytesBE (UInt16.ofNat raw.length)
    buffer ++ (size ++ raw)) []

/-- `rawBytes[a ..< b]`. -/
def sliceBytes (rawBytes : List Byte) (a b : ℕ) : FieldReader (List Byte) :=
  if b < a then crash .range
  else if a < b ∧ rawBytes.length < b then crash .index
  else pure ((rawBytes.drop a).take (b - a))

def readBytes (rawBytes : List Byte) (numBytes : ℕ) : FieldReader (List Byte) := here fun pos => do
  let left ← sliceBytes rawBytes pos rawBytes.length
  if left.length < numBytes then refuse "insufficient bytes"
  else do
    let slicedSeq ← sliceBytes rawBytes pos (pos + numBytes)
    advance numBytes
    return slicedSeq

/-- The loop over the field, for at most `fuel` rounds. -/
def decodeLoop (buffer : List Byte) : ℕ → List A → FieldReader (List A)
  | 0, _ => giveUp
  | fuel + 1, multiaddrs => here fun pos =>
      if buffer.length ≤ pos then return multiaddrs
      else do
        let addrLenRaw ← readBytes buffer 2
        let addrLen := fromBytesBE addrLenRaw
        if addrLen = 0 then refuse "malformed multiaddr field: invalid length"
        else do
          let addrRaw ← readBytes buffer addrLen.toNat
          match M.init addrRaw with
          | none => decodeLoop buffer fuel multiaddrs
          | some address => decodeLoop buffer fuel (multiaddrs ++ [address])

def decodeMultiaddrs (buffer : List Byte) : Except (ReadFailure Defect) (List A) :=
  match decodeLoop M buffer (buffer.length + 1) [] 0 with
  | .error e => .error e
  | .ok (multiaddrs, _, _) => .ok multiaddrs

end Codec

/-! ### The frames of the field -/

theorem toBytesBE_fromBytesBE {h : List Byte} (hlen : h.length = 2) :
    toBytesBE (fromBytesBE h) = h := by
  have hlt := foldl_digits_lt h
  have hdigits := bigEndian_foldl h 0
  rw [hlen] at hlt hdigits
  rw [toBytesBE, fromBytesBE, UInt16.toNat_ofNat_of_lt' hlt, hdigits]

/-- Two bytes of length. -/
def enrFraming : Framing Byte where
  width := 2
  limit := 65535
  header := fun n => toBytesBE (UInt16.ofNat n)
  size := fun h => (fromBytesBE h).toNat
  width_pos := by decide
  length_header := fun n => length_toBytesBE _
  size_header := fun n hn => by
    rw [fromBytesBE_toBytesBE]
    exact UInt16.toNat_ofNat_of_lt' (Nat.lt_succ_of_le hn)
  size_le := fun h => Nat.le_of_lt_succ (fromBytesBE h).toNat_lt
  header_size := fun h hlen => by rw [UInt16.ofNat_toNat, toBytesBE_fromBytesBE hlen]

section Reading

variable {A : Type} {M : MultiAddresses A} {buffer rest chunk : List Byte}
  {chunks : List (List Byte)} {pos numBytes fuel : ℕ} {multiaddrs : List A}

theorem encodeMultiaddrs_eq (as : List A) :
    encodeMultiaddrs M as = enrFraming.frames (as.map M.buffer) := by
  have happend : ∀ (as : List A) (buffer : List Byte),
      as.foldl (fun buffer multiaddr => buffer ++
        (toBytesBE (UInt16.ofNat (M.buffer multiaddr).length) ++ M.buffer multiaddr)) buffer =
        buffer ++ enrFraming.frames (as.map M.buffer) := by
    intro as
    induction as with
    | nil => intro buffer; exact (List.append_nil _).symm
    | cons a as ih =>
        intro buffer
        rw [List.foldl_cons, ih, List.map_cons, Framing.frames_cons, List.append_assoc]
        rfl
  exact happend as []

/-- A slice within the bytes. -/
theorem sliceBytes_ok {a b : ℕ} (hab : a ≤ b) (hb : b ≤ buffer.length) (pos : ℕ) :
    sliceBytes buffer a b pos = .ok ((buffer.drop a).take (b - a), pos, []) := by
  rw [sliceBytes, if_neg (by omega), if_neg (by omega)]
  rfl

theorem sliceBytes_end (hpos : pos ≤ buffer.length) :
    sliceBytes buffer pos buffer.length pos = .ok (buffer.drop pos, pos, []) := by
  rw [sliceBytes_ok hpos le_rfl, ← List.length_drop, List.take_length]

theorem readBytes_short (hpos : pos ≤ buffer.length) (h : buffer.length < pos + numBytes) :
    readBytes buffer numBytes pos = .error (.refused "insufficient bytes") := by
  have hleft : (buffer.drop pos).length < numBytes := by
    rw [List.length_drop]
    omega
  rw [readBytes, Reader.here_apply, Reader.bind_silent _ (sliceBytes_end hpos), if_pos hleft]
  rfl

theorem readBytes_enough (h : pos + numBytes ≤ buffer.length) :
    readBytes buffer numBytes pos = .ok ((buffer.drop pos).take numBytes, pos + numBytes, []) := by
  have hleft : ¬ (buffer.drop pos).length < numBytes := by
    rw [List.length_drop]
    omega
  rw [readBytes, Reader.here_apply, Reader.bind_silent _ (sliceBytes_end (by omega)), if_neg hleft,
    Reader.bind_silent _ (sliceBytes_ok (Nat.le_add_right pos numBytes) h pos),
    Nat.add_sub_cancel_left, Reader.advance_bind]
  rfl

/-! ### One round -/

theorem decodeLoop_end (h : buffer.length ≤ pos) (multiaddrs : List A) :
    decodeLoop M buffer (fuel + 1) multiaddrs pos = .ok (multiaddrs, pos, []) := by
  rw [decodeLoop, Reader.here_apply, if_pos h]
  rfl

theorem decodeLoop_broken (h : enrFraming.Broken (buffer.drop pos)) (multiaddrs : List A) :
    ∃ m, decodeLoop M buffer (fuel + 1) multiaddrs pos = .error (.refused m) := by
  have hmore : pos < buffer.length := by
    have := List.length_pos_of_ne_nil h.ne_nil
    rw [List.length_drop] at this
    omega
  rw [decodeLoop, Reader.here_apply, if_neg (by omega)]
  rcases h with ⟨_, hshort⟩ | ⟨hwidth, hbad⟩
  · have hshort : buffer.length - pos < 2 := List.length_drop ▸ hshort
    exact ⟨_, Reader.bind_error _ (readBytes_short hmore.le (by omega))⟩
  · have hwidth : 2 ≤ buffer.length - pos := List.length_drop ▸ hwidth
    have hprefix := readBytes_enough (show pos + 2 ≤ buffer.length by omega)
    rw [Reader.bind_silent _ hprefix]
    by_cases hzero : fromBytesBE ((buffer.drop pos).take 2) = 0
    · exact ⟨"malformed multiaddr field: invalid length", by rw [if_pos hzero]; rfl⟩
    · have hpast : buffer.length - pos < 2 + (fromBytesBE ((buffer.drop pos).take 2)).toNat := by
        rcases hbad with hsize | hpast
        · have hsize : (fromBytesBE ((buffer.drop pos).take 2)).toNat = (0 : UInt16).toNat := hsize
          exact absurd (UInt16.toNat_inj.mp hsize) hzero
        · exact List.length_drop ▸ hpast
      refine ⟨"insufficient bytes", ?_⟩
      rw [if_neg hzero, Reader.bind_error _ (readBytes_short (by omega) (by omega))]

/-- A frame is read, and an invalid address is left out. -/
theorem decodeLoop_frame (hdrop : buffer.drop pos = enrFraming.frame chunk ++ rest)
    (h : enrFraming.Sized chunk) (multiaddrs : List A) :
    decodeLoop M buffer (fuel + 1) multiaddrs pos =
      decodeLoop M buffer fuel (multiaddrs ++ (M.init chunk).toList) (pos + 2 + chunk.length) := by
  have hlength : buffer.length - pos = 2 + chunk.length + rest.length := by
    have := congrArg List.length hdrop
    rw [List.length_drop, List.length_append, Framing.length_frame] at this
    exact this
  have hsize : (fromBytesBE ((buffer.drop pos).take 2)).toNat = chunk.length := by
    rw [hdrop]
    exact (congrArg enrFraming.size Framing.take_width).trans (enrFraming.size_header _ h.2)
  have hzero : ¬ fromBytesBE ((buffer.drop pos).take 2) = 0 := by
    intro hzero
    have := h.1
    rw [hzero, UInt16.toNat_zero] at hsize
    omega
  have hchunk : (buffer.drop (pos + 2)).take chunk.length = chunk := by
    rw [← List.drop_drop, hdrop]
    exact (congrArg (List.take chunk.length) (Framing.drop_width (F := enrFraming))).trans
      List.take_left
  have hprefix := readBytes_enough (show pos + 2 ≤ buffer.length by omega)
  have hraw := readBytes_enough (show pos + 2 + chunk.length ≤ buffer.length by omega)
  rw [decodeLoop, Reader.here_apply, if_neg (by omega), Reader.bind_silent _ hprefix, if_neg hzero,
    hsize, Reader.bind_silent _ hraw, hchunk]
  cases M.init chunk with
  | none => rw [Option.toList_none, List.append_nil]
  | some address => rfl

/-! ### The whole field -/

/-- The frames that are left, whatever the loop has before it. -/
theorem decodeLoop_frames (hall : ∀ chunk ∈ chunks, enrFraming.Sized chunk)
    (hdrop : buffer.drop pos = enrFraming.frames chunks ++ rest) (hpos : pos ≤ buffer.length)
    (hfuel : chunks.length ≤ fuel) (multiaddrs : List A) :
    ∃ last, buffer.drop last = rest ∧ decodeLoop M buffer (fuel + 1) multiaddrs pos =
      decodeLoop M buffer (fuel - chunks.length + 1) (multiaddrs ++ chunks.filterMap M.init)
        last := by
  induction chunks generalizing pos fuel multiaddrs with
  | nil => exact ⟨pos, hdrop, by simp⟩
  | cons chunk chunks ih =>
      obtain ⟨fuel, rfl⟩ : ∃ n, fuel = n + 1 :=
        ⟨fuel - 1, by rw [List.length_cons] at hfuel; omega⟩
      have hsized := hall chunk List.mem_cons_self
      rw [Framing.frames_cons, List.append_assoc] at hdrop
      have hnext : buffer.drop (pos + 2 + chunk.length) = enrFraming.frames chunks ++ rest := by
        rw [add_assoc, ← List.drop_drop, hdrop]
        exact List.drop_left' Framing.length_frame
      have hlength : pos + 2 + chunk.length ≤ buffer.length := by
        have := congrArg List.length hdrop
        rw [List.length_drop, List.length_append, Framing.length_frame] at this
        have hwidth : enrFraming.width = 2 := rfl
        omega
      obtain ⟨last, hrest, hloop⟩ := ih (fun c hc => hall c (List.mem_cons_of_mem _ hc)) hnext
        hlength (Nat.le_of_succ_le_succ hfuel) (multiaddrs ++ (M.init chunk).toList)
      refine ⟨last, hrest, ?_⟩
      rw [decodeLoop_frame hdrop hsized, hloop, List.length_cons, Nat.succ_sub_succ,
        List.append_assoc, List.filterMap_cons]
      cases M.init chunk <;> rfl

theorem decodeMultiaddrs_frames (hall : ∀ chunk ∈ chunks, enrFraming.Sized chunk) :
    decodeMultiaddrs M (enrFraming.frames chunks) = .ok (chunks.filterMap M.init) := by
  have hdrop : (enrFraming.frames chunks).drop 0 = enrFraming.frames chunks ++ [] :=
    (List.append_nil _).symm
  obtain ⟨last, hrest, hloop⟩ := decodeLoop_frames (M := M) hall hdrop (Nat.zero_le _)
    Framing.length_le_frames []
  rw [decodeMultiaddrs, hloop, decodeLoop_end (List.drop_eq_nil_iff.mp hrest), List.nil_append]

theorem decodeMultiaddrs_broken (hall : ∀ chunk ∈ chunks, enrFraming.Sized chunk)
    (hrest : enrFraming.Broken rest) :
    ∃ m, decodeMultiaddrs M (enrFraming.frames chunks ++ rest) = .error (.refused m) := by
  have hdrop : (enrFraming.frames chunks ++ rest).drop 0 = enrFraming.frames chunks ++ rest := rfl
  have hlen : chunks.length ≤ (enrFraming.frames chunks ++ rest).length := by
    rw [List.length_append]
    exact Framing.length_le_frames.trans (Nat.le_add_right _ _)
  obtain ⟨last, hlast, hloop⟩ := decodeLoop_frames (M := M) hall hdrop (Nat.zero_le _) hlen []
  rw [← hlast] at hrest
  obtain ⟨m, hm⟩ := decodeLoop_broken (M := M) hrest ([] ++ chunks.filterMap M.init)
  exact ⟨m, by rw [decodeMultiaddrs, hloop, hm]⟩

end Reading

/-! ### Any bytes -/

/-- Some length is cut off, zero, or points past the end. -/
def BadPrefix (buffer : List Byte) : Prop :=
  ∃ chunks rest, (∀ chunk ∈ chunks, enrFraming.Sized chunk) ∧
    buffer = enrFraming.frames chunks ++ rest ∧ enrFraming.Broken rest

theorem decodeMultiaddrs_encodeMultiaddrs {A : Type} (M : MultiAddresses A) {as : List A}
    (has : ∀ a ∈ as, enrFraming.Sized (M.buffer a)) :
    decodeMultiaddrs M (encodeMultiaddrs M as) = .ok as := by
  have hall : ∀ chunk ∈ as.map M.buffer, enrFraming.Sized chunk := by
    intro chunk hchunk
    obtain ⟨a, ha, rfl⟩ := List.mem_map.mp hchunk
    exact has a ha
  rw [encodeMultiaddrs_eq, decodeMultiaddrs_frames hall, List.filterMap_map]
  have hinit : M.init ∘ M.buffer = some := funext M.init_buffer
  rw [hinit, List.filterMap_some]

theorem multiaddrs_codec {A : Type} (M : MultiAddresses A) :
    (∀ as : List A, (∀ a ∈ as, 1 ≤ (M.buffer a).length ∧ (M.buffer a).length ≤ 65535) →
      decodeMultiaddrs M (encodeMultiaddrs M as) = .ok as) ∧
    ∀ buffer, ((∃ m, decodeMultiaddrs M buffer = .error (.refused m)) ↔ BadPrefix buffer) ∧
      (¬ BadPrefix buffer → ∃ chunks, (∀ chunk ∈ chunks, enrFraming.Sized chunk) ∧
        buffer = enrFraming.frames chunks ∧
        decodeMultiaddrs M buffer = .ok (chunks.filterMap M.init)) := by
  refine ⟨fun as has => decodeMultiaddrs_encodeMultiaddrs M has, ?_⟩
  intro buffer
  have hbad : BadPrefix buffer → ∃ m, decodeMultiaddrs M buffer = .error (.refused m) := by
    rintro ⟨chunks, rest, hall, rfl, hrest⟩
    exact decodeMultiaddrs_broken hall hrest
  have hgood : ¬ BadPrefix buffer → ∃ chunks, (∀ chunk ∈ chunks, enrFraming.Sized chunk) ∧
      buffer = enrFraming.frames chunks ∧
      decodeMultiaddrs M buffer = .ok (chunks.filterMap M.init) := by
    intro hbuffer
    obtain ⟨chunks, rest, hall, hrow, rfl | hrest⟩ := Framing.exists_row (F := enrFraming) buffer
    · rw [List.append_nil] at hrow
      subst hrow
      exact ⟨chunks, hall, rfl, decodeMultiaddrs_frames hall⟩
    · exact absurd ⟨chunks, rest, hall, hrow, hrest⟩ hbuffer
  refine ⟨⟨?_, hbad⟩, hgood⟩
  rintro ⟨m, hm⟩
  by_contra hbuffer
  obtain ⟨chunks, _, _, hok⟩ := hgood hbuffer
  rw [hok] at hm
  cases hm

/-- The binary form of an `/ip4/../tcp/..`. -/
def IsIp4Tcp (raw : List Byte) : Prop := raw.length = 8 ∧ raw[0]? = some 4 ∧ raw[5]? = some 6

instance (raw : List Byte) : Decidable (IsIp4Tcp raw) := inferInstanceAs (Decidable (_ ∧ _))

/-- The library with no other addresses. -/
def ip4Tcp : MultiAddresses { raw : List Byte // IsIp4Tcp raw } where
  buffer := Subtype.val
  init := fun raw => if h : IsIp4Tcp raw then some ⟨raw, h⟩ else none
  init_buffer := fun a => dif_pos a.property

theorem multiaddrs_codec_twoFrames :
    decodeMultiaddrs ip4Tcp (encodeMultiaddrs ip4Tcp
      [⟨[4, 127, 0, 0, 1, 6, 0, 80], by decide⟩, ⟨[4, 10, 0, 0, 1, 6, 1, 187], by decide⟩]) =
        .ok [⟨[4, 127, 0, 0, 1, 6, 0, 80], by decide⟩, ⟨[4, 10, 0, 0, 1, 6, 1, 187], by decide⟩] :=
  (multiaddrs_codec ip4Tcp).1 _ (by decide)

end LogosDelivery.Discovery
