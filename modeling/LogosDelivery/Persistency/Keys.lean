import LogosDelivery.Lib.ByteOrder

/-! # Composite keys

`persistency/keys.nim` and the key order of `persistency/types.nim`.  A key is a byte string that
is built from components; the bytes of a component tell its own end and compare as the component
does, so that the byte order of the keys is the order of the tuples.

The `encodePart` overloads are one function here, over a type of the values that may be a
component: `Part t` is a value of the type `t`, where a tuple or an object is the list of its
fields.  Strings are the byte sequences that Nim has. -/

namespace LogosDelivery.Persistency

open Lib

abbrev Byte := Fin 256

instance byteValuesNeZero : NeZero (256 : ℕ) := ⟨by decide⟩

/-- A `distinct seq[byte]`. -/
abbrev Key := List Byte

structure KeyRange where
  start : Key
  /-- Exclusive; an empty `stop` means no upper bound. -/
  stop : Key
deriving DecidableEq

/-- The `<` of keys. -/
def Key.lt : Key → Key → Bool
  | a :: as, b :: bs => if a ≠ b then decide (a < b) else Key.lt as bs
  | as, bs => decide (as.length < bs.length)

/-- The `<=` of keys. -/
def Key.le (a b : Key) : Bool := decide (a = b) || Key.lt a b

theorem Key.lt_iff : ∀ a b : Key, Key.lt a b = true ↔ a < b
  | [], b => by
      cases b with
      | nil => simp [Key.lt]
      | cons b bs => simp [Key.lt]
  | a :: as, [] => by simp [Key.lt]
  | a :: as, b :: bs => by
      rw [Key.lt, List.cons_lt_cons_iff]
      by_cases h : a = b
      · rw [if_neg (not_not.mpr h), Key.lt_iff as bs]
        simp [h]
      · rw [if_pos h, decide_eq_true_iff]
        simp [h]

theorem Key.le_iff (a b : Key) : Key.le a b = true ↔ a ≤ b := by
  rw [Key.le, Bool.or_eq_true, decide_eq_true_iff, Key.lt_iff, le_iff_eq_or_lt]

/-! ### Components -/

def StringLenMax : ℕ := 0xFFFF
def SignFlip : UInt64 := 0x8000000000000000

def appendBE16 (buf : List Byte) (v : UInt16) : List Byte :=
  buf ++ [Fin.ofNat 256 ((v >>> 8) &&& 0xFF).toNat, Fin.ofNat 256 (v &&& 0xFF).toNat]

/-- `countdown(56, 0, 8)`. -/
def shifts64 : List UInt64 := [56, 48, 40, 32, 24, 16, 8, 0]

def appendBE64 (buf : List Byte) (v : UInt64) : List Byte :=
  shifts64.foldl (fun buf shift => buf ++ [Fin.ofNat 256 ((v >>> shift) &&& 0xFF).toNat]) buf

/-- A string or byte sequence that passes the length assertion. -/
abbrev ShortBytes := {s : List Byte // s.length ≤ StringLenMax}

/-- The types of components. -/
inductive PartType where
  | string
  | bytes
  | int64
  | int
  | int32
  | int16
  | int8
  | uint64
  | uint32
  | uint16
  | bool
  | byte
  | char
  /-- An enumeration, by the `ord`s of its values. -/
  | enum (ords : List Int64)
  /-- A tuple or an object, by the types of its fields. -/
  | tuple (fields : List PartType)

/-- The values of a type of components. -/
inductive Part : PartType → Type where
  | string (s : ShortBytes) : Part .string
  | bytes (raw : ShortBytes) : Part .bytes
  | int64 (i : Int64) : Part .int64
  | int (i : Int64) : Part .int
  | int32 (i : Int32) : Part .int32
  | int16 (i : Int16) : Part .int16
  | int8 (i : Int8) : Part .int8
  | uint64 (u : UInt64) : Part .uint64
  | uint32 (u : UInt32) : Part .uint32
  | uint16 (u : UInt16) : Part .uint16
  | bool (b : Bool) : Part .bool
  | byte (b : Byte) : Part .byte
  | char (c : Byte) : Part .char
  | enum {ords : List Int64} (v : {i : Int64 // i ∈ ords}) : Part (.enum ords)
  | none : Part (.tuple [])
  | field {t : PartType} {ts : List PartType} (v : Part t) (rest : Part (.tuple ts)) :
      Part (.tuple (t :: ts))

def encodeBytes (dest : List Byte) (raw : ShortBytes) : List Byte :=
  appendBE16 dest (UInt16.ofNat raw.1.length) ++ raw.1

def encodeInt64 (dest : List Byte) (i : Int64) : List Byte :=
  appendBE64 dest (i.toUInt64 ^^^ SignFlip)

/-- `encodePart`: the bytes of a component after those already in `dest`. -/
def encodePart (dest : List Byte) : {t : PartType} → Part t → List Byte
  | _, .string s => encodeBytes dest s
  | _, .bytes raw => encodeBytes dest raw
  | _, .int64 i => encodeInt64 dest i
  | _, .int i => encodeInt64 dest i
  | _, .int32 i => encodeInt64 dest i.toInt64
  | _, .int16 i => encodeInt64 dest i.toInt64
  | _, .int8 i => encodeInt64 dest i.toInt64
  | _, .uint64 u => appendBE64 dest u
  | _, .uint32 u => appendBE64 dest u.toUInt64
  | _, .uint16 u => appendBE64 dest u.toUInt64
  | _, .bool b => dest ++ [if b then 1 else 0]
  | _, .byte b => dest ++ [b]
  | _, .char c => dest ++ [c]
  | _, .enum v => encodeInt64 dest v.1
  | _, .none => dest
  | _, .field v rest => encodePart (encodePart dest v) rest

/-- `key(...)`: its arguments, one after the other. -/
def key {ts : List PartType} (parts : Part (.tuple ts)) : Key := encodePart [] parts

/-- `toKey(v)`. -/
def toKey {t : PartType} (v : Part t) : Key := encodePart [] v

/-! ### The order of tuples -/

/-- Shorter ones first, then byte by byte. -/
def shortBytesLt (s s' : ShortBytes) : Prop :=
  s.1.length < s'.1.length ∨ s.1.length = s'.1.length ∧ s.1 < s'.1

/-- The order of components: integers by value, tuples component by component. -/
def Part.lt : {t : PartType} → Part t → Part t → Prop
  | _, .string s, .string s' => shortBytesLt s s'
  | _, .bytes raw, .bytes raw' => shortBytesLt raw raw'
  | _, .int64 i, .int64 i' => i.toInt < i'.toInt
  | _, .int i, .int i' => i.toInt < i'.toInt
  | _, .int32 i, .int32 i' => i.toInt < i'.toInt
  | _, .int16 i, .int16 i' => i.toInt < i'.toInt
  | _, .int8 i, .int8 i' => i.toInt < i'.toInt
  | _, .uint64 u, .uint64 u' => u.toNat < u'.toNat
  | _, .uint32 u, .uint32 u' => u.toNat < u'.toNat
  | _, .uint16 u, .uint16 u' => u.toNat < u'.toNat
  | _, .bool b, .bool b' => b < b'
  | _, .byte b, .byte b' => b < b'
  | _, .char c, .char c' => c < c'
  | _, .enum v, .enum v' => v.1.toInt < v'.1.toInt
  | _, .none, .none => False
  | _, .field v rest, .field v' rest' => Part.lt v v' ∨ v = v' ∧ Part.lt rest rest'

/-! ### The bytes of the components -/

theorem and_255 (n : ℕ) : n &&& 255 = n % 256 := Nat.and_two_pow_sub_one_eq_mod n 8

theorem appendBE16_eq (buf : List Byte) (v : UInt16) :
    appendBE16 buf v = buf ++ bigEndian 2 v.toNat := by
  simp [appendBE16, bigEndian, and_255, Nat.shiftRight_eq_div_pow, Fin.ext_iff]

theorem appendBE64_eq (buf : List Byte) (v : UInt64) :
    appendBE64 buf v = buf ++ bigEndian 8 v.toNat := by
  simp [appendBE64, shifts64, bigEndian, and_255, Nat.shiftRight_eq_div_pow, Fin.ext_iff]

/-- Flipping the highest of 64 bits. -/
theorem xor_signFlip {n : ℕ} (hn : n < 2 ^ 64) :
    n ^^^ 2 ^ 63 = if n < 2 ^ 63 then n + 2 ^ 63 else n - 2 ^ 63 := by
  have hdiv := Nat.xor_div_two_pow (a := n) (b := 2 ^ 63) (n := 63)
  have hmod := Nat.xor_mod_two_pow (a := n) (b := 2 ^ 63) (n := 63)
  rw [Nat.div_self (by norm_num)] at hdiv
  rw [Nat.mod_self, Nat.xor_zero] at hmod
  have hsplit := Nat.div_add_mod (n ^^^ 2 ^ 63) (2 ^ 63)
  split_ifs with h
  · rw [Nat.div_eq_of_lt h, Nat.zero_xor] at hdiv
    rw [Nat.mod_eq_of_lt h] at hmod
    omega
  · have h1 : n / 2 ^ 63 = 1 := by omega
    rw [h1, Nat.xor_self] at hdiv
    omega

/-- The sign flip moves the signed order to the unsigned one. -/
theorem toNat_xor_signFlip (i : Int64) : ((i.toUInt64 ^^^ SignFlip).toNat : ℤ) = i.toInt + 2 ^ 63 := by
  have hlt : i.toUInt64.toNat < 2 ^ 64 := i.toUInt64.toNat_lt
  have hval : i.toInt = if 2 * i.toUInt64.toNat < 2 ^ 64 then (i.toUInt64.toNat : ℤ)
      else (i.toUInt64.toNat : ℤ) - 2 ^ 64 := BitVec.toInt_eq_toNat_cond i.toBitVec
  have hflip : SignFlip.toNat = 2 ^ 63 := rfl
  rw [UInt64.toNat_xor, hflip, xor_signFlip hlt, hval]
  split_ifs <;> omega

theorem encodePart_eq (dest : List Byte) {t : PartType} (v : Part t) :
    encodePart dest v = dest ++ encodePart [] v := by
  induction v generalizing dest with
  | none => simp [encodePart]
  | field v rest ihv ih =>
      rw [encodePart, encodePart, ih, ihv, ih (encodePart [] v), List.append_assoc]
  | _ => simp [encodePart, encodeBytes, encodeInt64, appendBE16_eq, appendBE64_eq]

/-! ### Every component is an order code -/

theorem uint64_fits (u : UInt64) : u.toNat < 256 ^ 8 := by
  have hpow : 256 ^ 8 = 2 ^ 64 := by norm_num
  rw [hpow]
  exact u.toNat_lt

theorem orderCode_uint64 : OrderCode (fun u v : UInt64 => u.toNat < v.toNat) (appendBE64 []) where
  lt_iff := fun u v => by
    rw [appendBE64_eq, appendBE64_eq, List.nil_append, List.nil_append]
    exact bigEndian_lt_iff 8 _ _ (uint64_fits u) (uint64_fits v)
  eq_of_initial := fun u v hp => by
    rw [appendBE64_eq, appendBE64_eq, List.nil_append, List.nil_append] at hp
    have heq := hp.eq_of_length (by rw [length_bigEndian, length_bigEndian])
    exact UInt64.toNat_inj.mp (bigEndian_injOn (uint64_fits u) (uint64_fits v) heq)

theorem orderCode_int64 : OrderCode (fun i j : Int64 => i.toInt < j.toInt) (encodeInt64 []) := by
  have hinj : Function.Injective (fun i : Int64 => i.toUInt64 ^^^ SignFlip) := by
    intro i j h
    have hi := toNat_xor_signFlip i
    have hj := toNat_xor_signFlip j
    have heq : (i.toUInt64 ^^^ SignFlip).toNat = (j.toUInt64 ^^^ SignFlip).toNat :=
      congrArg UInt64.toNat h
    rw [heq] at hi
    exact Int64.toInt_inj.mp (by omega)
  have hlt : ∀ i j : Int64, i.toInt < j.toInt ↔
      (i.toUInt64 ^^^ SignFlip).toNat < (j.toUInt64 ^^^ SignFlip).toNat := by
    intro i j
    have hi := toNat_xor_signFlip i
    have hj := toNat_xor_signFlip j
    omega
  exact orderCode_uint64.comp hinj hlt

theorem orderCode_bytes : OrderCode shortBytesLt (encodeBytes []) := by
  have hlen : ∀ s : ShortBytes, (UInt16.ofNat s.1.length).toNat = s.1.length := by
    intro s
    have := s.2
    exact UInt16.toNat_ofNat_of_lt' (by unfold StringLenMax at this; exact Nat.lt_succ_of_le this)
  have hcode : ∀ s : ShortBytes, encodeBytes [] s = bigEndian 2 s.1.length ++ s.1 := by
    intro s
    rw [encodeBytes, appendBE16_eq, hlen, List.nil_append]
  have hlength : OrderCode (fun s s' : Fin (256 ^ 2) => s < s') (fun s => bigEndian 2 s.val) :=
    orderCode_of_length (fun s => length_bigEndian 2 s.val)
      (fun s s' => bigEndian_lt_iff 2 _ _ s.isLt s'.isLt)
      (fun s s' h => Fin.ext (bigEndian_injOn s.isLt s'.isLt h))
  have hfits : ∀ s : ShortBytes, s.1.length < 256 ^ 2 := fun s => Nat.lt_succ_of_le s.2
  constructor
  · intro s s'
    have h := hlength.append_lt_append ⟨s.1.length, hfits s⟩ ⟨s'.1.length, hfits s'⟩ s.1 s'.1
    rw [hcode, hcode]
    exact h.trans (by simp [shortBytesLt])
  · intro s s' hp
    rw [hcode, hcode] at hp
    have hl : (⟨s.1.length, hfits s⟩ : Fin (256 ^ 2)) = ⟨s'.1.length, hfits s'⟩ :=
      hlength.eq_of_append_initial hp
    have hl' : s.1.length = s'.1.length := congrArg Fin.val hl
    rw [hl', List.prefix_append_right_inj] at hp
    exact Subtype.ext (hp.eq_of_length hl')

/-- A component of one byte. -/
theorem orderCode_byte : OrderCode (fun b b' : Byte => b < b') (fun b => [] ++ [b]) := by
  refine orderCode_of_length (n := 1) (fun _ => rfl) (fun b b' => ?_) (fun b b' h => ?_)
  · simp [List.cons_lt_cons_iff]
  · simpa using h

/-- Integers of fewer bits are written as 64-bit ones. -/
theorem orderCode_of_toInt64 {α : Type} (f : α → Int64) (val : α → ℤ) (hval : ∀ i, (f i).toInt = val i)
    (hinj : Function.Injective val) :
    OrderCode (fun i j : α => val i < val j) (fun i => encodeInt64 [] (f i)) := by
  refine orderCode_int64.comp (f := f) ?_ ?_
  · intro i j h
    apply hinj
    rw [← hval, ← hval, h]
  · intro i j
    rw [hval, hval]

theorem orderCode_of_toUInt64 {α : Type} (f : α → UInt64) (val : α → ℕ) (hval : ∀ u, (f u).toNat = val u)
    (hinj : Function.Injective val) :
    OrderCode (fun u v : α => val u < val v) (fun u => appendBE64 [] (f u)) := by
  refine orderCode_uint64.comp (f := f) ?_ ?_
  · intro u v h
    apply hinj
    rw [← hval, ← hval, h]
  · intro u v
    rw [hval, hval]

theorem orderCode_bool :
    OrderCode (fun b b' : Bool => b < b') (fun b : Bool => [] ++ [if b then (1 : Byte) else 0]) := by
  refine orderCode_byte.comp (f := fun b : Bool => if b then (1 : Byte) else 0) ?_ ?_
  · intro b b'
    cases b <;> cases b' <;> decide
  · intro b b'
    cases b <;> cases b' <;> decide

/-- The code of the one constructor that a type of components has. -/
theorem OrderCode.part {α : Type} {r : α → α → Prop} {c : α → List Byte} (h : OrderCode r c)
    {t : PartType} (mk : α → Part t) (hmk : ∀ v : Part t, ∃ a, v = mk a)
    (hlt : ∀ a b, Part.lt (mk a) (mk b) ↔ r a b) (hcode : ∀ a, encodePart [] (mk a) = c a) :
    OrderCode (@Part.lt t) (fun v => encodePart [] v) where
  lt_iff := fun v w => by
    obtain ⟨a, rfl⟩ := hmk v
    obtain ⟨b, rfl⟩ := hmk w
    rw [hlt, hcode, hcode, h.lt_iff]
  eq_of_initial := fun v w hp => by
    obtain ⟨a, rfl⟩ := hmk v
    obtain ⟨b, rfl⟩ := hmk w
    rw [hcode, hcode] at hp
    rw [h.eq_of_initial a b hp]

mutual

/-- By recursion on the type: a tuple is its first field and then the tuple of the others. -/
theorem orderCode_encodePart : ∀ t : PartType, OrderCode (@Part.lt t) (fun v => encodePart [] v)
  | .string => OrderCode.part orderCode_bytes .string (fun | .string s => ⟨s, rfl⟩)
      (fun _ _ => Iff.rfl) (fun _ => rfl)
  | .bytes => OrderCode.part orderCode_bytes .bytes (fun | .bytes s => ⟨s, rfl⟩)
      (fun _ _ => Iff.rfl) (fun _ => rfl)
  | .int64 => OrderCode.part orderCode_int64 .int64 (fun | .int64 i => ⟨i, rfl⟩)
      (fun _ _ => Iff.rfl) (fun _ => rfl)
  | .int => OrderCode.part orderCode_int64 .int (fun | .int i => ⟨i, rfl⟩)
      (fun _ _ => Iff.rfl) (fun _ => rfl)
  | .int32 => OrderCode.part (orderCode_of_toInt64 Int32.toInt64 Int32.toInt Int32.toInt_toInt64
      (fun _ _ => Int32.toInt_inj.mp)) .int32 (fun | .int32 i => ⟨i, rfl⟩)
      (fun _ _ => Iff.rfl) (fun _ => rfl)
  | .int16 => OrderCode.part (orderCode_of_toInt64 Int16.toInt64 Int16.toInt Int16.toInt_toInt64
      (fun _ _ => Int16.toInt_inj.mp)) .int16 (fun | .int16 i => ⟨i, rfl⟩)
      (fun _ _ => Iff.rfl) (fun _ => rfl)
  | .int8 => OrderCode.part (orderCode_of_toInt64 Int8.toInt64 Int8.toInt Int8.toInt_toInt64
      (fun _ _ => Int8.toInt_inj.mp)) .int8 (fun | .int8 i => ⟨i, rfl⟩)
      (fun _ _ => Iff.rfl) (fun _ => rfl)
  | .uint64 => OrderCode.part orderCode_uint64 .uint64 (fun | .uint64 u => ⟨u, rfl⟩)
      (fun _ _ => Iff.rfl) (fun _ => rfl)
  | .uint32 => OrderCode.part (orderCode_of_toUInt64 UInt32.toUInt64 UInt32.toNat
      UInt32.toNat_toUInt64 (fun _ _ => UInt32.toNat_inj.mp)) .uint32 (fun | .uint32 u => ⟨u, rfl⟩)
      (fun _ _ => Iff.rfl) (fun _ => rfl)
  | .uint16 => OrderCode.part (orderCode_of_toUInt64 UInt16.toUInt64 UInt16.toNat
      UInt16.toNat_toUInt64 (fun _ _ => UInt16.toNat_inj.mp)) .uint16 (fun | .uint16 u => ⟨u, rfl⟩)
      (fun _ _ => Iff.rfl) (fun _ => rfl)
  | .bool => OrderCode.part orderCode_bool .bool (fun | .bool b => ⟨b, rfl⟩)
      (fun _ _ => Iff.rfl) (fun _ => rfl)
  | .byte => OrderCode.part orderCode_byte .byte (fun | .byte b => ⟨b, rfl⟩)
      (fun _ _ => Iff.rfl) (fun _ => rfl)
  | .char => OrderCode.part orderCode_byte .char (fun | .char c => ⟨c, rfl⟩)
      (fun _ _ => Iff.rfl) (fun _ => rfl)
  | .enum ords => OrderCode.part (orderCode_of_toInt64 (α := {i : Int64 // i ∈ ords}) Subtype.val
      (fun v => v.1.toInt) (fun _ => rfl) (fun _ _ h => Subtype.ext (Int64.toInt_inj.mp h)))
      .enum (fun | .enum v => ⟨v, rfl⟩) (fun _ _ => Iff.rfl) (fun _ => rfl)
  | .tuple ts => orderCode_tuple ts

theorem orderCode_tuple : ∀ ts : List PartType,
    OrderCode (@Part.lt (.tuple ts)) (fun v => encodePart [] v)
  | [] =>
      ⟨fun | .none, .none => by simp [encodePart, Part.lt], fun | .none, .none => fun _ => rfl⟩
  | t :: ts =>
      OrderCode.part ((orderCode_encodePart t).append (orderCode_tuple ts))
        (fun p => .field p.1 p.2) (fun | .field v rest => ⟨(v, rest), rfl⟩) (fun _ _ => Iff.rfl)
        (fun p => by rw [encodePart, encodePart_eq])

end

/-- **Keys are ordered as the tuples they are made of**; different tuples have different keys, and
no key is the start of another one. -/
theorem key_order_embedding {ts : List PartType} (x y : Part (.tuple ts)) :
    (Key.lt (key x) (key y) = true ↔ x.lt y) ∧ (key x = key y ↔ x = y) ∧
      (key x <+: key y → key x = key y) := by
  have hcode := orderCode_tuple ts
  refine ⟨?_, ?_, ?_⟩
  · rw [Key.lt_iff]
    exact hcode.lt_iff x y
  · exact ⟨fun h => hcode.injective h, fun h => by rw [h]⟩
  · intro h
    rw [hcode.eq_of_initial x y h]

/-! ### Ranges of keys -/

/-- A key lies in a range; an empty `stop` is no bound. -/
def KeyRange.contains (range : KeyRange) (k : Key) : Bool :=
  Key.le range.start k && (decide (range.stop = []) || Key.lt k range.stop)

/-- The loop of `prefixRange`, with `i` bytes left to look at. -/
def prefixRangeLoop (start : Key) : ℕ → KeyRange
  | 0 => { start := start, stop := [] }
  | i + 1 =>
      match start[i]? with
      | none => { start := start, stop := [] }
      | some b =>
          if b ≠ 0xFF then { start := start, stop := start.take i ++ [b + 1] }
          else prefixRangeLoop start i

/-- `[p, p++)`: every key that starts with `p`. -/
def prefixRange (p : Key) : KeyRange := prefixRangeLoop p p.length

theorem prefixRangeLoop_eq (start : Key) : ∀ i ≤ start.length,
    prefixRangeLoop start i = ⟨start, (successor (start.take i)).getD []⟩
  | 0, _ => by simp [prefixRangeLoop, successor]
  | i + 1, hi => by
      have hget : start[i]? = some start[i] := List.getElem?_eq_getElem (by omega)
      have htake : start.take (i + 1) = start.take i ++ [start[i]] := by
        rw [List.take_add_one, hget]
        rfl
      rw [prefixRangeLoop, hget, htake, successor_concat]
      by_cases hb : start[i] = 255
      · simp [hb, prefixRangeLoop_eq start i (by omega)]
      · simp [hb]

theorem prefixRange_eq (p : Key) : prefixRange p = ⟨p, (successor p).getD []⟩ := by
  rw [prefixRange, prefixRangeLoop_eq p p.length le_rfl, List.take_length]

theorem contains_prefixRange (p k : Key) : (prefixRange p).contains k = true ↔ p <+: k := by
  rw [prefixRange_eq, KeyRange.contains, Bool.and_eq_true, Bool.or_eq_true, Key.le_iff, Key.lt_iff,
    decide_eq_true_iff, prefixed_iff]
  cases hs : successor p with
  | none => simp
  | some s =>
      have hne : s ≠ [] := fun h => successor_ne_nil (h ▸ hs)
      simp [hne]

/-- The range of a prefix, whatever its bytes, has exactly the keys that start with it. -/
theorem prefixRange_exact (p k : Key) :
    (Key.le (prefixRange p).start k = true ∧
      ((prefixRange p).stop = [] ∨ Key.lt k (prefixRange p).stop = true)) ↔ p <+: k := by
  rw [← contains_prefixRange p k, KeyRange.contains, Bool.and_eq_true, Bool.or_eq_true,
    decide_eq_true_iff]

end LogosDelivery.Persistency
