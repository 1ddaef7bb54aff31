import Mathlib

/-! # Variable length numbers

A varint codec writes a number as a non-empty sequence of bytes that tells its own end, and reads
one from the front of a buffer together with the number of bytes it took.  `VarintCodec.Lawful`
lists what a user of such a codec relies on: reading undoes writing whatever follows, and a number
of `7 * k` bits takes at most `k` bytes.

`leb128` is the base 128 codec: seven bits a byte, lowest first, and the high bit on every byte but
the last.  A buffer that ends inside a number is read as length `0`.  `VarintCodec.Strict` says this
of the reads from at most nine bytes, of which no number of 64 bits can come out too large. -/

namespace LogosDelivery.Lib

/-- Writing and reading of unsigned 64-bit numbers; a read returns the number and its length. -/
structure VarintCodec where
  toBytes : ℕ → List (Fin 256)
  fromBytes : List (Fin 256) → ℕ × ℕ

namespace VarintCodec

structure Lawful (L : VarintCodec) : Prop where
  /-- Reading undoes writing, whatever bytes follow. -/
  fromBytes_toBytes : ∀ v, v < 2 ^ 64 → ∀ rest,
    L.fromBytes (L.toBytes v ++ rest) = (v, (L.toBytes v).length)
  toBytes_pos : ∀ v, 0 < (L.toBytes v).length
  /-- Every byte carries seven bits. -/
  length_toBytes_le : ∀ v k, 0 < k → v < 2 ^ (7 * k) → (L.toBytes v).length ≤ k

/-- What is read from at most nine bytes: the number that ends at the first byte without the high
bit, and nothing when every byte has it. -/
structure Strict (L : VarintCodec) : Prop where
  length : ∀ bytes : List (Fin 256), bytes.length ≤ 9 → (∃ b ∈ bytes, b.val < 128) →
    (L.fromBytes bytes).2 = bytes.findIdx (fun b => decide (b.val < 128)) + 1
  value_lt : ∀ bytes : List (Fin 256), bytes.length ≤ 9 → (∃ b ∈ bytes, b.val < 128) →
    (L.fromBytes bytes).1 < 2 ^ (7 * (L.fromBytes bytes).2)
  incomplete : ∀ bytes : List (Fin 256), bytes.length ≤ 9 → (∀ b ∈ bytes, 128 ≤ b.val) →
    L.fromBytes bytes = (0, 0)

end VarintCodec

/-! ### Base 128 -/

/-- A byte with the high bit, which says that the number goes on. -/
def continued (v : ℕ) : Fin 256 := ⟨v % 128 + 128, by omega⟩

/-- A last byte. -/
def final (v : ℕ) : Fin 256 := ⟨v % 128, by omega⟩

/-- The bytes of a number, at most `n + 1` of them. -/
def leb128Bytes : ℕ → ℕ → List (Fin 256)
  | 0, v => [final v]
  | n + 1, v => if v < 128 then [final v] else continued v :: leb128Bytes n (v / 128)

/-- The number at the front of a buffer and its length, which is `0` when the buffer ends inside
the number. -/
def leb128Read : List (Fin 256) → ℕ × ℕ
  | [] => (0, 0)
  | b :: rest =>
      if b.val < 128 then (b.val, 1)
      else
        match leb128Read rest with
        | (_, 0) => (0, 0)
        | (v, n + 1) => (b.val - 128 + 128 * v, n + 2)

/-- A 64-bit number takes at most ten bytes. -/
def leb128 : VarintCodec where
  toBytes := leb128Bytes 9
  fromBytes := leb128Read

theorem leb128Bytes_pos (n v : ℕ) : 0 < (leb128Bytes n v).length := by
  cases n with
  | zero => simp [leb128Bytes]
  | succ n =>
      rw [leb128Bytes]
      split_ifs <;> simp

theorem leb128Bytes_length_le : ∀ (n k v : ℕ), v < 2 ^ (7 * (k + 1)) →
    (leb128Bytes n v).length ≤ k + 1
  | 0, k, v, _ => by simp [leb128Bytes]
  | n + 1, 0, v, h => by
      rw [leb128Bytes, if_pos (by omega)]
      simp
  | n + 1, k + 1, v, h => by
      rw [leb128Bytes]
      split_ifs with hv
      · simp
      · have hdiv : v / 128 < 2 ^ (7 * (k + 1)) := by
          rw [Nat.div_lt_iff_lt_mul (by omega)]
          have hpow : 2 ^ (7 * (k + 1 + 1)) = 2 ^ (7 * (k + 1)) * 128 := by
            rw [show 7 * (k + 1 + 1) = 7 * (k + 1) + 7 by omega, Nat.pow_add]
          omega
        have ih := leb128Bytes_length_le n k (v / 128) hdiv
        rw [List.length_cons]
        omega

theorem leb128Read_final {v : ℕ} (hv : v < 128) (rest : List (Fin 256)) :
    leb128Read (final v :: rest) = (v, 1) := by
  have hval : (final v).val = v := Nat.mod_eq_of_lt hv
  rw [leb128Read, if_pos (by omega), hval]

theorem leb128Read_continued (v : ℕ) (rest : List (Fin 256)) :
    leb128Read (continued v :: rest) =
      match leb128Read rest with
      | (_, 0) => (0, 0)
      | (w, n + 1) => (v % 128 + 128 * w, n + 2) := by
  have hval : (continued v).val = v % 128 + 128 := rfl
  rw [leb128Read, if_neg (by omega), hval, Nat.add_sub_cancel]

theorem leb128Read_bytes : ∀ (n v : ℕ), v < 128 ^ (n + 1) → ∀ rest,
    leb128Read (leb128Bytes n v ++ rest) = (v, (leb128Bytes n v).length)
  | 0, v, h, rest => leb128Read_final (by omega) rest
  | n + 1, v, h, rest => by
      rw [leb128Bytes]
      split_ifs with hv
      · exact leb128Read_final hv rest
      · have hdiv : v / 128 < 128 ^ (n + 1) := by
          rw [Nat.div_lt_iff_lt_mul (by omega)]
          rw [Nat.pow_succ] at h
          exact h
        rw [List.cons_append, leb128Read_continued, leb128Read_bytes n (v / 128) hdiv rest]
        obtain ⟨k, hk⟩ : ∃ k, (leb128Bytes n (v / 128)).length = k + 1 :=
          ⟨_, (Nat.sub_add_cancel (leb128Bytes_pos n (v / 128))).symm⟩
        rw [hk, List.length_cons, hk]
        dsimp only
        rw [Nat.mod_add_div]

theorem leb128_lawful : leb128.Lawful where
  fromBytes_toBytes v hv rest := leb128Read_bytes 9 v (by omega) rest
  toBytes_pos := leb128Bytes_pos 9
  length_toBytes_le v k hk hv := by
    obtain ⟨k, rfl⟩ : ∃ j, k = j + 1 := ⟨k - 1, by omega⟩
    exact leb128Bytes_length_le 9 k v hv

/-! ### Reading -/

theorem leb128Read_incomplete : ∀ bytes : List (Fin 256), (∀ b ∈ bytes, 128 ≤ b.val) →
    leb128Read bytes = (0, 0)
  | [], _ => rfl
  | b :: bytes, h => by
      have hb : ¬ b.val < 128 := not_lt.mpr (h b List.mem_cons_self)
      have ih := leb128Read_incomplete bytes fun b' hb' => h b' (List.mem_cons_of_mem _ hb')
      rw [leb128Read, if_neg hb, ih]

theorem leb128Read_complete : ∀ bytes : List (Fin 256), (∃ b ∈ bytes, b.val < 128) →
    (leb128Read bytes).2 = bytes.findIdx (fun b => decide (b.val < 128)) + 1 ∧
      (leb128Read bytes).1 < 2 ^ (7 * (leb128Read bytes).2)
  | [], h => by simp at h
  | b :: bytes, h => by
      rw [leb128Read, List.findIdx_cons]
      by_cases hb : b.val < 128
      · rw [if_pos hb, decide_eq_true hb]
        exact ⟨rfl, hb⟩
      · have htail : ∃ b' ∈ bytes, b'.val < 128 := by
          obtain ⟨b', hb', hlt⟩ := h
          rcases List.mem_cons.mp hb' with rfl | hmem
          · exact absurd hlt hb
          · exact ⟨b', hmem, hlt⟩
        obtain ⟨hlen, hval⟩ := leb128Read_complete bytes htail
        obtain ⟨v, n, hread⟩ : ∃ v n, leb128Read bytes = (v, n + 1) := ⟨_, _, Prod.ext rfl hlen⟩
        rw [hread] at hlen hval
        rw [if_neg hb, hread, decide_eq_false hb]
        dsimp only at hlen hval ⊢
        refine ⟨by simp only [cond_false]; omega, ?_⟩
        have hpow : 2 ^ (7 * (n + 2)) = 2 ^ (7 * (n + 1)) * 128 := by
          rw [show 7 * (n + 2) = 7 * (n + 1) + 7 by omega, Nat.pow_add]
        have hlt := b.isLt
        omega

theorem leb128_strict : leb128.Strict where
  length bytes _ h := (leb128Read_complete bytes h).1
  value_lt bytes _ h := (leb128Read_complete bytes h).2
  incomplete bytes _ h := leb128Read_incomplete bytes h

end LogosDelivery.Lib
