import Mathlib

/-! # Codes that keep the order

A code writes values as lists over an ordered alphabet, and lists are compared as in a dictionary.
`OrderCode r c` says that `c` keeps the order `r` and that no code word is the start of another
one.  Such codes compose: written one after the other they give the lexicographic order of the
pairs (`OrderCode.append`).

Fixed width big-endian numbers are one (`bigEndian_lt_iff`).  The lists that start with a given one
`p` are a range of the dictionary: `successor p` is the smallest list above all of them, if there
is one (`prefixed_iff`). -/

namespace LogosDelivery.Lib

section Dictionary

variable {α : Type} [LinearOrder α]

theorem append_lt_append_left_iff (a u v : List α) : a ++ u < a ++ v ↔ u < v := by
  induction a with
  | nil => exact Iff.rfl
  | cons x a ih => rw [List.cons_append, List.cons_append, List.cons_lt_cons_self, ih]

/-- Two lists that differ at some place are compared there, whatever follows. -/
theorem append_lt_append_iff {a b : List α} (hab : ¬ a <+: b) (hba : ¬ b <+: a) (u v : List α) :
    a ++ u < b ++ v ↔ a < b := by
  induction a generalizing b with
  | nil => exact absurd ⟨_, rfl⟩ hab
  | cons x a ih =>
      cases b with
      | nil => exact absurd ⟨_, rfl⟩ hba
      | cons y b =>
          rw [List.cons_append, List.cons_append, List.cons_lt_cons_iff, List.cons_lt_cons_iff]
          by_cases hxy : x = y
          · subst hxy
            rw [List.prefix_cons_inj] at hab hba
            rw [ih hab hba]
          · simp [hxy]

/-- A code that keeps the order and tells its own end. -/
structure OrderCode {β : Type} (r : β → β → Prop) (c : β → List α) : Prop where
  lt_iff : ∀ x y, c x < c y ↔ r x y
  eq_of_initial : ∀ x y, c x <+: c y → x = y

variable {β γ : Type} {r : β → β → Prop} {s : γ → γ → Prop} {c : β → List α} {d : γ → List α}

theorem OrderCode.injective (h : OrderCode r c) : Function.Injective c :=
  fun x y hxy => h.eq_of_initial x y (hxy ▸ List.prefix_refl _)

/-- A code word is the start of two words only if it is the first part of both. -/
theorem OrderCode.eq_of_append_initial (h : OrderCode r c) {x y : β} {u v : List α}
    (hp : c x ++ u <+: c y ++ v) : x = y := by
  have hx : c x <+: c y ++ v := (List.prefix_append _ _).trans hp
  rcases List.prefix_or_prefix_of_prefix hx (List.prefix_append (c y) v) with hxy | hyx
  · exact h.eq_of_initial x y hxy
  · exact (h.eq_of_initial y x hyx).symm

/-- Component by component. -/
theorem OrderCode.append_lt_append (h : OrderCode r c) (x y : β) (u v : List α) :
    c x ++ u < c y ++ v ↔ r x y ∨ x = y ∧ u < v := by
  by_cases hxy : x = y
  · subst hxy
    have hirr : ¬ r x x := fun hr => lt_irrefl _ ((h.lt_iff x x).mpr hr)
    rw [append_lt_append_left_iff]
    simp [hirr]
  · have hab : ¬ c x <+: c y := fun hp => hxy (h.eq_of_initial x y hp)
    have hba : ¬ c y <+: c x := fun hp => hxy (h.eq_of_initial y x hp).symm
    rw [append_lt_append_iff hab hba, h.lt_iff]
    simp [hxy]

/-- The code of a part of the values, or of values that name others. -/
theorem OrderCode.comp (h : OrderCode r c) {f : γ → β} (hf : Function.Injective f)
    (hs : ∀ x y, s x y ↔ r (f x) (f y)) : OrderCode s (fun x => c (f x)) where
  lt_iff := fun x y => by rw [h.lt_iff, hs]
  eq_of_initial := fun x y hp => hf (h.eq_of_initial _ _ hp)

/-- Two codes one after the other. -/
theorem OrderCode.append (hc : OrderCode r c) (hd : OrderCode s d) :
    OrderCode (fun p q : β × γ => r p.1 q.1 ∨ p.1 = q.1 ∧ s p.2 q.2)
      (fun p => c p.1 ++ d p.2) where
  lt_iff := fun p q => by rw [hc.append_lt_append, hd.lt_iff]
  eq_of_initial := fun p q hp => by
    have h1 : p.1 = q.1 := hc.eq_of_append_initial hp
    rw [h1, List.prefix_append_right_inj] at hp
    exact Prod.ext h1 (hd.eq_of_initial _ _ hp)

/-- Words of one length are the start of no other one. -/
theorem orderCode_of_length {n : ℕ} (hlen : ∀ x, (c x).length = n)
    (hlt : ∀ x y, c x < c y ↔ r x y) (hinj : Function.Injective c) : OrderCode r c where
  lt_iff := hlt
  eq_of_initial := fun x y hp => hinj (hp.eq_of_length (by rw [hlen, hlen]))

end Dictionary

/-! ### Big-endian numbers -/

/-- The last `n` base 256 digits of a number, the highest first. -/
def bigEndian : ℕ → ℕ → List (Fin 256)
  | 0, _ => []
  | n + 1, v => Fin.ofNat 256 (v / 256 ^ n) :: bigEndian n v

theorem length_bigEndian : ∀ n v, (bigEndian n v).length = n
  | 0, _ => rfl
  | n + 1, v => by rw [bigEndian, List.length_cons, length_bigEndian n v]

theorem bigEndian_mod : ∀ n v k, n ≤ k → bigEndian n (v % 256 ^ k) = bigEndian n v
  | 0, _, _, _ => rfl
  | n + 1, v, k, h => by
      rw [bigEndian, bigEndian, bigEndian_mod n v k (by omega)]
      congr 1
      apply Fin.ext
      have hk : 256 ^ k = 256 ^ n * 256 ^ (k - n) := by rw [← pow_add]; congr 1; omega
      have hdvd : 256 ∣ 256 ^ (k - n) := dvd_pow_self _ (by omega)
      show v % 256 ^ k / 256 ^ n % 256 = v / 256 ^ n % 256
      rw [hk, Nat.mod_mul_right_div_self, Nat.mod_mod_of_dvd _ hdvd]

/-- Numbers that fit compare as their digits do. -/
theorem bigEndian_lt_iff : ∀ n v w, v < 256 ^ n → w < 256 ^ n →
    (bigEndian n v < bigEndian n w ↔ v < w)
  | 0, v, w, hv, hw => by
      have hv0 : v = 0 := by simpa using hv
      have hw0 : w = 0 := by simpa using hw
      simp [bigEndian, hv0, hw0]
  | n + 1, v, w, hv, hw => by
      have hpos : 0 < 256 ^ n := by positivity
      have hv' : v / 256 ^ n < 256 := by rw [Nat.div_lt_iff_lt_mul hpos, mul_comm, ← pow_succ]; exact hv
      have hw' : w / 256 ^ n < 256 := by rw [Nat.div_lt_iff_lt_mul hpos, mul_comm, ← pow_succ]; exact hw
      have hdigit : ∀ x, x / 256 ^ n < 256 → (Fin.ofNat 256 (x / 256 ^ n)).val = x / 256 ^ n :=
        fun x hx => Nat.mod_eq_of_lt hx
      rw [bigEndian, bigEndian, List.cons_lt_cons_iff, Fin.lt_def, Fin.ext_iff, hdigit v hv',
        hdigit w hw', ← bigEndian_mod n v n le_rfl, ← bigEndian_mod n w n le_rfl,
        bigEndian_lt_iff n _ _ (Nat.mod_lt _ hpos) (Nat.mod_lt _ hpos)]
      have hdv := Nat.div_add_mod v (256 ^ n)
      have hdw := Nat.div_add_mod w (256 ^ n)
      have hmv := Nat.mod_lt v hpos
      have hmw := Nat.mod_lt w hpos
      constructor
      · rintro (hlt | ⟨heq, hlt⟩)
        · calc v < 256 ^ n * (v / 256 ^ n) + 256 ^ n := by omega
            _ = 256 ^ n * (v / 256 ^ n + 1) := by ring
            _ ≤ 256 ^ n * (w / 256 ^ n) := Nat.mul_le_mul_left _ hlt
            _ ≤ w := by omega
        · rw [heq] at hdv
          omega
      · intro hlt
        rcases Nat.lt_or_ge (v / 256 ^ n) (w / 256 ^ n) with h | h
        · exact Or.inl h
        · have heq : v / 256 ^ n = w / 256 ^ n :=
            le_antisymm (Nat.div_le_div_right hlt.le) h
          rw [heq] at hdv
          exact Or.inr ⟨heq, by omega⟩

theorem bigEndian_injOn {n v w : ℕ} (hv : v < 256 ^ n) (hw : w < 256 ^ n)
    (h : bigEndian n v = bigEndian n w) : v = w := by
  have h1 := (bigEndian_lt_iff n v w hv hw).not.mp (by rw [h]; exact lt_irrefl _)
  have h2 := (bigEndian_lt_iff n w v hw hv).not.mp (by rw [h]; exact lt_irrefl _)
  omega

/-- Reading the digits after those of `a`. -/
theorem foldl_bigEndian : ∀ n v a : ℕ,
    (bigEndian n v).foldl (fun x b => 256 * x + b.val) a = a * 256 ^ n + v % 256 ^ n
  | 0, v, a => by simp [bigEndian, Nat.mod_one]
  | n + 1, v, a => by
      rw [bigEndian, List.foldl_cons, foldl_bigEndian n v, Nat.mod_pow_succ]
      show (256 * a + v / 256 ^ n % 256) * 256 ^ n + v % 256 ^ n = _
      ring

theorem foldl_digits (h : List (Fin 256)) (a : ℕ) :
    h.foldl (fun x b => 256 * x + b.val) a =
      a * 256 ^ h.length + h.foldl (fun x b => 256 * x + b.val) 0 := by
  induction h generalizing a with
  | nil => simp
  | cons b h ih =>
      rw [List.foldl_cons, List.foldl_cons, ih (256 * a + b.val), ih (256 * 0 + b.val),
        List.length_cons, pow_succ]
      ring

theorem foldl_digits_lt (h : List (Fin 256)) :
    h.foldl (fun x b => 256 * x + b.val) 0 < 256 ^ h.length := by
  induction h with
  | nil => simp
  | cons b h ih =>
      rw [List.foldl_cons, foldl_digits, List.length_cons, pow_succ]
      calc (256 * 0 + b.val) * 256 ^ h.length + h.foldl (fun x b => 256 * x + b.val) 0
          < (256 * 0 + b.val) * 256 ^ h.length + 256 ^ h.length := Nat.add_lt_add_left ih _
        _ = (b.val + 1) * 256 ^ h.length := by ring
        _ ≤ 256 * 256 ^ h.length := Nat.mul_le_mul_right _ b.isLt
        _ = 256 ^ h.length * 256 := mul_comm _ _

/-- Writing the number that was read gives the digits back. -/
theorem bigEndian_foldl (h : List (Fin 256)) (a : ℕ) :
    bigEndian h.length (h.foldl (fun x b => 256 * x + b.val) a) = h := by
  induction h generalizing a with
  | nil => rfl
  | cons b h ih =>
      rw [List.foldl_cons, List.length_cons, bigEndian, ih]
      congr 1
      apply Fin.ext
      rw [foldl_digits]
      show ((256 * a + b.val) * 256 ^ h.length + h.foldl (fun x b => 256 * x + b.val) 0) /
        256 ^ h.length % 256 = b.val
      rw [mul_comm, Nat.mul_add_div (by positivity), Nat.div_eq_of_lt (foldl_digits_lt h),
        Nat.add_zero, Nat.mul_add_mod, Nat.mod_eq_of_lt b.isLt]

/-- The `i`-th of the words of one width that are written one after the other. -/
theorem take_drop_flatMap {α β : Type} {c : β → List α} {n : ℕ} (hlen : ∀ x, (c x).length = n)
    (xs : List β) (i : ℕ) (hi : i < xs.length) :
    ((xs.flatMap c).drop (n * i)).take n = c xs[i] := by
  induction xs generalizing i with
  | nil => cases hi
  | cons x xs ih =>
      have hx := hlen x
      rw [List.flatMap_cons]
      cases i with
      | zero =>
          rw [Nat.mul_zero, List.drop_zero, ← hx, List.take_left]
          rfl
      | succ i =>
          have hindex : n * (i + 1) = (c x).length + n * i := by rw [hx]; ring
          rw [hindex, List.drop_length_add_append, List.getElem_cons_succ]
          exact ih i (Nat.lt_of_succ_lt_succ hi)

theorem length_flatMap_of_length {α β : Type} {c : β → List α} {n : ℕ}
    (hlen : ∀ x, (c x).length = n) (xs : List β) : (xs.flatMap c).length = n * xs.length := by
  simp only [List.length_flatMap, hlen, List.map_const', List.sum_replicate, smul_eq_mul]
  exact mul_comm _ _

/-! ### Lists with a common start -/

/-- The smallest list above all that start with the given one; there is none above `255`s only. -/
def successor : List (Fin 256) → Option (List (Fin 256))
  | [] => none
  | b :: p =>
      match successor p with
      | some s => some (b :: s)
      | none => if b = 255 then none else some [b + 1]

theorem successor_ne_nil {p : List (Fin 256)} : successor p ≠ some [] := by
  cases p with
  | nil => simp [successor]
  | cons b p =>
      rw [successor]
      cases successor p with
      | some s => simp
      | none => by_cases hb : b = 255 <;> simp [hb]

theorem successor_concat (b : Fin 256) : ∀ p : List (Fin 256),
    successor (p ++ [b]) = if b = 255 then successor p else some (p ++ [b + 1])
  | [] => by simp [successor]
  | a :: p => by
      rw [List.cons_append, successor, successor_concat b p]
      by_cases hb : b = 255
      · rw [if_pos hb, if_pos hb, successor]
      · rw [if_neg hb, if_neg hb, List.cons_append]

/-- A list starts with `p` when it lies between `p` and the successor of `p`. -/
theorem prefixed_iff : ∀ p k : List (Fin 256),
    p <+: k ↔ p ≤ k ∧ ∀ s, successor p = some s → k < s
  | [], k => by
      have hle : [] ≤ k := not_lt.mp (List.not_lt_nil k)
      simp [successor, hle]
  | b :: p, [] => by
      have hle : ¬ b :: p ≤ [] := not_le.mpr (List.nil_lt_cons _ _)
      simp [hle]
  | b :: p, a :: k => by
      have hcons : b :: p ≤ a :: k ↔ b < a ∨ b = a ∧ p ≤ k := by
        rw [← not_lt, List.cons_lt_cons_iff]
        rcases lt_trichotomy b a with h | h | h
        · simp [h, h.not_gt, h.ne']
        · simp [h]
        · simp [h, h.not_gt, h.ne']
      rw [List.cons_prefix_cons, hcons, prefixed_iff p k, successor]
      cases hs : successor p with
      | some s =>
          simp only [Option.some.injEq, forall_eq', List.cons_lt_cons_iff]
          constructor
          · rintro ⟨rfl, hle, hlt⟩
            exact ⟨Or.inr ⟨rfl, hle⟩, Or.inr ⟨rfl, hlt⟩⟩
          · rintro ⟨h1 | ⟨rfl, hle⟩, h2 | ⟨h2, hlt⟩⟩
            · exact absurd h1 h2.not_gt
            · exact absurd h2 h1.ne'
            · exact absurd h2 (lt_irrefl _)
            · exact ⟨rfl, hle, hlt⟩
      | none =>
          by_cases hb : b = 255
          · have hmax : ¬ b < a := by rw [hb]; exact (Fin.le_last a).not_gt
            rw [if_pos hb]
            simp [hmax]
          · have hval : b.val ≠ 255 := fun h => hb (Fin.ext h)
            have hnext : a < b + 1 ↔ a ≤ b := by
              have hb1 : (b + 1).val = b.val + 1 := by
                rw [Fin.val_add]
                have := b.isLt
                show (b.val + 1) % 256 = b.val + 1
                omega
              rw [Fin.lt_def, Fin.le_def, hb1]
              omega
            simp only [reduceCtorEq, false_implies, implies_true, and_true, hb, if_false,
              Option.some.injEq, forall_eq', List.cons_lt_cons_iff, hnext, List.not_lt_nil, and_false,
              or_false]
            constructor
            · rintro ⟨rfl, hle⟩
              exact ⟨Or.inr ⟨rfl, hle⟩, le_rfl⟩
            · rintro ⟨h1 | ⟨rfl, hle⟩, h2⟩
              · exact absurd h1 h2.not_gt
              · exact ⟨rfl, hle⟩

end LogosDelivery.Lib
