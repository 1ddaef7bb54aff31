import Mathlib

/-! # Packed sets

A set of numbered values (`Ordinal`) in the layout of a packed set.  Up to 34 members stand in an
array in the order they came in; removing one of them puts the last one in its place.  With the
35th member the set becomes a bit set and stays one however small it gets: a `Trunk` has the bits
of 512 neighbouring numbers, it is made when the first of its members comes in and is linked before
the trunks already there, and removing a member clears its bit.  So a large set is iterated trunk
by trunk from the newest on, and in ascending order within each.

Membership is that of `items`, the members in the order of iteration; what `incl`, `excl` and
`difference` do to it does not depend on the layout. -/

namespace LogosDelivery.Lib

/-- The values have numbers. -/
class Ordinal (α : Type) where
  ord : α → ℤ
  ord_injective : Function.Injective ord

instance : Ordinal ℕ where
  ord k := (k : ℤ)
  ord_injective := Nat.cast_injective

instance : Ordinal ℤ where
  ord k := k
  ord_injective := Function.injective_id

variable {α : Type} [Ordinal α]

/-- The trunk that has the bit of `k`. -/
def trunkKey (k : α) : ℤ := Ordinal.ord k / 512

/-- In the order of the numbers, each once. -/
def Ordered (l : List α) : Prop := l.Pairwise (fun x y => Ordinal.ord x < Ordinal.ord y)

/-- `k` at its place in the order. -/
def insertOrdered (l : List α) (k : α) : List α :=
  l.orderedInsert (fun x y => Ordinal.ord x ≤ Ordinal.ord y) k

theorem mem_insertOrdered {l : List α} {k x : α} : x ∈ insertOrdered l k ↔ x ∈ l ∨ x = k := by
  rw [insertOrdered, List.mem_orderedInsert, or_comm]

theorem ordered_insertOrdered {l : List α} (h : Ordered l) {k : α} (hk : k ∉ l) :
    Ordered (insertOrdered l k) := by
  have htotal : Std.Total (fun x y : α => Ordinal.ord x ≤ Ordinal.ord y) :=
    ⟨fun x y => le_total (Ordinal.ord x) (Ordinal.ord y)⟩
  have htrans : IsTrans α (fun x y => Ordinal.ord x ≤ Ordinal.ord y) := ⟨fun _ _ _ => le_trans⟩
  have hsorted : (insertOrdered l k).Pairwise (fun x y => Ordinal.ord x ≤ Ordinal.ord y) :=
    List.Pairwise.orderedInsert k l (h.imp le_of_lt)
  have hne : (k :: l).Pairwise (fun x y => Ordinal.ord x ≠ Ordinal.ord y) :=
    List.pairwise_cons.mpr
      ⟨fun y hy heq => hk (Ordinal.ord_injective heq ▸ hy), h.imp ne_of_lt⟩
  have hperm : (insertOrdered l k).Perm (k :: l) := List.perm_orderedInsert _ k l
  have hdistinct := hperm.symm.pairwise hne (fun {_ _} hxy => hxy.symm)
  exact hsorted.imp₂ (fun _ _ hle hne => lt_of_le_of_ne hle hne) hdistinct

/-- A trunk as the list of the members whose bits are set, lowest bit first. -/
structure Trunk (α : Type) [Ordinal α] where
  key : ℤ
  bits : List α
  belongs : ∀ k ∈ bits, trunkKey k = key
  ordered : Ordered bits
deriving DecidableEq

/-- The array, or the trunks from the newest on. -/
inductive PackedSet (α : Type) [Ordinal α] where
  | small (a : List α)
  | large (trunks : List (Trunk α))
deriving DecidableEq

namespace Trunk

variable [DecidableEq α]

/-- Sets the bit of `k`, which is one of this trunk's. -/
def set (t : Trunk α) (k : α) (hkey : t.key = trunkKey k) : Trunk α where
  key := t.key
  bits := if k ∈ t.bits then t.bits else insertOrdered t.bits k
  belongs := by
    intro x hx
    split_ifs at hx with hk
    · exact t.belongs x hx
    · rcases mem_insertOrdered.mp hx with hx | rfl
      · exact t.belongs x hx
      · exact hkey.symm
  ordered := by
    split_ifs with hk
    · exact t.ordered
    · exact ordered_insertOrdered t.ordered hk

/-- Clears the bit of `k`. -/
def clear (t : Trunk α) (k : α) : Trunk α where
  key := t.key
  bits := t.bits.filter (fun x => x ≠ k)
  belongs := fun x hx => t.belongs x (List.mem_of_mem_filter hx)
  ordered := List.Pairwise.filter _ t.ordered

/-- A new trunk, for `k`. -/
def new (k : α) : Trunk α where
  key := trunkKey k
  bits := [k]
  belongs := by simp
  ordered := List.pairwise_singleton _ _

theorem mem_set {t : Trunk α} {k x : α} {hkey : t.key = trunkKey k} :
    x ∈ (t.set k hkey).bits ↔ x ∈ t.bits ∨ x = k := by
  unfold set
  dsimp only
  split_ifs with hk
  · constructor
    · exact Or.inl
    · rintro (h | rfl)
      · exact h
      · exact hk
  · exact mem_insertOrdered

end Trunk

/-- Sets a bit, in a new trunk before the others when its trunk is not there. -/
def bitincl [DecidableEq α] (trunks : List (Trunk α)) (k : α) : List (Trunk α) :=
  if ∃ t ∈ trunks, t.key = trunkKey k then
    trunks.map (fun t => if h : t.key = trunkKey k then t.set k h else t)
  else Trunk.new k :: trunks

theorem mem_bitincl [DecidableEq α] {trunks : List (Trunk α)} {k x : α} :
    x ∈ (bitincl trunks k).flatMap Trunk.bits ↔ x ∈ trunks.flatMap Trunk.bits ∨ x = k := by
  unfold bitincl
  split_ifs with hk
  · simp only [List.mem_flatMap, List.mem_map]
    constructor
    · rintro ⟨_, ⟨t, ht, rfl⟩, hx⟩
      split_ifs at hx with hkey
      · exact (Trunk.mem_set.mp hx).imp_left (fun hx => ⟨t, ht, hx⟩)
      · exact Or.inl ⟨t, ht, hx⟩
    · rintro (⟨t, ht, hx⟩ | rfl)
      · refine ⟨_, ⟨t, ht, rfl⟩, ?_⟩
        split_ifs with hkey
        · exact Trunk.mem_set.mpr (Or.inl hx)
        · exact hx
      · obtain ⟨t, ht, hkey⟩ := hk
        refine ⟨_, ⟨t, ht, rfl⟩, ?_⟩
        rw [dif_pos hkey]
        exact Trunk.mem_set.mpr (Or.inr rfl)
  · rw [List.flatMap_cons, List.mem_append, or_comm, Trunk.new, List.mem_singleton]

namespace PackedSet

instance : EmptyCollection (PackedSet α) := ⟨small []⟩

/-- The members, in the order of iteration. -/
def items : PackedSet α → List α
  | small a => a
  | large trunks => trunks.flatMap Trunk.bits

instance : Membership α (PackedSet α) := ⟨fun s k => k ∈ s.items⟩

theorem mem_iff {s : PackedSet α} {k : α} : k ∈ s ↔ k ∈ s.items := Iff.rfl

@[simp] theorem items_empty : (∅ : PackedSet α).items = [] := rfl

@[simp] theorem not_mem_empty (k : α) : k ∉ (∅ : PackedSet α) := by simp [mem_iff]

/-- Number of members. -/
def len (s : PackedSet α) : ℕ := s.items.length

@[simp] theorem len_empty : (∅ : PackedSet α).len = 0 := rfl

theorem exists_mem_of_len_ne_zero {s : PackedSet α} (h : s.len ≠ 0) : ∃ k, k ∈ s :=
  List.length_pos_iff_exists_mem.mp (Nat.pos_of_ne_zero h)

theorem len_pos_of_mem {s : PackedSet α} {k : α} (h : k ∈ s) : 0 < s.len := List.length_pos_of_mem h

variable [DecidableEq α]

/-- Looks a member up: in the array, or at its bit. -/
def contains (s : PackedSet α) (k : α) : Bool :=
  match s with
  | small a => decide (k ∈ a)
  | large trunks => trunks.any (fun t => decide (t.key = trunkKey k) && decide (k ∈ t.bits))

theorem contains_iff {s : PackedSet α} {k : α} : s.contains k = true ↔ k ∈ s := by
  cases s with
  | small a => exact decide_eq_true_iff
  | large trunks =>
      simp only [contains, List.any_eq_true, Bool.and_eq_true, decide_eq_true_eq, mem_iff, items,
        List.mem_flatMap]
      constructor
      · rintro ⟨t, ht, _, hk⟩
        exact ⟨t, ht, hk⟩
      · rintro ⟨t, ht, hk⟩
        exact ⟨t, ht, (t.belongs k hk).symm, hk⟩

instance (s : PackedSet α) (k : α) : Decidable (k ∈ s) := decidable_of_iff _ contains_iff

/-- The 35th member turns the array into trunks. -/
def incl (s : PackedSet α) (k : α) : PackedSet α :=
  match s with
  | small a =>
      if k ∈ a then small a
      else if a.length < 34 then small (a ++ [k])
      else large (bitincl (a.foldl bitincl []) k)
  | large trunks => large (bitincl trunks k)

/-- In the array the last member takes the place of the removed one. -/
def excl (s : PackedSet α) (k : α) : PackedSet α :=
  match s with
  | small a =>
      if k ∈ a then small ((a.map (fun x => if x = k then a.getLast?.getD k else x)).dropLast)
      else small a
  | large trunks => large (trunks.map (fun t => if t.key = trunkKey k then t.clear k else t))

def toPackedSet (l : List α) : PackedSet α := l.foldl incl ∅

def difference (s t : PackedSet α) : PackedSet α :=
  (s.items.filter (fun x => !t.contains x)).foldl incl ∅

theorem mem_foldl_bitincl (l : List α) (trunks : List (Trunk α)) (x : α) :
    x ∈ (l.foldl bitincl trunks).flatMap Trunk.bits ↔ x ∈ trunks.flatMap Trunk.bits ∨ x ∈ l := by
  induction l generalizing trunks with
  | nil => simp
  | cons y l ih => rw [List.foldl_cons, ih, mem_bitincl, List.mem_cons, or_assoc]

theorem mem_incl {s : PackedSet α} {k x : α} : x ∈ s.incl k ↔ x ∈ s ∨ x = k := by
  cases s with
  | small a =>
      simp only [incl]
      split_ifs with hk hlen
      · constructor
        · exact Or.inl
        · rintro (h | rfl)
          · exact h
          · exact hk
      · simp [mem_iff, items]
      · simp only [mem_iff, items, mem_bitincl, mem_foldl_bitincl]
        simp
  | large trunks => exact mem_bitincl

theorem mem_foldl_incl (l : List α) (s : PackedSet α) (x : α) :
    x ∈ l.foldl incl s ↔ x ∈ s ∨ x ∈ l := by
  induction l generalizing s with
  | nil => simp
  | cons y l ih => rw [List.foldl_cons, ih, mem_incl, List.mem_cons, or_assoc]

theorem mem_toPackedSet {l : List α} {x : α} : x ∈ toPackedSet l ↔ x ∈ l := by
  simp [toPackedSet, mem_foldl_incl]

theorem mem_difference {s t : PackedSet α} {x : α} : x ∈ s.difference t ↔ x ∈ s ∧ x ∉ t := by
  unfold difference
  rw [mem_foldl_incl, List.mem_filter, Bool.not_eq_true', ← Bool.not_eq_true, contains_iff,
    ← mem_iff]
  simp

theorem mem_of_mem_excl {s : PackedSet α} {k x : α} (h : x ∈ s.excl k) : x ∈ s := by
  cases s with
  | small a =>
      simp only [excl] at h
      split_ifs at h with hk
      · obtain ⟨y, hy, rfl⟩ := List.mem_map.mp (List.dropLast_subset _ h)
        split_ifs with hyk
        · cases hl : a.getLast? with
          | none => exact hk
          | some z => exact List.mem_of_getLast? hl
        · exact hy
      · exact h
  | large trunks =>
      simp only [excl, mem_iff, items, List.mem_flatMap, List.mem_map] at h
      obtain ⟨_, ⟨t, ht, rfl⟩, hx⟩ := h
      refine List.mem_flatMap.mpr ⟨t, ht, ?_⟩
      split_ifs at hx with hkey
      · exact List.mem_of_mem_filter hx
      · exact hx

end PackedSet

end LogosDelivery.Lib
