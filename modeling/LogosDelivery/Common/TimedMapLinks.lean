import LogosDelivery.Common.TimedMap
import LogosDelivery.Lib.Chain

/-! # The links of the timed map

The entries are linked in one order along `next` and in the other along `prev` (`Linked`), and the
set holds the same entries (`Holds`).  Behind the first entry there may be one that expired: `expire`
does not clear the back link of the new head.

Expiring and unlinking keep this, and so does a new node at one end.  A node between two entries does
not, as the entry after it stays linked to the one before it. -/

namespace LogosDelivery.Common.TimedMap

open Lib

variable {K V : Type} {t : TimedMap K V} {entries : Table K (TimedEntry K V)}
  {L A B : List (TimedEntry K V)} {behind : Option (TimedEntry K V)} {a x node : TimedEntry K V}
  {now : ℤ}

/-! ### The list and the set -/

structure Linked (t : TimedMap K V) (L : List (TimedEntry K V))
    (behind : Option (TimedEntry K V)) : Prop where
  next : Seg (fun entry => t.next entry.id) t.head L none
  prev : Seg (fun entry => t.prev entry.id) t.tail L.reverse behind
  ids : (L.map TimedEntry.id).Nodup
  made : ∀ entry ∈ L, entry.id < t.created
  behind_old : ∀ old, behind = some old →
    (∀ entry ∈ L, entry.id ≠ old.id) ∧ old.id < t.created ∧ t.prev old.id = none

theorem id_ne_of_nodup (h : ((A ++ x :: B).map TimedEntry.id).Nodup) :
    ∀ entry ∈ A ++ B, entry.id ≠ x.id := by
  rw [List.map_append, List.map_cons, List.nodup_middle, List.nodup_cons, ← List.map_append] at h
  intro entry hentry heq
  exact h.1 (heq ▸ List.mem_map_of_mem hentry)

theorem nodup_remove (h : ((A ++ x :: B).map TimedEntry.id).Nodup) :
    ((A ++ B).map TimedEntry.id).Nodup := by
  rw [List.map_append, List.map_cons, List.nodup_middle, List.nodup_cons, ← List.map_append] at h
  exact h.2

theorem Linked.length_le (h : Linked t L behind) : L.length ≤ t.created := by
  have hsub : (L.map TimedEntry.id).toFinset ⊆ Finset.range t.created := by
    intro id hid
    obtain ⟨entry, hentry, rfl⟩ := List.mem_map.mp (List.mem_toFinset.mp hid)
    exact Finset.mem_range.mpr (h.made entry hentry)
  have hcard := Finset.card_le_card hsub
  rwa [List.toFinset_card_of_nodup h.ids, List.length_map, Finset.card_range] at hcard

theorem Linked.head_eq (h : Linked t L behind) : t.head = L.head? := h.next.start

theorem Linked.tail_eq (h : Linked t L behind) (hne : L ≠ []) : t.tail = L.getLast? := by
  rcases List.eq_nil_or_concat L with rfl | ⟨l, last, rfl⟩
  · exact absurd rfl hne
  · have hprev := h.prev
    rw [List.concat_eq_append, List.reverse_concat] at hprev
    rw [hprev.start_cons]
    simp

theorem mem_of_mem_remove (h : a ∈ A ++ B) : a ∈ A ++ x :: B := by
  rcases List.mem_append.mp h with h | h
  · exact List.mem_append_left _ h
  · exact List.mem_append_right _ (List.mem_cons_of_mem x h)

/-- Who is linked from an entry of the list. -/
theorem Linked.next_eq (h : Linked t (A ++ x :: B) behind) : t.next x.id = B.head? :=
  h.next.split.2.start

/-- Who comes after the entry in the list is not the entry. -/
theorem Linked.next_id_ne (h : Linked t (A ++ x :: B) behind) :
    ∀ b, t.next x.id = some b → b.id ≠ x.id := by
  intro b hb
  rw [h.next_eq] at hb
  exact id_ne_of_nodup h.ids b (List.mem_append_right _ (List.mem_of_head? hb))

theorem Linked.prev_seg (h : Linked t (A ++ x :: B) behind) :
    Seg (fun entry => t.prev entry.id) t.tail (B.reverse ++ x :: A.reverse) behind := by
  have hback := h.prev
  rwa [List.reverse_append, List.reverse_cons, List.append_assoc, List.singleton_append] at hback

/-- Who is behind the head of the list. -/
theorem Linked.prev_first {first : TimedEntry K V} (h : Linked t (first :: L) behind) :
    t.prev first.id = behind := by
  have hlinked : Linked t ([] ++ first :: L) behind := h
  exact hlinked.prev_seg.split.2

/-- The back link of an entry leads to the one before it, or behind the list. -/
theorem Linked.prev_eq (h : Linked t (A ++ x :: B) behind) :
    (∀ c ∈ A.getLast?, t.prev x.id = some c) ∧
      ∀ y, t.prev x.id = some y → ∀ c ∈ A.dropLast ++ B, c.id ≠ y.id := by
  have hseg := h.prev_seg.split.2
  rcases List.eq_nil_or_concat A with rfl | ⟨l, last, rfl⟩
  · refine ⟨by simp, ?_⟩
    intro y hy c hc
    have hbehind : t.prev x.id = behind := hseg
    rw [hbehind] at hy
    exact (h.behind_old y hy).1 c (List.mem_cons_of_mem x hc)
  · rw [List.concat_eq_append] at h hseg ⊢
    rw [List.reverse_concat] at hseg
    have hlast : t.prev x.id = some last := hseg.start_cons
    have hids := h.ids
    rw [List.append_assoc, List.singleton_append] at hids
    refine ⟨?_, ?_⟩
    · intro c hc
      rw [List.getLast?_concat, Option.mem_some_iff] at hc
      rw [hlast, hc]
    · intro y hy c hc
      obtain rfl := Option.some.inj (hlast.symm.trans hy)
      rw [List.dropLast_concat] at hc
      exact id_ne_of_nodup hids c (mem_of_mem_remove hc)

section Holds

variable [DecidableEq K]

/-- The set holds the entries of the list, by their keys. -/
structure Holds (entries : Table K (TimedEntry K V)) (L : List (TimedEntry K V)) : Prop where
  mem : ∀ entry, entry ∈ L ↔ ∃ k, entries.lookup k = some entry
  keyed : ∀ k entry, entries.lookup k = some entry → entry.key = k

theorem Holds.mem_iff (h : Holds entries L) : a ∈ L ↔ entries.lookup a.key = some a := by
  rw [h.mem]
  constructor
  · rintro ⟨k, hk⟩
    rw [h.keyed k a hk]
    exact hk
  · exact fun ha => ⟨a.key, ha⟩

theorem Holds.lookup_iff (h : Holds entries L) {k : K} :
    entries.lookup k = some a ↔ a ∈ L ∧ a.key = k := by
  constructor
  · exact fun ha => ⟨(h.mem a).mpr ⟨k, ha⟩, h.keyed k a ha⟩
  · rintro ⟨ha, rfl⟩
    exact h.mem_iff.mp ha

theorem Holds.eq_of_key (h : Holds entries L) (ha : a ∈ L) (hx : x ∈ L) (hkey : a.key = x.key) :
    a = x := by
  have hla := h.mem_iff.mp ha
  rw [hkey, h.mem_iff.mp hx] at hla
  exact (Option.some.inj hla).symm

theorem Holds.erase (h : Holds entries (A ++ x :: B))
    (hids : ((A ++ x :: B).map TimedEntry.id).Nodup) : Holds (entries.erase x.key) (A ++ B) where
  mem := fun entry => by
    have hx : x ∈ A ++ x :: B := List.mem_append_right _ List.mem_cons_self
    have hrest : entry ∈ A ++ B ↔ entry ∈ A ++ x :: B ∧ entry.key ≠ x.key := by
      constructor
      · intro hentry
        have hmem : entry ∈ A ++ x :: B := by
          rcases List.mem_append.mp hentry with h | h
          · exact List.mem_append_left _ h
          · exact List.mem_append_right _ (List.mem_cons_of_mem x h)
        refine ⟨hmem, fun hkey => id_ne_of_nodup hids entry hentry ?_⟩
        rw [h.eq_of_key hmem hx hkey]
      · rintro ⟨hmem, hkey⟩
        rcases List.mem_append.mp hmem with h | h
        · exact List.mem_append_left _ h
        · rcases List.mem_cons.mp h with rfl | h
          · exact absurd rfl hkey
          · exact List.mem_append_right _ h
    rw [hrest, h.mem]
    constructor
    · rintro ⟨⟨k, hk⟩, hkey⟩
      refine ⟨k, ?_⟩
      rw [Table.lookup_erase_eq, if_neg (h.keyed k entry hk ▸ hkey)]
      exact hk
    · rintro ⟨k, hk⟩
      rw [Table.lookup_erase_eq] at hk
      split_ifs at hk with hkx
      exact ⟨⟨k, hk⟩, fun hkey => hkx ((h.keyed k entry hk).symm.trans hkey)⟩
  keyed := fun k entry hk => by
    rw [Table.lookup_erase_eq] at hk
    split_ifs at hk
    exact h.keyed k entry hk

theorem Holds.insert (h : Holds entries L) (hkey : node.key ∉ entries)
    {L' : List (TimedEntry K V)} (hL' : ∀ entry, entry ∈ L' ↔ entry = node ∨ entry ∈ L) :
    Holds (entries.insert node.key node) L' where
  mem := fun entry => by
    rw [hL', h.mem]
    constructor
    · rintro (rfl | ⟨k, hk⟩)
      · exact ⟨entry.key, AList.lookup_insert entries⟩
      · refine ⟨k, ?_⟩
        have hne : k ≠ node.key := fun heq => hkey (heq ▸ Table.mem_iff.mpr ⟨entry, hk⟩)
        rw [Table.lookup_insert_eq, if_neg hne]
        exact hk
    · rintro ⟨k, hk⟩
      rw [Table.lookup_insert_eq] at hk
      split_ifs at hk
      · exact Or.inl (Option.some.inj hk).symm
      · exact Or.inr ⟨k, hk⟩
  keyed := fun k entry hk => by
    rw [Table.lookup_insert_eq] at hk
    split_ifs at hk with hkn
    · rw [← Option.some.inj hk, hkn]
    · exact h.keyed k entry hk

end Holds

/-! ### Expiring -/

section Expire

variable [DecidableEq K]

theorem expireHead_fields (t : TimedMap K V) (a : TimedEntry K V) :
    (t.expireHead a).head = t.next a.id ∧
      (t.expireHead a).tail = (if (t.next a.id).isNone then none else t.tail) ∧
      (t.expireHead a).next = t.next ∧
      (t.expireHead a).prev = Function.update t.prev a.id none ∧
      (t.expireHead a).entries = t.entries.erase a.key ∧
      (t.expireHead a).created = t.created ∧ (t.expireHead a).timeout = t.timeout := by
  cases h : (t.next a.id).isNone <;> simp [expireHead, setPrev, h]

/-- The first entry expires, and stays behind the next one. -/
theorem Linked.expireHead (h : Linked t (a :: L) behind) :
    Linked (t.expireHead a) L (if L = [] then none else some a) ∧
      (L = [] → (t.expireHead a).tail = none) := by
  obtain ⟨hhead, htail, hnext, hprev, _, hcreated, _⟩ := expireHead_fields t a
  have hids : ∀ entry ∈ L, entry.id ≠ a.id := id_ne_of_nodup (A := []) h.ids
  have hsame : ∀ entry ∈ L.reverse, (t.expireHead a).prev entry.id = t.prev entry.id := by
    intro entry hentry
    rw [hprev, Function.update_of_ne (hids entry (List.mem_reverse.mp hentry))]
  have hback := h.prev
  rw [List.reverse_cons] at hback
  have hfirst : t.next a.id = L.head? := h.next.2.start
  cases L with
  | nil =>
      have hnone : (t.expireHead a).tail = none := by
        rw [htail, hfirst]
        rfl
      refine ⟨⟨?_, hnone, List.nodup_nil, by simp, by simp⟩, fun _ => hnone⟩
      exact hhead.trans hfirst
  | cons b L =>
      refine ⟨⟨?_, ?_, h.ids.of_cons, ?_, ?_⟩, fun hnil => by cases hnil⟩
      · rw [hhead, hnext]
        exact h.next.2
      · rw [htail, hfirst, if_neg (by simp), if_neg (by simp)]
        exact hback.split.1.congr hsame
      · intro entry hentry
        rw [hcreated]
        exact h.made entry (List.mem_cons_of_mem a hentry)
      · intro old hold
        rw [if_neg (by simp)] at hold
        obtain rfl := Option.some.inj hold
        refine ⟨hids, ?_, ?_⟩
        · rw [hcreated]
          exact h.made a List.mem_cons_self
        · rw [hprev, Function.update_self]

/-- Who is behind the rest when the entries before it expire. -/
def behindAfter (expired rest : List (TimedEntry K V)) (behind : Option (TimedEntry K V)) :
    Option (TimedEntry K V) :=
  if rest = [] then none else expired.getLast?.or behind

/-- The entries expire up to the first one that does not. -/
theorem expireLoop_spec {fuel : ℕ} (h : Linked t (A ++ B) behind) (hset : Holds t.entries (A ++ B))
    (hempty : A ++ B = [] → behind = none) (hA : ∀ entry ∈ A, entry.expiresAt ≤ now)
    (hB : ∀ entry ∈ B, now < entry.expiresAt) (hfuel : A.length ≤ fuel) :
    ∃ t', expireLoop now (fuel + 1) t = some t' ∧ Linked t' B (behindAfter A B behind) ∧
      Holds t'.entries B ∧ t'.created = t.created ∧ t'.timeout = t.timeout := by
  induction A generalizing t behind fuel with
  | nil =>
      have hbehind : behindAfter [] B behind = behind := by
        by_cases hnil : B = []
        · rw [behindAfter, if_pos hnil, hempty hnil]
        · rw [behindAfter, if_neg hnil]
          rfl
      refine ⟨t, ?_, hbehind.symm ▸ h, hset, rfl, rfl⟩
      rw [expireLoop, h.head_eq]
      cases B with
      | nil => rfl
      | cons b B => exact if_neg (not_le.mpr (hB b List.mem_cons_self))
  | cons a A ih =>
      obtain ⟨fuel, rfl⟩ : ∃ n, fuel = n + 1 :=
        ⟨fuel - 1, by rw [List.length_cons] at hfuel; omega⟩
      obtain ⟨hlinked, htail⟩ := h.expireHead
      obtain ⟨_, _, _, _, hentries, hcreated, htimeout⟩ := expireHead_fields t a
      have hrest : Holds (t.expireHead a).entries (A ++ B) := by
        rw [hentries]
        exact Holds.erase (A := []) hset h.ids
      obtain ⟨t', hrun, hlinked', hset', hcreated', htimeout'⟩ := ih hlinked hrest
        (fun hnil => if_pos hnil) (fun entry hentry => hA entry (List.mem_cons_of_mem a hentry))
        (Nat.le_of_succ_le_succ hfuel)
      refine ⟨t', ?_, ?_, hset', hcreated'.trans hcreated, htimeout'.trans htimeout⟩
      · rw [expireLoop, h.head_eq]
        simp only [List.cons_append, List.head?_cons]
        rw [if_pos (hA a List.mem_cons_self), hrun]
      · have hbehind : behindAfter A B (if A ++ B = [] then none else some a) =
            behindAfter (a :: A) B behind := by
          by_cases hnil : B = []
          · rw [behindAfter, behindAfter, if_pos hnil, if_pos hnil]
          · rw [behindAfter, behindAfter, if_neg hnil, if_neg hnil, if_neg (by simp [hnil]),
              List.getLast?_cons]
            cases A.getLast? <;> rfl
        exact hbehind ▸ hlinked'

end Expire

/-! ### Taking an entry out -/

section Unlink

variable [DecidableEq K]

theorem unlink_fields (t : TimedMap K V) (hnext : ∀ b, t.next x.id = some b → b.id ≠ x.id) :
    (t.unlink x).head = (if sameKey t.head (some x) then t.next x.id else t.head) ∧
      (t.unlink x).tail = (if sameKey t.tail (some x) then t.prev x.id else t.tail) ∧
      (t.unlink x).prev = (match t.next x.id with
        | none => t.prev
        | some b => Function.update t.prev b.id (t.prev x.id)) ∧
      (t.unlink x).next = (match t.prev x.id with
        | none => t.next
        | some y => Function.update t.next y.id (t.next x.id)) ∧
      (t.unlink x).entries = t.entries ∧ (t.unlink x).created = t.created ∧
      (t.unlink x).timeout = t.timeout := by
  cases hn : t.next x.id with
  | none =>
      cases hp : t.prev x.id with
      | none =>
          cases hh : sameKey t.head (some x) <;> cases ht : sameKey t.tail (some x) <;>
            simp [unlink, hn, hp, hh, ht]
      | some y =>
          cases hh : sameKey t.head (some x) <;> cases ht : sameKey t.tail (some x) <;>
            simp [unlink, setNext, hn, hp, hh, ht]
  | some b =>
      have hne := hnext b hn
      cases hp : t.prev x.id with
      | none =>
          cases hh : sameKey t.head (some x) <;> cases ht : sameKey t.tail (some x) <;>
            simp [unlink, setPrev, hn, hp, hh, ht, Function.update_of_ne hne.symm]
      | some y =>
          cases hh : sameKey t.head (some x) <;> cases ht : sameKey t.tail (some x) <;>
            simp [unlink, setNext, setPrev, hn, hp, hh, ht, Function.update_of_ne hne.symm]

theorem sameKey_head (h : t.head = (A ++ x :: B).head?) (hkeys : ∀ c ∈ A, c.key ≠ x.key) :
    sameKey t.head (some x) = decide (A = []) := by
  cases A with
  | nil => rw [h]; simp [sameKey]
  | cons c A => rw [h]; simp [sameKey, hkeys c List.mem_cons_self]

theorem sameKey_tail (h : t.tail = (A ++ x :: B).getLast?) (hkeys : ∀ c ∈ B, c.key ≠ x.key) :
    sameKey t.tail (some x) = decide (B = []) := by
  rcases List.eq_nil_or_concat B with rfl | ⟨l, last, rfl⟩
  · rw [h]; simp [sameKey]
  · rw [List.concat_eq_append] at h hkeys
    rw [h, List.concat_eq_append, ← List.cons_append, ← List.append_assoc, List.getLast?_concat]
    simp [sameKey, hkeys last (by simp)]

/-- The entry before `x` is linked to the one after it; the other next links stay. -/
theorem Linked.next_unlink (h : Linked t (A ++ x :: B) behind) :
    (∀ b ∈ A.getLast?, (t.unlink x).next b.id = t.next x.id) ∧
      ∀ b ∈ A.dropLast ++ B, (t.unlink x).next b.id = t.next b.id := by
  obtain ⟨_, _, _, hnext, _⟩ := unlink_fields t h.next_id_ne
  obtain ⟨hlast, hother⟩ := h.prev_eq
  constructor
  · intro b hb
    rw [hnext, hlast b hb]
    exact Function.update_self _ _ _
  · intro b hb
    rw [hnext]
    cases hp : t.prev x.id with
    | none => rfl
    | some y => exact Function.update_of_ne (hother y hp b hb) _ _

/-- The entry after `x` is linked back to the one before it; the other back links stay. -/
theorem Linked.prev_unlink (h : Linked t (A ++ x :: B) behind) :
    (∀ b, B.head? = some b → (t.unlink x).prev b.id = t.prev x.id) ∧
      ∀ id, (∀ b, B.head? = some b → id ≠ b.id) → (t.unlink x).prev id = t.prev id := by
  obtain ⟨_, _, hprev, _⟩ := unlink_fields t h.next_id_ne
  rw [h.next_eq] at hprev
  constructor
  · intro b hb
    rw [hprev, hb]
    exact Function.update_self _ _ _
  · intro id hid
    rw [hprev]
    cases hb : B.head? with
    | none => rfl
    | some b => exact Function.update_of_ne (hid b hb) _ _

theorem Linked.unlink (h : Linked t (A ++ x :: B) behind)
    (hkeys : ∀ c ∈ A ++ B, c.key ≠ x.key) : Linked (t.unlink x) (A ++ B) behind := by
  obtain ⟨hhead, htail, _, _, _, hcreated, _⟩ := unlink_fields t h.next_id_ne
  obtain ⟨hnextlast, hnextsame⟩ := h.next_unlink
  obtain ⟨hprevhead, hprevne⟩ := h.prev_unlink
  have hprevlast : ∀ b ∈ B.reverse.getLast?, (t.unlink x).prev b.id = t.prev x.id := by
    intro b hb
    rw [List.getLast?_reverse, Option.mem_def] at hb
    exact hprevhead b hb
  have hprevsame : ∀ c ∈ B.reverse.dropLast ++ A.reverse,
      (t.unlink x).prev c.id = t.prev c.id := by
    intro c hc
    refine hprevne c.id (fun b hb => ?_)
    obtain ⟨B', rfl⟩ : ∃ B', B = b :: B' := by
      cases B with
      | nil => cases hb
      | cons b' B' => exact ⟨B', by rw [Option.some.inj hb]⟩
    have hids := h.ids
    rw [List.append_cons] at hids
    rw [List.reverse_cons, List.dropLast_concat, ← List.reverse_append, List.mem_reverse] at hc
    refine id_ne_of_nodup hids c ?_
    rcases List.mem_append.mp hc with hc | hc
    · exact List.mem_append_left _ (List.mem_append_left _ hc)
    · exact List.mem_append_right _ hc
  have hforward : Seg (fun entry => (t.unlink x).next entry.id)
      (if A = [] then t.next x.id else t.head) (A ++ B) none := h.next.unlink hnextlast hnextsame
  have hbackward : Seg (fun entry => (t.unlink x).prev entry.id)
      (if B.reverse = [] then t.prev x.id else t.tail) (B.reverse ++ A.reverse) behind :=
    h.prev_seg.unlink hprevlast hprevsame
  refine ⟨?_, ?_, nodup_remove h.ids, ?_, ?_⟩
  · rw [hhead, sameKey_head h.head_eq (fun c hc => hkeys c (List.mem_append_left _ hc))]
    simpa using hforward
  · rw [htail, sameKey_tail (h.tail_eq (by simp)) (fun c hc => hkeys c (List.mem_append_right _ hc)),
      List.reverse_append]
    simpa using hbackward
  · intro entry hentry
    rw [hcreated]
    exact h.made entry (mem_of_mem_remove hentry)
  · intro old hold
    obtain ⟨hne, hmade, hnone⟩ := h.behind_old old hold
    refine ⟨fun entry hentry => hne entry (mem_of_mem_remove hentry), hcreated ▸ hmade, ?_⟩
    rw [hprevne old.id (fun b hb => ?_), hnone]
    exact (hne b (List.mem_append_right _ (List.mem_cons_of_mem x (List.mem_of_head? hb)))).symm

end Unlink

/-! ### A new node -/

section Insert

/-- A node that is not linked yet. -/
structure Fresh (t : TimedMap K V) (L : List (TimedEntry K V)) (behind : Option (TimedEntry K V))
    (node : TimedEntry K V) : Prop where
  notMem : ∀ entry ∈ L, entry.id ≠ node.id
  made : node.id < t.created
  next : t.next node.id = none
  prev : t.prev node.id = none
  behind : ∀ old, behind = some old → old.id ≠ node.id
  room : L.length < t.created

theorem Linked.newNode (h : Linked t L behind) (k : K) (v : V) (addedAt expiresAt : ℤ) :
    Linked (t.newNode k v addedAt expiresAt).1 L behind ∧
      Fresh (t.newNode k v addedAt expiresAt).1 L behind
        (t.newNode k v addedAt expiresAt).2 := by
  have hne : ∀ entry ∈ L, entry.id ≠ t.created := fun entry hentry => (h.made entry hentry).ne
  refine ⟨⟨?_, ?_, h.ids, ?_, ?_⟩, hne, Nat.lt_succ_self _, Function.update_self _ _ _,
    Function.update_self _ _ _, fun old hold => (h.behind_old old hold).2.1.ne,
    Nat.lt_succ_of_le h.length_le⟩
  · exact h.next.congr (fun entry hentry => Function.update_of_ne (hne entry hentry) _ _)
  · exact h.prev.congr (fun entry hentry =>
      Function.update_of_ne (hne entry (List.mem_reverse.mp hentry)) _ _)
  · exact fun entry hentry => Nat.lt_succ_of_lt (h.made entry hentry)
  · intro old hold
    obtain ⟨hold, hmade, hnone⟩ := h.behind_old old hold
    exact ⟨hold, Nat.lt_succ_of_lt hmade, (Function.update_of_ne hmade.ne _ _).trans hnone⟩

/-- Entries that expire after the node are passed over. -/
theorem search_walk {s q : Option (TimedEntry K V)}
    (h : Seg (fun entry => t.prev entry.id) s L q)
    (hL : ∀ entry ∈ L, node.expiresAt < entry.expiresAt) (fuel : ℕ) :
    t.search node (fuel + L.length) s = t.search node fuel q := by
  induction L generalizing s with
  | nil => rw [show s = q from h, List.length_nil, Nat.add_zero]
  | cons cur L ih =>
      rw [h.start_cons, List.length_cons, ← Nat.add_assoc, search,
        if_pos (hL cur List.mem_cons_self)]
      exact ih h.2 (fun entry hentry => hL entry (List.mem_cons_of_mem cur hentry))

/-- The search ends. -/
theorem search_isSome {s q : Option (TimedEntry K V)} (h : Seg (fun entry => t.prev entry.id) s L q)
    (hq : ∀ old, q = some old → t.prev old.id = none) (fuel : ℕ) :
    ∃ cur, t.search node (fuel + 2 + L.length) s = some cur := by
  induction L generalizing s with
  | nil =>
      obtain rfl : s = q := h
      cases s with
      | none => exact ⟨none, rfl⟩
      | some old =>
          rw [List.length_nil, Nat.add_zero, search, hq old rfl]
          split_ifs
          · exact ⟨none, rfl⟩
          · exact ⟨some old, rfl⟩
  | cons cur L ih =>
      rw [h.start_cons, List.length_cons, ← Nat.add_assoc, search]
      split_ifs
      · exact ih h.2
      · exact ⟨some cur, rfl⟩

variable [DecidableEq K]

theorem Linked.insert_nil (h : Linked t [] behind) (hnode : Fresh t [] behind node) :
    ∃ t', t.insertNode node = some t' ∧ Linked t' [node] none := by
  refine ⟨{ t with tail := some node, head := some node }, ?_, ?_⟩
  · rw [insertNode, h.head_eq]
    rfl
  · refine ⟨⟨rfl, hnode.next⟩, ⟨rfl, hnode.prev⟩, by simp, ?_, by simp⟩
    intro entry hentry
    rw [List.mem_singleton.mp hentry]
    exact hnode.made

/-- The map with the node after the last entry. -/
def withLast (t : TimedMap K V) (last node : TimedEntry K V) : TimedMap K V :=
  { t with
    tail := some node
    next := Function.update (Function.update t.next node.id (t.next last.id)) last.id (some node)
    prev := Function.update t.prev node.id (some last) }

/-- The map with the node before the first entry. -/
def withFirst (t : TimedMap K V) (first node : TimedEntry K V) : TimedMap K V :=
  { t with
    head := some node
    next := Function.update t.next node.id (some first)
    prev := Function.update t.prev first.id (some node) }

theorem Linked.insert_last {last : TimedEntry K V} (h : Linked t (A ++ [last]) behind)
    (hnode : Fresh t (A ++ [last]) behind node) (hlast : last.expiresAt ≤ node.expiresAt) :
    ∃ t', t.insertNode node = some t' ∧ Linked t' (A ++ [last] ++ [node]) behind := by
  have htail : t.tail = some last := by rw [h.tail_eq (by simp), List.getLast?_concat]
  have hlastne : last.id ≠ node.id := hnode.notMem last (by simp)
  have hend : t.next last.id = none := h.next.split.2
  have hsearch : t.search node (t.created + 1) (some last) = some (some last) := by
    rw [search, if_neg (not_lt.mpr hlast)]
  obtain ⟨head, hhead⟩ : ∃ head, t.head = some head := by
    rw [h.head_eq]
    cases A <;> exact ⟨_, rfl⟩
  have hbefore : ∀ c ∈ A, c.id ≠ last.id := by
    intro c hc
    have hids := h.ids
    exact id_ne_of_nodup hids c (by simpa using hc)
  refine ⟨t.withLast last node, ?_, ?_, ?_, ?_, ?_, ?_⟩
  · rw [insertNode, hhead, htail]
    simp only [hsearch]
    simp [withLast, setNext, setPrev, sameKey, htail]
  · refine h.next.snoc (Function.update_self _ _ _) ?_ ?_
    · exact (Function.update_of_ne hlastne.symm _ _).trans
        ((Function.update_self _ _ _).trans hend)
    · intro c hc
      exact (Function.update_of_ne (hbefore c hc) _ _).trans
        (Function.update_of_ne (hnode.notMem c (List.mem_append_left _ hc)) _ _)
  · rw [List.reverse_concat]
    refine h.prev.push ?_ ?_
    · show (t.withLast last node).prev node.id = t.tail
      rw [htail]
      exact Function.update_self _ _ _
    · exact fun c hc => Function.update_of_ne (hnode.notMem c (List.mem_reverse.mp hc)) _ _
  · rw [List.map_append, List.nodup_append]
    refine ⟨h.ids, List.nodup_singleton _, ?_⟩
    intro id hid id' hid'
    obtain ⟨entry, hentry, rfl⟩ := List.mem_map.mp hid
    rw [List.mem_singleton.mp hid']
    exact hnode.notMem entry hentry
  · exact List.forall_mem_append.mpr ⟨h.made, List.forall_mem_singleton.mpr hnode.made⟩
  · intro old hold
    obtain ⟨hne, hmade, hnone⟩ := h.behind_old old hold
    refine ⟨?_, hmade, (Function.update_of_ne (hnode.behind old hold) _ _).trans hnone⟩
    have hnodene : node.id ≠ old.id := (hnode.behind old hold).symm
    exact List.forall_mem_append.mpr ⟨hne, List.forall_mem_singleton.mpr hnodene⟩

theorem Linked.insert_first {first : TimedEntry K V} (h : Linked t (first :: B) behind)
    (hnode : Fresh t (first :: B) behind node)
    (hlater : ∀ entry ∈ first :: B, node.expiresAt < entry.expiresAt)
    (hbehind : ∀ old, behind = some old → node.expiresAt < old.expiresAt) :
    ∃ t', t.insertNode node = some t' ∧ Linked t' (node :: first :: B) none := by
  have hfirstne : first.id ≠ node.id := hnode.notMem first List.mem_cons_self
  have hsearch : t.search node (t.created + 1) t.tail = some none := by
    obtain ⟨fuel, hfuel⟩ : ∃ fuel, t.created + 1 = fuel + 2 + (first :: B).reverse.length :=
      ⟨t.created - 1 - (first :: B).length, by
        have := hnode.room
        rw [List.length_reverse]
        omega⟩
    rw [hfuel, search_walk h.prev (fun entry hentry => hlater entry (List.mem_reverse.mp hentry))]
    cases hold : behind with
    | none => rfl
    | some old =>
        rw [search, if_pos (hbehind old hold), (h.behind_old old hold).2.2]
        rfl
  refine ⟨t.withFirst first node, ?_, ?_, ?_, ?_, ?_, by simp⟩
  · rw [insertNode, h.head_eq]
    simp only [List.head?_cons, hsearch]
    rfl
  · refine h.next.push ?_ ?_
    · show (t.withFirst first node).next node.id = t.head
      rw [h.head_eq]
      exact Function.update_self _ _ _
    · exact fun c hc => Function.update_of_ne (hnode.notMem c hc) _ _
  · have hback := h.prev
    rw [List.reverse_cons] at hback
    rw [List.reverse_cons, List.reverse_cons]
    refine hback.snoc (Function.update_self _ _ _) ?_ ?_
    · exact (Function.update_of_ne hfirstne.symm _ _).trans hnode.prev
    · intro c hc
      exact Function.update_of_ne (id_ne_of_nodup (A := []) h.ids c (List.mem_reverse.mp hc)) _ _
  · rw [List.map_cons, List.nodup_cons]
    refine ⟨?_, h.ids⟩
    intro hid
    obtain ⟨entry, hentry, heq⟩ := List.mem_map.mp hid
    exact hnode.notMem entry hentry heq
  · intro entry hentry
    rcases List.mem_cons.mp hentry with rfl | hentry
    · exact hnode.made
    · exact h.made entry hentry

/-- A node is always linked in, somewhere. -/
theorem Linked.insertNode_isSome (h : Linked t L behind) (hnode : Fresh t L behind node) :
    ∃ t', t.insertNode node = some t' := by
  obtain ⟨fuel, hfuel⟩ : ∃ fuel, t.created + 1 = fuel + 2 + L.reverse.length :=
    ⟨t.created - 1 - L.length, by
      have := hnode.room
      rw [List.length_reverse]
      omega⟩
  obtain ⟨cur, hsearch⟩ : ∃ cur, t.search node (t.created + 1) t.tail = some cur := by
    rw [hfuel]
    exact search_isSome h.prev (fun old hold => (h.behind_old old hold).2.2) fuel
  cases hhead : t.head with
  | none => exact ⟨_, by rw [insertNode, hhead]⟩
  | some head =>
      cases cur with
      | none => exact ⟨_, by rw [insertNode, hhead]; simp only [hsearch]; rfl⟩
      | some cur => exact ⟨_, by rw [insertNode, hhead]; simp only [hsearch]; rfl⟩

theorem insertNode_fields {t' : TimedMap K V} (h : t.insertNode node = some t') :
    t'.entries = t.entries ∧ t'.created = t.created ∧ t'.timeout = t.timeout := by
  unfold insertNode at h
  cases hhead : t.head with
  | none =>
      rw [hhead] at h
      cases h
      exact ⟨rfl, rfl, rfl⟩
  | some head =>
      rw [hhead] at h
      simp only at h
      cases hsearch : t.search node (t.created + 1) t.tail with
      | none => simp [hsearch] at h
      | some cur =>
          cases cur with
          | none =>
              simp only [hsearch, Option.some.injEq] at h
              subst h
              exact ⟨rfl, rfl, rfl⟩
          | some cur =>
              simp only [hsearch, Option.some.injEq] at h
              subst h
              split_ifs <;> exact ⟨rfl, rfl, rfl⟩

end Insert

end LogosDelivery.Common.TimedMap
