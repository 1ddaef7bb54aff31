import LogosDelivery.Common.TimedMapLinks
import LogosDelivery.Lib.Runs

/-! # The timed map over whole runs

The links of `mgetOrPut` are right as long as every new entry comes after all the others, or before
all of them with none behind that expired earlier (`StepOk`).  Then the list and the set stay in step,
and the map contains the keys that were put and neither removed nor expired (`timedMap_runs`).  An
entry between two others is lost when the later one is removed (`entryBetween_lost`). -/

namespace LogosDelivery.Common.TimedMap

open Lib

variable {K V : Type} {t : TimedMap K V} {L : List (TimedEntry K V)}
  {behind : Option (TimedEntry K V)} {k : K} {v : V} {now : ℤ} {entry : TimedEntry K V}

/-! ### The last put of a key -/

/-- The call leaves a key in the map that would expire at `expiresAt`. -/
def Keeps (k : K) (expiresAt : ℤ) : Op K V → Prop
  | .mgetOrPut k' _ now => k' ≠ k ∧ now < expiresAt
  | .remove k' => k' ≠ k
  | .expire now => now < expiresAt

/-- The last put of the key gave it this expiry, and no call since then removed it or was late
enough to expire it. -/
def LiveUntil (timeout : ℤ) (ops : List (Op K V)) (k : K) (expiresAt : ℤ) : Prop :=
  ∃ pre v now post, ops = pre ++ .mgetOrPut k v now :: post ∧ expiresAt = now + timeout ∧
    ∀ op ∈ post, Keeps k expiresAt op

/-- The key was put, and neither removed nor expired. -/
def Live (timeout : ℤ) (ops : List (Op K V)) (k : K) : Prop :=
  ∃ expiresAt, LiveUntil timeout ops k expiresAt

theorem liveUntil_concat {timeout : ℤ} {ops : List (Op K V)} {op : Op K V} {x : ℤ} :
    LiveUntil timeout (ops ++ [op]) k x ↔
      (∃ v now, op = .mgetOrPut k v now ∧ x = now + timeout) ∨
        LiveUntil timeout ops k x ∧ Keeps k x op := by
  constructor
  · rintro ⟨pre, v, now, post, hops, hx, hpost⟩
    rcases List.eq_nil_or_concat post with rfl | ⟨post, last, rfl⟩
    · exact Or.inl ⟨v, now, (List.append_inj' hops rfl).2 |> List.singleton_inj.mp, hx⟩
    · rw [List.concat_eq_append, ← List.cons_append, ← List.append_assoc] at hops
      obtain ⟨rfl, hlast⟩ := List.append_inj' hops rfl
      rw [List.singleton_inj.mp hlast]
      exact Or.inr ⟨⟨pre, v, now, post, rfl, hx, fun op hop => hpost op (by simp [hop])⟩,
        hpost last (by simp)⟩
  · rintro (⟨v, now, rfl, hx⟩ | ⟨⟨pre, v, now, post, rfl, hx, hpost⟩, hop⟩)
    · exact ⟨ops, v, now, [], rfl, hx, by simp⟩
    · refine ⟨pre, v, now, post ++ [op], by simp, hx, fun op' hop' => ?_⟩
      rcases List.mem_append.mp hop' with hop' | hop'
      · exact hpost op' hop'
      · rw [List.mem_singleton.mp hop']
        exact hop

/-! ### One call -/

def unexpired (now : ℤ) (L : List (TimedEntry K V)) : List (TimedEntry K V) :=
  L.filter (fun entry => now < entry.expiresAt)

def expired (now : ℤ) (L : List (TimedEntry K V)) : List (TimedEntry K V) :=
  L.filter (fun entry => entry.expiresAt ≤ now)

theorem mem_unexpired : entry ∈ unexpired now L ↔ entry ∈ L ∧ now < entry.expiresAt := by
  rw [unexpired, List.mem_filter, decide_eq_true_eq]

theorem mem_expired : entry ∈ expired now L ↔ entry ∈ L ∧ entry.expiresAt ≤ now := by
  rw [expired, List.mem_filter, decide_eq_true_eq]

/-- In the order of the expiry those that expire are the first ones. -/
theorem expired_append_unexpired (h : L.Pairwise (fun a b => a.expiresAt ≤ b.expiresAt))
    (now : ℤ) : expired now L ++ unexpired now L = L := by
  induction L with
  | nil => rfl
  | cons a L ih =>
      obtain ⟨ha, hL⟩ := List.pairwise_cons.mp h
      by_cases hnow : a.expiresAt ≤ now
      · rw [expired, unexpired, List.filter_cons_of_pos (by simpa using hnow),
          List.filter_cons_of_neg (by simpa using hnow), List.cons_append]
        exact congrArg (List.cons a) (ih hL)
      · have hall : ∀ entry ∈ a :: L, now < entry.expiresAt := by
          intro entry hentry
          rcases List.mem_cons.mp hentry with rfl | hentry
          · exact not_le.mp hnow
          · exact (not_le.mp hnow).trans_le (ha entry hentry)
        have hnone : expired now (a :: L) = [] :=
          List.filter_eq_nil_iff.mpr (fun entry hentry => by simpa using hall entry hentry)
        have hkept : unexpired now (a :: L) = a :: L :=
          List.filter_eq_self.mpr (fun entry hentry => by simpa using hall entry hentry)
        rw [hnone, hkept, List.nil_append]

/-- The entry that a put makes. -/
def putEntry (k : K) (v : V) (now : ℤ) (timeout : ℤ) (id : ℕ)
    (previous : Option (TimedEntry K V)) : TimedEntry K V :=
  match previous with
  | some item => ⟨id, k, item.value, item.addedAt, now + timeout⟩
  | none => ⟨id, k, v, now, now + timeout⟩

theorem putEntry_key (k : K) (v : V) (now timeout : ℤ) (id : ℕ)
    (previous : Option (TimedEntry K V)) : (putEntry k v now timeout id previous).key = k := by
  cases previous <;> rfl

theorem putEntry_expiresAt (k : K) (v : V) (now timeout : ℤ) (id : ℕ)
    (previous : Option (TimedEntry K V)) :
    (putEntry k v now timeout id previous).expiresAt = now + timeout := by
  cases previous <;> rfl

variable [DecidableEq K]

/-- The list in the order of the expiry, with the set. -/
structure Ordered (t : TimedMap K V) (L : List (TimedEntry K V))
    (behind : Option (TimedEntry K V)) : Prop where
  linked : Linked t L behind
  holds : Holds t.entries L
  sorted : L.Pairwise (fun a b => a.expiresAt ≤ b.expiresAt)
  empty : L = [] → behind = none

def others (k : K) (L : List (TimedEntry K V)) : List (TimedEntry K V) :=
  L.filter (fun entry => entry.key ≠ k)

theorem mem_others : entry ∈ others k L ↔ entry ∈ L ∧ entry.key ≠ k := by
  rw [others, List.mem_filter, decide_eq_true_eq]

theorem Ordered.expire (h : Ordered t L behind) (now : ℤ) :
    ∃ t', t.expire now = some t' ∧
      Ordered t' (unexpired now L) (behindAfter (expired now L) (unexpired now L) behind) ∧
      t'.timeout = t.timeout := by
  have hsplit := expired_append_unexpired h.sorted now
  have hlinked : Linked t (expired now L ++ unexpired now L) behind := hsplit.symm ▸ h.linked
  have hholds : Holds t.entries (expired now L ++ unexpired now L) := hsplit.symm ▸ h.holds
  have hfuel : (expired now L).length ≤ t.created :=
    (List.length_filter_le _ _).trans h.linked.length_le
  obtain ⟨t', hrun, hlinked', hholds', _, htimeout⟩ := expireLoop_spec hlinked hholds
    (fun hnil => h.empty (hsplit ▸ hnil)) (fun entry hentry => (mem_expired.mp hentry).2)
    (fun entry hentry => (mem_unexpired.mp hentry).2) hfuel
  exact ⟨t', hrun, ⟨hlinked', hholds', h.sorted.filter _, fun hnil => if_pos hnil⟩, htimeout⟩

/-- Deleting a key; the last entry may leave the tail on one that expired. -/
theorem Ordered.del (h : Ordered t L behind) (k : K) :
    (t.del k).2 = t.entries.lookup k ∧ Linked (t.del k).1 (others k L) behind ∧
      Holds (t.del k).1.entries (others k L) ∧ (t.del k).1.timeout = t.timeout := by
  cases hlookup : t.entries.lookup k with
  | none =>
      have hall : others k L = L := by
        refine List.filter_eq_self.mpr (fun entry hentry => decide_eq_true ?_)
        rintro rfl
        rw [h.holds.mem_iff.mp hentry] at hlookup
        cases hlookup
      simp only [TimedMap.del, hlookup, hall]
      exact ⟨trivial, h.linked, h.holds, trivial⟩
  | some item =>
      have hkey : item.key = k := h.holds.keyed k item hlookup
      have hitem : item ∈ L := (h.holds.mem item).mpr ⟨k, hlookup⟩
      obtain ⟨A, B, rfl⟩ := List.append_of_mem hitem
      have hkeys : ∀ c ∈ A ++ B, c.key ≠ item.key := by
        intro c hc heq
        have hc' := mem_of_mem_remove (x := item) hc
        exact id_ne_of_nodup h.linked.ids c hc (by rw [h.holds.eq_of_key hc' hitem heq])
      have hothers : others k (A ++ item :: B) = A ++ B := by
        rw [others, List.filter_append, List.filter_cons_of_neg (by simp [hkey]),
          ← List.filter_append]
        refine List.filter_eq_self.mpr (fun c hc => decide_eq_true ?_)
        exact hkey ▸ hkeys c hc
      have hlinked : Linked { t with entries := t.entries.erase item.key } (A ++ item :: B) behind :=
        ⟨h.linked.next, h.linked.prev, h.linked.ids, h.linked.made, h.linked.behind_old⟩
      obtain ⟨_, _, _, _, hentries, _, htimeout⟩ :=
        unlink_fields { t with entries := t.entries.erase item.key } hlinked.next_id_ne
      simp only [TimedMap.del, hlookup, hothers]
      refine ⟨trivial, hlinked.unlink hkeys, ?_, htimeout⟩
      rw [hentries]
      exact h.holds.erase h.linked.ids

theorem Ordered.lookup_expire (h : Ordered t L behind) {t' : TimedMap K V}
    {behind' : Option (TimedEntry K V)} (h' : Ordered t' (unexpired now L) behind') :
    t'.entries.lookup k = some entry ↔ t.entries.lookup k = some entry ∧ now < entry.expiresAt := by
  rw [h'.holds.lookup_iff, h.holds.lookup_iff, mem_unexpired]
  tauto

/-- What `mgetOrPut` has before it links the new node in. -/
theorem Ordered.beforeInsert (h : Ordered t L behind) (k : K) (v : V) (now : ℤ) :
    ∃ t' node previous, t.mgetOrPut k v now =
        (t'.insertNode node).map (fun t => (t.incl node, node.value)) ∧
      Linked t' (others k (unexpired now L))
        (behindAfter (expired now L) (unexpired now L) behind) ∧
      Fresh t' (others k (unexpired now L))
        (behindAfter (expired now L) (unexpired now L) behind) node ∧
      Holds t'.entries (others k (unexpired now L)) ∧ t'.timeout = t.timeout ∧
      node = putEntry k v now t.timeout node.id previous ∧
      ∀ item, previous = some item ↔
        t.entries.lookup k = some item ∧ now < item.expiresAt := by
  obtain ⟨t₁, hexpire, h₁, htimeout₁⟩ := h.expire now
  obtain ⟨hprevious, hlinked₂, hholds₂, htimeout₂⟩ := h₁.del k
  obtain ⟨t₂, hdel⟩ : ∃ t₂, t₁.del k = (t₂, t₁.entries.lookup k) :=
    ⟨(t₁.del k).1, Prod.ext rfl hprevious⟩
  rw [hdel] at hlinked₂ hholds₂ htimeout₂
  have htimeout : t₂.timeout = t.timeout := htimeout₂.trans htimeout₁
  have hitem : ∀ item, t₁.entries.lookup k = some item ↔
      t.entries.lookup k = some item ∧ now < item.expiresAt := fun item => h.lookup_expire h₁
  cases hlookup : t₁.entries.lookup k with
  | none =>
      obtain ⟨hlinked, hfresh⟩ := hlinked₂.newNode k v now (now + t₂.timeout)
      refine ⟨_, _, none, ?_, hlinked, hfresh, hholds₂, htimeout, ?_, ?_⟩
      · simp only [mgetOrPut, hexpire, hdel, hlookup]
        cases (t₂.newNode k v now (now + t₂.timeout)).1.insertNode
          (t₂.newNode k v now (now + t₂.timeout)).2 <;> rfl
      · rw [← htimeout]
        rfl
      · exact fun item => hlookup ▸ hitem item
  | some old =>
      obtain ⟨hlinked, hfresh⟩ := hlinked₂.newNode k old.value old.addedAt (now + t₂.timeout)
      refine ⟨_, _, some old, ?_, hlinked, hfresh, hholds₂, htimeout, ?_, ?_⟩
      · simp only [mgetOrPut, hexpire, hdel, hlookup]
        cases (t₂.newNode k old.value old.addedAt (now + t₂.timeout)).1.insertNode
          (t₂.newNode k old.value old.addedAt (now + t₂.timeout)).2 <;> rfl
      · rw [← htimeout]
        rfl
      · exact fun item => hlookup ▸ hitem item

/-- After a put the set has the new entry for the key, and of the others those that did not
expire. -/
theorem lookup_incl {t' : TimedMap K V} {rest : List (TimedEntry K V)} {node : TimedEntry K V}
    (hholds : Holds t'.entries (others k rest)) (hnode : node.key = k) :
    node.key ∉ t'.entries ∧ (t'.incl node).entries = t'.entries.insert node.key node := by
  have hnotMem : node.key ∉ t'.entries := by
    intro hmem
    obtain ⟨entry, hentry⟩ := Table.mem_iff.mp hmem
    obtain ⟨hmem', hkey⟩ := hholds.lookup_iff.mp hentry
    exact (mem_others.mp hmem').2 (hkey.trans hnode)
  refine ⟨hnotMem, ?_⟩
  rw [incl, if_neg hnotMem]

theorem Ordered.mgetOrPut (h : Ordered t L behind) (k : K) (v : V) (now : ℤ) :
    ∃ t' node previous, t.mgetOrPut k v now = some (t', node.value) ∧
      node = putEntry k v now t.timeout node.id previous ∧
      (∀ item, previous = some item ↔ t.entries.lookup k = some item ∧ now < item.expiresAt) ∧
      t'.timeout = t.timeout ∧
      (∀ k' entry, t'.entries.lookup k' = some entry ↔
        if k' = k then entry = node else
          t.entries.lookup k' = some entry ∧ now < entry.expiresAt) := by
  obtain ⟨t₂, node, previous, hrun, hlinked, hfresh, hholds, htimeout, hnode, hprevious⟩ :=
    h.beforeInsert k v now
  have hkey : node.key = k := by rw [hnode, putEntry_key]
  obtain ⟨t₃, hinsert⟩ := hlinked.insertNode_isSome hfresh
  obtain ⟨hentries, _, htimeout₃⟩ := insertNode_fields hinsert
  obtain ⟨hnotMem, hincl⟩ := lookup_incl (hentries ▸ hholds) hkey
  refine ⟨t₃.incl node, node, previous, by rw [hrun, hinsert]; rfl, hnode, hprevious, ?_, ?_⟩
  · rw [← htimeout, ← htimeout₃, incl, if_neg hnotMem]
  · intro k' entry
    rw [hincl, Table.lookup_insert_eq, hkey, hentries]
    by_cases hk : k' = k
    · rw [if_pos hk, if_pos hk, Option.some.injEq, eq_comm]
    · rw [if_neg hk, if_neg hk, hholds.lookup_iff, mem_others, mem_unexpired, h.holds.lookup_iff]
      constructor
      · rintro ⟨⟨⟨hmem, hnow⟩, _⟩, hkey'⟩
        exact ⟨⟨hmem, hkey'⟩, hnow⟩
      · rintro ⟨⟨hmem, hkey'⟩, hnow⟩
        exact ⟨⟨⟨hmem, hnow⟩, fun heq => hk (hkey'.symm.trans heq)⟩, hkey'⟩

/-! ### Calls that keep the links right -/

/-- The entries that `mgetOrPut` has beside the new one. -/
def Remains (t : TimedMap K V) (k : K) (now : ℤ) (entry : TimedEntry K V) : Prop :=
  ∃ k', t.entries.lookup k' = some entry ∧ k' ≠ k ∧ now < entry.expiresAt

/-- The search goes past the entry behind the first one: some entry expires in this call, or none
does and one is behind the head, and the new entry expires before it. -/
def PassesBehind (t : TimedMap K V) (now : ℤ) : Prop :=
  (∃ k' entry, t.entries.lookup k' = some entry ∧ entry.expiresAt ≤ now ∧
      now + t.timeout < entry.expiresAt) ∨
    (∀ k' entry, t.entries.lookup k' = some entry → now < entry.expiresAt) ∧
      ∀ head old, t.head = some head → t.prev head.id = some old →
        now + t.timeout < old.expiresAt

/-- The new entry comes after all the others or before all of them, and the last entry that is
removed has none behind it. -/
def StepOk (t : TimedMap K V) : Op K V → Prop
  | .mgetOrPut k _ now =>
      (∀ entry, Remains t k now entry → entry.expiresAt ≤ now + t.timeout) ∨
        (∀ entry, Remains t k now entry → now + t.timeout < entry.expiresAt) ∧ PassesBehind t now
  | .remove k =>
      (∀ k' entry, t.entries.lookup k' = some entry → k' = k) →
        ∀ entry, t.entries.lookup k = some entry → t.prev entry.id = none
  | .expire _ => True

theorem Ordered.remains_iff (h : Ordered t L behind) :
    Remains t k now entry ↔ entry ∈ others k (unexpired now L) := by
  rw [mem_others, mem_unexpired, h.holds.mem_iff]
  constructor
  · rintro ⟨k', hlookup, hk, hnow⟩
    have hkey := h.holds.keyed k' entry hlookup
    exact ⟨⟨hkey ▸ hlookup, hnow⟩, hkey ▸ hk⟩
  · rintro ⟨⟨hlookup, hnow⟩, hk⟩
    exact ⟨entry.key, hlookup, hk, hnow⟩

theorem Ordered.passesBehind (h : Ordered t L behind) (hpasses : PassesBehind t now)
    (hne : unexpired now L ≠ []) {old : TimedEntry K V}
    (hold : behindAfter (expired now L) (unexpired now L) behind = some old) :
    now + t.timeout < old.expiresAt := by
  have hsplit := expired_append_unexpired h.sorted now
  rw [behindAfter, if_neg hne] at hold
  rcases List.eq_nil_or_concat (expired now L) with hnone | ⟨l, last, hlast⟩
  · -- nothing expires, so the entry behind the head stays behind it
    have hkept : ∀ k' entry, t.entries.lookup k' = some entry → now < entry.expiresAt := by
      intro k' entry hlookup
      have hmem := (h.holds.lookup_iff.mp hlookup).1
      by_contra hnow
      have hexp := mem_expired.mpr ⟨hmem, not_lt.mp hnow⟩
      rw [hnone] at hexp
      cases hexp
    rw [hnone] at hold hsplit
    rcases hpasses with ⟨k', entry, hlookup, hle, _⟩ | ⟨_, hbehind⟩
    · exact absurd (hkept k' entry hlookup) (not_lt.mpr hle)
    · rw [List.nil_append] at hsplit
      cases L with
      | nil => exact absurd rfl hne
      | cons first L =>
          exact hbehind first old h.linked.head_eq (h.linked.prev_first.trans hold)
  · have hexp : last ∈ expired now L := by rw [hlast]; simp
    have hmax : ∀ entry ∈ expired now L, entry.expiresAt ≤ last.expiresAt := by
      have hpair := h.sorted.filter (fun entry => decide (entry.expiresAt ≤ now))
      rw [show L.filter _ = expired now L from rfl, hlast, List.concat_eq_append,
        List.pairwise_append] at hpair
      intro entry hentry
      rw [hlast, List.concat_eq_append] at hentry
      rcases List.mem_append.mp hentry with hentry | hentry
      · exact hpair.2.2 entry hentry last List.mem_cons_self
      · rw [List.mem_singleton.mp hentry]
    obtain rfl : last = old := by
      rw [hlast, List.concat_eq_append, List.getLast?_concat] at hold
      exact Option.some.inj hold
    rcases hpasses with ⟨k', entry, hlookup, hle, hlt⟩ | ⟨hkept, _⟩
    · have hmem := (h.holds.lookup_iff.mp hlookup).1
      exact hlt.trans_le (hmax entry (mem_expired.mpr ⟨hmem, hle⟩))
    · obtain ⟨hmem, hle⟩ := mem_expired.mp hexp
      exact absurd (hkept last.key last (h.holds.mem_iff.mp hmem)) (not_lt.mpr hle)

/-- A node that comes after all the entries or before all of them is linked in at that end. -/
theorem Linked.insert_end {node : TimedEntry K V} (h : Linked t L behind)
    (hnode : Fresh t L behind node) (hsorted : L.Pairwise (fun a b => a.expiresAt ≤ b.expiresAt))
    (hend : (∀ entry ∈ L, entry.expiresAt ≤ node.expiresAt) ∨
      (∀ entry ∈ L, node.expiresAt < entry.expiresAt) ∧
        (L ≠ [] → ∀ old, behind = some old → node.expiresAt < old.expiresAt)) :
    ∃ t' L' behind', t.insertNode node = some t' ∧ Linked t' L' behind' ∧
      (∀ entry, entry ∈ L' ↔ entry = node ∨ entry ∈ L) ∧
      L'.Pairwise (fun a b => a.expiresAt ≤ b.expiresAt) := by
  by_cases hnil : L = []
  · subst hnil
    obtain ⟨t', hrun, hlinked⟩ := h.insert_nil hnode
    exact ⟨t', [node], none, hrun, hlinked, by simp, List.pairwise_singleton _ _⟩
  rcases hend with hall | ⟨hall, hbehind⟩
  · rcases List.eq_nil_or_concat L with rfl | ⟨A, last, rfl⟩
    · exact absurd rfl hnil
    rw [List.concat_eq_append] at h hnode hsorted hall ⊢
    obtain ⟨t', hrun, hlinked⟩ := h.insert_last hnode (hall last (by simp))
    refine ⟨t', _, behind, hrun, hlinked, fun entry => ?_, ?_⟩
    · rw [List.mem_append, List.mem_singleton, or_comm]
    · refine List.pairwise_append.mpr ⟨hsorted, List.pairwise_singleton _ _, ?_⟩
      intro a ha b hb
      rw [List.mem_singleton.mp hb]
      exact hall a ha
  · cases L with
    | nil => exact absurd rfl hnil
    | cons first B =>
        obtain ⟨t', hrun, hlinked⟩ := h.insert_first hnode hall (hbehind hnil)
        refine ⟨t', _, none, hrun, hlinked, fun entry => List.mem_cons, ?_⟩
        exact List.pairwise_cons.mpr ⟨fun b hb => (hall b hb).le, hsorted⟩

theorem Ordered.put (h : Ordered t L behind) (hop : StepOk t (.mgetOrPut k v now)) :
    ∃ t' L' behind', t.apply (.mgetOrPut k v now) = some t' ∧ Ordered t' L' behind' ∧
      t'.timeout = t.timeout := by
  obtain ⟨t₂, node, previous, hrun, hlinked, hfresh, hholds, htimeout, hnode, _⟩ :=
    h.beforeInsert k v now
  have hkey : node.key = k := by rw [hnode, putEntry_key]
  have hexp : node.expiresAt = now + t.timeout := by rw [hnode, putEntry_expiresAt]
  have hend : (∀ entry ∈ others k (unexpired now L), entry.expiresAt ≤ node.expiresAt) ∨
      (∀ entry ∈ others k (unexpired now L), node.expiresAt < entry.expiresAt) ∧
        (others k (unexpired now L) ≠ [] → ∀ old,
          behindAfter (expired now L) (unexpired now L) behind = some old →
            node.expiresAt < old.expiresAt) := by
    rw [hexp]
    rcases hop with hlast | ⟨hfirst, hpasses⟩
    · exact Or.inl (fun entry hentry => hlast entry (h.remains_iff.mpr hentry))
    · refine Or.inr ⟨fun entry hentry => hfirst entry (h.remains_iff.mpr hentry), ?_⟩
      intro hne old hold
      refine h.passesBehind hpasses ?_ hold
      intro hnil
      rw [hnil] at hne
      exact hne rfl
  obtain ⟨t₃, L', behind', hinsert, hlinked', hmem, hsorted⟩ :=
    hlinked.insert_end hfresh ((h.sorted.filter _).filter _) hend
  obtain ⟨hentries, _, htimeout'⟩ := insertNode_fields hinsert
  obtain ⟨hnotMem, hincl⟩ := lookup_incl (hentries ▸ hholds) hkey
  refine ⟨t₃.incl node, L', behind', ?_, ⟨?_, ?_, hsorted, ?_⟩, ?_⟩
  · rw [apply, hrun, hinsert]
    rfl
  · rw [incl, if_neg hnotMem]
    exact ⟨hlinked'.next, hlinked'.prev, hlinked'.ids, hlinked'.made, hlinked'.behind_old⟩
  · rw [hincl]
    exact Holds.insert (hentries ▸ hholds) hnotMem hmem
  · rintro rfl
    exact absurd ((hmem node).mpr (Or.inl rfl)) List.not_mem_nil
  · rw [← htimeout, ← htimeout', incl, if_neg hnotMem]

theorem remove_fst (t : TimedMap K V) (k : K) : (t.remove k).1 = (t.del k).1 := by
  rw [remove]
  split <;> next heq => rw [heq]

theorem Ordered.remove (h : Ordered t L behind) (hop : StepOk t (.remove k)) :
    Ordered (t.remove k).1 (others k L) behind ∧ (t.remove k).1.timeout = t.timeout := by
  obtain ⟨hitem, hlinked, hholds, htimeout⟩ := h.del k
  rw [remove_fst]
  refine ⟨⟨hlinked, hholds, h.sorted.filter _, ?_⟩, htimeout⟩
  intro hnil
  cases L with
  | nil => exact h.empty rfl
  | cons first L =>
      -- the first entry is the one that is removed, so what is behind it is behind the list
      have hall : ∀ entry ∈ first :: L, entry.key = k := by
        intro entry hentry
        by_contra hne
        have hmem := mem_others.mpr ⟨hentry, hne⟩
        rw [hnil] at hmem
        cases hmem
      have hfirst : t.entries.lookup k = some first :=
        h.holds.lookup_iff.mpr ⟨List.mem_cons_self, hall first List.mem_cons_self⟩
      rw [← h.linked.prev_first]
      refine hop ?_ first hfirst
      intro k' entry hlookup
      obtain ⟨hmem, hkey⟩ := h.holds.lookup_iff.mp hlookup
      rw [← hkey, hall entry hmem]

theorem Ordered.apply (h : Ordered t L behind) (op : Op K V) (hop : StepOk t op) :
    ∃ t' L' behind', t.apply op = some t' ∧ Ordered t' L' behind' ∧ t'.timeout = t.timeout := by
  cases op with
  | mgetOrPut k v now => exact h.put hop
  | remove k =>
      obtain ⟨hordered, htimeout⟩ := h.remove hop
      exact ⟨_, _, _, rfl, hordered, htimeout⟩
  | expire now =>
      obtain ⟨t', hrun, hordered, htimeout⟩ := h.expire now
      exact ⟨t', _, _, hrun, hordered, htimeout⟩

/-! ### Runs -/

/-- The map after the calls, from an empty one. -/
def runMap (timeout : ℤ) (ops : List (Op K V)) : Option (TimedMap K V) :=
  run (fun t op => t.bind (fun t => t.apply op)) (some (init timeout)) ops

/-- Every call meets `StepOk` in the map in which it is made. -/
def StepsOk (timeout : ℤ) (ops : List (Op K V)) : Prop :=
  AllSteps (fun pre op => ∀ t, runMap timeout pre = some t → StepOk t op) ops

/-- A key that a map holds with this expiry. -/
def HeldUntil (t : TimedMap K V) (k : K) (x : ℤ) : Prop :=
  ∃ entry, t.entries.lookup k = some entry ∧ entry.expiresAt = x

theorem Ordered.heldUntil_put (h : Ordered t L behind) {t' : TimedMap K V} {k' : K} {x : ℤ}
    (hrun : t.apply (.mgetOrPut k' v now) = some t') :
    HeldUntil t' k x ↔
      (k = k' ∧ x = now + t.timeout) ∨ HeldUntil t k x ∧ k' ≠ k ∧ now < x := by
  obtain ⟨t'', node, previous, hput, hnode, _, _, hlookup⟩ := h.mgetOrPut k' v now
  obtain rfl : t'' = t' := by
    rw [TimedMap.apply, hput] at hrun
    exact Option.some.inj hrun
  have hexp : node.expiresAt = now + t.timeout := by rw [hnode, putEntry_expiresAt]
  by_cases hk : k = k'
  · simp only [HeldUntil, hlookup, if_pos hk]
    constructor
    · rintro ⟨entry, rfl, rfl⟩
      exact Or.inl ⟨hk, hexp⟩
    · rintro (⟨_, rfl⟩ | ⟨_, hne, _⟩)
      · exact ⟨node, rfl, hexp⟩
      · exact absurd hk.symm hne
  · simp only [HeldUntil, hlookup, if_neg hk]
    constructor
    · rintro ⟨entry, ⟨hentry, hnow⟩, rfl⟩
      exact Or.inr ⟨⟨entry, hentry, rfl⟩, Ne.symm hk, hnow⟩
    · rintro (⟨heq, _⟩ | ⟨⟨entry, hentry, rfl⟩, _, hnow⟩)
      · exact absurd heq hk
      · exact ⟨entry, ⟨hentry, hnow⟩, rfl⟩

theorem Ordered.heldUntil_remove (h : Ordered t L behind) {k' : K} {x : ℤ} :
    HeldUntil (t.remove k').1 k x ↔ HeldUntil t k x ∧ k' ≠ k := by
  obtain ⟨_, _, hholds, _⟩ := h.del k'
  simp only [HeldUntil, remove_fst, hholds.lookup_iff, mem_others, h.holds.lookup_iff]
  constructor
  · rintro ⟨entry, ⟨⟨hmem, hne⟩, rfl⟩, rfl⟩
    exact ⟨⟨entry, ⟨hmem, rfl⟩, rfl⟩, hne.symm⟩
  · rintro ⟨⟨entry, ⟨hmem, rfl⟩, rfl⟩, hne⟩
    exact ⟨entry, ⟨⟨hmem, hne.symm⟩, rfl⟩, rfl⟩

theorem Ordered.heldUntil_expire (h : Ordered t L behind) {t' : TimedMap K V} {x : ℤ}
    (hrun : t.expire now = some t') : HeldUntil t' k x ↔ HeldUntil t k x ∧ now < x := by
  obtain ⟨t'', hexpire, hordered, _⟩ := h.expire now
  obtain rfl : t'' = t' := Option.some.inj (hexpire.symm.trans hrun)
  simp only [HeldUntil, h.lookup_expire hordered]
  constructor
  · rintro ⟨entry, ⟨hentry, hnow⟩, rfl⟩
    exact ⟨⟨entry, hentry, rfl⟩, hnow⟩
  · rintro ⟨⟨entry, hentry, rfl⟩, hnow⟩
    exact ⟨entry, ⟨hentry, hnow⟩, rfl⟩

theorem Ordered.heldUntil_apply (h : Ordered t L behind) {t' : TimedMap K V} {op : Op K V} {x : ℤ}
    (hrun : t.apply op = some t') :
    HeldUntil t' k x ↔
      (∃ v now, op = .mgetOrPut k v now ∧ x = now + t.timeout) ∨ HeldUntil t k x ∧ Keeps k x op := by
  cases op with
  | mgetOrPut k' v now =>
      rw [h.heldUntil_put hrun]
      refine or_congr ?_ Iff.rfl
      constructor
      · rintro ⟨rfl, hx⟩
        exact ⟨v, now, rfl, hx⟩
      · rintro ⟨_, _, hop, hx⟩
        cases hop
        exact ⟨rfl, hx⟩
  | remove k' =>
      obtain rfl : (t.remove k').1 = t' := Option.some.inj hrun
      rw [h.heldUntil_remove]
      simp [Keeps]
  | expire now =>
      rw [h.heldUntil_expire hrun]
      simp [Keeps]

theorem ordered_init (timeout : ℤ) : Ordered (init timeout : TimedMap K V) [] none where
  linked := ⟨rfl, rfl, List.nodup_nil, by simp, by simp⟩
  holds := ⟨by simp [init], by simp [init]⟩
  sorted := List.Pairwise.nil
  empty := fun _ => rfl

theorem runMap_ordered (timeout : ℤ) : ∀ ops : List (Op K V), StepsOk timeout ops →
    ∃ t L behind, runMap timeout ops = some t ∧ Ordered t L behind ∧ t.timeout = timeout ∧
      ∀ k x, HeldUntil t k x ↔ LiveUntil timeout ops k x := by
  refine run_induction ⟨init timeout, [], none, rfl, ordered_init timeout, rfl, ?_⟩ ?_
  · intro k x
    constructor
    · rintro ⟨entry, hentry, _⟩
      simp [init] at hentry
    · rintro ⟨pre, v, now, post, hops, _⟩
      simp at hops
  · rintro pre op hop ⟨t, L, behind, hrun, hordered, htimeout, hheld⟩
    obtain ⟨t', L', behind', happly, hordered', htimeout'⟩ := hordered.apply op (hop t hrun)
    refine ⟨t', L', behind', ?_, hordered', htimeout'.trans htimeout, ?_⟩
    · rw [runMap, run_concat, ← runMap, hrun]
      exact happly
    · intro k x
      rw [hordered.heldUntil_apply happly, liveUntil_concat, hheld, htimeout]

/-- From the head the links visit every entry of the set once, in the order of the expiry, and end
at the tail. -/
structure InStep (t : TimedMap K V) (L : List (TimedEntry K V)) : Prop where
  visits : Seg (fun entry => t.next entry.id) t.head L none
  ends : t.tail = L.getLast?
  entries : ∀ k entry, t.entries.lookup k = some entry ↔ entry ∈ L ∧ entry.key = k
  once : L.Nodup
  sorted : L.Pairwise (fun a b => a.expiresAt ≤ b.expiresAt)

theorem Ordered.inStep (h : Ordered t L behind) : InStep t L where
  visits := h.linked.next
  ends := by
    cases L with
    | nil =>
        have htail : t.tail = behind := h.linked.prev
        exact htail.trans (h.empty rfl)
    | cons first L => exact h.linked.tail_eq (List.cons_ne_nil first L)
  entries := fun k entry => h.holds.lookup_iff
  once := h.linked.ids.of_map
  sorted := h.sorted

theorem contains_iff : t.contains k = true ↔ ∃ x, HeldUntil t k x := by
  rw [contains, decide_eq_true_eq, Table.mem_iff]
  constructor
  · rintro ⟨entry, hentry⟩
    exact ⟨entry.expiresAt, entry, hentry, rfl⟩
  · rintro ⟨_, entry, hentry, _⟩
    exact ⟨entry, hentry⟩

/-- Exactly the entries whose time has come are gone after `expire`. -/
def ExpiresExactly (t : TimedMap K V) : Prop :=
  ∀ now, ∃ t', t.expire now = some t' ∧ ∀ k entry,
    t'.entries.lookup k = some entry ↔ t.entries.lookup k = some entry ∧ now < entry.expiresAt

/-- A put of a key that does not expire in the call returns the value that it had, and keeps it with
its time. -/
def PutKeeps (t : TimedMap K V) : Prop :=
  ∀ k v now, ∃ t' value, t.mgetOrPut k v now = some (t', value) ∧
    ∀ item, t.entries.lookup k = some item → now < item.expiresAt →
      value = item.value ∧ ∃ entry, t'.entries.lookup k = some entry ∧
        entry.value = item.value ∧ entry.addedAt = item.addedAt

theorem Ordered.expiresExactly (h : Ordered t L behind) : ExpiresExactly t := by
  intro now
  obtain ⟨t', hrun, hordered, _⟩ := h.expire now
  exact ⟨t', hrun, fun k entry => h.lookup_expire hordered⟩

theorem Ordered.putKeeps (h : Ordered t L behind) : PutKeeps t := by
  intro k v now
  obtain ⟨t', node, previous, hrun, hnode, hprevious, _, hlookup⟩ := h.mgetOrPut k v now
  refine ⟨t', node.value, hrun, fun item hitem hnow => ?_⟩
  have hsome : previous = some item := (hprevious item).mpr ⟨hitem, hnow⟩
  rw [hsome] at hnode
  have hvalue : node.value = item.value := by rw [hnode]; rfl
  refine ⟨hvalue, node, (hlookup k node).mpr ?_, hvalue, ?_⟩
  · rw [if_pos rfl]
  · rw [hnode]
    rfl

/-- The list and the set are in step in every map that a run passes through, when all its calls meet
the condition. -/
theorem timedMap_runs (timeout : ℤ) (ops : List (Op K V)) (hops : StepsOk timeout ops) :
    ∀ reached, reached <+: ops → ∃ t, runMap timeout reached = some t ∧ (∃ L, InStep t L) ∧
      (∀ k, t.contains k = true ↔ Live timeout reached k) ∧ ExpiresExactly t ∧ PutKeeps t := by
  intro reached hreached
  obtain ⟨t, L, behind, hrun, hordered, _, hheld⟩ :=
    runMap_ordered timeout reached (hops.of_initial hreached)
  refine ⟨t, hrun, ⟨L, hordered.inStep⟩, fun k => ?_, hordered.expiresExactly, hordered.putKeeps⟩
  rw [contains_iff]
  exact exists_congr (hheld k)

/-- A put after which no entry expires later comes at the end. -/
theorem stepOk_last (h : ∀ s ∈ t.entries.entries, s.2.expiresAt ≤ now + t.timeout) :
    StepOk t (.mgetOrPut k v now) := by
  refine Or.inl ?_
  rintro entry ⟨k', hlookup, _⟩
  exact h ⟨k', entry⟩ (AList.mem_lookup_iff.mp hlookup)

/-- Two keys, the first one renewed after the second, and the second one removed. -/
def renewal : List (Op ℕ ℕ) :=
  [.mgetOrPut 1 10 0, .mgetOrPut 2 20 5, .mgetOrPut 1 30 7, .remove 2]

theorem renewal_ok : StepsOk 100 renewal := by
  refine allSteps_nil.concat ?_ |>.concat ?_ |>.concat ?_ |>.concat ?_ <;> rintro t hrun <;> cases hrun
  · exact stepOk_last (by decide)
  · exact stepOk_last (by decide)
  · exact stepOk_last (by decide)
  · intro hall
    exact absurd (hall 1 _ rfl) (by decide)

theorem timedMap_runs_renewal : ∃ t, runMap 100 renewal = some t ∧ (∃ L, InStep t L) ∧
    (∀ k, t.contains k = true ↔ Live 100 renewal k) ∧ ExpiresExactly t ∧ PutKeeps t :=
  timedMap_runs 100 renewal renewal_ok renewal (List.prefix_refl _)

/-- A key is put between two others, and the later one is removed. -/
def between : List (Op ℕ ℕ) :=
  [.mgetOrPut 1 10 0, .mgetOrPut 2 20 10, .mgetOrPut 3 30 5, .remove 2]

/-- The entry of the key is in the set, off the list, and never expires. -/
theorem entryBetween_lost : ∃ t, runMap 100 between = some t ∧ t.contains 3 = true ∧
    (¬ ∃ L, InStep t L) ∧ ¬ ExpiresExactly t := by
  refine ⟨_, rfl, by decide, ?_, ?_⟩
  · rintro ⟨L, hvisits, _, hentries, _, _⟩
    have hmem := (hentries 3 _).mp rfl
    have hlist : L = [⟨0, 1, 10, 0, 100⟩] := by
      cases L with
      | nil => cases hvisits
      | cons first L =>
          obtain ⟨hfirst, hrest⟩ := hvisits
          cases hfirst
          cases L with
          | nil => rfl
          | cons second L => cases hrest.1
    rw [hlist] at hmem
    simp at hmem
  · intro hexpires
    obtain ⟨t', hrun, hentries⟩ := hexpires 1000
    cases hrun
    have hentry := (hentries 3 _).mp rfl
    exact absurd hentry.2 (by decide)

end LogosDelivery.Common.TimedMap
