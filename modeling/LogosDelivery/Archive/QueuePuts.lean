import LogosDelivery.Archive.QueueDriver
import LogosDelivery.Lib.Greatest
import LogosDelivery.Lib.Runs

/-! # The messages that the queue driver keeps

`add` and `put` of `waku_archive/driver/queue_driver/queue_driver.nim`.  A queue of full size gives
up its first entry for a later one and refuses an earlier one, so that after any sequence of `put`s
it has the latest of all indices that it was ever given (`newest_after`), also of those that were
refused or given up and came again.

The set finds an entry by `cmp`, that is by its time and its hash.  A first entry is only read when
there is one: otherwise the code raises a defect, which is the outcome `none` here. -/

namespace LogosDelivery.Archive

open Lib
open StoreSync (WakuMessageHash PubsubTopic constFingerprint)

namespace Index

theorem cmp_eq_zero_iff (x y : Index) : cmp x y = 0 ↔ x.key = y.key := by
  rw [cmp, key, key, toLex_inj, Prod.mk.injEq]
  by_cases ht : x.time = y.time
  · have hzero := (cmpOf_eq_zero_iff x.time y.time).mpr ht
    rw [if_neg (not_not.mpr hzero), cmpOf_eq_zero_iff]
    simp [ht]
  · have hne := mt (cmpOf_eq_zero_iff x.time y.time).mp ht
    simp [hne, ht]

end Index

/-! ### The set -/

/-- The entries with a new one in its place. -/
def insertEntry (entry : Entry) : List Entry → List Entry
  | [] => [entry]
  | e :: rest =>
      if Index.cmp entry.1 e.1 < 0 then entry :: e :: rest else e :: insertEntry entry rest

theorem mem_insertEntry {entry e : Entry} : ∀ {entries : List Entry},
    e ∈ insertEntry entry entries ↔ e = entry ∨ e ∈ entries
  | [] => by simp [insertEntry]
  | e' :: rest => by
      rw [insertEntry]
      split_ifs
      · rw [List.mem_cons]
      · rw [List.mem_cons, mem_insertEntry, List.mem_cons]
        tauto

theorem sorted_insertEntry {entry : Entry} : ∀ {entries : List Entry},
    entries.Pairwise (fun x y => Index.cmp x.1 y.1 < 0) →
    (∀ e ∈ entries, Index.cmp e.1 entry.1 ≠ 0) →
    (insertEntry entry entries).Pairwise (fun x y => Index.cmp x.1 y.1 < 0)
  | [], _, _ => List.pairwise_singleton _ _
  | e :: rest, hsorted, hnew => by
      obtain ⟨hhead, hrest⟩ := List.pairwise_cons.mp hsorted
      rw [insertEntry]
      split_ifs with hlt
      · refine List.pairwise_cons.mpr ⟨?_, hsorted⟩
        intro e' he'
        rcases List.mem_cons.mp he' with rfl | he'
        · exact hlt
        · rw [Index.cmp_neg_iff] at hlt ⊢
          exact hlt.trans ((Index.cmp_neg_iff _ _).mp (hhead e' he'))
      · have hbefore : Index.cmp e.1 entry.1 < 0 := by
          have hne := hnew e List.mem_cons_self
          rw [Index.cmp_neg_iff] at hlt ⊢
          rw [ne_eq, Index.cmp_eq_zero_iff] at hne
          exact lt_of_le_of_ne (not_lt.mp hlt) hne
        refine List.pairwise_cons.mpr ⟨?_, sorted_insertEntry hrest
          (fun e' he' => hnew e' (List.mem_cons_of_mem _ he'))⟩
        intro e' he'
        rcases mem_insertEntry.mp he' with rfl | he'
        · exact hbefore
        · exact hhead e' he'

namespace QueueDriver

/-! ### Writing -/

def new (capacity : ℕ) : QueueDriver := ⟨[], capacity, List.Pairwise.nil⟩

/-- The set has an entry that `cmp` does not tell from the index. -/
def contains (driver : QueueDriver) (index : Index) : Bool :=
  driver.items.any (fun e => decide (Index.cmp e.1 index = 0))

def len (driver : QueueDriver) : ℕ := driver.items.length

def delete (driver : QueueDriver) (index : Index) : QueueDriver where
  items := driver.items.filter (fun e => decide (Index.cmp e.1 index ≠ 0))
  capacity := driver.capacity
  sorted := driver.sorted.filter _

theorem not_contains_iff {driver : QueueDriver} {index : Index} :
    driver.contains index = false ↔ ∀ e ∈ driver.items, Index.cmp e.1 index ≠ 0 := by
  simp [contains]

/-- An index that the set does not have, with its message. -/
def insert (driver : QueueDriver) (index : Index) (msg : WakuMessage)
    (hnew : driver.contains index = false) : QueueDriver where
  items := insertEntry (index, msg) driver.items
  capacity := driver.capacity
  sorted := sorted_insertEntry driver.sorted (not_contains_iff.mp hnew)

theorem not_contains_delete {driver : QueueDriver} {index : Index} (firstItem : Index)
    (hnew : driver.contains index = false) : (driver.delete firstItem).contains index = false :=
  not_contains_iff.mpr (fun e he => not_contains_iff.mp hnew e (List.mem_of_mem_filter he))

def add (driver : QueueDriver) (index : Index) (msg : WakuMessage) :
    Option (QueueDriver × Except String Unit) :=
  if hnew : driver.contains index = false then
    if driver.len ≥ driver.capacity then
      match driver.items with
      | [] => none
      | firstItem :: _ =>
          if Index.cmp index firstItem.1 < 0 then some (driver, .error "too_old")
          else some ((driver.delete firstItem.1).insert index msg
            (not_contains_delete firstItem.1 hnew), .ok ())
    else some (driver.insert index msg hnew, .ok ())
  else some (driver, .error "duplicate")

end QueueDriver

/-- The arguments of `put`. -/
structure Put where
  messageHash : WakuMessageHash
  pubsubTopic : PubsubTopic
  message : WakuMessage
deriving DecidableEq

def Put.index (p : Put) : Index :=
  { time := p.message.timestamp, hash := p.messageHash, pubsubTopic := p.pubsubTopic }

namespace QueueDriver

def put (driver : QueueDriver) (p : Put) : Option (QueueDriver × Except String Bool) :=
  if driver.contains p.index = true then some (driver, .ok false)
  else (driver.add p.index p.message).map (fun added => (added.1, added.2.map (fun _ => true)))

/-- The driver after a sequence of calls, none of which raised a defect. -/
def after (capacity : ℕ) (puts : List Put) : Option QueueDriver :=
  run (fun driver p => driver.bind (fun driver => (driver.put p).map Prod.fst))
    (some (new capacity)) puts

/-! ### What a call does -/

/-- The places in the order that are taken. -/
def keys (driver : QueueDriver) : Finset (Timestamp ×ₗ WakuMessageHash) :=
  (driver.items.map (fun e => e.1.key)).toFinset

variable {driver : QueueDriver} {index : Index} {msg : WakuMessage}

theorem mem_keys {k : Timestamp ×ₗ WakuMessageHash} :
    k ∈ driver.keys ↔ ∃ e ∈ driver.items, e.1.key = k := by
  rw [keys, List.mem_toFinset, List.mem_map]

theorem contains_iff : driver.contains index = true ↔ index.key ∈ driver.keys := by
  simp [contains, mem_keys, Index.cmp_eq_zero_iff]

theorem card_keys (driver : QueueDriver) : driver.keys.card = driver.len := by
  have hnodup : (driver.items.map (fun e => e.1.key)).Nodup :=
    List.pairwise_map.mpr (driver.ascending_items.imp (fun hlt => hlt.ne))
  rw [keys, List.toFinset_card_of_nodup hnodup, List.length_map, len]

theorem keys_insert (hnew : driver.contains index = false) :
    (driver.insert index msg hnew).keys = Insert.insert index.key driver.keys := by
  ext k
  rw [Finset.mem_insert, mem_keys, mem_keys]
  constructor
  · rintro ⟨e, he, rfl⟩
    rcases mem_insertEntry.mp he with rfl | he
    · exact Or.inl rfl
    · exact Or.inr ⟨e, he, rfl⟩
  · rintro (rfl | ⟨e, he, rfl⟩)
    · exact ⟨(index, msg), mem_insertEntry.mpr (Or.inl rfl), rfl⟩
    · exact ⟨e, mem_insertEntry.mpr (Or.inr he), rfl⟩

theorem keys_delete (driver : QueueDriver) (index : Index) :
    (driver.delete index).keys = driver.keys.erase index.key := by
  ext k
  rw [Finset.mem_erase, mem_keys, mem_keys]
  constructor
  · rintro ⟨e, he, rfl⟩
    obtain ⟨he, hcmp⟩ := List.mem_filter.mp he
    exact ⟨mt (Index.cmp_eq_zero_iff e.1 index).mpr (of_decide_eq_true hcmp), e, he, rfl⟩
  · rintro ⟨hne, e, he, rfl⟩
    exact ⟨e, List.mem_filter.mpr ⟨he, decide_eq_true (mt (Index.cmp_eq_zero_iff e.1 index).mp hne)⟩,
      rfl⟩

/-- The entry of a put is in the set, is refused, or enters, for the first entry or beside all. -/
inductive Puts (driver : QueueDriver) (p : Put) : QueueDriver → Except String Bool → Prop
  | stored (hmem : p.index.key ∈ driver.keys) : Puts driver p driver (.ok false)
  | tooOld (hfull : driver.capacity ≤ driver.len) (hold : ∀ k ∈ driver.keys, p.index.key < k) :
      Puts driver p driver (.error "too_old")
  | enters (hnew : p.index.key ∉ driver.keys) (hroom : driver.len < driver.capacity)
      {driver' : QueueDriver} (hkeys : driver'.keys = Insert.insert p.index.key driver.keys)
      (hcapacity : driver'.capacity = driver.capacity)
      (hitems : ∀ e ∈ driver'.items, e = (p.index, p.message) ∨ e ∈ driver.items) :
      Puts driver p driver' (.ok true)
  | displaces (hnew : p.index.key ∉ driver.keys) (hfull : driver.capacity ≤ driver.len)
      {first : Timestamp ×ₗ WakuMessageHash} (hfirst : first ∈ driver.keys)
      (hleast : ∀ k ∈ driver.keys, first ≤ k) (hlater : first < p.index.key)
      {driver' : QueueDriver}
      (hkeys : driver'.keys = Insert.insert p.index.key (driver.keys.erase first))
      (hcapacity : driver'.capacity = driver.capacity)
      (hitems : ∀ e ∈ driver'.items, e = (p.index, p.message) ∨ e ∈ driver.items) :
      Puts driver p driver' (.ok true)

theorem put_spec (hpos : 1 ≤ driver.capacity) (p : Put) :
    ∃ driver' r, driver.put p = some (driver', r) ∧ Puts driver p driver' r := by
  unfold put
  by_cases hcontains : driver.contains p.index = true
  · rw [if_pos hcontains]
    exact ⟨driver, .ok false, rfl, .stored (contains_iff.mp hcontains)⟩
  · have hnew : p.index.key ∉ driver.keys := mt contains_iff.mpr hcontains
    have hnotIn : driver.contains p.index = false := Bool.eq_false_of_not_eq_true hcontains
    rw [if_neg hcontains, add, dif_pos hnotIn]
    by_cases hfull : driver.len ≥ driver.capacity
    · rw [if_pos hfull]
      cases hitems : driver.items with
      | nil =>
          have hzero : driver.len = 0 := by rw [len, hitems, List.length_nil]
          omega
      | cons firstItem rest =>
          have hfirst : firstItem.1.key ∈ driver.keys :=
            mem_keys.mpr ⟨firstItem, hitems ▸ List.mem_cons_self, rfl⟩
          have hleast : ∀ k ∈ driver.keys, firstItem.1.key ≤ k := by
            intro k hk
            obtain ⟨e, he, rfl⟩ := mem_keys.mp hk
            have hasc := driver.ascending_items
            rw [hitems] at he hasc
            rcases List.mem_cons.mp he with rfl | he
            · exact le_rfl
            · exact ((List.pairwise_cons.mp hasc).1 e he).le
          dsimp only
          by_cases hold : Index.cmp p.index firstItem.1 < 0
          · rw [if_pos hold]
            refine ⟨driver, .error "too_old", rfl, .tooOld hfull ?_⟩
            exact fun k hk => ((Index.cmp_neg_iff _ _).mp hold).trans_le (hleast k hk)
          · rw [if_neg hold]
            have hlater : firstItem.1.key < p.index.key := by
              rw [Index.cmp_neg_iff, not_lt] at hold
              exact lt_of_le_of_ne hold (fun heq => hnew (heq ▸ hfirst))
            refine ⟨_, .ok true, rfl, .displaces hnew hfull hfirst hleast hlater ?_ rfl ?_⟩
            · rw [keys_insert, keys_delete]
            · intro e he
              rcases mem_insertEntry.mp he with rfl | he
              · exact Or.inl rfl
              · exact Or.inr (List.mem_of_mem_filter he)
    · rw [if_neg hfull]
      refine ⟨_, .ok true, rfl, .enters hnew (not_le.mp hfull) (keys_insert hnotIn) rfl ?_⟩
      intro e he
      exact mem_insertEntry.mp he

/-! ### Runs -/

/-- The driver has the latest of the indices that were put, each with a message it was put with. -/
structure Newest (capacity : ℕ) (puts : List Put) (driver : QueueDriver) : Prop where
  capacity_eq : driver.capacity = capacity
  greatest : Greatest capacity (puts.map (fun p => p.index.key)).toFinset driver.keys
  were_put : ∀ e ∈ driver.items, ∃ p ∈ puts, e = (p.index, p.message)

theorem newest_new (capacity : ℕ) : Newest capacity [] (new capacity) where
  capacity_eq := rfl
  greatest := Greatest.empty capacity
  were_put := by simp [new]

theorem Newest.put {capacity : ℕ} {puts : List Put} (h : Newest capacity puts driver) {p : Put}
    {driver' : QueueDriver} {r : Except String Bool} (hput : Puts driver p driver' r) :
    Newest capacity (puts ++ [p]) driver' := by
  have hall : ((puts ++ [p]).map (fun p => p.index.key)).toFinset =
      Insert.insert p.index.key (puts.map (fun p => p.index.key)).toFinset := by
    ext k
    simp [eq_comm]
  have hbefore : ∀ e ∈ driver.items, ∃ p' ∈ puts ++ [p], e = (p'.index, p'.message) := by
    intro e he
    obtain ⟨p', hp', heq⟩ := h.were_put e he
    exact ⟨p', List.mem_append_left _ hp', heq⟩
  have hwith : (∀ e ∈ driver'.items, e = (p.index, p.message) ∨ e ∈ driver.items) →
      ∀ e ∈ driver'.items, ∃ p' ∈ puts ++ [p], e = (p'.index, p'.message) := by
    intro hitems e he
    rcases hitems e he with rfl | he
    · exact ⟨p, List.mem_append_right _ (List.mem_singleton_self p), rfl⟩
    · exact hbefore e he
  have hcard := card_keys driver
  have hcapacity := h.capacity_eq
  cases hput with
  | stored hmem => exact ⟨h.capacity_eq, hall ▸ h.greatest.again hmem, hbefore⟩
  | tooOld hfull hold =>
      exact ⟨h.capacity_eq, hall ▸ h.greatest.refuse (by omega) hold, hbefore⟩
  | enters hnew hroom hkeys hcapacity' hitems =>
      refine ⟨hcapacity'.trans h.capacity_eq, ?_, hwith hitems⟩
      rw [hall, hkeys]
      exact h.greatest.add (by omega) hnew
  | displaces hnew hfull hfirst hleast hlater hkeys hcapacity' hitems =>
      refine ⟨hcapacity'.trans h.capacity_eq, ?_, hwith hitems⟩
      rw [hall, hkeys]
      exact h.greatest.replace (by omega) hnew hfirst hleast hlater

theorem exists_after {capacity : ℕ} (hpos : 1 ≤ capacity) (puts : List Put) :
    ∃ driver, after capacity puts = some driver ∧ Newest capacity puts driver := by
  induction puts using List.reverseRecOn with
  | nil => exact ⟨new capacity, rfl, newest_new capacity⟩
  | append_singleton puts p ih =>
      obtain ⟨driver, hafter, hnewest⟩ := ih
      obtain ⟨driver', r, hput, hspec⟩ := put_spec (hnewest.capacity_eq ▸ hpos) p
      refine ⟨driver', ?_, hnewest.put hspec⟩
      rw [after, run_concat, ← after, hafter, Option.bind_some, hput, Option.map_some]

/-- **The queue keeps the latest messages.**  After any sequence of `put`s no defect was raised, the
places taken in the order are those of the latest indices, as many as the capacity allows, each once
and with a message that was put at it.  A further `put` answers `false` exactly when its index is
stored, an error only when the queue is full and the index is before all of its indices, and changes
nothing unless it answers `true`. -/
theorem newest_after (capacity : ℕ) (hpos : 1 ≤ capacity) (puts : List Put) :
    ∃ driver, after capacity puts = some driver ∧
      Greatest capacity (puts.map (fun p => p.index.key)).toFinset driver.keys ∧
      driver.keys.card = driver.len ∧
      (∀ e ∈ driver.items, ∃ p ∈ puts, e = (p.index, p.message)) ∧
      driver.len ≤ capacity ∧
      ∀ p, ∃ driver' r, driver.put p = some (driver', r) ∧
        (r = .ok false ↔ ∃ e ∈ driver.items, e.1.key = p.index.key) ∧
        (∀ e, r = .error e →
          driver.len = capacity ∧ ∀ x ∈ driver.items, p.index.key < x.1.key) ∧
        (r ≠ .ok true → driver' = driver) := by
  obtain ⟨driver, hafter, hnewest⟩ := exists_after hpos puts
  have hlen : driver.len ≤ capacity := card_keys driver ▸ hnewest.greatest.card_le
  refine ⟨driver, hafter, hnewest.greatest, card_keys driver, hnewest.were_put, hlen, ?_⟩
  intro p
  obtain ⟨driver', r, hput, hspec⟩ := put_spec (hnewest.capacity_eq ▸ hpos) p
  refine ⟨driver', r, hput, ?_⟩
  rw [← mem_keys]
  cases hspec with
  | stored hmem => exact ⟨by simp [hmem], by simp, fun _ => rfl⟩
  | tooOld hfull hold =>
      have hnot : p.index.key ∉ driver.keys := fun hmem => lt_irrefl _ (hold _ hmem)
      refine ⟨by simp [hnot], fun e _ => ⟨?_, ?_⟩, fun _ => rfl⟩
      · have hcapacity := hnewest.capacity_eq
        omega
      · exact fun x hx => hold _ (mem_keys.mpr ⟨x, hx, rfl⟩)
  | enters hnew => exact ⟨by simp [hnew], by simp, fun hne => absurd rfl hne⟩
  | displaces hnew => exact ⟨by simp [hnew], by simp, fun hne => absurd rfl hne⟩

/-- A message of the time, whose hash starts with the time. -/
def putAt (time : Fin 256) : Put where
  messageHash := constFingerprint time
  pubsubTopic := "/waku/2/rs/0/0"
  message := ⟨[7], "/app/1/chat/proto", [], 0, time.val⟩

theorem newest_ofTwo :
    1 ≤ 2 ∧ ∃ driver, after 2 [putAt 5, putAt 3, putAt 9, putAt 3] = some driver ∧
      Greatest 2 ([putAt 5, putAt 3, putAt 9, putAt 3].map (fun p => p.index.key)).toFinset
        driver.keys ∧
      driver.keys.card = driver.len ∧
      (∀ e ∈ driver.items, ∃ p ∈ [putAt 5, putAt 3, putAt 9, putAt 3], e = (p.index, p.message)) ∧
      driver.len ≤ 2 ∧
      ∀ p, ∃ driver' r, driver.put p = some (driver', r) ∧
        (r = .ok false ↔ ∃ e ∈ driver.items, e.1.key = p.index.key) ∧
        (∀ e, r = .error e → driver.len = 2 ∧ ∀ x ∈ driver.items, p.index.key < x.1.key) ∧
        (r ≠ .ok true → driver' = driver) :=
  ⟨by decide, newest_after 2 (by decide) [putAt 5, putAt 3, putAt 9, putAt 3]⟩

end QueueDriver

end LogosDelivery.Archive
