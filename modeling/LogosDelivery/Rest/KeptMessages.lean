import LogosDelivery.Rest.MessageCache

/-! # What the message cache is for

`Kept` is a cache without places: the two sets of topics and the multiset of entries.  `Spec` says
what each call does to it and answers, up to the order of the messages; a full cache lets go of one
of its oldest messages.  What holds of all that is kept (`Sound`) follows from that alone. -/

namespace LogosDelivery.Rest

open Archive (IncomingMessage)
open StoreSync (PubsubTopic ContentTopic)
open MessageCache (Entry Answer)

namespace MessageCache.Entry

/-- Some topic still wants it. -/
def linked (e : Entry) : Bool := e.pubsub.isSome || e.content.isSome

def offPubsub (topic : PubsubTopic) (e : Entry) : Entry :=
  { e with pubsub := e.pubsub.filter (fun other => decide (other ≠ topic)) }

def offContent (topic : ContentTopic) (e : Entry) : Entry :=
  { e with content := e.content.filter (fun other => decide (other ≠ topic)) }

theorem filter_ne {topic : String} {o : Option String} (h : o ≠ some topic) :
    o.filter (fun other => decide (other ≠ topic)) = o := by
  cases o with
  | none => rfl
  | some other =>
      have hne : other ≠ topic := fun heq => h (congrArg some heq)
      exact Option.filter_some_pos (p := fun other => decide (other ≠ topic)) (decide_eq_true hne)

theorem offPubsub_of_ne {topic : PubsubTopic} {e : Entry} (h : e.pubsub ≠ some topic) :
    e.offPubsub topic = e := by
  unfold offPubsub
  rw [filter_ne h]

theorem offContent_of_ne {topic : ContentTopic} {e : Entry} (h : e.content ≠ some topic) :
    e.offContent topic = e := by
  unfold offContent
  rw [filter_ne h]

theorem offPubsub_of_eq {topic : PubsubTopic} {e : Entry} (h : e.pubsub = some topic) :
    e.offPubsub topic = { e with pubsub := none } := by
  unfold offPubsub
  rw [h, Option.filter_some_neg (by simp)]

theorem offContent_of_eq {topic : ContentTopic} {e : Entry} (h : e.content = some topic) :
    e.offContent topic = { e with content := none } := by
  unfold offContent
  rw [h, Option.filter_some_neg (by simp)]

end MessageCache.Entry

/-- The calls of `MessageCache`. -/
inductive Call where
  | pubsubSubscribe (pubsubTopic : PubsubTopic)
  | contentSubscribe (contentTopic : ContentTopic)
  | pubsubUnsubscribe (pubsubTopic : PubsubTopic)
  | contentUnsubscribe (contentTopic : ContentTopic)
  | reset
  | addMessage (pubsubTopic : PubsubTopic) (msg : IncomingMessage)
  | getMessages (pubsubTopic : PubsubTopic) (clear : Bool)
  | getAutoMessages (contentTopic : ContentTopic) (clear : Bool)

structure Kept where
  pubsubTopics : Finset PubsubTopic
  contentTopics : Finset ContentTopic
  entries : Multiset Entry

namespace Kept

variable {capacity : ℤ} {s s' : Kept} {call : Call} {answer : Answer}

def nothing : Kept := ⟨∅, ∅, 0⟩

/-- A full cache lets go of one of its oldest messages. -/
def MakesSpace (capacity : ℤ) (before after : Multiset Entry) : Prop :=
  if capacity ≤ before.card then
    ∃ oldest ∈ before, (∀ e ∈ before, oldest.msg.timestamp ≤ e.msg.timestamp) ∧
      after = before.erase oldest
  else after = before

/-- A message is added once, and only where one of its topics is wanted; then both are. -/
def Adds (capacity : ℤ) (pubsubTopic : PubsubTopic) (msg : IncomingMessage) (s s' : Kept) : Prop :=
  if msg ∈ s.entries.map Entry.msg ∨
      pubsubTopic ∉ s.pubsubTopics ∧ msg.contentTopic ∉ s.contentTopics then s' = s
  else
    s'.pubsubTopics = insert pubsubTopic s.pubsubTopics ∧
      s'.contentTopics = insert msg.contentTopic s.contentTopics ∧
      ∃ others, MakesSpace capacity s.entries others ∧
        s'.entries = ⟨msg, some pubsubTopic, some msg.contentTopic⟩ ::ₘ others

/-- A call that returns the messages on a topic, and takes them out with `clear`. -/
def Returns (topics : Finset String) (noTopics notThis : String) (topic : String)
    (wanted : Entry → Bool) (clear : Bool) (s s' : Kept) (answer : Answer) : Prop :=
  if topics = ∅ then s' = s ∧ answer = .error noTopics
  else if topic ∉ topics then s' = s ∧ answer = .error notThis
  else
    (∃ messages, answer = .ok messages ∧
      (messages : Multiset IncomingMessage) =
        (s.entries.filter fun e => wanted e = true).map Entry.msg) ∧
      s' = { s with
        entries := if clear then s.entries.filter fun e => wanted e = false else s.entries }

section Returns

variable {topics : Finset String} {noTopics notThis topic : String} {wanted : Entry → Bool}
  {clear : Bool}

theorem returns_noTopics (h : topics = ∅) :
    Returns topics noTopics notThis topic wanted clear s s (.error noTopics) := by
  unfold Returns
  rw [if_pos h]
  exact ⟨rfl, rfl⟩

theorem returns_notThis (hne : topics ≠ ∅) (h : topic ∉ topics) :
    Returns topics noTopics notThis topic wanted clear s s (.error notThis) := by
  unfold Returns
  rw [if_neg hne, if_pos h]
  exact ⟨rfl, rfl⟩

theorem returns_found {messages : List IncomingMessage} (h : topic ∈ topics)
    (hmessages : (messages : Multiset IncomingMessage) =
      (s.entries.filter fun e => wanted e = true).map Entry.msg)
    (hs : s' = { s with
      entries := if clear then s.entries.filter fun e => wanted e = false else s.entries }) :
    Returns topics noTopics notThis topic wanted clear s s' (.ok messages) := by
  unfold Returns
  rw [if_neg (Finset.ne_empty_of_mem h), if_neg (not_not_intro h)]
  exact ⟨⟨messages, rfl, hmessages⟩, hs⟩

end Returns

def Spec (capacity : ℤ) (s : Kept) (call : Call) (s' : Kept) (answer : Answer) : Prop :=
  match call with
  | .pubsubSubscribe topic =>
      s' = { s with pubsubTopics := insert topic s.pubsubTopics } ∧ answer = .ok []
  | .contentSubscribe topic =>
      s' = { s with contentTopics := insert topic s.contentTopics } ∧ answer = .ok []
  | .pubsubUnsubscribe topic =>
      s' = { s with
        pubsubTopics := s.pubsubTopics.erase topic
        entries := (s.entries.map (Entry.offPubsub topic)).filter fun e => e.linked = true } ∧
        answer = .ok []
  | .contentUnsubscribe topic =>
      s' = { s with
        contentTopics := s.contentTopics.erase topic
        entries := (s.entries.map (Entry.offContent topic)).filter fun e => e.linked = true } ∧
        answer = .ok []
  | .reset => s' = nothing ∧ answer = .ok []
  | .addMessage topic msg => Adds capacity topic msg s s' ∧ answer = .ok []
  | .getMessages topic clear =>
      Returns s.pubsubTopics "not subscribed to any pubsub topics"
        "not subscribed to this pubsub topic" topic (fun e => decide (e.pubsub = some topic)) clear
        s s' answer
  | .getAutoMessages topic clear =>
      Returns s.contentTopics "not subscribed to any content topics"
        "not subscribed to this content topic" topic (fun e => decide (e.content = some topic)) clear
        s s' answer

/-- A run of calls with their answers. -/
inductive Run (capacity : ℤ) : List (Call × Answer) → Kept → Prop where
  | start : Run capacity [] nothing
  | step {calls : List (Call × Answer)} {s s' : Kept} {call : Call} {answer : Answer} :
      Run capacity calls s → Spec capacity s call s' answer → Run capacity (calls ++ [(call, answer)]) s'

/-! ### What holds of all that is kept -/

structure Sound (capacity : ℤ) (s : Kept) : Prop where
  distinct : (s.entries.map Entry.msg).Nodup
  linked : ∀ e ∈ s.entries, e.linked = true
  on_pubsub : ∀ e ∈ s.entries, ∀ topic, e.pubsub = some topic → topic ∈ s.pubsubTopics
  on_content : ∀ e ∈ s.entries, ∀ topic, e.content = some topic →
    topic = e.msg.contentTopic ∧ topic ∈ s.contentTopics
  card_le : (s.entries.card : ℤ) ≤ max capacity 0

theorem sound_nothing (capacity : ℤ) : nothing.Sound capacity where
  distinct := by simp [nothing]
  linked := by simp [nothing]
  on_pubsub := by simp [nothing]
  on_content := by simp [nothing]
  card_le := by simp [nothing]

/-- Fewer entries. -/
theorem Sound.of_le (h : s.Sound capacity) {entries : Multiset Entry} (hle : entries ≤ s.entries) :
    Sound capacity { s with entries := entries } where
  distinct := Multiset.nodup_of_le (Multiset.map_le_map hle) h.distinct
  linked := fun e he => h.linked e (Multiset.mem_of_le hle he)
  on_pubsub := fun e he => h.on_pubsub e (Multiset.mem_of_le hle he)
  on_content := fun e he => h.on_content e (Multiset.mem_of_le hle he)
  card_le := by
    have hcard := Multiset.card_le_card hle
    have hbound := h.card_le
    dsimp only
    omega

/-- An unsubscription keeps the entries that some topic still wants, with fewer topics. -/
theorem Sound.unsubscribe (h : s.Sound capacity) {off : Entry → Entry}
    {pubsubTopics contentTopics : Finset String} (hmsg : ∀ e, (off e).msg = e.msg)
    (hpubsub : ∀ e topic, (off e).pubsub = some topic →
      e.pubsub = some topic ∧ (topic ∈ s.pubsubTopics → topic ∈ pubsubTopics))
    (hcontent : ∀ e topic, (off e).content = some topic →
      e.content = some topic ∧ (topic ∈ s.contentTopics → topic ∈ contentTopics)) :
    Sound capacity ⟨pubsubTopics, contentTopics,
      (s.entries.map off).filter fun e => e.linked = true⟩ where
  distinct := by
    have hmap : (s.entries.map off).map Entry.msg = s.entries.map Entry.msg := by
      rw [Multiset.map_map]
      exact Multiset.map_congr rfl fun e _ => hmsg e
    refine Multiset.nodup_of_le (Multiset.map_le_map (Multiset.filter_le _ _)) ?_
    rw [hmap]
    exact h.distinct
  linked := fun e he => (Multiset.mem_filter.mp he).2
  on_pubsub := by
    intro e he topic htopic
    obtain ⟨e₀, he₀, rfl⟩ := Multiset.mem_map.mp (Multiset.mem_filter.mp he).1
    obtain ⟨hon, hstill⟩ := hpubsub e₀ topic htopic
    exact hstill (h.on_pubsub e₀ he₀ topic hon)
  on_content := by
    intro e he topic htopic
    obtain ⟨e₀, he₀, rfl⟩ := Multiset.mem_map.mp (Multiset.mem_filter.mp he).1
    obtain ⟨hon, hstill⟩ := hcontent e₀ topic htopic
    obtain ⟨hown, hin⟩ := h.on_content e₀ he₀ topic hon
    exact ⟨hown.trans (by rw [hmsg]), hstill hin⟩
  card_le := by
    have hcard := Multiset.card_le_card (Multiset.filter_le (fun e : Entry => e.linked = true)
      (s.entries.map off))
    rw [Multiset.card_map] at hcard
    have hbound := h.card_le
    dsimp only
    omega

theorem MakesSpace.le {before after : Multiset Entry} (h : MakesSpace capacity before after) :
    after ≤ before := by
  unfold MakesSpace at h
  split at h
  · obtain ⟨oldest, _, _, rfl⟩ := h
    exact Multiset.erase_le oldest before
  · exact le_of_eq h

/-- Space is made for one message more. -/
theorem MakesSpace.card_lt {before after : Multiset Entry} (h : MakesSpace capacity before after)
    (hle : (before.card : ℤ) ≤ max capacity 0) : (after.card : ℤ) + 1 ≤ max capacity 0 := by
  unfold MakesSpace at h
  split at h
  · obtain ⟨oldest, hmem, _, rfl⟩ := h
    have hcard := Multiset.card_erase_add_one hmem
    omega
  · rw [h]
    omega

theorem Sound.adds (h : s.Sound capacity) {topic : PubsubTopic} {msg : IncomingMessage}
    (hadds : Adds capacity topic msg s s') : s'.Sound capacity := by
  unfold Adds at hadds
  split at hadds
  · rw [hadds]
    exact h
  · rename_i hnew
    rw [not_or] at hnew
    obtain ⟨pubsubTopics, contentTopics, entries⟩ := s'
    obtain ⟨rfl, rfl, others, hspace, rfl⟩ := hadds
    have hothers := h.of_le hspace.le
    refine ⟨?_, ?_, ?_, ?_, ?_⟩
    · rw [Multiset.map_cons, Multiset.nodup_cons]
      refine ⟨fun hmem => hnew.1 ?_, hothers.distinct⟩
      exact Multiset.mem_of_le (Multiset.map_le_map hspace.le) hmem
    · intro e he
      rcases Multiset.mem_cons.mp he with rfl | he
      · rfl
      · exact hothers.linked e he
    · intro e he t ht
      rcases Multiset.mem_cons.mp he with rfl | he
      · exact Finset.mem_insert.mpr (Or.inl (Option.some.inj ht).symm)
      · exact Finset.mem_insert_of_mem (hothers.on_pubsub e he t ht)
    · intro e he t ht
      rcases Multiset.mem_cons.mp he with rfl | he
      · have heq := (Option.some.inj ht).symm
        exact ⟨heq, Finset.mem_insert.mpr (Or.inl heq)⟩
      · obtain ⟨hown, hin⟩ := hothers.on_content e he t ht
        exact ⟨hown, Finset.mem_insert_of_mem hin⟩
    · have hroom := hspace.card_lt h.card_le
      rw [Multiset.card_cons]
      omega

theorem Sound.returns (h : s.Sound capacity) {topics : Finset String} {noTopics notThis topic : String}
    {wanted : Entry → Bool} {clear : Bool}
    (hreturns : Returns topics noTopics notThis topic wanted clear s s' answer) :
    s'.Sound capacity := by
  unfold Returns at hreturns
  split at hreturns
  · rw [hreturns.1]
    exact h
  · split at hreturns
    · rw [hreturns.1]
      exact h
    · rw [hreturns.2]
      refine h.of_le ?_
      split
      · exact Multiset.filter_le _ _
      · exact le_rfl

theorem Sound.step (h : s.Sound capacity) (hspec : Spec capacity s call s' answer) :
    s'.Sound capacity := by
  cases call with
  | pubsubSubscribe topic =>
      obtain ⟨rfl, _⟩ := hspec
      exact ⟨h.distinct, h.linked,
        fun e he t ht => Finset.mem_insert_of_mem (h.on_pubsub e he t ht), h.on_content, h.card_le⟩
  | contentSubscribe topic =>
      obtain ⟨rfl, _⟩ := hspec
      refine ⟨h.distinct, h.linked, h.on_pubsub, fun e he t ht => ?_, h.card_le⟩
      obtain ⟨hown, hin⟩ := h.on_content e he t ht
      exact ⟨hown, Finset.mem_insert_of_mem hin⟩
  | pubsubUnsubscribe topic =>
      obtain ⟨rfl, _⟩ := hspec
      refine h.unsubscribe (fun _ => rfl) (fun e t ht => ?_) (fun e t ht => ⟨ht, id⟩)
      obtain ⟨hon, hne⟩ := Option.filter_eq_some_iff.mp ht
      exact ⟨hon, fun hin => Finset.mem_erase.mpr ⟨of_decide_eq_true hne, hin⟩⟩
  | contentUnsubscribe topic =>
      obtain ⟨rfl, _⟩ := hspec
      refine h.unsubscribe (fun _ => rfl) (fun e t ht => ⟨ht, id⟩) (fun e t ht => ?_)
      obtain ⟨hon, hne⟩ := Option.filter_eq_some_iff.mp ht
      exact ⟨hon, fun hin => Finset.mem_erase.mpr ⟨of_decide_eq_true hne, hin⟩⟩
  | reset =>
      obtain ⟨rfl, _⟩ := hspec
      exact sound_nothing capacity
  | addMessage topic msg => exact h.adds hspec.1
  | getMessages topic clear => exact h.returns hspec
  | getAutoMessages topic clear => exact h.returns hspec

theorem Run.sound {calls : List (Call × Answer)} (h : Run capacity calls s) : s.Sound capacity := by
  induction h with
  | start => exact sound_nothing capacity
  | step _ hspec ih => exact ih.step hspec

end Kept

end LogosDelivery.Rest
