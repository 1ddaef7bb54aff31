import LogosDelivery.Persistency.OrderedMap

/-! # The history of SDS channels

`persistency/sds_persistency.nim`: the persistence of the SDS protocol on top of a job.  Every call
is a batch of operations on the two categories of the adapter; the channel is the first component
of every key.

The messages, their metadata and their codecs belong to nim-sds and are parameters.  Seen from
outside, the store holds for each channel its metadata and at most one message of each id
(`Channel`); the batches do to the map of the store what the calls do to the channels (`Holds`), and
the channels do not meet because no channel's key begins another channel's rows. -/

namespace LogosDelivery.Persistency

open Lib

/-- What the adapter uses of nim-sds. -/
structure Sds where
  Message : Type
  ChannelMeta : Type
  messageId : Message → ShortBytes
  lamportTimestamp : Message → ℤ
  serializeMessage : Message → Except String (List Byte)
  deserializeMessage : List Byte → Except String Message
  encode : ChannelMeta → List Byte
  decode : List Byte → Except String ChannelMeta
  /-- The metadata of `ChannelData.init()`. -/
  initMeta : ChannelMeta

/-- What is written is read back. -/
structure Sds.RoundTrips (sds : Sds) : Prop where
  message : ∀ msg payload, sds.serializeMessage msg = .ok payload →
    sds.deserializeMessage payload = .ok msg
  channelMeta : ∀ chanMeta, sds.decode (sds.encode chanMeta) = .ok chanMeta

def CatMeta : List Byte := ['s', 'd', 's', '.', 'm', 'e', 't', 'a'].map (fun c => Fin.ofNat 256 c.toNat)
def CatLog : List Byte := ['s', 'd', 's', '.', 'l', 'o', 'g'].map (fun c => Fin.ofNat 256 c.toNat)

/-- `toKey(channelId)`. -/
def chanKey (channelId : ShortBytes) : Key := toKey (.string channelId)

/-- `key(channelId, messageId)`. -/
def logKey (channelId messageId : ShortBytes) : Key :=
  key (.field (.string channelId) (.field (.string messageId) .none))

section Adapter

variable (sds : Sds)

structure HistoryUpdate where
  append : List sds.Message
  evict : List ShortBytes

structure ChannelData where
  channelMeta : sds.ChannelMeta
  messageHistory : List sds.Message

/-- The calls that write. -/
inductive Call where
  | saveChannelMeta (channelId : ShortBytes) (chanMeta : sds.ChannelMeta)
  | updateHistory (channelId : ShortBytes) (update : HistoryUpdate sds)
  | dropChannel (channelId : ShortBytes)

variable {sds}

def Call.channelId : Call sds → ShortBytes
  | .saveChannelMeta c _ => c
  | .updateHistory c _ => c
  | .dropChannel c => c

/-! ### The calls as batches -/

def saveChannelMeta (channelId : ShortBytes) (chanMeta : sds.ChannelMeta) : List TxOp :=
  [.put CatMeta (chanKey channelId) (sds.encode chanMeta)]

/-- The puts of the appended messages; the first one that cannot be serialized ends the call. -/
def appendOps (channelId : ShortBytes) : List sds.Message → Except String (List TxOp)
  | [] => .ok []
  | msg :: msgs =>
      match sds.serializeMessage msg with
      | .error e => .error ("updateHistory: encode message: " ++ e)
      | .ok payload => (appendOps channelId msgs).map
          (.put CatLog (logKey channelId (sds.messageId msg)) payload :: ·)

def evictOps (channelId : ShortBytes) (evict : List ShortBytes) : List TxOp :=
  evict.map (fun id => .delete CatLog (logKey channelId id))

def updateHistory (channelId : ShortBytes) (update : HistoryUpdate sds) :
    Except String (List TxOp) :=
  if update.append.isEmpty && update.evict.isEmpty then .ok []
  else (appendOps channelId update.append).map (· ++ evictOps channelId update.evict)

def dropChannel (channelId : ShortBytes) : List TxOp :=
  [.deletePrefix CatLog (chanKey channelId), .delete CatMeta (chanKey channelId)]

/-- The batch of a call, or its error. -/
def Call.batch : Call sds → Except String (List TxOp)
  | .saveChannelMeta c chanMeta => .ok (LogosDelivery.Persistency.saveChannelMeta c chanMeta)
  | .updateHistory c update => LogosDelivery.Persistency.updateHistory c update
  | .dropChannel c => .ok (LogosDelivery.Persistency.dropChannel c)

/-- A call on a store that is an ordered map. -/
def KvMap.call (m : KvMap) (call : Call sds) : KvMap :=
  match call.batch with
  | .error _ => m
  | .ok ops => m.applyAll ops

/-- The reads of a job. -/
structure Job where
  get : List Byte → Key → Option (List Byte)
  scanPrefix : List Byte → Key → List (Key × List Byte)

/-- The order of the history. -/
def historyOrder (msg : sds.Message) : ℤ ×ₗ List Byte :=
  toLex (sds.lamportTimestamp msg, (sds.messageId msg).1)

/-- The messages of the rows; a row that is not decodable is skipped. -/
def decodeRows (rows : List (Key × List Byte)) : List sds.Message :=
  rows.filterMap (fun row => (sds.deserializeMessage row.2).toOption)

def loadChannel (job : Job) (channelId : ShortBytes) : Except String (ChannelData sds) :=
  match job.get CatMeta (chanKey channelId) with
  | none => .ok ⟨sds.initMeta, orderBy historyOrder
      (decodeRows (job.scanPrefix CatLog (chanKey channelId)))⟩
  | some blob =>
      match sds.decode blob with
      | .error _ => .error "loadChannel: corrupt or unsupported ChannelMeta blob"
      | .ok chanMeta => .ok ⟨chanMeta, orderBy historyOrder
          (decodeRows (job.scanPrefix CatLog (chanKey channelId)))⟩

/-- The job answers from an ordered map.  Nothing scans with the empty prefix. -/
structure Job.Reads (job : Job) (m : KvMap) : Prop where
  get : ∀ category k, job.get category k = m (category, k)
  scan : ∀ category p, p ≠ [] → m.ScanOf category (prefixRange p) false (job.scanPrefix category p)

end Adapter

/-! ### The keys of a channel -/

theorem chanKey_eq (c : ShortBytes) : chanKey c = encodeBytes [] c := rfl

theorem logKey_eq (c id : ShortBytes) : logKey c id = encodeBytes [] c ++ encodeBytes [] id := by
  have h : logKey c id = encodePart (encodeBytes [] c) (.string id) := rfl
  rw [h, encodePart_eq]
  rfl

/-- A channel's key begins its own rows only. -/
theorem chanKey_initial_iff (c c' id : ShortBytes) : chanKey c <+: logKey c' id ↔ c = c' := by
  rw [chanKey_eq, logKey_eq]
  constructor
  · intro h
    have h' : encodeBytes [] c ++ [] <+: encodeBytes [] c' ++ encodeBytes [] id := by
      rwa [List.append_nil]
    exact orderCode_bytes.eq_of_append_initial h'
  · rintro rfl
    exact List.prefix_append _ _

theorem logKey_inj {c c' id id' : ShortBytes} : logKey c id = logKey c' id' ↔ c = c' ∧ id = id' := by
  constructor
  · intro h
    have hc : c = c' := (chanKey_initial_iff c c' id').mp
      (h ▸ (chanKey_initial_iff c c id).mpr rfl)
    subst hc
    rw [logKey_eq, logKey_eq, List.append_cancel_left_eq] at h
    exact ⟨rfl, orderCode_bytes.injective h⟩
  · rintro ⟨rfl, rfl⟩
    rfl

theorem chanKey_inj {c c' : ShortBytes} : chanKey c = chanKey c' ↔ c = c' :=
  ⟨fun h => orderCode_bytes.injective h, fun h => h ▸ rfl⟩

theorem catMeta_ne_catLog : CatMeta ≠ CatLog := by decide

theorem chanKey_ne_nil (c : ShortBytes) : chanKey c ≠ [] := by
  rw [chanKey_eq, encodeBytes, appendBE16_eq]
  simp [bigEndian]

/-! ### A job for every finite map -/

theorem KvMap.finite_applyAll {m : KvMap} (h : {x | m x ≠ none}.Finite) (ops : List TxOp) :
    {x | m.applyAll ops x ≠ none}.Finite := by
  induction ops generalizing m with
  | nil => exact h
  | cons op ops ih =>
      refine ih (m := m.applyOne op) ?_
      cases op with
      | put category k payload =>
          refine (h.insert (category, k)).subset fun x hx => ?_
          by_cases hk : x = (category, k)
          · exact Or.inl hk
          · exact Or.inr (by simpa [KvMap.applyOne, hk] using hx)
      | delete category k =>
          refine h.subset fun x hx => ?_
          by_cases hk : x = (category, k)
          · exact absurd (by rw [hk, KvMap.applyOne, Function.update_self]) hx
          · simpa [KvMap.applyOne, hk] using hx
      | deletePrefix category p =>
          refine h.subset fun x hx => ?_
          intro hm
          exact hx (by simp [KvMap.applyOne, hm])

theorem KvMap.exists_scanOf {m : KvMap} (h : {x | m x ≠ none}.Finite) (category : List Byte)
    (range : KeyRange) : ∃ rows, m.ScanOf category range false rows := by
  classical
  let keys : Finset Key := (h.toFinset.filter
    (fun x => x.1 = category ∧ range.contains x.2 = true)).image Prod.snd
  have hkeys : ∀ k, k ∈ keys ↔ range.contains k = true ∧ m (category, k) ≠ none := by
    intro k
    simp [keys, and_comm]
  have hdistinct : DistinctKeys (fun k : Key => k) keys.toList := keys.nodup_toList
  refine ⟨(orderBy (fun k => k) keys.toList).map (fun k => (k, (m (category, k)).getD [])), ?_, ?_⟩
  · have hasc := ascending_orderBy hdistinct
    simpa [Ascending, List.pairwise_map] using hasc
  · intro k payload
    rw [List.mem_map]
    constructor
    · rintro ⟨k', hk', heq⟩
      obtain ⟨rfl, rfl⟩ := Prod.mk.inj heq
      obtain ⟨hin, hm⟩ := (hkeys k').mp (Finset.mem_toList.mp (mem_orderBy.mp hk'))
      obtain ⟨payload, hp⟩ := Option.ne_none_iff_exists'.mp hm
      exact ⟨hin, by rw [hp]; rfl⟩
    · rintro ⟨hin, hm⟩
      refine ⟨k, mem_orderBy.mpr (Finset.mem_toList.mpr ((hkeys k).mpr ⟨hin, ?_⟩)), ?_⟩
      · rw [hm]
        exact Option.some_ne_none payload
      · rw [hm]
        rfl

theorem Job.exists_reads {m : KvMap} (h : {x | m x ≠ none}.Finite) : ∃ job : Job, job.Reads m := by
  choose scan hscan using fun (x : List Byte × Key) => m.exists_scanOf h x.1 (prefixRange x.2)
  exact ⟨⟨fun category k => m (category, k), fun category p => scan (category, p)⟩,
    fun _ _ => rfl, fun category p _ => hscan (category, p)⟩

/-! ### Channels -/

section Channels

variable {sds : Sds}

/-- What is kept of a channel: its metadata, if it was saved, and the message of each id. -/
structure Channel (sds : Sds) where
  channelMeta : Option sds.ChannelMeta
  history : ShortBytes → Option sds.Message

def Channel.empty : Channel sds := ⟨none, fun _ => none⟩

namespace Channel

/-- Another message, or none, for an id. -/
def set (ch : Channel sds) (id : ShortBytes) (o : Option sds.Message) : Channel sds :=
  ⟨ch.channelMeta, Function.update ch.history id o⟩

@[simp] theorem set_history_self (ch : Channel sds) (id : ShortBytes) (o : Option sds.Message) :
    (ch.set id o).history id = o := by
  simp [set]

@[simp] theorem set_history_of_ne {id id' : ShortBytes} (h : id' ≠ id) (ch : Channel sds)
    (o : Option sds.Message) : (ch.set id o).history id' = ch.history id' := by
  simp [set, h]

def append (ch : Channel sds) (msg : sds.Message) : Channel sds :=
  ch.set (sds.messageId msg) (some msg)

def evict (ch : Channel sds) (id : ShortBytes) : Channel sds := ch.set id none

/-- The appended messages, then the evictions. -/
def update (ch : Channel sds) (u : HistoryUpdate sds) : Channel sds :=
  u.evict.foldl evict (u.append.foldl append ch)

end Channel

/-- All the channels. -/
abbrev Channels (sds : Sds) := ShortBytes → Channel sds

/-- What a call does to the channels; an update with a message that cannot be serialized does
nothing. -/
def Channels.call (s : Channels sds) : Call sds → Channels sds
  | .saveChannelMeta c chanMeta => Function.update s c { s c with channelMeta := some chanMeta }
  | .updateHistory c u =>
      if u.append.all (fun msg => (sds.serializeMessage msg).isOk) then
        Function.update s c ((s c).update u)
      else s
  | .dropChannel c => Function.update s c Channel.empty

/-- The payload of a message. -/
def payloadOf (msg : sds.Message) : Option (List Byte) := (sds.serializeMessage msg).toOption

/-- The map of the store holds the channels: the rows of the two categories are theirs, and no
others. -/
structure Holds (m : KvMap) (s : Channels sds) : Prop where
  channelMeta : ∀ c, m (CatMeta, chanKey c) = (s c).channelMeta.map sds.encode
  log : ∀ c id, m (CatLog, logKey c id) = (s c).history id >>= payloadOf
  own : ∀ c id msg, (s c).history id = some msg → sds.messageId msg = id ∧ (payloadOf msg).isSome
  only : ∀ k payload, m (CatLog, k) = some payload → ∃ c id, k = logKey c id

theorem holds_empty : Holds (fun _ => none) (fun _ => (Channel.empty : Channel sds)) where
  channelMeta := fun _ => rfl
  log := fun _ _ => rfl
  own := fun _ _ _ h => by cases h
  only := fun _ _ h => by cases h

/-- The puts of a message and of the messages behind it. -/
theorem appendOps_cons_eq_ok {c : ShortBytes} {msg : sds.Message} {msgs : List sds.Message}
    {ops : List TxOp} (hops : appendOps c (msg :: msgs) = .ok ops) :
    ∃ payload ops', sds.serializeMessage msg = .ok payload ∧ appendOps c msgs = .ok ops' ∧
      ops = .put CatLog (logKey c (sds.messageId msg)) payload :: ops' := by
  rw [appendOps] at hops
  cases hpay : sds.serializeMessage msg with
  | error e => simp [hpay] at hops
  | ok payload =>
      cases hrec : appendOps c msgs with
      | error e => simp [hpay, hrec, Except.map] at hops
      | ok ops' =>
          refine ⟨payload, ops', rfl, rfl, ?_⟩
          simpa [hpay, hrec, Except.map] using hops.symm

namespace Holds

variable {m : KvMap} {s : Channels sds}

/-- A row of the log is written or taken out, and the channel's message of that id with it. -/
theorem setLog (h : Holds m s) (c id : ShortBytes) {o : Option sds.Message}
    (ho : ∀ msg, o = some msg → sds.messageId msg = id ∧ (payloadOf msg).isSome) :
    Holds (Function.update m (CatLog, logKey c id) (o >>= payloadOf))
      (Function.update s c ((s c).set id o)) := by
  refine ⟨fun c' => ?_, fun c' id' => ?_, fun c' id' msg hmsg => ?_, fun k payload hk => ?_⟩
  · rw [Function.update_of_ne (fun he => catMeta_ne_catLog (Prod.mk.inj he).1), h.channelMeta]
    by_cases hc : c' = c
    · rw [hc, Function.update_self]
      rfl
    · rw [Function.update_of_ne hc]
  · by_cases hc : c' = c
    · subst hc
      rw [Function.update_self]
      by_cases hid : id' = id
      · rw [hid, Function.update_self, Channel.set_history_self]
      · have hne : (CatLog, logKey c' id') ≠ (CatLog, logKey c' id) :=
          fun he => hid (logKey_inj.mp (Prod.mk.inj he).2).2
        rw [Function.update_of_ne hne, Channel.set_history_of_ne hid]
        exact h.log c' id'
    · have hne : (CatLog, logKey c' id') ≠ (CatLog, logKey c id) :=
        fun he => hc (logKey_inj.mp (Prod.mk.inj he).2).1
      rw [Function.update_of_ne hne, Function.update_of_ne hc]
      exact h.log c' id'
  · by_cases hc : c' = c
    · subst hc
      rw [Function.update_self] at hmsg
      by_cases hid : id' = id
      · subst hid
        rw [Channel.set_history_self] at hmsg
        exact ho msg hmsg
      · rw [Channel.set_history_of_ne hid] at hmsg
        exact h.own c' id' msg hmsg
    · rw [Function.update_of_ne hc] at hmsg
      exact h.own c' id' msg hmsg
  · by_cases hne : k = logKey c id
    · exact ⟨c, id, hne⟩
    · rw [Function.update_of_ne (fun he => hne (Prod.mk.inj he).2)] at hk
      exact h.only k payload hk

theorem saveChannelMeta (h : Holds m s) (c : ShortBytes) (chanMeta : sds.ChannelMeta) :
    Holds (Function.update m (CatMeta, chanKey c) (some (sds.encode chanMeta)))
      (Function.update s c { s c with channelMeta := some chanMeta }) := by
  have hlog : ∀ k, Function.update m (CatMeta, chanKey c) (some (sds.encode chanMeta)) (CatLog, k) =
      m (CatLog, k) := fun k =>
    Function.update_of_ne (fun he => catMeta_ne_catLog (Prod.mk.inj he).1.symm) _ _
  have hhist : ∀ c', (Function.update s c { s c with channelMeta := some chanMeta } c').history =
      (s c').history := by
    intro c'
    by_cases hc : c' = c
    · rw [hc, Function.update_self]
    · rw [Function.update_of_ne hc]
  refine ⟨fun c' => ?_, fun c' id => ?_, fun c' id msg hmsg => ?_, fun k payload hk => ?_⟩
  · by_cases hc : c' = c
    · rw [hc, Function.update_self, Function.update_self]
      rfl
    · have hne : (CatMeta, chanKey c') ≠ (CatMeta, chanKey c) :=
        fun he => hc (chanKey_inj.mp (Prod.mk.inj he).2)
      rw [Function.update_of_ne hne, Function.update_of_ne hc]
      exact h.channelMeta c'
  · rw [hlog, hhist]
    exact h.log c' id
  · rw [hhist] at hmsg
    exact h.own c' id msg hmsg
  · rw [hlog] at hk
    exact h.only k payload hk

theorem dropChannel (h : Holds m s) (c : ShortBytes) :
    Holds (m.applyAll (LogosDelivery.Persistency.dropChannel c))
      (Function.update s c Channel.empty) := by
  have hlog : ∀ k, m.applyAll (LogosDelivery.Persistency.dropChannel c) (CatLog, k) =
      if chanKey c <+: k then none else m (CatLog, k) := by
    intro k
    simp only [KvMap.applyAll, LogosDelivery.Persistency.dropChannel, List.foldl_cons,
      List.foldl_nil, KvMap.applyOne]
    rw [Function.update_of_ne (fun he => catMeta_ne_catLog (Prod.mk.inj he).1.symm)]
    simp
  refine ⟨fun c' => ?_, fun c' id => ?_, fun c' id msg hmsg => ?_, fun k payload hk => ?_⟩
  · simp only [KvMap.applyAll, LogosDelivery.Persistency.dropChannel, List.foldl_cons,
      List.foldl_nil, KvMap.applyOne]
    by_cases hc : c' = c
    · rw [hc, Function.update_self, Function.update_self]
      rfl
    · have hne : (CatMeta, chanKey c') ≠ (CatMeta, chanKey c) :=
        fun he => hc (chanKey_inj.mp (Prod.mk.inj he).2)
      rw [Function.update_of_ne hne, Function.update_of_ne hc,
        if_neg (fun he => catMeta_ne_catLog he.1)]
      exact h.channelMeta c'
  · rw [hlog]
    by_cases hc : c' = c
    · rw [hc, if_pos ((chanKey_initial_iff c c id).mpr rfl), Function.update_self]
      rfl
    · rw [if_neg (fun he => hc ((chanKey_initial_iff c c' id).mp he).symm),
        Function.update_of_ne hc]
      exact h.log c' id
  · by_cases hc : c' = c
    · rw [hc, Function.update_self] at hmsg
      cases hmsg
    · rw [Function.update_of_ne hc] at hmsg
      exact h.own c' id msg hmsg
  · rw [hlog] at hk
    split_ifs at hk
    exact h.only k payload hk

/-! ### Batches -/

theorem evictAll (h : Holds m s) (c : ShortBytes) (ids : List ShortBytes) :
    Holds (m.applyAll (evictOps c ids)) (Function.update s c (ids.foldl Channel.evict (s c))) := by
  induction ids generalizing m s with
  | nil => simpa [evictOps, KvMap.applyAll] using h
  | cons id ids ih =>
      have hone := h.setLog c id (o := none) (fun msg he => by cases he)
      have hrest := ih hone
      rw [Function.update_self, Function.update_idem] at hrest
      exact hrest

/-- The puts succeed together or not at all. -/
theorem appendAll (h : Holds m s) (c : ShortBytes) {msgs : List sds.Message} {ops : List TxOp}
    (hops : appendOps c msgs = .ok ops) :
    Holds (m.applyAll ops) (Function.update s c (msgs.foldl Channel.append (s c))) := by
  induction msgs generalizing m s ops with
  | nil =>
      obtain rfl : [] = ops := by simpa [appendOps] using hops
      simpa [KvMap.applyAll] using h
  | cons msg msgs ih =>
      obtain ⟨payload, ops', hpay, hrec, rfl⟩ := appendOps_cons_eq_ok hops
      have hp : payloadOf msg = some payload := by rw [payloadOf, hpay]; rfl
      have hone := h.setLog c (sds.messageId msg) (o := some msg) (fun msg' he => by
        obtain rfl := Option.some.inj he
        exact ⟨rfl, by rw [hp]; rfl⟩)
      have hrest := ih hone hrec
      rw [Function.update_self, Function.update_idem, Option.bind_eq_bind, Option.bind_some,
        hp] at hrest
      exact hrest

end Holds

theorem isOk_appendOps (c : ShortBytes) (msgs : List sds.Message) :
    (∃ ops, appendOps c msgs = .ok ops) ↔
      msgs.all (fun msg => (sds.serializeMessage msg).isOk) = true := by
  induction msgs with
  | nil => simp [appendOps]
  | cons msg msgs ih =>
      rw [appendOps, List.all_cons, Bool.and_eq_true, ← ih]
      cases hpay : sds.serializeMessage msg with
      | error e => simp [Except.isOk, Except.toBool]
      | ok payload =>
          cases hrec : appendOps c msgs with
          | error e => simp [Except.map]
          | ok ops => simp [Except.map, Except.isOk, Except.toBool]

/-- The batch of an update. -/
theorem updateHistory_eq (c : ShortBytes) (u : HistoryUpdate sds) :
    updateHistory c u = (appendOps c u.append).map (· ++ evictOps c u.evict) := by
  rw [updateHistory]
  split_ifs with h
  · rw [Bool.and_eq_true, List.isEmpty_iff, List.isEmpty_iff] at h
    rw [h.1, h.2]
    rfl
  · rfl

/-- A call does to the store what it does to the channels. -/
theorem Holds.call {m : KvMap} {s : Channels sds} (h : Holds m s) (call : Call sds) :
    Holds (m.call call) (s.call call) := by
  cases call with
  | saveChannelMeta c chanMeta => exact h.saveChannelMeta c chanMeta
  | dropChannel c => exact h.dropChannel c
  | updateHistory c u =>
      rw [KvMap.call, Call.batch, Channels.call, updateHistory_eq]
      cases hops : appendOps c u.append with
      | error e =>
          have hnot := mt (isOk_appendOps c u.append).mpr (by rw [hops]; simp)
          rw [if_neg hnot]
          exact h
      | ok ops =>
          rw [if_pos ((isOk_appendOps c u.append).mp ⟨ops, hops⟩)]
          have hall := (h.appendAll c hops).evictAll c u.evict
          rw [Function.update_self, Function.update_idem] at hall
          have hsplit : m.applyAll (ops ++ evictOps c u.evict) =
              (m.applyAll ops).applyAll (evictOps c u.evict) := List.foldl_append
          rw [← hsplit] at hall
          exact hall

/-! ### Loading -/

section Load

variable {m : KvMap} {s : Channels sds} {job : Job}

/-- The rows that are scanned for a channel are those of its messages. -/
theorem Holds.mem_scan (h : Holds m s) (hjob : job.Reads m) (c : ShortBytes) (k : Key)
    (payload : List Byte) : (k, payload) ∈ job.scanPrefix CatLog (chanKey c) ↔
      ∃ id msg, k = logKey c id ∧ (s c).history id = some msg ∧ payloadOf msg = some payload := by
  rw [(hjob.scan CatLog (chanKey c) (chanKey_ne_nil c)).mem_iff, contains_prefixRange]
  constructor
  · rintro ⟨hk, hm⟩
    obtain ⟨c', id, rfl⟩ := h.only k payload hm
    obtain rfl := (chanKey_initial_iff c c' id).mp hk
    rw [h.log] at hm
    obtain ⟨msg, hmsg, hp⟩ := Option.bind_eq_some_iff.mp hm
    exact ⟨id, msg, rfl, hmsg, hp⟩
  · rintro ⟨id, msg, rfl, hmsg, hp⟩
    refine ⟨(chanKey_initial_iff c c id).mpr rfl, ?_⟩
    rw [h.log, hmsg]
    exact hp

theorem toOption_eq_some {α : Type} {x : Except String α} {a : α} :
    x.toOption = some a ↔ x = .ok a := by
  cases x with
  | error e => simp [Except.toOption]
  | ok b => simp [Except.toOption]

/-- The message of a scanned row. -/
theorem Holds.decode_scan (h : Holds m s) (hcodec : sds.RoundTrips) (hjob : job.Reads m)
    (c : ShortBytes) {row : Key × List Byte} (hrow : row ∈ job.scanPrefix CatLog (chanKey c)) :
    ∃ msg, sds.deserializeMessage row.2 = .ok msg ∧ row.1 = logKey c (sds.messageId msg) ∧
      (s c).history (sds.messageId msg) = some msg := by
  obtain ⟨id, msg, hk, hmsg, hp⟩ := (h.mem_scan hjob c row.1 row.2).mp hrow
  obtain ⟨rfl, -⟩ := h.own c id msg hmsg
  exact ⟨msg, hcodec.message msg row.2 (toOption_eq_some.mp hp), hk, hmsg⟩

theorem Holds.mem_decodeRows (h : Holds m s) (hcodec : sds.RoundTrips) (hjob : job.Reads m)
    (c : ShortBytes) (msg : sds.Message) :
    msg ∈ decodeRows (job.scanPrefix CatLog (chanKey c)) ↔
      (s c).history (sds.messageId msg) = some msg := by
  rw [decodeRows, List.mem_filterMap]
  constructor
  · rintro ⟨row, hrow, hdec⟩
    obtain ⟨msg', hdec', -, hmsg⟩ := h.decode_scan hcodec hjob c hrow
    rw [hdec'] at hdec
    obtain rfl := Option.some.inj hdec
    exact hmsg
  · intro hmsg
    obtain ⟨payload, hp⟩ := Option.isSome_iff_exists.mp (h.own c _ msg hmsg).2
    refine ⟨(logKey c (sds.messageId msg), payload), ?_, ?_⟩
    · exact (h.mem_scan hjob c _ payload).mpr ⟨_, msg, rfl, hmsg, hp⟩
    · exact toOption_eq_some.mpr (hcodec.message msg payload (toOption_eq_some.mp hp))

/-- No two messages of a channel have one id, so they are in one place of the order only. -/
theorem Holds.distinct_decodeRows (h : Holds m s) (hcodec : sds.RoundTrips) (hjob : job.Reads m)
    (c : ShortBytes) : DistinctKeys (@historyOrder sds)
      (decodeRows (job.scanPrefix CatLog (chanKey c))) := by
  have hasc := (hjob.scan CatLog (chanKey c) (chanKey_ne_nil c)).ordered
  rw [if_neg Bool.false_ne_true] at hasc
  rw [DistinctKeys, decodeRows, List.pairwise_filterMap]
  refine List.Pairwise.imp_of_mem ?_ hasc
  intro row row' hrow hrow' hlt msg hdec msg' hdec' heq
  obtain ⟨_, hd, hk, -⟩ := h.decode_scan hcodec hjob c hrow
  obtain ⟨_, hd', hk', -⟩ := h.decode_scan hcodec hjob c hrow'
  rw [hd] at hdec
  rw [hd'] at hdec'
  obtain rfl := Option.some.inj hdec
  obtain rfl := Option.some.inj hdec'
  have hid : sds.messageId _ = sds.messageId _ := Subtype.ext (Prod.mk.inj (toLex.injective heq)).2
  rw [hk, hk', hid] at hlt
  exact lt_irrefl _ hlt

/-- What `loadChannel` returns of a store that holds the channels. -/
theorem Holds.loadChannel (h : Holds m s) (hcodec : sds.RoundTrips) (hjob : job.Reads m)
    (c : ShortBytes) : ∃ msgs,
      LogosDelivery.Persistency.loadChannel job c =
        .ok ⟨(s c).channelMeta.getD sds.initMeta, msgs⟩ ∧
      Ascending historyOrder msgs ∧
      ∀ msg, msg ∈ msgs ↔ (s c).history (sds.messageId msg) = some msg := by
  refine ⟨_, ?_, ascending_orderBy (h.distinct_decodeRows hcodec hjob c), fun msg => ?_⟩
  · rw [LogosDelivery.Persistency.loadChannel, hjob.get, h.channelMeta]
    cases (s c).channelMeta with
    | none => rfl
    | some chanMeta => simp [hcodec.channelMeta]
  · rw [mem_orderBy]
    exact h.mem_decodeRows hcodec hjob c msg

end Load

/-! ### What a run leaves of a channel -/

/-- What a call does to the message of one id: the messages put in its place, and `none` where it is
removed. -/
def Call.touches (c id : ShortBytes) : Call sds → List (Option sds.Message)
  | .saveChannelMeta _ _ => []
  | .updateHistory c' u =>
      if c' = c ∧ u.append.all (fun msg => (sds.serializeMessage msg).isOk) then
        (u.append.filter (fun msg => sds.messageId msg = id)).map some ++
          (u.evict.filter (fun id' => id' = id)).map (fun _ => none)
      else []
  | .dropChannel c' => if c' = c then [none] else []

/-- What a call does to the metadata. -/
def Call.touchesMeta (c : ShortBytes) : Call sds → List (Option sds.ChannelMeta)
  | .saveChannelMeta c' chanMeta => if c' = c then [some chanMeta] else []
  | .updateHistory _ _ => []
  | .dropChannel c' => if c' = c then [none] else []

/-- The message was appended for the channel, and its id neither evicted nor appended again nor the
channel dropped since. -/
def Kept (calls : List (Call sds)) (c : ShortBytes) (msg : sds.Message) : Prop :=
  (calls.flatMap (Call.touches c (sds.messageId msg))).getLast? = some (some msg)

/-- The last metadata saved for the channel, if it was not dropped since. -/
def savedMeta (calls : List (Call sds)) (c : ShortBytes) : Option sds.ChannelMeta :=
  (calls.flatMap (Call.touchesMeta c)).getLast?.getD none

theorem getLast?_append_getD {α : Type} (l l' : List α) (a : α) :
    (l ++ l').getLast?.getD a = l'.getLast?.getD (l.getLast?.getD a) := by
  rw [List.getLast?_append]
  cases l'.getLast? <;> rfl

theorem history_append (ch : Channel sds) (id : ShortBytes) (msgs : List sds.Message) :
    (msgs.foldl Channel.append ch).history id =
      ((msgs.filter (fun msg => sds.messageId msg = id)).map some).getLast?.getD (ch.history id) := by
  induction msgs generalizing ch with
  | nil => rfl
  | cons msg msgs ih =>
      rw [List.foldl_cons, ih, Channel.append, List.filter_cons]
      by_cases hid : sds.messageId msg = id
      · subst hid
        rw [Channel.set_history_self, if_pos (by simp), List.map_cons, List.getLast?_cons]
        rfl
      · rw [Channel.set_history_of_ne (Ne.symm hid), if_neg (by simpa using hid)]

theorem history_evict (ch : Channel sds) (id : ShortBytes) (ids : List ShortBytes) :
    (ids.foldl Channel.evict ch).history id =
      ((ids.filter (fun id' => id' = id)).map (fun _ => none)).getLast?.getD (ch.history id) := by
  induction ids generalizing ch with
  | nil => rfl
  | cons id' ids ih =>
      rw [List.foldl_cons, ih, Channel.evict, List.filter_cons]
      by_cases hid : id' = id
      · subst hid
        rw [Channel.set_history_self, if_pos (by simp), List.map_cons, List.getLast?_cons]
        rfl
      · rw [Channel.set_history_of_ne (Ne.symm hid), if_neg (by simpa using hid)]

theorem meta_evict (ch : Channel sds) (ids : List ShortBytes) :
    (ids.foldl Channel.evict ch).channelMeta = ch.channelMeta := by
  induction ids generalizing ch with
  | nil => rfl
  | cons id ids ih => exact ih _

theorem meta_append (ch : Channel sds) (msgs : List sds.Message) :
    (msgs.foldl Channel.append ch).channelMeta = ch.channelMeta := by
  induction msgs generalizing ch with
  | nil => rfl
  | cons msg msgs ih => exact ih _

/-- A call on another channel leaves the channel as it is. -/
theorem call_of_ne (s : Channels sds) {call : Call sds} {c : ShortBytes} (h : call.channelId ≠ c) :
    s.call call c = s c := by
  cases call with
  | saveChannelMeta c' chanMeta => exact Function.update_of_ne (Ne.symm h) _ _
  | dropChannel c' => exact Function.update_of_ne (Ne.symm h) _ _
  | updateHistory c' u =>
      rw [Channels.call]
      split_ifs
      · exact Function.update_of_ne (Ne.symm h) _ _
      · rfl

theorem touches_of_ne {call : Call sds} {c : ShortBytes} (h : call.channelId ≠ c) (id : ShortBytes) :
    call.touches c id = [] ∧ call.touchesMeta c = [] := by
  cases call with
  | saveChannelMeta c' chanMeta => exact ⟨rfl, if_neg h⟩
  | dropChannel c' => exact ⟨if_neg h, if_neg h⟩
  | updateHistory c' u => exact ⟨if_neg (fun he => h he.1), rfl⟩

theorem history_call (s : Channels sds) (call : Call sds) (c id : ShortBytes) :
    (s.call call c).history id = (call.touches c id).getLast?.getD ((s c).history id) := by
  by_cases hc : call.channelId = c
  · subst hc
    cases call with
    | saveChannelMeta c chanMeta => simp [Channels.call, Call.touches, Call.channelId]
    | dropChannel c => simp [Channels.call, Call.touches, Call.channelId, Channel.empty]
    | updateHistory c u =>
        simp only [Channels.call, Call.touches, Call.channelId, true_and]
        split_ifs with hok
        · rw [Function.update_self, Channel.update, history_evict, history_append,
            getLast?_append_getD]
        · rfl
  · rw [call_of_ne s hc, (touches_of_ne hc id).1]
    rfl

theorem meta_call (s : Channels sds) (call : Call sds) (c : ShortBytes) :
    (s.call call c).channelMeta = (call.touchesMeta c).getLast?.getD (s c).channelMeta := by
  by_cases hc : call.channelId = c
  · subst hc
    cases call with
    | saveChannelMeta c chanMeta => simp [Channels.call, Call.touchesMeta, Call.channelId]
    | dropChannel c => simp [Channels.call, Call.touchesMeta, Call.channelId, Channel.empty]
    | updateHistory c u =>
        simp only [Channels.call, Call.touchesMeta, Call.channelId]
        split_ifs with hok
        · rw [Function.update_self, Channel.update, meta_evict, meta_append]
          rfl
        · rfl
  · rw [call_of_ne s hc, (touches_of_ne hc c).2]
    rfl

/-- The channels after a run. -/
theorem run_channels (calls : List (Call sds)) (c : ShortBytes) :
    (run Channels.call (fun _ => Channel.empty) calls c).channelMeta = savedMeta calls c ∧
      ∀ id, (run Channels.call (fun _ => Channel.empty) calls c).history id =
        (calls.flatMap (Call.touches c id)).getLast?.getD none := by
  induction calls using List.reverseRecOn with
  | nil => exact ⟨rfl, fun _ => rfl⟩
  | append_singleton calls call ih =>
      rw [run_concat, savedMeta, List.flatMap_append, List.flatMap_singleton]
      refine ⟨?_, fun id => ?_⟩
      · rw [meta_call, ih.1, savedMeta, getLast?_append_getD]
      · rw [history_call, ih.2, List.flatMap_append, List.flatMap_singleton, getLast?_append_getD]

theorem kept_iff (calls : List (Call sds)) (c : ShortBytes) (msg : sds.Message) :
    Kept calls c msg ↔
      (run Channels.call (fun _ => Channel.empty) calls c).history (sds.messageId msg) =
        some msg := by
  rw [(run_channels calls c).2, Kept]
  cases (calls.flatMap (Call.touches c (sds.messageId msg))).getLast? with
  | none => simp
  | some o => simp

theorem run_holds (calls : List (Call sds)) : Holds (run KvMap.call (fun _ => none) calls)
    (run Channels.call (fun _ => Channel.empty) calls) := by
  induction calls using List.reverseRecOn with
  | nil => exact holds_empty
  | append_singleton calls call ih =>
      rw [run_concat, run_concat]
      exact ih.call call

/-- The store after a run of calls has finitely many rows, so that a job can answer from it. -/
theorem finite_run (calls : List (Call sds)) :
    {x | run KvMap.call (fun _ => none) calls x ≠ none}.Finite := by
  induction calls using List.reverseRecOn with
  | nil => simp [run]
  | append_singleton calls call ih =>
      rw [run_concat, KvMap.call]
      cases call.batch with
      | error e => exact ih
      | ok ops => exact KvMap.finite_applyAll ih ops

/-- **The history of a channel is exact.**  After every run of calls, and however the job answers
from the store, `loadChannel` returns the metadata saved last and the messages kept, each once and
in order; and a call on another channel changes nothing of it. -/
theorem loadChannel_exact (hcodec : sds.RoundTrips) (calls : List (Call sds)) (c : ShortBytes) :
    (∃ job : Job, job.Reads (run KvMap.call (fun _ => none) calls)) ∧
    (∀ job : Job, job.Reads (run KvMap.call (fun _ => none) calls) → ∃ msgs,
      loadChannel job c = .ok ⟨(savedMeta calls c).getD sds.initMeta, msgs⟩ ∧
      Ascending historyOrder msgs ∧ ∀ msg, msg ∈ msgs ↔ Kept calls c msg) ∧
    ∀ (call : Call sds) (job job' : Job), call.channelId ≠ c →
      job.Reads (run KvMap.call (fun _ => none) calls) →
      job'.Reads (run KvMap.call (fun _ => none) (calls ++ [call])) →
      @loadChannel sds job' c = loadChannel job c := by
  refine ⟨Job.exists_reads (finite_run calls), fun job hjob => ?_, ?_⟩
  · obtain ⟨msgs, hload, hasc, hmem⟩ := (run_holds calls).loadChannel hcodec hjob c
    rw [(run_channels calls c).1] at hload
    exact ⟨msgs, hload, hasc, fun msg => (hmem msg).trans (kept_iff calls c msg).symm⟩
  · intro call job job' hne hjob hjob'
    obtain ⟨msgs, hload, hasc, hmem⟩ := (run_holds calls).loadChannel hcodec hjob c
    obtain ⟨msgs', hload', hasc', hmem'⟩ :=
      (run_holds (calls ++ [call])).loadChannel hcodec hjob' c
    rw [run_concat, call_of_ne _ hne] at hload' hmem'
    have hsame : msgs' = msgs :=
      hasc'.eq_of_mem_iff hasc (fun msg => (hmem' msg).trans (hmem msg).symm)
    rw [hload, hload', hsame]

/-- Messages of a short id and a small timestamp as two protobuf fields, and metadata of one. -/
def smallSds : Sds where
  Message := {id : List Byte // id.length < 128} × Fin 128
  ChannelMeta := Fin 128
  messageId := fun msg => ⟨msg.1.1, by have := msg.1.2; unfold StringLenMax; omega⟩
  lamportTimestamp := fun msg => (msg.2.val : ℤ)
  serializeMessage := fun msg =>
    .ok (0x0A :: ⟨msg.1.1.length, by have := msg.1.2; omega⟩ :: msg.1.1 ++
      [0x10, Fin.castLE (by decide) msg.2])
  deserializeMessage := fun payload =>
    match payload with
    | 0x0A :: len :: rest =>
        match rest.drop len.val with
        | [0x10, lamport] =>
            if h : (rest.take len.val).length < 128 ∧ lamport.val < 128 then
              .ok (⟨rest.take len.val, h.1⟩, ⟨lamport.val, h.2⟩)
            else .error "malformed"
        | _ => .error "malformed"
    | _ => .error "malformed"
  encode := fun chanMeta => [0x08, Fin.castLE (by decide) chanMeta]
  decode := fun payload =>
    match payload with
    | [0x08, v] => if h : v.val < 128 then .ok ⟨v.val, h⟩ else .error "malformed"
    | _ => .error "malformed"
  initMeta := ⟨0, by decide⟩

theorem smallSds_roundTrips : smallSds.RoundTrips where
  message := by
    rintro ⟨⟨id, hid⟩, lamport⟩ payload hpay
    obtain rfl := Except.ok.inj hpay
    simp [smallSds, hid]
  channelMeta := fun chanMeta => dif_pos (Fin.isLt chanMeta)

/-- The empty channel id begins every other one: its messages stay when the channel `[0]` is
dropped. -/
theorem loadChannel_emptyId :
    smallSds.RoundTrips ∧ ∃ job : Job, ∃ msgs,
      @loadChannel smallSds job ⟨[], by decide⟩ = .ok ⟨smallSds.initMeta, msgs⟩ ∧
      ((⟨[7], by decide⟩, 3) : smallSds.Message) ∈ msgs := by
  have h := loadChannel_exact smallSds_roundTrips
    [.updateHistory ⟨[], by decide⟩ ⟨[(⟨[7], by decide⟩, 3)], []⟩, .dropChannel ⟨[0], by decide⟩]
    ⟨[], by decide⟩
  obtain ⟨⟨job, hjob⟩, hload, -⟩ := h
  obtain ⟨msgs, hres, -, hmem⟩ := hload job hjob
  refine ⟨smallSds_roundTrips, job, msgs, hres, (hmem _).mpr ?_⟩
  rfl

/-! ### On the SQLite backend -/

/-- A call on the backend. -/
def Db.call (db : Db) (call : Call sds) : Db :=
  match call.batch with
  | .error _ => db
  | .ok ops => (applyOps execStmt db ops).2

/-- The reads of a job on the backend. -/
def Db.job (db : Db) : Job :=
  ⟨db.getOne, fun category p => db.scanRange category (prefixRange p) false⟩

theorem logKey_ne_nil (c id : ShortBytes) : logKey c id ≠ [] := by
  rw [logKey_eq, ← chanKey_eq]
  exact List.append_ne_nil_of_left_ne_nil (chanKey_ne_nil c) _

/-- The backend takes the operation as the map does. -/
def TxOp.Safe (op : TxOp) : Prop := op.Accepted ∧ op.deletesAll = false

section Payloads

variable (hmsg : ∀ (msg : sds.Message) (payload : List Byte), sds.serializeMessage msg = .ok payload →
  payload ≠ [])
variable (hmeta : ∀ chanMeta : sds.ChannelMeta, sds.encode chanMeta ≠ [])
include hmsg

theorem safe_appendOps (c : ShortBytes) {msgs : List sds.Message} {ops : List TxOp}
    (hops : appendOps c msgs = .ok ops) : ∀ op ∈ ops, op.Safe := by
  induction msgs generalizing ops with
  | nil =>
      obtain rfl : [] = ops := by simpa [appendOps] using hops
      simp
  | cons msg msgs ih =>
      obtain ⟨payload, ops', hpay, hrec, rfl⟩ := appendOps_cons_eq_ok hops
      intro op hop
      rcases List.mem_cons.mp hop with rfl | hop
      · exact ⟨⟨by decide, logKey_ne_nil c _, hmsg msg payload hpay⟩, rfl⟩
      · exact ih hrec op hop

include hmeta

/-- The adapter does not run into the binding of the empty byte string. -/
theorem safe_batch {call : Call sds} {ops : List TxOp} (hops : call.batch = .ok ops) :
    ∀ op ∈ ops, op.Safe := by
  cases call with
  | saveChannelMeta c chanMeta =>
      obtain rfl : saveChannelMeta c chanMeta = ops := by simpa [Call.batch] using hops
      intro op hop
      rw [List.mem_singleton.mp hop]
      exact ⟨⟨by decide, chanKey_ne_nil c, hmeta chanMeta⟩, rfl⟩
  | dropChannel c =>
      obtain rfl : dropChannel c = ops := by simpa [Call.batch] using hops
      intro op hop
      rcases List.mem_cons.mp hop with rfl | hop
      · exact ⟨trivial, decide_eq_false (chanKey_ne_nil c)⟩
      · rw [List.mem_singleton.mp hop]
        exact ⟨trivial, rfl⟩
  | updateHistory c u =>
      rw [Call.batch, updateHistory_eq] at hops
      cases happ : appendOps c u.append with
      | error e => simp [happ, Except.map] at hops
      | ok ops' =>
          obtain rfl : ops' ++ evictOps c u.evict = ops := by
            simpa [happ, Except.map] using hops
          intro op hop
          rcases List.mem_append.mp hop with hop | hop
          · exact safe_appendOps hmsg c happ op hop
          · obtain ⟨id, -, rfl⟩ := List.mem_map.mp hop
            exact ⟨trivial, rfl⟩

/-- The rows of the backend represent the map of the store after every run. -/
theorem run_represents (calls : List (Call sds)) : (run Db.call {} calls).saved = none ∧
    Represents (run Db.call {} calls).rows (run KvMap.call (fun _ => none) calls) := by
  induction calls using List.reverseRecOn with
  | nil => exact ⟨rfl, Represents.nil⟩
  | append_singleton calls call ih =>
      rw [run_concat, run_concat, Db.call, KvMap.call]
      cases hops : call.batch with
      | error e => exact ih
      | ok ops =>
          have hsafe := safe_batch hmsg hmeta hops
          obtain ⟨rows, hres, hrep⟩ := applyOps_accepted ih.2 ih.1 (fun op hop => (hsafe op hop).1)
          have heffective : effective ops = ops :=
            List.filter_eq_self.mpr (fun op hop => by rw [(hsafe op hop).2]; rfl)
          rw [heffective] at hrep
          simp only [hres]
          exact ⟨trivial, hrep⟩

/-- The backend answers the adapter as an ordered map, when no payload is empty. -/
theorem backend_reads (calls : List (Call sds)) :
    (run Db.call {} calls).job.Reads (run KvMap.call (fun _ => none) calls) := by
  obtain ⟨-, hrep⟩ := run_represents hmsg hmeta calls
  refine ⟨hrep.getOne, fun category p hp => ?_⟩
  apply (hrep.scanOf_iff category (prefixRange p) false).mpr
  intro hstart
  rw [prefixRange_eq] at hstart
  exact absurd hstart hp

end Payloads

end Channels

end LogosDelivery.Persistency
