import LogosDelivery.Archive.Archive
import LogosDelivery.Lib.ByteOrder
import LogosDelivery.Lib.Runs

/-! # Messages that enter the archive

Three paths lead to `put`: a relayed message (`handleMessage` of `waku_archive/archive.nim`), a
payload of a sync peer (the handler of `waku_store_sync/transfer.nim`) and an answer of a Store peer
to the resume (`waku_store/resume.nim`).  The first two hash the message; the third hands on the
hash that the peer wrote beside it, so a row is keyed by its own hash in just the runs in which the
peers wrote the right one (`keyed_iff`, `not_keyed_twice`).

SHA-256 and the driver are parameters. -/

namespace LogosDelivery.Archive

open Lib
open StoreSync (Byte WakuMessageHash PubsubTopic ContentTopic SyncID constFingerprint)

/-! ### Messages -/

/-- A `WakuMessage` with the fields that the archive does not keep. -/
structure IncomingMessage extends WakuMessage where
  proof : List Byte
  ephemeral : Bool

def toBytes (text : String) : List Byte := text.toUTF8.toList.map UInt8.toFin

/-- `toBytesBE(uint64(timestamp))`. -/
def timestampBytes (timestamp : Timestamp) : List Byte := bigEndian 8 (timestamp % 2 ^ 64).toNat

def computeMessageHash (sha256 : List Byte → WakuMessageHash) (pubsubTopic : PubsubTopic)
    (msg : WakuMessage) : WakuMessageHash :=
  sha256 (toBytes pubsubTopic ++ msg.payload ++ toBytes msg.contentTopic ++ msg.msgMeta ++
    timestampBytes msg.timestamp)

def invalidMessageOld : String := "invalid_message_too_old"
def invalidMessageFuture : String := "invalid_message_future_timestamp"

/-- 20 seconds. -/
def MaxMessageTimestampVariance : Timestamp := 20 * 10 ^ 9

def validate (now : Timestamp) (msg : WakuMessage) : Except String Unit :=
  if msg.timestamp < now - MaxMessageTimestampVariance then .error invalidMessageOld
  else if now + MaxMessageTimestampVariance < msg.timestamp then .error invalidMessageFuture
  else .ok ()

/-! ### The driver -/

/-- An archive driver.  A row that it has was put, and it answers `false` only if it has a row of the
same hash. -/
structure ArchiveDriver (δ : Type) where
  empty : δ
  rows : δ → List ArchiveRow
  put : δ → ArchiveRow → δ × Except String Bool
  rows_empty : rows empty = []
  rows_put : ∀ db row, rows (put db row).1 ⊆ row :: rows db
  of_duplicate : ∀ db row, (put db row).2 = .ok false → ∃ row' ∈ rows db, row'.hash = row.hash

local instance decidableHash (hash : WakuMessageHash) (hashes : List WakuMessageHash) :
    Decidable (hash ∈ hashes) :=
  decidable_of_iff (∃ hash' ∈ hashes, hash = hash') exists_eq_right'

/-- `sqlite3_errstr` and `sqlite3_errmsg` of a row that has no value in a column. -/
def notNullFailed (column : String) : String :=
  "constraint failed NOT NULL constraint failed: Message." ++ column

/-- `INSERT INTO messages … ON CONFLICT DO NOTHING`, with the hash as the primary key.  An empty topic
is bound as `NULL`, which its column refuses. -/
def sqliteDriver : ArchiveDriver (List ArchiveRow) where
  empty := []
  rows db := db
  put db row :=
    if row.pubsubTopic = "" then (db, .error (notNullFailed "pubsubTopic"))
    else if row.message.contentTopic = "" then (db, .error (notNullFailed "contentTopic"))
    else if row.hash ∈ db.map ArchiveRow.hash then (db, .ok false)
    else (db ++ [row], .ok true)
  rows_empty := rfl
  rows_put db row := by
    split_ifs
    · exact List.subset_cons_self row db
    · exact List.subset_cons_self row db
    · exact List.subset_cons_self row db
    · intro row' hrow'
      simpa [or_comm] using hrow'
  of_duplicate db row h := by
    split_ifs at h with _ _ hmem
    · exact List.mem_map.1 hmem
    · cases h

structure WakuArchive (δ : Type) where
  driver : ArchiveDriver δ
  validator : Timestamp → WakuMessage → Except String Unit := validate

/-! ### The resume and the transfer -/

structure StoreQueryRequest where
  includeData : Bool := false
  startTime : Option Timestamp := none
  endTime : Option Timestamp := none
  paginationLimit : Option ℕ := none
  paginationCursor : Option WakuMessageHash := none

structure WakuMessageKeyValue where
  messageHash : WakuMessageHash
  message : Option IncomingMessage
  pubsubTopic : Option PubsubTopic

structure StoreQueryResponse where
  messages : List WakuMessageKeyValue
  paginationCursor : Option WakuMessageHash

/-- Where a call of the transfer callback is: it awaits an answer, or archives what is left of one. -/
inductive Transfer where
  | idle
  | querying (req : StoreQueryRequest)
  | archiving (req : StoreQueryRequest) (messages : List WakuMessageKeyValue)

structure WakuMessageAndTopic where
  pubsub : PubsubTopic
  message : IncomingMessage

/-- The node; beside the fields of the source, `puts` are the rows that were handed to the driver. -/
structure Ingress (δ : Type) where
  db : δ
  puts : List ArchiveRow
  /-- The queue to the reconciliation. -/
  idsTx : List (SyncID × PubsubTopic × ContentTopic)
  transfers : ℕ → Transfer

namespace Ingress

variable {δ : Type}

def new (archive : WakuArchive δ) : Ingress δ where
  db := archive.driver.empty
  puts := []
  idsTx := []
  transfers _ := .idle

variable (sha256 : List Byte → WakuMessageHash) (archive : WakuArchive δ) (s : Ingress δ)

def put (row : ArchiveRow) : Ingress δ × Except String Bool :=
  let written := archive.driver.put s.db row
  ({ s with db := written.1, puts := s.puts ++ [row] }, written.2)

def handleMessage (now : Timestamp) (pubsubTopic : PubsubTopic) (msg : IncomingMessage) :
    Ingress δ × Except String Unit :=
  if msg.ephemeral then (s, .error "ephemeral message, will not store")
  else
    let msgHash := computeMessageHash sha256 pubsubTopic msg.toWakuMessage
    match archive.validator now msg.toWakuMessage with
    | .error e => (s, .error ("message validation failed: " ++ e))
    | .ok () =>
        let written := s.put archive ⟨msgHash, pubsubTopic, msg.toWakuMessage⟩
        match written.2 with
        | .error e => (written.1, .error ("could not insert message in the archive: " ++ e))
        | .ok _ => (written.1, .ok ())

def syncMessageIngress (msgHash : WakuMessageHash) (pubsubTopic : PubsubTopic)
    (msg : IncomingMessage) : Ingress δ × Except String Unit :=
  if msg.ephemeral then (s, .error "ephemeral message, will not store")
  else
    let written := s.put archive ⟨msgHash, pubsubTopic, msg.toWakuMessage⟩
    match written.2 with
    | .error e => (written.1, .error e)
    | .ok _ => (written.1, .ok ())

/-- The handler of `SyncTransfer`, for one buffer that it read; `none` does not decode. -/
def handler (decoded : Option WakuMessageAndTopic) : Ingress δ :=
  match decoded with
  | none => s
  | some payload =>
      let hash := computeMessageHash sha256 payload.pubsub payload.message.toWakuMessage
      let archived := s.syncMessageIngress archive hash payload.pubsub payload.message
      match archived.2 with
      | .error _ => archived.1
      | .ok () =>
          let id : SyncID := ⟨payload.message.timestamp, hash⟩
          let entry := (id, payload.pubsub, payload.message.contentTopic)
          { archived.1 with idsTx := archived.1.idsTx ++ [entry] }

def setTransfer (i : ℕ) (transfer : Transfer) : Ingress δ :=
  { s with transfers := Function.update s.transfers i transfer }

/-- The transfer callback is called. -/
def startTransfer (i : ℕ) (timestamp now : Timestamp) : Ingress δ :=
  match s.transfers i with
  | .idle =>
      s.setTransfer i (.querying
        { includeData := true, startTime := some timestamp, endTime := some now,
          paginationLimit := some 100 })
  | _ => s

/-- The answer to the query of the callback, or why there is none. -/
def answerTransfer (i : ℕ) (answer : Except String StoreQueryResponse) : Ingress δ :=
  match s.transfers i, answer with
  | .querying _, .error _ => s.setTransfer i .idle
  | .querying req, .ok response =>
      s.setTransfer i
        (.archiving { req with paginationCursor := response.paginationCursor } response.messages)
  | _, _ => s

/-- The callback handles the next message of the answer, or asks for the next page. -/
def archiveNext (i : ℕ) : Ingress δ :=
  match s.transfers i with
  | .archiving req [] =>
      if req.paginationCursor.isNone then s.setTransfer i .idle else s.setTransfer i (.querying req)
  | .archiving req (kv :: rest) =>
      let s := s.setTransfer i (.archiving req rest)
      match kv.message, kv.pubsubTopic with
      | some message, some pubsubTopic =>
          (s.syncMessageIngress archive kv.messageHash pubsubTopic message).1
      | _, _ => s
  | _ => s

inductive Action where
  | relay (now : Timestamp) (pubsubTopic : PubsubTopic) (msg : IncomingMessage)
  | receive (decoded : Option WakuMessageAndTopic)
  | startTransfer (i : ℕ) (timestamp now : Timestamp)
  | answerTransfer (i : ℕ) (answer : Except String StoreQueryResponse)
  | archiveNext (i : ℕ)

def step (s : Ingress δ) : Action → Ingress δ
  | .relay now pubsubTopic msg => (s.handleMessage sha256 archive now pubsubTopic msg).1
  | .receive decoded => s.handler sha256 archive decoded
  | .startTransfer i timestamp now => s.startTransfer i timestamp now
  | .answerTransfer i answer => s.answerTransfer i answer
  | .archiveNext i => s.archiveNext archive i

/-- The state after the actions, from an empty archive. -/
def after (actions : List Action) : Ingress δ := run (step sha256 archive) (new archive) actions

/-! ### Rows keyed by their own hash -/

def Keyed (row : ArchiveRow) : Prop :=
  row.hash = computeMessageHash sha256 row.pubsubTopic row.message

/-- Every row that was handed to the driver is keyed by its own hash, so that no row is found under
the hash of another message, nor is another message left out for it. -/
structure KeyedByHash (s : Ingress δ) : Prop where
  puts : ∀ row ∈ s.puts, Keyed sha256 row
  rows : ∀ row ∈ archive.driver.rows s.db, Keyed sha256 row
  duplicate : ∀ pubsubTopic msg,
    (archive.driver.put s.db
      ⟨computeMessageHash sha256 pubsubTopic msg, pubsubTopic, msg⟩).2 = .ok false →
    ∃ row ∈ archive.driver.rows s.db,
      computeMessageHash sha256 row.pubsubTopic row.message = computeMessageHash sha256 pubsubTopic msg

/-- The message of a Store answer that the resume archives next has the hash that the answer gives. -/
def Meets (s : Ingress δ) : Action → Prop
  | .archiveNext i => ∀ req kv rest msg pubsubTopic, s.transfers i = .archiving req (kv :: rest) →
      kv.message = some msg → kv.pubsubTopic = some pubsubTopic → msg.ephemeral = false →
      kv.messageHash = computeMessageHash sha256 pubsubTopic msg.toWakuMessage
  | _ => True

/-! ### One step -/

/-- The step hands on some rows, which are keyed by their own hashes if and only if `good`, and the
driver has no row that it was not handed. -/
structure HandsOn (s s' : Ingress δ) (good : Prop) : Prop where
  handed : ∃ new, s'.puts = s.puts ++ new ∧ ((∀ row ∈ new, Keyed sha256 row) ↔ good)
  written : archive.driver.rows s.db ⊆ s.puts → archive.driver.rows s'.db ⊆ s'.puts

variable {sha256 archive s} {s₁ s' s₁' : Ingress δ} {good good' : Prop}

theorem HandsOn.nothing (hputs : s'.puts = s.puts) (hdb : s'.db = s.db) (hgood : good) :
    HandsOn sha256 archive s s' good := by
  refine ⟨⟨[], by simp [hputs], by simp [hgood]⟩, fun h => ?_⟩
  rw [hputs, hdb]
  exact h

/-- The transfers and the queue do not matter. -/
theorem HandsOn.congr (h : HandsOn sha256 archive s s' good) (hputs : s₁.puts = s.puts)
    (hdb : s₁.db = s.db) (hputs' : s₁'.puts = s'.puts) (hdb' : s₁'.db = s'.db)
    (hgood : good ↔ good') : HandsOn sha256 archive s₁ s₁' good' := by
  obtain ⟨new, hnew, hkeyed⟩ := h.handed
  refine ⟨⟨new, by rw [hputs', hputs, hnew], hkeyed.trans hgood⟩, ?_⟩
  rw [hdb, hputs, hdb', hputs']
  exact h.written

theorem handsOn_put (row : ArchiveRow) :
    HandsOn sha256 archive s (s.put archive row).1 (Keyed sha256 row) := by
  refine ⟨⟨[row], rfl, by simp⟩, fun h row' hrow' => ?_⟩
  rcases List.mem_cons.1 (archive.driver.rows_put s.db row hrow') with rfl | hold
  · exact List.mem_append_right s.puts (List.mem_singleton_self row')
  · exact List.mem_append_left [row] (h hold)

theorem handsOn_syncMessageIngress (msgHash : WakuMessageHash) (pubsubTopic : PubsubTopic)
    (msg : IncomingMessage) :
    HandsOn sha256 archive s (s.syncMessageIngress archive msgHash pubsubTopic msg).1
      (msg.ephemeral = false →
        msgHash = computeMessageHash sha256 pubsubTopic msg.toWakuMessage) := by
  have hput : HandsOn sha256 archive s _ _ := handsOn_put ⟨msgHash, pubsubTopic, msg.toWakuMessage⟩
  unfold syncMessageIngress
  cases hephemeral : msg.ephemeral with
  | true => exact HandsOn.nothing rfl rfl (by simp)
  | false =>
      dsimp only
      cases (s.put archive ⟨msgHash, pubsubTopic, msg.toWakuMessage⟩).2 with
      | error e => simpa [Keyed] using hput
      | ok written => simpa [Keyed] using hput

theorem handsOn_handleMessage (now : Timestamp) (pubsubTopic : PubsubTopic)
    (msg : IncomingMessage) :
    HandsOn sha256 archive s (s.handleMessage sha256 archive now pubsubTopic msg).1 True := by
  have hput : HandsOn sha256 archive s _ _ := handsOn_put
    ⟨computeMessageHash sha256 pubsubTopic msg.toWakuMessage, pubsubTopic, msg.toWakuMessage⟩
  unfold handleMessage
  split
  · exact HandsOn.nothing rfl rfl trivial
  cases archive.validator now msg.toWakuMessage with
  | error e => exact HandsOn.nothing rfl rfl trivial
  | ok _ =>
      dsimp only
      cases (s.put archive ⟨_, pubsubTopic, msg.toWakuMessage⟩).2 with
      | error e => simpa [Keyed] using hput
      | ok written => simpa [Keyed] using hput

theorem handsOn_handler (decoded : Option WakuMessageAndTopic) :
    HandsOn sha256 archive s (s.handler sha256 archive decoded) True := by
  cases decoded with
  | none => exact HandsOn.nothing rfl rfl trivial
  | some payload =>
      have hingress : HandsOn sha256 archive s _ _ := handsOn_syncMessageIngress
        (computeMessageHash sha256 payload.pubsub payload.message.toWakuMessage) payload.pubsub
        payload.message
      unfold handler
      dsimp only
      cases (s.syncMessageIngress archive _ payload.pubsub payload.message).2 with
      | error e => simpa using hingress
      | ok _ => exact hingress.congr rfl rfl rfl rfl (by simp)

theorem handsOn_archiveNext (i : ℕ) :
    HandsOn sha256 archive s (s.archiveNext archive i) (s.Meets sha256 (.archiveNext i)) := by
  have hnone : (∀ req kv rest, s.transfers i ≠ .archiving req (kv :: rest)) →
      s.Meets sha256 (.archiveNext i) :=
    fun hne req kv rest _ _ htransfer => absurd htransfer (hne req kv rest)
  unfold archiveNext
  rcases htransfer : s.transfers i with _ | req | ⟨req, _ | ⟨kv, rest⟩⟩
  · exact HandsOn.nothing rfl rfl (hnone (by simp [htransfer]))
  · exact HandsOn.nothing rfl rfl (hnone (by simp [htransfer]))
  · dsimp only
    split
    · exact HandsOn.nothing rfl rfl (hnone (by simp [htransfer]))
    · exact HandsOn.nothing rfl rfl (hnone (by simp [htransfer]))
  · have hmeets : s.Meets sha256 (.archiveNext i) ↔ ∀ msg pubsubTopic, kv.message = some msg →
        kv.pubsubTopic = some pubsubTopic → msg.ephemeral = false →
        kv.messageHash = computeMessageHash sha256 pubsubTopic msg.toWakuMessage := by
      constructor
      · exact fun h => fun msg pubsubTopic => h req kv rest msg pubsubTopic htransfer
      · intro h req' kv' rest' msg pubsubTopic htransfer'
        cases htransfer.symm.trans htransfer'
        exact h msg pubsubTopic
    rw [hmeets]
    dsimp only
    rcases hmessage : kv.message with _ | message
    · exact HandsOn.nothing rfl rfl (by simp)
    rcases htopic : kv.pubsubTopic with _ | pubsubTopic
    · exact HandsOn.nothing rfl rfl (by simp)
    refine HandsOn.congr (s := s.setTransfer i (.archiving req rest))
      (handsOn_syncMessageIngress kv.messageHash pubsubTopic message) rfl rfl rfl rfl ?_
    simp

theorem handsOn_step (action : Action) :
    HandsOn sha256 archive s (s.step sha256 archive action) (s.Meets sha256 action) := by
  cases action with
  | relay now pubsubTopic msg => exact handsOn_handleMessage now pubsubTopic msg
  | receive decoded => exact handsOn_handler decoded
  | startTransfer i timestamp now =>
      simp only [step, startTransfer]
      split
      · exact HandsOn.nothing rfl rfl trivial
      · exact HandsOn.nothing rfl rfl trivial
  | answerTransfer i answer =>
      simp only [step, answerTransfer]
      split
      · exact HandsOn.nothing rfl rfl trivial
      · exact HandsOn.nothing rfl rfl trivial
      · exact HandsOn.nothing rfl rfl trivial
  | archiveNext i => exact handsOn_archiveNext i

/-! ### Runs -/

theorem rows_subset_puts (actions : List Action) :
    archive.driver.rows (after sha256 archive actions).db ⊆ (after sha256 archive actions).puts := by
  induction actions using List.reverseRecOn with
  | nil =>
      change archive.driver.rows archive.driver.empty ⊆ []
      rw [archive.driver.rows_empty]
      exact List.Subset.refl []
  | append_singleton actions action ih =>
      rw [after, run_concat]
      exact (handsOn_step action).written ih

theorem puts_keyed_iff (actions : List Action) :
    (∀ row ∈ (after sha256 archive actions).puts, Keyed sha256 row) ↔
      AllSteps (fun past action => (after sha256 archive past).Meets sha256 action) actions := by
  induction actions using List.reverseRecOn with
  | nil => exact ⟨fun _ => allSteps_nil, fun _ _ hrow => absurd hrow List.not_mem_nil⟩
  | append_singleton actions action ih =>
      have hstep : HandsOn sha256 archive (after sha256 archive actions) _ _ := handsOn_step action
      obtain ⟨rows, hrows, hkeyed⟩ := hstep.handed
      have hall : (∀ row ∈ (after sha256 archive (actions ++ [action])).puts, Keyed sha256 row) ↔
          (∀ row ∈ (after sha256 archive actions).puts, Keyed sha256 row) ∧
            ∀ row ∈ rows, Keyed sha256 row := by
        rw [after, run_concat, ← after, hrows, List.forall_mem_append]
      rw [hall, ih, hkeyed]
      constructor
      · exact fun h => h.1.concat h.2
      · exact fun h => ⟨h.init, h.last⟩

/-- Every row is keyed by its own hash if and only if, in every step of the resume, the Store peer
wrote the hash of the message beside it. -/
theorem keyed_iff (actions : List Action) :
    (after sha256 archive actions).KeyedByHash sha256 archive ↔
      AllSteps (fun past action => (after sha256 archive past).Meets sha256 action) actions := by
  rw [← puts_keyed_iff]
  refine ⟨fun h => h.puts, fun h => ?_⟩
  have hrows : ∀ row ∈ archive.driver.rows (after sha256 archive actions).db, Keyed sha256 row :=
    fun row hrow => h row (rows_subset_puts actions hrow)
  refine ⟨h, hrows, ?_⟩
  intro pubsubTopic msg hduplicate
  obtain ⟨row, hrow, hhash⟩ := archive.driver.of_duplicate _ _ hduplicate
  exact ⟨row, hrow, (hrows row hrow).symm.trans hhash⟩

def oneMessage : IncomingMessage where
  payload := [1]
  contentTopic := "/app/1/topic/proto"
  msgMeta := []
  version := 0
  timestamp := 1
  proof := []
  ephemeral := false

/-- The message under a hash that the peer chose. -/
def underHash (hash : WakuMessageHash) : WakuMessageKeyValue :=
  ⟨hash, some oneMessage, some "/waku/2/rs/1/0"⟩

/-- One message under two hashes, of which one is not its own, whatever SHA-256 makes of it. -/
theorem not_keyed_twice : ¬ ∃ sha256 : List Byte → WakuMessageHash, ∀ actions : List Action,
    (after sha256 ⟨sqliteDriver, validate⟩ actions).KeyedByHash sha256
      ⟨sqliteDriver, validate⟩ := by
  rintro ⟨sha256, h⟩
  have hputs := (h [.startTransfer 0 0 10, .answerTransfer 0 (.ok
    ⟨[underHash (constFingerprint 1), underHash (constFingerprint 2)], none⟩),
    .archiveNext 0, .archiveNext 0]).puts
  change ∀ row ∈ [(⟨constFingerprint 1, "/waku/2/rs/1/0", oneMessage.toWakuMessage⟩ : ArchiveRow),
    ⟨constFingerprint 2, "/waku/2/rs/1/0", oneMessage.toWakuMessage⟩], Keyed sha256 row at hputs
  have hfirst := hputs _ (List.mem_cons_self ..)
  have hsecond := hputs _ (List.mem_cons_of_mem _ (List.mem_cons_self ..))
  exact absurd (hfirst.trans hsecond.symm) (by decide)

end Ingress

end LogosDelivery.Archive
