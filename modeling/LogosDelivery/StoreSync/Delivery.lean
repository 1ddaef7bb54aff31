import LogosDelivery.StoreSync.NodeRuns
import LogosDelivery.StoreSync.StorageOrder
import LogosDelivery.StoreSync.Transfer

/-! # Needed messages on their way

Two nodes after a reconciliation session: each has a queue of the hashes that the other needs
(`needsReceiverLoop`), a stream to it (the handler of `waku_store_sync/transfer.nim`) and a queue of
ids that its transfer hands on to its reconciliation (`idsReceiverLoop`).  The steps of the two
nodes come in any order.

`Delivers` is what every order of steps keeps as long as no step fails: the ids of each direction are,
in their order, done, in the queue to the index, on the wire or still to be sent. -/

namespace LogosDelivery.StoreSync

open Archive (WakuMessageAndTopic IncomingMessage ArchiveRow ArchiveDriver WakuArchive DriverQuery
  Ingress computeMessageHash isHashOf)
open Common (TimedMap)
open Lib

/-! ### Payloads -/

inductive ProtobufError where
  | missingRequiredField (field : String)
  | invalidLengthField (field : String)
deriving DecidableEq

def MaxMetaAttrLength : ℕ := 64

/-- A `string` is valid UTF-8 here. -/
def validateWakuMessageFields (msg : IncomingMessage) : Except ProtobufError Unit :=
  if msg.payload = [] ∧ msg.contentTopic = "" ∧ msg.msgMeta = [] ∧ msg.version = 0 ∧
      msg.timestamp = 0 ∧ msg.ephemeral = false ∧ msg.proof = [] then
    .error (.missingRequiredField "message")
  else if msg.contentTopic.length = 0 then .error (.missingRequiredField "content_topic")
  else if MaxMetaAttrLength < msg.msgMeta.length then .error (.invalidLengthField "meta")
  else .ok ()

def validateDecoded (value : WakuMessageAndTopic) : Except ProtobufError Unit :=
  if value.pubsub.length = 0 then .error (.missingRequiredField "pubsub")
  else validateWakuMessageFields value.message

/-- A row as a payload; the archive does not keep the proof. -/
def payloadOf (row : ArchiveRow) : WakuMessageAndTopic :=
  ⟨row.pubsubTopic, { toWakuMessage := row.message, proof := [], ephemeral := false }⟩

/-! ### The two nodes -/

/-- What the two nodes share. -/
structure Deployment (δ : Type) where
  sha256 : List Byte → WakuMessageHash
  archive : WakuArchive δ
  /-- The protobuf encoding of a payload. -/
  encode : WakuMessageAndTopic → List Byte
  /-- What the bytes encode, before it is validated. -/
  parse : List Byte → Option WakuMessageAndTopic
  peerId : Bool → PeerId
  /-- The largest encoded payload that the handler of a node reads. -/
  maxRpcSize : Bool → ℕ

namespace Deployment

variable {δ : Type} (d : Deployment δ)

def encodedLen (payload : WakuMessageAndTopic) : ℕ := (d.encode payload).length

/-- The payload of the bytes, if it is valid. -/
def decode (buffer : List Byte) : Option WakuMessageAndTopic :=
  match d.parse buffer with
  | none => none
  | some payload =>
      match validateDecoded payload with
      | .ok _ => some payload
      | .error _ => none

end Deployment

structure SyncNode (δ : Type) where
  sync : SyncReconciliation
  transfer : SyncTransfer
  ingress : Ingress δ

/-- The nodes, and the encoded payloads each has written to the other that were not read yet. -/
structure Pair (δ : Type) where
  node : Bool → SyncNode δ
  wire : Bool → List (List Byte)

/-- What the network and the clock do while a needed message is sent. -/
structure Net where
  closed : Bool
  closedAt : ℕ → ℤ
  now : ℤ
  dialed : Option Connection
  written : Except String Unit
  endedAt : ℕ → ℤ

inductive TransferStep where
  | send (side : Bool) (net : Net)
  | receive (side : Bool)
  | index (side : Bool)

/-- The driver's answer to a query that gives only hashes. -/
def rowsOfHashes (rows : List ArchiveRow) (q : DriverQuery) : Except String (List ArchiveRow) :=
  .ok ((rows.filter (fun row => isHashOf q.hashes row.hash)).take q.maxPageSize)

namespace Pair

variable {δ : Type} (d : Deployment δ) (c : Pair δ)

def rows (side : Bool) : List ArchiveRow := d.archive.driver.rows (c.node side).ingress.db

def request (side : Bool) (net : Net) (peer : PeerId) (hash : WakuMessageHash) : Request where
  peerId := peer
  fingerprint := hash
  closed := net.closed
  closedAt := net.closedAt
  now := net.now
  dialed := net.dialed
  getMessages := rowsOfHashes (c.rows d side)
  written := net.written
  endedAt := net.endedAt

/-- A round of `needsReceiverLoop` at `side`. -/
def send (side : Bool) (net : Net) : Pair δ :=
  match (c.node side).sync.remoteNeedsTx with
  | [] => c
  | (peer, hash) :: rest =>
      match (c.node side).transfer.needsReceiverRound d.encodedLen (c.request d side net peer hash) with
      | none => c
      | some (transfer, outcome) =>
          { node := Function.update c.node side
              { c.node side with
                sync := { (c.node side).sync with remoteNeedsTx := rest }
                transfer := transfer }
            wire := match outcome with
              | .sent msg => Function.update c.wire side (c.wire side ++ [d.encode msg])
              | _ => c.wire }

/-- A round of the handler at the other side; a payload above its limit is not read. -/
def receive (side : Bool) : Pair δ :=
  match c.wire side with
  | [] => c
  | buffer :: rest =>
      let wire := Function.update c.wire side rest
      if d.maxRpcSize (!side) < buffer.length then { c with wire := wire }
      else
        { node := Function.update c.node (!side)
            { c.node (!side) with
              ingress := (c.node (!side)).ingress.handler d.sha256 d.archive (d.decode buffer) }
          wire := wire }

/-- A round of `idsReceiverLoop` at `side`. -/
def index (side : Bool) : Pair δ :=
  match (c.node side).ingress.idsTx with
  | [] => c
  | (id, pubsub, content) :: rest =>
      { c with
        node := Function.update c.node side
          { c.node side with
            sync := (c.node side).sync.messageIngress id pubsub content
            ingress := { (c.node side).ingress with idsTx := rest } } }

def step (c : Pair δ) : TransferStep → Pair δ
  | .send side net => c.send d side net
  | .receive side => c.receive d side
  | .index side => c.index side

/-- Nothing is on its way any more. -/
def Drained : Prop :=
  ∀ side, (c.node side).sync.remoteNeedsTx = [] ∧ c.wire side = [] ∧ (c.node side).ingress.idsTx = []

end Pair

/-- The session stays open, and dialling and writing succeed. -/
def TransferStep.Succeeds : TransferStep → Prop
  | .send _ net => net.closed = false ∧ net.dialed.isSome = true ∧ net.written = .ok ()
  | _ => True

/-! ### One message on its way -/

def rowId (row : ArchiveRow) : SyncID := ⟨row.message.timestamp, row.hash⟩

/-- The row in the queue to the reconciliation. -/
def entryOf (row : ArchiveRow) : SyncID × PubsubTopic × ContentTopic :=
  (rowId row, row.pubsubTopic, row.message.contentTopic)

/-- A driver that fails no put of a row with topics and forgets no row. -/
structure Lasting {δ : Type} (driver : ArchiveDriver δ) : Prop where
  keeps : ∀ db row, driver.rows db ⊆ driver.rows (driver.put db row).1
  stores : ∀ db row, row.pubsubTopic ≠ "" → row.message.contentTopic ≠ "" →
    ∃ stored, (driver.put db row).2 = .ok stored
  holds : ∀ db row, row.pubsubTopic ≠ "" → row.message.contentTopic ≠ "" →
    ∃ row' ∈ driver.rows (driver.put db row).1, row'.hash = row.hash

/-- The row is found by its own hash, survives the encoding, is valid, and is small enough to be read. -/
structure Transferable {δ : Type} (d : Deployment δ) (row : ArchiveRow) : Prop where
  keyed : Archive.Ingress.Keyed d.sha256 row
  roundTrip : d.parse (d.encode (payloadOf row)) = some (payloadOf row)
  valid : validateDecoded (payloadOf row) = .ok ()
  readable : ∀ side, d.encodedLen (payloadOf row) ≤ d.maxRpcSize side

/-- A valid row has topics. -/
theorem Transferable.topics {δ : Type} {d : Deployment δ} {row : ArchiveRow} (h : Transferable d row) :
    row.pubsubTopic ≠ "" ∧ row.message.contentTopic ≠ "" := by
  have hvalid := h.valid
  unfold validateDecoded validateWakuMessageFields at hvalid
  split_ifs at hvalid with hpubsub _ hcontent
  refine ⟨fun heq => hpubsub ?_, fun heq => hcontent ?_⟩
  · rw [payloadOf, heq]
    rfl
  · rw [payloadOf]
    dsimp only
    rw [heq]
    rfl

/-- What the receiver decodes of a row that was written. -/
theorem Transferable.decode {δ : Type} {d : Deployment δ} {row : ArchiveRow} (h : Transferable d row) :
    d.decode (d.encode (payloadOf row)) = some (payloadOf row) := by
  simp only [Deployment.decode, h.roundTrip, h.valid]

theorem expire_init {K V : Type} [DecidableEq K] (timeout now : ℤ) :
    (TimedMap.init timeout : TimedMap K V).expire now = some (TimedMap.init timeout) := rfl

section Message

variable {δ : Type} {d : Deployment δ} {c : Pair δ} {side : Bool} {net : Net} {row : ArchiveRow}

/-- A hash that only one row has is found. -/
theorem findMessage_request (net : Net) (peer : PeerId) (hrow : row ∈ c.rows d side)
    (hone : ∀ row' ∈ c.rows d side, row'.hash = row.hash → row' = row) :
    (c.request d side net peer row.hash).findMessage = .ok (some (payloadOf row)) := by
  set query := (c.request d side net peer row.hash).query with hquery
  set found := (c.rows d side).filter (fun row' => isHashOf query.driverQuery.hashes row'.hash)
    with hfound
  have hfind : Archive.findMessages (rowsOfHashes (c.rows d side)) query =
      .ok (Archive.respond query (found.take (Archive.pageLimit query.pageSize + 1))) :=
    Archive.findMessages_ok rfl rfl
  obtain ⟨hshows, _⟩ := Archive.shows_respond query found
  -- the answer shows that row and no other
  have hall : ∀ row' ∈ Archive.chronological query.direction
      (found.take (Archive.pageLimit query.pageSize)), row' = row := by
    intro row' hmem
    have hmem' : row' ∈ found := List.mem_of_mem_take (List.mem_reverse.mp hmem)
    obtain ⟨hrows, hhash⟩ := List.mem_filter.mp hmem'
    refine hone row' hrows ?_
    simpa [hquery, Archive.ArchiveQuery.driverQuery, Request.query, Pair.request] using hhash
  have hmem : row ∈ found := by
    refine List.mem_filter.mpr ⟨hrow, ?_⟩
    simp [hquery, Archive.ArchiveQuery.driverQuery, Request.query, Pair.request]
  have hne : Archive.chronological query.direction
      (found.take (Archive.pageLimit query.pageSize)) ≠ [] := by
    have hpos : 0 < (found.take (Archive.pageLimit query.pageSize)).length := by
      have := List.length_pos_of_mem hmem
      have := Archive.pageLimit_pos query.pageSize
      rw [List.length_take]
      omega
    exact fun hnil => absurd (List.reverse_eq_nil_iff.mp hnil) (List.ne_nil_of_length_pos hpos)
  obtain ⟨first, later, hpage⟩ := List.exists_cons_of_ne_nil hne
  have hfirst : first = row := hall first (hpage ▸ List.mem_cons_self)
  have htopics := hshows.topics
  have hmessages := hshows.messages
  rw [hpage, hfirst] at htopics hmessages
  unfold Request.findMessage
  rw [show (c.request d side net peer row.hash).getMessages = rowsOfHashes (c.rows d side) from rfl,
    hfind]
  dsimp only
  rw [htopics, hmessages]
  rfl

/-- A round that succeeds sends the message, and refuses nothing. -/
theorem needsReceiverRound_sends {transfer : SyncTransfer} {syncRange : ℤ} (peer : PeerId)
    (hrefused : transfer.refusedByPeer = TimedMap.init syncRange)
    (hnet : net.closed = false ∧ net.dialed.isSome = true ∧ net.written = .ok ())
    (hfind : (c.request d side net peer row.hash).findMessage = .ok (some (payloadOf row))) :
    ∃ transfer', transfer.needsReceiverRound d.encodedLen (c.request d side net peer row.hash) =
        some (transfer', .sent (payloadOf row)) ∧
      transfer'.refusedByPeer = TimedMap.init syncRange := by
  obtain ⟨hclosed, hdialed, hwritten⟩ := hnet
  obtain ⟨connection, hconnection⟩ := Option.isSome_iff_exists.mp hdialed
  set r := c.request d side net peer row.hash with hr
  have hopen : transfer.endClosed r = some transfer := by
    refine if_neg ?_
    rintro ⟨_, hcl⟩
    rw [show r.closed = net.closed from rfl, hclosed] at hcl
    exact absurd hcl Bool.false_ne_true
  have hconnected : ∃ transfer₁, transfer.openConnection r = .ok transfer₁ ∧
      transfer₁.refusedByPeer = TimedMap.init syncRange := by
    unfold SyncTransfer.openConnection
    split_ifs with hmem
    · exact ⟨transfer, rfl, hrefused⟩
    · rw [show r.dialed = net.dialed from rfl, hconnection]
      exact ⟨_, rfl, hrefused⟩
  obtain ⟨transfer₁, hconn, hrefused₁⟩ := hconnected
  have hsame : { transfer with refusedByPeer := TimedMap.init syncRange } = transfer := by
    rw [← hrefused]
  have hrecord : (transfer₁.recordLarge d.encodedLen r (payloadOf row)).refusedByPeer =
      TimedMap.init syncRange := by
    unfold SyncTransfer.recordLarge
    split_ifs
    · exact hrefused₁
    · exact hrefused₁
  refine ⟨transfer₁.recordLarge d.encodedLen r (payloadOf row), ?_, hrecord⟩
  unfold SyncTransfer.needsReceiverRound
  rw [hopen]
  dsimp only
  rw [hrefused, expire_init]
  dsimp only
  rw [if_neg (by simp [TimedMap.contains, TimedMap.init]), hsame, hconn]
  dsimp only
  rw [hfind]
  dsimp only
  rw [SyncTransfer.sendMessage, show r.written = net.written from rfl, hwritten]

/-- A written row arrives: the archive has it, and its id is queued for the index. -/
theorem handler_payloadOf (hdriver : Lasting d.archive.driver) (hrow : Transferable d row)
    (ingress : Ingress δ) :
    (ingress.handler d.sha256 d.archive (d.decode (d.encode (payloadOf row)))).idsTx =
        ingress.idsTx ++ [entryOf row] ∧
      (ingress.handler d.sha256 d.archive (d.decode (d.encode (payloadOf row)))).db =
        (d.archive.driver.put ingress.db row).1 := by
  obtain ⟨stored, hstored⟩ := hdriver.stores ingress.db row hrow.topics.1 hrow.topics.2
  have hkey : computeMessageHash d.sha256 (payloadOf row).pubsub (payloadOf row).message.toWakuMessage =
      row.hash := hrow.keyed.symm
  have hingress : ingress.syncMessageIngress d.archive row.hash (payloadOf row).pubsub
      (payloadOf row).message = ((ingress.put d.archive row).1, .ok ()) := by
    unfold Ingress.syncMessageIngress
    rw [if_neg (show ¬ (payloadOf row).message.ephemeral = true from Bool.false_ne_true)]
    dsimp only
    rw [show (ingress.put d.archive ⟨row.hash, (payloadOf row).pubsub,
      (payloadOf row).message.toWakuMessage⟩).2 = .ok stored from hstored]
    rfl
  rw [hrow.decode]
  unfold Ingress.handler
  dsimp only
  rw [hkey, hingress]
  exact ⟨rfl, rfl⟩

/-- The id of a row reaches the index. -/
theorem messageIngress_row {s : SyncReconciliation} (hwell : s.storage.WellFormed)
    (hdeferred : s.deferredTx = ∅) (row : ArchiveRow) :
    (s.messageIngress (rowId row) row.pubsubTopic row.message.contentTopic).storage.WellFormed ∧
      (∀ x, x ∈ (s.messageIngress (rowId row) row.pubsubTopic
          row.message.contentTopic).storage.elements ↔ x ∈ s.storage.elements ∨ x = rowId row) ∧
      (s.messageIngress (rowId row) row.pubsubTopic row.message.contentTopic).deferredTx = ∅ ∧
      (s.messageIngress (rowId row) row.pubsubTopic row.message.contentTopic).remoteNeedsTx =
        s.remoteNeedsTx := by
  refine ⟨?_, ?_, ?_, ?_⟩
  · rw [SyncReconciliation.messageIngress_storage]
    split_ifs
    · exact (hwell.remove _).insert _ _ _
    · exact hwell.insert _ _ _
  · intro x
    rw [SyncReconciliation.messageIngress_storage]
    split_ifs
    · rw [(hwell.remove _).mem_insert, hwell.mem_remove]
      tauto
    · rw [hwell.mem_insert]
      tauto
  · rw [SyncReconciliation.messageIngress_eq]
    split_ifs
    · rw [SyncReconciliation.confirm_eq]
      dsimp only
      rw [hdeferred]
      rfl
    · exact hdeferred
  · rw [SyncReconciliation.messageIngress_eq]
    split_ifs
    · unfold SyncReconciliation.confirm
      rw [hdeferred]
      rfl
    · rfl

end Message

/-! ### Both directions -/

section Delivers

variable {δ : Type} (d : Deployment δ) (start c : Pair δ) (ids : Bool → List SyncID)

/-- Before the first step: each node is to send the ids, the archives hold their messages, and
what a node waits for is among the ids of the other. -/
structure Promising : Prop where
  driver : Lasting d.archive.driver
  needs : ∀ side, (start.node side).sync.remoteNeedsTx =
    (ids side).map (fun x => (d.peerId (!side), x.hash))
  wire : ∀ side, start.wire side = []
  idsTx : ∀ side, (start.node side).ingress.idsTx = []
  deferredTx : ∀ side, (start.node side).sync.deferredTx = ∅
  refused : ∀ side, ∃ syncRange, (start.node side).transfer.refusedByPeer = TimedMap.init syncRange
  wellFormed : ∀ side, (start.node side).sync.storage.WellFormed
  pending : ∀ side, ∀ hash ∈ (start.node side).sync.pendingSet, ∃ x ∈ ids (!side), x.hash = hash
  archived : ∀ side, ∀ x ∈ ids side, ∃ row ∈ start.rows d side, rowId row = x
  transferable : ∀ side, ∀ row ∈ start.rows d side, Transferable d row
  one_row : ∀ side side' row row', row ∈ start.rows d side → row' ∈ start.rows d side' →
    row.hash = row'.hash → row = row'

/-- What each node keeps in every step. -/
structure Intact : Prop where
  deferredTx : ∀ side, (c.node side).sync.deferredTx = ∅
  refused : ∀ side, ∃ syncRange, (c.node side).transfer.refusedByPeer = TimedMap.init syncRange
  wellFormed : ∀ side, (c.node side).sync.storage.WellFormed
  kept : ∀ side, start.rows d side ⊆ c.rows d side
  known : ∀ side, ∀ row ∈ c.rows d side, ∃ side', row ∈ start.rows d side'

/-- The messages from one side to the other: those that were indexed, those in the queue to the
index, those on the wire, and the ids that were not sent yet. -/
structure Underway (side : Bool) (done queued carried : List ArchiveRow) (waiting : List SyncID) :
    Prop where
  order : ids side = (done ++ queued ++ carried).map rowId ++ waiting
  needs : (c.node side).sync.remoteNeedsTx = waiting.map (fun x => (d.peerId (!side), x.hash))
  wire : c.wire side = carried.map (fun row => d.encode (payloadOf row))
  idsTx : (c.node (!side)).ingress.idsTx = queued.map entryOf
  known : ∀ row ∈ done ++ queued ++ carried, ∃ side', row ∈ start.rows d side'
  archived : ∀ row ∈ done ++ queued, row ∈ c.rows d (!side)
  elements : ∀ x, x ∈ (c.node (!side)).sync.storage.elements ↔
    x ∈ (start.node (!side)).sync.storage.elements ∨ x ∈ done.map rowId
  pendingSet : (c.node (!side)).sync.pendingSet =
    (start.node (!side)).sync.pendingSet \ (done.map ArchiveRow.hash).toFinset

/-- The messages of both directions are on their way. -/
structure Delivers : Prop where
  intact : Intact d start c
  underway : ∀ side, ∃ done queued carried waiting,
    Underway d start c ids side done queued carried waiting

end Delivers

section Steps

variable {δ : Type} {d : Deployment δ} {start c c' : Pair δ} {ids : Bool → List SyncID} {side : Bool}
  {done queued carried : List ArchiveRow} {waiting : List SyncID}

theorem Promising.delivers (h : Promising d start ids) : Delivers d start start ids where
  intact := ⟨h.deferredTx, h.refused, h.wellFormed, fun side => List.Subset.refl _,
    fun side row hrow => ⟨side, hrow⟩⟩
  underway side := ⟨[], [], [], ids side, by simp, h.needs side, h.wire side, h.idsTx (!side),
    by simp, by simp, by simp, by simp⟩

/-- A row of either archive is the only one of its hash. -/
theorem Intact.one_row (h : Promising d start ids) (hc : Intact d start c) (side : Bool)
    {row row' : ArchiveRow} {side' : Bool} (hrow : row ∈ start.rows d side') (hrow' : row' ∈ c.rows d side)
    (hhash : row'.hash = row.hash) : row' = row := by
  obtain ⟨side'', hknown⟩ := hc.known side row' hrow'
  exact h.one_row _ _ _ _ hknown hrow hhash

/-- What a step of the other direction leaves. -/
theorem Underway.congr (h : Underway d start c ids side done queued carried waiting)
    (hneeds : (c'.node side).sync.remoteNeedsTx = (c.node side).sync.remoteNeedsTx)
    (hwire : c'.wire side = c.wire side)
    (hidsTx : (c'.node (!side)).ingress.idsTx = (c.node (!side)).ingress.idsTx)
    (hrows : c.rows d (!side) ⊆ c'.rows d (!side))
    (hstorage : (c'.node (!side)).sync.storage = (c.node (!side)).sync.storage)
    (hpending : (c'.node (!side)).sync.pendingSet = (c.node (!side)).sync.pendingSet) :
    Underway d start c' ids side done queued carried waiting where
  order := h.order
  needs := hneeds.trans h.needs
  wire := hwire.trans h.wire
  idsTx := hidsTx.trans h.idsTx
  known := h.known
  archived row hrow := hrows (h.archived row hrow)
  elements x := by
    rw [hstorage]
    exact h.elements x
  pendingSet := hpending.trans h.pendingSet

/-- A step changes one node; it fails nothing and forgets no row. -/
theorem Intact.update (hc : Intact d start c) (side : Bool) (node : SyncNode δ)
    (wire : Bool → List (List Byte)) (hdeferred : node.sync.deferredTx = ∅)
    (hrefused : ∃ syncRange, node.transfer.refusedByPeer = TimedMap.init syncRange)
    (hwell : node.sync.storage.WellFormed)
    (hkept : c.rows d side ⊆ d.archive.driver.rows node.ingress.db)
    (hknown : ∀ row ∈ d.archive.driver.rows node.ingress.db, row ∈ c.rows d side ∨
      ∃ side', row ∈ start.rows d side') :
    Intact d start ⟨Function.update c.node side node, wire⟩ := by
  constructor
  · intro side'
    by_cases hside : side' = side
    · subst hside
      simpa using hdeferred
    · simpa [hside] using hc.deferredTx side'
  · intro side'
    by_cases hside : side' = side
    · subst hside
      simpa using hrefused
    · simpa [hside] using hc.refused side'
  · intro side'
    by_cases hside : side' = side
    · subst hside
      simpa using hwell
    · simpa [hside] using hc.wellFormed side'
  · intro side'
    by_cases hside : side' = side
    · subst hside
      simpa [Pair.rows] using List.Subset.trans (hc.kept side') hkept
    · simpa [Pair.rows, hside] using hc.kept side'
  · intro side' row hrow
    by_cases hside : side' = side
    · subst hside
      rcases hknown row (by simpa [Pair.rows] using hrow) with hold | hnew
      · exact hc.known side' row hold
      · exact hnew
    · exact hc.known side' row (by simpa [Pair.rows, hside] using hrow)

/-- What a round of the sending loop does. -/
theorem Underway.send_eq (h : Promising d start ids) (hc : Intact d start c) {x : SyncID} {net : Net}
    (hnet : net.closed = false ∧ net.dialed.isSome = true ∧ net.written = .ok ())
    (hunder : Underway d start c ids side done queued carried (x :: waiting)) :
    ∃ row transfer syncRange, row ∈ start.rows d side ∧ rowId row = x ∧
      transfer.refusedByPeer = TimedMap.init syncRange ∧
      c.send d side net =
        ⟨Function.update c.node side
            { c.node side with
              sync := { (c.node side).sync with
                remoteNeedsTx := waiting.map (fun x => (d.peerId (!side), x.hash)) }
              transfer := transfer },
          Function.update c.wire side
            ((carried ++ [row]).map (fun row => d.encode (payloadOf row)))⟩ := by
  have hx : x ∈ ids side := by
    rw [hunder.order]
    exact List.mem_append_right _ List.mem_cons_self
  obtain ⟨row, hrow, rfl⟩ := h.archived side x hx
  obtain ⟨syncRange, hrefused⟩ := hc.refused side
  have hfind := findMessage_request net (d.peerId (!side)) (hc.kept side hrow)
    (fun row' hrow' hhash => hc.one_row h side hrow hrow' hhash)
  obtain ⟨transfer, hround, hrefused'⟩ :=
    needsReceiverRound_sends (d.peerId (!side)) hrefused hnet hfind
  refine ⟨row, transfer, syncRange, hrow, rfl, hrefused', ?_⟩
  unfold Pair.send
  rw [hunder.needs, List.map_cons, show (rowId row).hash = row.hash from rfl]
  dsimp only
  rw [hround, hunder.wire, List.map_append, List.map_singleton]

theorem Underway.send_nil {net : Net} (hunder : Underway d start c ids side done queued carried []) :
    c.send d side net = c := by
  unfold Pair.send
  rw [hunder.needs]
  rfl

/-- What a round of the receiving handler does. -/
theorem Underway.receive_eq (h : Promising d start ids) {row : ArchiveRow}
    (hunder : Underway d start c ids side done queued (row :: carried) waiting) :
    ∃ ingress side', row ∈ start.rows d side' ∧
      ingress.idsTx = (queued ++ [row]).map entryOf ∧
      ingress.db = (d.archive.driver.put (c.node (!side)).ingress.db row).1 ∧
      c.receive d side =
        ⟨Function.update c.node (!side) { c.node (!side) with ingress := ingress },
          Function.update c.wire side (carried.map (fun row => d.encode (payloadOf row)))⟩ := by
  obtain ⟨side', hrow⟩ := hunder.known row (List.mem_append_right _ List.mem_cons_self)
  have htransferable := h.transferable side' row hrow
  obtain ⟨hidsTx, hdb⟩ := handler_payloadOf h.driver htransferable (c.node (!side)).ingress
  refine ⟨_, side', hrow, ?_, hdb, ?_⟩
  · rw [hidsTx, hunder.idsTx, List.map_append, List.map_singleton]
  · unfold Pair.receive
    rw [hunder.wire, List.map_cons]
    dsimp only
    have hread : ¬ d.maxRpcSize (!side) < (d.encode (payloadOf row)).length :=
      not_lt.mpr (htransferable.readable (!side))
    rw [if_neg hread]

theorem Underway.receive_nil (hunder : Underway d start c ids side done queued [] waiting) :
    c.receive d side = c := by
  unfold Pair.receive
  rw [hunder.wire]
  rfl

/-- What a round of the loop that hands ids to the index does. -/
theorem Underway.index_eq {row : ArchiveRow}
    (hunder : Underway d start c ids side done (row :: queued) carried waiting) :
    c.index (!side) =
      ⟨Function.update c.node (!side)
        { c.node (!side) with
          sync := (c.node (!side)).sync.messageIngress (rowId row) row.pubsubTopic
            row.message.contentTopic
          ingress := { (c.node (!side)).ingress with idsTx := queued.map entryOf } }, c.wire⟩ := by
  unfold Pair.index
  rw [hunder.idsTx, List.map_cons, entryOf]

theorem Underway.index_nil (hunder : Underway d start c ids side done [] carried waiting) :
    c.index (!side) = c := by
  unfold Pair.index
  rw [hunder.idsTx]
  rfl

theorem Delivers.send (h : Promising d start ids) (hc : Delivers d start c ids) (side : Bool) {net : Net}
    (hnet : net.closed = false ∧ net.dialed.isSome = true ∧ net.written = .ok ()) :
    Delivers d start (c.send d side net) ids := by
  obtain ⟨done, queued, carried, waiting, hunder⟩ := hc.underway side
  cases waiting with
  | nil =>
      rw [hunder.send_nil]
      exact hc
  | cons x waiting =>
      obtain ⟨row, transfer, syncRange, hrow, rfl, hrefused, hsend⟩ := hunder.send_eq h hc.intact hnet
      rw [hsend]
      refine ⟨hc.intact.update side _ _ (hc.intact.deferredTx side) ⟨syncRange, hrefused⟩
        (hc.intact.wellFormed side) (List.Subset.refl _) (fun row hrow => Or.inl hrow), ?_⟩
      intro side'
      by_cases hside : side' = side
      · subst hside
        refine ⟨done, queued, carried ++ [row], waiting, ?_, ?_, ?_, ?_, ?_, ?_, ?_, ?_⟩
        · rw [hunder.order]
          simp
        · simp
        · simp
        · simpa using hunder.idsTx
        · intro row' hmem
          rw [← List.append_assoc] at hmem
          rcases List.mem_append.mp hmem with hmem | hmem
          · exact hunder.known row' hmem
          · rw [List.mem_singleton.mp hmem]
            exact ⟨side', hrow⟩
        · simpa [Pair.rows] using hunder.archived
        · simpa using hunder.elements
        · simpa using hunder.pendingSet
      · obtain rfl := Bool.eq_not.mpr hside
        obtain ⟨done', queued', carried', waiting', hunder'⟩ := hc.underway (!side)
        exact ⟨done', queued', carried', waiting', hunder'.congr (by simp) (by simp) (by simp)
          (by simp [Pair.rows]) (by simp) (by simp)⟩

theorem Delivers.receive (h : Promising d start ids) (hc : Delivers d start c ids) (side : Bool) :
    Delivers d start (c.receive d side) ids := by
  obtain ⟨done, queued, carried, waiting, hunder⟩ := hc.underway side
  cases carried with
  | nil =>
      rw [hunder.receive_nil]
      exact hc
  | cons row carried =>
      obtain ⟨ingress, side'', hrow, hidsTx, hdb, hreceive⟩ := hunder.receive_eq h
      have hkept : c.rows d (!side) ⊆ d.archive.driver.rows ingress.db := by
        rw [hdb]
        exact h.driver.keeps _ _
      have hknown : ∀ row' ∈ d.archive.driver.rows ingress.db, row' ∈ c.rows d (!side) ∨
          ∃ side', row' ∈ start.rows d side' := by
        intro row' hmem
        rw [hdb] at hmem
        rcases List.mem_cons.mp (d.archive.driver.rows_put _ _ hmem) with rfl | hmem
        · exact Or.inr ⟨side'', hrow⟩
        · exact Or.inl hmem
      rw [hreceive]
      have hintact := hc.intact.update (!side) { c.node (!side) with ingress := ingress }
        (Function.update c.wire side (carried.map (fun row => d.encode (payloadOf row))))
        (hc.intact.deferredTx _)
        (hc.intact.refused _) (hc.intact.wellFormed _) hkept hknown
      -- the put leaves a row of the hash, which can only be this one
      have hstored : row ∈ d.archive.driver.rows ingress.db := by
        have htopics := (h.transferable side'' row hrow).topics
        obtain ⟨row', hmem, hhash⟩ :=
          h.driver.holds (c.node (!side)).ingress.db row htopics.1 htopics.2
        rw [← hdb] at hmem
        have hmem' := hintact.one_row h (!side) hrow (by simpa [Pair.rows] using hmem) hhash
        rwa [hmem'] at hmem
      refine ⟨hintact, ?_⟩
      intro side'
      by_cases hside : side' = side
      · subst hside
        refine ⟨done, queued ++ [row], carried, waiting, ?_, ?_, ?_, ?_, ?_, ?_, ?_, ?_⟩
        · rw [hunder.order]
          simp
        · simpa using hunder.needs
        · simp
        · simpa using hidsTx
        · intro row' hmem
          refine hunder.known row' ?_
          simpa [or_assoc] using hmem
        · intro row' hmem
          rw [← List.append_assoc] at hmem
          rcases List.mem_append.mp hmem with hmem | hmem
          · have hmem' := hkept (hunder.archived row' hmem)
            simpa [Pair.rows] using hmem'
          · rw [List.mem_singleton.mp hmem]
            simpa [Pair.rows] using hstored
        · simpa using hunder.elements
        · simpa using hunder.pendingSet
      · obtain rfl := Bool.eq_not.mpr hside
        obtain ⟨done', queued', carried', waiting', hunder'⟩ := hc.underway (!side)
        exact ⟨done', queued', carried', waiting', hunder'.congr (by simp) (by simp) (by simp)
          (by simp [Pair.rows]) (by simp) (by simp)⟩

theorem Delivers.index (hc : Delivers d start c ids) (side : Bool) :
    Delivers d start (c.index (!side)) ids := by
  obtain ⟨done, queued, carried, waiting, hunder⟩ := hc.underway side
  cases queued with
  | nil =>
      rw [hunder.index_nil]
      exact hc
  | cons row queued =>
      obtain ⟨hwell, helements, hdeferred, hneeds⟩ :=
        messageIngress_row (hc.intact.wellFormed (!side)) (hc.intact.deferredTx (!side)) row
      have hpending := (c.node (!side)).sync.messageIngress_pendingSet (rowId row) row.pubsubTopic
        row.message.contentTopic
      rw [hunder.index_eq]
      refine ⟨hc.intact.update (!side) _ _ hdeferred (hc.intact.refused _) hwell (List.Subset.refl _)
        (fun row hrow => Or.inl hrow), ?_⟩
      intro side'
      by_cases hside : side' = side
      · subst hside
        refine ⟨done ++ [row], queued, carried, waiting, ?_, ?_, ?_, ?_, ?_, ?_, ?_, ?_⟩
        · rw [hunder.order]
          simp
        · simpa using hunder.needs
        · exact hunder.wire
        · simp
        · intro row' hmem
          refine hunder.known row' ?_
          simpa [or_assoc] using hmem
        · intro row' hmem
          have hmem' := hunder.archived row' (by simpa [or_assoc] using hmem)
          simpa [Pair.rows] using hmem'
        · intro x
          simp only [Function.update_self]
          rw [helements, hunder.elements]
          simp [or_assoc]
        · simp only [Function.update_self]
          rw [hpending, hunder.pendingSet]
          ext hash
          simp only [Finset.mem_erase, Finset.mem_sdiff, List.mem_toFinset, List.map_append,
            List.mem_append, List.map_cons, List.map_nil, List.mem_singleton]
          rw [show (rowId row).hash = row.hash from rfl]
          tauto
      · obtain rfl := Bool.eq_not.mpr hside
        obtain ⟨done', queued', carried', waiting', hunder'⟩ := hc.underway (!side)
        exact ⟨done', queued', carried', waiting', hunder'.congr (by simpa using hneeds) (by simp)
          (by simp) (by simp [Pair.rows]) (by simp) (by simp)⟩

theorem Delivers.step (h : Promising d start ids) (hc : Delivers d start c ids) {a : TransferStep}
    (ha : a.Succeeds) : Delivers d start (Pair.step d c a) ids := by
  cases a with
  | send side net => exact hc.send h side ha
  | receive side => exact hc.receive h side
  | index side =>
      have hindex := hc.index (!side)
      rwa [Bool.not_not] at hindex

theorem Promising.delivers_run (h : Promising d start ids) {steps : List TransferStep}
    (hsteps : ∀ a ∈ steps, a.Succeeds) : Delivers d start (run (Pair.step d) start steps) ids := by
  induction steps using List.reverseRecOn with
  | nil => exact h.delivers
  | append_singleton steps a ih =>
      rw [run_concat]
      obtain ⟨hsteps, ha⟩ := List.forall_mem_append.mp hsteps
      exact (ih hsteps).step h (ha a (List.mem_singleton_self a))

end Steps

end LogosDelivery.StoreSync
