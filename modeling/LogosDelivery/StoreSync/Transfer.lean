import LogosDelivery.Archive.Ingress
import LogosDelivery.Common.TimedMapMarks
import LogosDelivery.Lib.Past
import LogosDelivery.StoreSync.Reconciliation

/-! # The transfer of needed messages

`needsReceiverLoop` of `waku_store_sync/transfer.nim`.  A hash that a peer needs is looked up in the
archive and written into the session to that peer.  A receiver resets the session on a message above
its limit without saying which one, so each large message of an ended session is not sent again for
a while.

A request comes with what the world does in its round: whether the open session was closed
meanwhile, what dialling, the driver and the write answer, and the readings of the clock.  The
encoding is a parameter; only the length of an encoded message is read. -/

namespace LogosDelivery.StoreSync

open Archive (WakuMessageAndTopic ArchiveQuery ArchiveError ArchiveRow DriverQuery findMessages)
open Common (TimedMap)
open Lib

/-- `DefaultMaxWakuMessageSize`, 150 KiB, with `DefaultSafetyBufferProtocolOverhead`. -/
def DefaultReadCap : ℕ := 150 * 1024 + 64 * 1024

/-- The number of a connection. -/
abbrev Connection := ℕ

structure SyncTransfer where
  outSessions : Table PeerId Connection
  /-- Hashes above `DefaultReadCap` written into the open session to each peer. -/
  largeSent : Table PeerId (List WakuMessageHash)
  /-- Not sent again until they leave the sync window. -/
  refusedByPeer : TimedMap (PeerId × WakuMessageHash) Bool

/-- An element of `remoteNeedsRx`, with what happens in its round of the loop. -/
structure Request where
  peerId : PeerId
  fingerprint : WakuMessageHash
  /-- The session to the peer, if there is one, has been closed. -/
  closed : Bool
  /-- `Moment.now()` for each hash that is marked when a closed session is ended. -/
  closedAt : ℕ → ℤ
  /-- `Moment.now()` when refusals expire. -/
  now : ℤ
  dialed : Option Connection
  getMessages : DriverQuery → Except String (List ArchiveRow)
  written : Except String Unit
  /-- The same when a session with a failed write is ended. -/
  endedAt : ℕ → ℤ

/-- Where a round ended. -/
inductive Outcome where
  | refused
  | notDialed (error : String)
  | queryFailed (error : ArchiveError)
  | notFound
  | failed (msg : WakuMessageAndTopic) (error : String)
  | sent (msg : WakuMessageAndTopic)

/-- A request and where its round ended. -/
abbrev Round := Request × Outcome

namespace Request

variable (r : Request)

def query : ArchiveQuery where
  includeData := true
  pubsubTopic := none
  contentTopics := []
  cursor := none
  startTime := none
  endTime := none
  hashes := [r.fingerprint]
  pageSize := 0
  direction := .backward
  requestId := ""

/-- The first message of the answer, if there is one; the archive does not keep the proof. -/
def findMessage : Except ArchiveError (Option WakuMessageAndTopic) :=
  match findMessages r.getMessages r.query with
  | .error error => .error error
  | .ok response =>
      match response.topics, response.messages with
      | pubsub :: _, message :: _ =>
          .ok (some ⟨pubsub, { toWakuMessage := message, proof := [], ephemeral := false }⟩)
      | _, _ => .ok none

end Request

namespace SyncTransfer

def new (syncRange : ℤ) : SyncTransfer := ⟨∅, ∅, TimedMap.init syncRange⟩

variable (encodedLen : WakuMessageAndTopic → ℕ) (self : SyncTransfer)

/-- Any large message of an ended session may be the one the peer refused. -/
def markRefused (peerId : PeerId) (now : ℕ → ℤ) : Option SyncTransfer :=
  match self.largeSent.lookup peerId with
  | none => some self
  | some hashes =>
      ((hashes.zipIdx.map (fun entry => ((peerId, entry.1), now entry.2))).foldlM
          (fun (t : TimedMap (PeerId × WakuMessageHash) Bool) entry =>
            (t.mgetOrPut entry.1 true entry.2).map Prod.fst) self.refusedByPeer).map
        (fun refused =>
          { self with largeSent := self.largeSent.erase peerId, refusedByPeer := refused })

/-- `markRefused` and the deletion of the session after it. -/
def endSession (peerId : PeerId) (now : ℕ → ℤ) : Option SyncTransfer :=
  (self.markRefused peerId now).map
    (fun self => { self with outSessions := self.outSessions.erase peerId })

/-- A session that was closed is ended before the skip check. -/
def endClosed (r : Request) : Option SyncTransfer :=
  if r.peerId ∈ self.outSessions ∧ r.closed = true then self.endSession r.peerId r.closedAt
  else some self

def openConnection (r : Request) : Except String SyncTransfer :=
  if r.peerId ∈ self.outSessions then .ok self
  else
    match r.dialed with
    | none => .error ("fail to dial remote " ++ r.peerId)
    | some connection =>
        .ok { self with outSessions := self.outSessions.insert r.peerId connection }

/-- A large message is recorded before the write. -/
def recordLarge (r : Request) (msg : WakuMessageAndTopic) : SyncTransfer :=
  if DefaultReadCap < encodedLen msg then
    { self with
      largeSent := self.largeSent.insert r.peerId
        ((self.largeSent.lookup r.peerId).getD [] ++ [r.fingerprint]) }
  else self

def sendMessage (r : Request) (msg : WakuMessageAndTopic) : Option (SyncTransfer × Outcome) :=
  match r.written with
  | .ok _ => some (self, .sent msg)
  | .error exc =>
      (self.endSession r.peerId r.endedAt).map (fun self =>
        (self, .failed msg ("remote [" ++ r.peerId ++ "] connection write error: " ++ exc)))

/-- One round of the loop; `none` is a round that does not end. -/
def needsReceiverRound (r : Request) : Option (SyncTransfer × Outcome) :=
  match self.endClosed r with
  | none => none
  | some self =>
      match self.refusedByPeer.expire r.now with
      | none => none
      | some refused =>
          let self := { self with refusedByPeer := refused }
          if self.refusedByPeer.contains (r.peerId, r.fingerprint) then some (self, .refused)
          else
            match self.openConnection r with
            | .error error => some (self, .notDialed error)
            | .ok self =>
                match r.findMessage with
                | .error error => some (self, .queryFailed error)
                | .ok none => some (self, .notFound)
                | .ok (some msg) => (self.recordLarge encodedLen r msg).sendMessage r msg

/-- The rounds of the loop, and the state after them. -/
def needsReceiverLoop : SyncTransfer → List Request → Option (SyncTransfer × List Round)
  | self, [] => some (self, [])
  | self, r :: requests =>
      match self.needsReceiverRound encodedLen r with
      | none => none
      | some (self, outcome) =>
          (needsReceiverLoop self requests).map (fun rest => (rest.1, (r, outcome) :: rest.2))

end SyncTransfer

/-! ### What the rounds say about refusals -/

section Rounds

variable (encodedLen : WakuMessageAndTopic → ℕ) (peer : PeerId) (hash : WakuMessageHash)

def Outcome.isFailed : Outcome → Bool
  | .failed _ _ => true
  | _ => false

/-- The message of the write, whether or not it failed. -/
def Outcome.written : Outcome → Option WakuMessageAndTopic
  | .failed msg _ => some msg
  | .sent msg => some msg
  | _ => none

/-- The hash of the round if it wrote, or tried to write, a message above the cap to the peer. -/
def largeWrite (round : Round) : List WakuMessageHash :=
  match round.2.written with
  | some msg =>
      if round.1.peerId = peer ∧ DefaultReadCap < encodedLen msg then [round.1.fingerprint] else []
  | none => []

/-- The large messages of the session to the peer once the round has ended a closed one. -/
def stillOpen (hashes : List WakuMessageHash) (r : Request) : List WakuMessageHash :=
  if peer = r.peerId ∧ r.closed = true then [] else hashes

/-- The large messages of the session to the peer after the round; a failed write ends it. -/
def unendedAfter (hashes : List WakuMessageHash) (round : Round) : List WakuMessageHash :=
  if peer = round.1.peerId ∧ round.2.isFailed = true then []
  else stillOpen peer hashes round.1 ++ largeWrite encodedLen peer round

/-- The hashes of the large messages that were written into the session to the peer that no round has
ended. -/
def unended (past : List Round) : List WakuMessageHash := past.foldl (unendedAfter encodedLen peer) []

/-- The hash is one of those marked, at the time of its turn. -/
def MarkedAt (hashes : List WakuMessageHash) (now : ℕ → ℤ) (hash : WakuMessageHash) (time : ℤ) : Prop :=
  ∃ i, hashes[i]? = some hash ∧ time = now i

/-- The round ended a session into which a large message of the hash was written, before its own write
or through it, and marked the hash at the time. -/
inductive EndsWithLarge (past : List Round) (round : Round) (time : ℤ) : Prop
  | closed : peer = round.1.peerId → round.1.closed = true →
      MarkedAt (unended encodedLen peer past) round.1.closedAt hash time → EndsWithLarge past round time
  | failed : peer = round.1.peerId → round.2.isFailed = true →
      MarkedAt (stillOpen peer (unended encodedLen peer past) round.1 ++
        largeWrite encodedLen peer round) round.1.endedAt hash time → EndsWithLarge past round time

/-- Some round ended such a session at the time. -/
def LargeEnded (time : ℤ) : List Round → Prop :=
  Once (fun past round => EndsWithLarge encodedLen peer hash past round time)

variable (past : List Round) (r : Request)

/-- Such a session was ended at the time, by a round before or by the start of this one. -/
def EndedBefore (time : ℤ) : Prop :=
  LargeEnded encodedLen peer hash time past ∨
    (peer = r.peerId ∧ r.closed = true) ∧ MarkedAt (unended encodedLen peer past) r.closedAt hash time

/-- The request is for a large message that was in a session to its peer, and not long enough ago
that session ended. -/
def Refuses (syncRange : ℤ) : Prop :=
  ∃ time, EndedBefore encodedLen r.peerId r.fingerprint past r time ∧ r.now < time + syncRange

end Rounds

/-! ### The turns of the marks -/

section Turns

variable {peer : PeerId} {hash : WakuMessageHash} {hashes : List WakuMessageHash} {clock : ℕ → ℤ}

/-- What `markRefused` puts, each key with the time of its turn. -/
def turns (peer : PeerId) (hashes : List WakuMessageHash) (clock : ℕ → ℤ) :
    List ((PeerId × WakuMessageHash) × ℤ) :=
  hashes.zipIdx.map (fun entry => ((peer, entry.1), clock entry.2))

theorem not_markedAt_nil {time : ℤ} : ¬ MarkedAt [] clock hash time := by
  rintro ⟨i, hget, -⟩
  simp at hget

theorem mem_turns {p : PeerId} {time : ℤ} :
    ((p, hash), time) ∈ turns peer hashes clock ↔ p = peer ∧ MarkedAt hashes clock hash time := by
  rw [turns, List.mem_map]
  constructor
  · rintro ⟨⟨hash', i⟩, hget, heq⟩
    obtain ⟨hkey, rfl⟩ := Prod.mk.inj heq
    obtain ⟨rfl, rfl⟩ := Prod.mk.inj hkey
    rw [List.mem_zipIdx_iff_getElem?] at hget
    exact ⟨rfl, i, hget, rfl⟩
  · rintro ⟨rfl, i, hget, rfl⟩
    exact ⟨(hash, i), List.mem_zipIdx_iff_getElem?.mpr hget, rfl⟩

theorem pairwise_turns (hclock : Monotone clock) :
    (turns peer hashes clock).Pairwise (fun entry later => entry.2 ≤ later.2) := by
  rw [turns, List.pairwise_map, List.pairwise_iff_getElem]
  intro i j _ _ hij
  simp only [List.getElem_zipIdx, Nat.zero_add]
  exact hclock hij.le

/-- All turns lie between the first reading of the clock and the one after the last. -/
theorem turns_between (hclock : Monotone clock) {entry : (PeerId × WakuMessageHash) × ℤ}
    (h : entry ∈ turns peer hashes clock) : clock 0 ≤ entry.2 ∧ entry.2 ≤ clock hashes.length := by
  obtain ⟨⟨p, hash⟩, time⟩ := entry
  obtain ⟨-, i, hget, rfl⟩ := mem_turns.mp h
  obtain ⟨hi, -⟩ := List.getElem?_eq_some_iff.mp hget
  exact ⟨hclock (Nat.zero_le i), hclock hi.le⟩

end Turns

/-! ### The state between two rounds -/

/-- The state knows the large messages of the open sessions, and the refusals: `held peer` and
`ended peer hash time` say which. -/
structure Knows (s : SyncTransfer) (syncRange last : ℤ) (held : PeerId → List WakuMessageHash)
    (ended : PeerId → WakuMessageHash → ℤ → Prop) : Prop where
  timeout : s.refusedByPeer.timeout = syncRange
  remembers : ∃ marks, s.refusedByPeer.Remembers last marks ∧
    ∀ peer hash time, ((peer, hash), time) ∈ marks ↔ ended peer hash time
  large : ∀ peer, (s.largeSent.lookup peer).getD [] = held peer
  sessions : ∀ peer, peer ∈ s.largeSent → peer ∈ s.outSessions

namespace Knows

variable {s : SyncTransfer} {syncRange last now : ℤ} {held held' : PeerId → List WakuMessageHash}
  {ended ended' : PeerId → WakuMessageHash → ℤ → Prop}

theorem init (syncRange last : ℤ) :
    Knows (SyncTransfer.new syncRange) syncRange last (fun _ => []) (fun _ _ _ => False) where
  timeout := rfl
  remembers := ⟨[], TimedMap.remembers_init syncRange last, by simp⟩
  large := by simp [SyncTransfer.new]
  sessions := by simp [SyncTransfer.new]

variable (h : Knows s syncRange last held ended)

include h

theorem congr (hheld : ∀ peer, held peer = held' peer)
    (hended : ∀ peer hash time, ended peer hash time ↔ ended' peer hash time) :
    Knows s syncRange last held' ended' where
  timeout := h.timeout
  remembers := by
    obtain ⟨marks, hremembers, hmarks⟩ := h.remembers
    exact ⟨marks, hremembers, fun peer hash time => (hmarks peer hash time).trans (hended ..)⟩
  large peer := (h.large peer).trans (hheld peer)
  sessions := h.sessions

theorem later (hnow : last ≤ now) : Knows s syncRange now held ended where
  timeout := h.timeout
  remembers := by
    obtain ⟨marks, hremembers, hmarks⟩ := h.remembers
    exact ⟨marks, hremembers.later hnow, hmarks⟩
  large := h.large
  sessions := h.sessions

/-- A peer without a session has no large message. -/
theorem held_eq_nil {peer : PeerId} (hpeer : peer ∉ s.outSessions) : held peer = [] := by
  have hnone : s.largeSent.lookup peer = none :=
    AList.lookup_eq_none.mpr (fun hmem => hpeer (h.sessions peer hmem))
  rw [← h.large, hnone, Option.getD_none]

/-- The large messages of a session that ends are marked, each at the time of its turn. -/
theorem endSession {clock : ℕ → ℤ} (hlast : ∀ i, last ≤ clock i) (hclock : Monotone clock)
    (peer : PeerId) : ∃ s' n, s.endSession peer clock = some s' ∧
      Knows s' syncRange (clock n) (fun p => if p = peer then [] else held p)
        (fun p hash time => ended p hash time ∨ p = peer ∧ MarkedAt (held p) clock hash time) := by
  obtain ⟨marks, hremembers, hmarks⟩ := h.remembers
  cases hlookup : s.largeSent.lookup peer with
  | none =>
      have hnil : held peer = [] := by rw [← h.large, hlookup, Option.getD_none]
      have hmem : peer ∉ s.largeSent := AList.lookup_eq_none.mp hlookup
      refine ⟨{ s with outSessions := s.outSessions.erase peer }, 0, ?_, ⟨h.timeout, ?_, ?_, ?_⟩⟩
      · rw [SyncTransfer.endSession, SyncTransfer.markRefused, hlookup]
        rfl
      · refine ⟨marks, hremembers.later (hlast 0), fun p hash time => (hmarks p hash time).trans ?_⟩
        constructor
        · exact Or.inl
        · rintro (hended | ⟨rfl, hmarked⟩)
          · exact hended
          · rw [hnil] at hmarked
            exact absurd hmarked not_markedAt_nil
      · intro p
        dsimp only
        split_ifs with hp
        · rw [hp, h.large, hnil]
        · exact h.large p
      · intro p hp
        have hne : p ≠ peer := by
          rintro rfl
          exact hmem hp
        exact (AList.mem_erase).mpr ⟨hne, h.sessions p hp⟩
  | some hashes =>
      have hheld : held peer = hashes := by rw [← h.large, hlookup, Option.getD_some]
      obtain ⟨refused, hrun, htimeout, hrefused⟩ := hremembers.mgetOrPut_all true
        (fun _ hentry => (hlast 0).trans (turns_between hclock hentry).1)
        (pairwise_turns hclock) (hlast _) (fun _ hentry => (turns_between hclock hentry).2)
      refine ⟨⟨s.outSessions.erase peer, s.largeSent.erase peer, refused⟩, hashes.length, ?_,
        ⟨htimeout.trans h.timeout, ⟨_, hrefused, ?_⟩, ?_, ?_⟩⟩
      · rw [turns] at hrun
        rw [SyncTransfer.endSession, SyncTransfer.markRefused, hlookup]
        dsimp only
        rw [hrun]
        rfl
      · intro p hash time
        rw [List.mem_append, hmarks, mem_turns]
        refine or_congr_right (and_congr_right fun hp => ?_)
        rw [hp, hheld]
      · intro p
        rw [Table.lookup_erase_eq]
        by_cases hp : p = peer
        · simp [hp]
        · rw [if_neg hp, if_neg hp, h.large]
      · intro p hp
        obtain ⟨hne, hmem⟩ := AList.mem_erase.mp hp
        exact AList.mem_erase.mpr ⟨hne, h.sessions p hmem⟩

/-- A session that was closed is ended, whether or not there is one. -/
theorem endClosed (r : Request) (hlast : ∀ i, last ≤ r.closedAt i) (hclock : Monotone r.closedAt) :
    ∃ s' n, s.endClosed r = some s' ∧
      Knows s' syncRange (r.closedAt n) (fun p => stillOpen p (held p) r)
        (fun p hash time => ended p hash time ∨
          (p = r.peerId ∧ r.closed = true) ∧ MarkedAt (held p) r.closedAt hash time) := by
  unfold SyncTransfer.endClosed
  by_cases hends : r.peerId ∈ s.outSessions ∧ r.closed = true
  · rw [if_pos hends]
    obtain ⟨s', n, hrun, hknows⟩ := h.endSession hlast hclock r.peerId
    refine ⟨s', n, hrun, hknows.congr ?_ ?_⟩
    · simp [stillOpen, hends.2]
    · simp [hends.2]
  · rw [if_neg hends]
    -- nothing was written to a peer without a session
    have hnil : ∀ p, p = r.peerId ∧ r.closed = true → held p = [] := by
      rintro p ⟨rfl, hclosed⟩
      exact h.held_eq_nil (fun hmem => hends ⟨hmem, hclosed⟩)
    refine ⟨s, 0, rfl, (h.later (hlast 0)).congr ?_ ?_⟩
    · intro p
      unfold stillOpen
      split_ifs with hp
      · exact hnil p hp
      · rfl
    · refine fun p hash time => ⟨Or.inl, ?_⟩
      rintro (hended | ⟨hp, hmarked⟩)
      · exact hended
      · rw [hnil p hp] at hmarked
        exact absurd hmarked not_markedAt_nil

theorem expire (hnow : last ≤ now) :
    ∃ refused, s.refusedByPeer.expire now = some refused ∧
      Knows { s with refusedByPeer := refused } syncRange now held ended ∧
      ∀ peer hash, refused.contains (peer, hash) = true ↔
        ∃ time, ended peer hash time ∧ now < time + syncRange := by
  obtain ⟨marks, hremembers, hmarks⟩ := h.remembers
  obtain ⟨refused, hrun, htimeout, hrefused, hcontains⟩ := hremembers.expire hnow
  refine ⟨refused, hrun, ⟨htimeout.trans h.timeout, ⟨marks, hrefused, hmarks⟩, h.large, h.sessions⟩, ?_⟩
  intro peer hash
  rw [hcontains, h.timeout]
  constructor
  · rintro ⟨⟨key, time⟩, hmark, rfl, hlt⟩
    exact ⟨time, (hmarks peer hash time).mp hmark, hlt⟩
  · rintro ⟨time, hended, hlt⟩
    exact ⟨((peer, hash), time), (hmarks peer hash time).mpr hended, rfl, hlt⟩

theorem openConnection {r : Request} {s' : SyncTransfer} (hopen : s.openConnection r = .ok s') :
    Knows s' syncRange last held ended ∧ r.peerId ∈ s'.outSessions := by
  unfold SyncTransfer.openConnection at hopen
  by_cases hmem : r.peerId ∈ s.outSessions
  · rw [if_pos hmem] at hopen
    cases hopen
    exact ⟨h, hmem⟩
  · rw [if_neg hmem] at hopen
    cases hdialed : r.dialed with
    | none =>
        rw [hdialed] at hopen
        cases hopen
    | some connection =>
        rw [hdialed] at hopen
        cases hopen
        refine ⟨⟨h.timeout, h.remembers, h.large, fun p hp => ?_⟩, ?_⟩
        · exact (AList.mem_insert _).mpr (Or.inr (h.sessions p hp))
        · exact (AList.mem_insert _).mpr (Or.inl rfl)

theorem recordLarge (encodedLen : WakuMessageAndTopic → ℕ) {r : Request} (msg : WakuMessageAndTopic)
    (hsession : r.peerId ∈ s.outSessions) :
    Knows (s.recordLarge encodedLen r msg) syncRange last
      (fun p => held p ++
        if r.peerId = p ∧ DefaultReadCap < encodedLen msg then [r.fingerprint] else []) ended := by
  unfold SyncTransfer.recordLarge
  by_cases hlarge : DefaultReadCap < encodedLen msg
  · rw [if_pos hlarge]
    refine ⟨h.timeout, h.remembers, fun p => ?_, fun p hp => ?_⟩
    · rw [Table.lookup_insert_eq]
      by_cases hp : p = r.peerId
      · subst hp
        rw [if_pos rfl, Option.getD_some, h.large, if_pos ⟨rfl, hlarge⟩]
      · rw [if_neg hp, h.large, if_neg (fun heq => hp heq.1.symm), List.append_nil]
    · rcases (AList.mem_insert _).mp hp with rfl | hp
      · exact hsession
      · exact h.sessions p hp
  · rw [if_neg hlarge]
    exact h.congr (by simp [hlarge]) (fun _ _ _ => Iff.rfl)

end Knows

/-! ### One round -/

section Step

variable {encodedLen : WakuMessageAndTopic → ℕ} {syncRange last : ℤ} {past : List Round}
  {r : Request} {outcome : Outcome} {peer : PeerId} {hash : WakuMessageHash} {time : ℤ}

/-- The state after the rounds. -/
def KnowsPast (encodedLen : WakuMessageAndTopic → ℕ) (s : SyncTransfer) (syncRange last : ℤ)
    (past : List Round) : Prop :=
  Knows s syncRange last (fun peer => unended encodedLen peer past)
    (fun peer hash time => LargeEnded encodedLen peer hash time past)

theorem unended_concat (round : Round) : unended encodedLen peer (past ++ [round]) =
    unendedAfter encodedLen peer (unended encodedLen peer past) round := by
  rw [unended, List.foldl_append]
  rfl

/-- A round whose write did not fail only ends a session that was closed. -/
theorem largeEnded_concat (hfailed : outcome.isFailed = false) :
    LargeEnded encodedLen peer hash time (past ++ [(r, outcome)]) ↔
      EndedBefore encodedLen peer hash past r time := by
  unfold LargeEnded EndedBefore
  rw [once_concat, or_comm]
  refine or_congr_right ⟨?_, ?_⟩
  · intro h
    cases h with
    | closed hpeer hclosed hmarked => exact ⟨⟨hpeer, hclosed⟩, hmarked⟩
    | failed _ hfails => simp [hfailed] at hfails
  · rintro ⟨⟨hpeer, hclosed⟩, hmarked⟩
    exact .closed hpeer hclosed hmarked

theorem isFailed_of_quiet (hquiet : outcome.written = none) : outcome.isFailed = false := by
  cases outcome with
  | failed msg error => cases hquiet
  | _ => rfl

theorem unended_quiet (hquiet : outcome.written = none) :
    unended encodedLen peer (past ++ [(r, outcome)]) =
      stillOpen peer (unended encodedLen peer past) r := by
  have hfailed := isFailed_of_quiet hquiet
  rw [unended_concat, unendedAfter, if_neg (by simp [hfailed]), largeWrite]
  simp only [hquiet, List.append_nil]

/-- A failed write ends the session with the message that it was to write. -/
theorem largeEnded_failed (msg : WakuMessageAndTopic) (error : String) :
    LargeEnded encodedLen peer hash time (past ++ [(r, .failed msg error)]) ↔
      EndedBefore encodedLen peer hash past r time ∨
      peer = r.peerId ∧ MarkedAt (stillOpen peer (unended encodedLen peer past) r ++
        if r.peerId = peer ∧ DefaultReadCap < encodedLen msg then [r.fingerprint] else [])
        r.endedAt hash time := by
  unfold LargeEnded EndedBefore
  rw [once_concat, or_comm, or_assoc]
  refine or_congr_right ⟨?_, ?_⟩
  · intro h
    cases h with
    | closed hpeer hclosed hmarked => exact Or.inl ⟨⟨hpeer, hclosed⟩, hmarked⟩
    | failed hpeer _ hmarked => exact Or.inr ⟨hpeer, hmarked⟩
  · rintro (⟨⟨hpeer, hclosed⟩, hmarked⟩ | ⟨hpeer, hmarked⟩)
    · exact .closed hpeer hclosed hmarked
    · exact .failed hpeer rfl hmarked

theorem KnowsPast.sendMessage {s : SyncTransfer} {msg : WakuMessageAndTopic}
    (hlast : ∀ i, last ≤ r.endedAt i) (hclock : Monotone r.endedAt)
    (h : Knows s syncRange last
      (fun peer => stillOpen peer (unended encodedLen peer past) r ++
        if r.peerId = peer ∧ DefaultReadCap < encodedLen msg then [r.fingerprint] else [])
      (fun peer hash time => EndedBefore encodedLen peer hash past r time)) :
    ∃ s' outcome n, s.sendMessage r msg = some (s', outcome) ∧ outcome ≠ .refused ∧
      KnowsPast encodedLen s' syncRange (r.endedAt n) (past ++ [(r, outcome)]) := by
  unfold SyncTransfer.sendMessage
  cases r.written with
  | ok _ =>
      refine ⟨s, .sent msg, 0, rfl, nofun, (h.later (hlast 0)).congr ?_ ?_⟩
      · intro peer
        have hsent : ¬ (peer = r.peerId ∧ (Outcome.sent msg).isFailed = true) := fun h => nomatch h.2
        exact ((unended_concat (r, .sent msg)).trans (if_neg hsent)).symm
      · exact fun peer hash time => (largeEnded_concat rfl).symm
  | error exc =>
      obtain ⟨s', n, hrun, hknows⟩ := h.endSession hlast hclock r.peerId
      dsimp only
      rw [hrun]
      refine ⟨s', .failed msg _, n, rfl, nofun, hknows.congr ?_ ?_⟩
      · intro peer
        rw [unended_concat, unendedAfter]
        simp only [Outcome.isFailed, and_true]
        rfl
      · exact fun peer hash time => (largeEnded_failed msg _).symm

/-- The readings of the clock in one round do not go back. -/
structure Request.InClockOrder (r : Request) : Prop where
  closedAt : Monotone r.closedAt
  closed : ∀ i, r.closedAt i ≤ r.now
  ended : ∀ i, r.now ≤ r.endedAt i
  endedAt : Monotone r.endedAt

/-- What one round does. -/
theorem KnowsPast.needsReceiverRound {s : SyncTransfer} (h : KnowsPast encodedLen s syncRange last past)
    (hlast : ∀ i, last ≤ r.closedAt i) (hclock : r.InClockOrder) :
    ∃ s' outcome n, s.needsReceiverRound encodedLen r = some (s', outcome) ∧
      (outcome = .refused ↔ Refuses encodedLen past r syncRange) ∧
      KnowsPast encodedLen s' syncRange (r.endedAt n) (past ++ [(r, outcome)]) := by
  obtain ⟨s₁, n₁, hrun₁, (hknows₁ : Knows s₁ syncRange (r.closedAt n₁)
    (fun peer => stillOpen peer (unended encodedLen peer past) r)
    (fun peer hash time => EndedBefore encodedLen peer hash past r time))⟩ :=
      h.endClosed r hlast hclock.closedAt
  obtain ⟨refused, hrun₂, hknows₂, hcontains⟩ := hknows₁.expire (hclock.closed n₁)
  have hrefuses : refused.contains (r.peerId, r.fingerprint) = true ↔
      Refuses encodedLen past r syncRange := hcontains r.peerId r.fingerprint
  -- a round that writes nothing leaves what it has ended
  have hquiet : ∀ {s' : SyncTransfer} {outcome : Outcome}, outcome.written = none →
      Knows s' syncRange r.now (fun peer => stillOpen peer (unended encodedLen peer past) r)
        (fun peer hash time => EndedBefore encodedLen peer hash past r time) →
      KnowsPast encodedLen s' syncRange (r.endedAt 0) (past ++ [(r, outcome)]) := by
    intro s' outcome hquiet hknows
    exact (hknows.later (hclock.ended 0)).congr (fun _ => (unended_quiet hquiet).symm)
      (fun _ _ _ => (largeEnded_concat (isFailed_of_quiet hquiet)).symm)
  unfold SyncTransfer.needsReceiverRound
  rw [hrun₁]
  dsimp only
  rw [hrun₂]
  dsimp only
  by_cases hskip : refused.contains (r.peerId, r.fingerprint) = true
  · rw [if_pos hskip]
    exact ⟨_, _, 0, rfl, iff_of_true rfl (hrefuses.mp hskip), hquiet rfl hknows₂⟩
  · rw [if_neg hskip]
    have hnot := (not_congr hrefuses).mp hskip
    cases hopen : SyncTransfer.openConnection { s₁ with refusedByPeer := refused } r with
    | error error => exact ⟨_, _, 0, rfl, iff_of_false nofun hnot, hquiet rfl hknows₂⟩
    | ok s₂ =>
        obtain ⟨hknows₃, hsession⟩ := hknows₂.openConnection hopen
        dsimp only
        cases r.findMessage with
        | error error => exact ⟨_, _, 0, rfl, iff_of_false nofun hnot, hquiet rfl hknows₃⟩
        | ok found =>
            cases found with
            | none => exact ⟨_, _, 0, rfl, iff_of_false nofun hnot, hquiet rfl hknows₃⟩
            | some msg =>
                obtain ⟨s', outcome, n, hsend, hsent, hknows'⟩ := KnowsPast.sendMessage hclock.ended
                  hclock.endedAt (hknows₃.recordLarge encodedLen msg hsession)
                exact ⟨s', outcome, n, hsend, iff_of_false hsent hnot, hknows'⟩

end Step

/-! ### All rounds -/

/-- The clock does not go back. -/
structure InClockOrder (requests : List Request) : Prop where
  each : ∀ r ∈ requests, r.InClockOrder
  later : requests.Pairwise (fun r later => ∀ i j, r.endedAt i ≤ later.closedAt j)

theorem KnowsPast.needsReceiverLoop {encodedLen : WakuMessageAndTopic → ℕ} {s : SyncTransfer}
    {syncRange last : ℤ} {done : List Round} {requests : List Request}
    (h : KnowsPast encodedLen s syncRange last done)
    (hlast : ∀ r ∈ requests, ∀ i, last ≤ r.closedAt i) (hclock : InClockOrder requests) :
    ∃ s' rounds, s.needsReceiverLoop encodedLen requests = some (s', rounds) ∧
      rounds.map Prod.fst = requests ∧
      ∀ past r outcome later, rounds = past ++ (r, outcome) :: later →
        (outcome = .refused ↔ Refuses encodedLen (done ++ past) r syncRange) := by
  induction requests generalizing s last done with
  | nil =>
      refine ⟨s, [], rfl, rfl, ?_⟩
      intro past r outcome later hrounds
      simp at hrounds
  | cons r requests ih =>
      obtain ⟨hhead, htail⟩ := List.pairwise_cons.mp hclock.later
      obtain ⟨s₁, outcome, n, hround, hrefused, h₁⟩ := h.needsReceiverRound
        (hlast r List.mem_cons_self) (hclock.each r List.mem_cons_self)
      obtain ⟨s', rounds, hloop, hfst, hrest⟩ := ih h₁ (fun r' hmem => hhead r' hmem n)
        ⟨fun r' hmem => hclock.each r' (List.mem_cons_of_mem _ hmem), htail⟩
      refine ⟨s', (r, outcome) :: rounds, ?_, by rw [List.map_cons, hfst], ?_⟩
      · rw [SyncTransfer.needsReceiverLoop, hround]
        dsimp only
        rw [hloop]
        rfl
      · intro past r' outcome' later hrounds
        cases past with
        | nil =>
            obtain ⟨hhead, _⟩ := List.cons_eq_cons.mp hrounds
            obtain ⟨rfl, rfl⟩ := Prod.mk.inj hhead
            rw [List.append_nil]
            exact hrefused
        | cons round past =>
            rw [List.cons_append] at hrounds
            obtain ⟨rfl, hrounds'⟩ := List.cons_eq_cons.mp hrounds
            have hpast := hrest past r' outcome' later hrounds'
            rwa [List.append_assoc, List.singleton_append] at hpast

/-- The loop always gets through its requests, and it refuses one exactly when a message above the cap
was written for it into a session that ended less than the sync range ago. -/
theorem needsReceiverLoop_refuses (encodedLen : WakuMessageAndTopic → ℕ) (syncRange : ℤ)
    (requests : List Request) (hclock : InClockOrder requests) :
    ∃ s rounds, (SyncTransfer.new syncRange).needsReceiverLoop encodedLen requests =
        some (s, rounds) ∧ rounds.map Prod.fst = requests ∧
      ∀ past r outcome later, rounds = past ++ (r, outcome) :: later →
        (outcome = .refused ↔ Refuses encodedLen past r syncRange) := by
  cases requests with
  | nil =>
      refine ⟨SyncTransfer.new syncRange, [], rfl, rfl, ?_⟩
      intro past r outcome later hrounds
      simp at hrounds
  | cons r requests =>
      have hinit : KnowsPast encodedLen (SyncTransfer.new syncRange) syncRange (r.closedAt 0) [] := by
        refine (Knows.init syncRange (r.closedAt 0)).congr (fun _ => rfl) ?_
        exact fun _ _ _ => iff_of_false id not_once_nil
      have hr := hclock.each r List.mem_cons_self
      refine hinit.needsReceiverLoop ?_ hclock
      intro r' hmem i
      rcases List.mem_cons.mp hmem with rfl | hmem
      · exact hr.closedAt (Nat.zero_le i)
      · have hlater := (List.pairwise_cons.mp hclock.later).1 r' hmem 0 i
        exact ((hr.closed 0).trans (hr.ended 0)).trans hlater

/-- A message is needed; the session to its peer may have been reset. -/
def neededAt (closed : Bool) (now : ℤ) : Request where
  peerId := "peer"
  fingerprint := emptyFingerprint
  closed := closed
  closedAt _ := now
  now := now
  dialed := some 0
  getMessages _ := .ok [⟨emptyFingerprint, "topic", ⟨[], "content", [], 0, 0⟩⟩]
  written := .ok ()
  endedAt _ := now

/-- It is needed three times, and the session is reset before the second time. -/
def neededThrice : List Request := [neededAt false 0, neededAt true 10, neededAt false 80]

theorem inClockOrder_neededThrice : InClockOrder neededThrice where
  each r hr := by
    simp only [neededThrice, List.mem_cons, List.not_mem_nil, or_false] at hr
    rcases hr with rfl | rfl | rfl
    all_goals exact ⟨monotone_const, fun _ => le_rfl, fun _ => le_rfl, monotone_const⟩
  later := by simp [neededThrice, neededAt]

/-- A large message is sent, refused while the reset is less than 60 ago, and sent again. -/
theorem neededThrice_refused :
    ((SyncTransfer.new 60).needsReceiverLoop (fun _ => DefaultReadCap + 1) neededThrice).map
        (fun done => done.2.map (fun round => round.2.written.isNone)) =
      some [false, true, false] ∧
    ∃ s rounds, (SyncTransfer.new 60).needsReceiverLoop (fun _ => DefaultReadCap + 1) neededThrice =
        some (s, rounds) ∧ rounds.map Prod.fst = neededThrice ∧
      ∀ past r outcome later, rounds = past ++ (r, outcome) :: later →
        (outcome = .refused ↔ Refuses (fun _ => DefaultReadCap + 1) past r 60) :=
  ⟨by decide, needsReceiverLoop_refuses _ 60 neededThrice inClockOrder_neededThrice⟩

end LogosDelivery.StoreSync
