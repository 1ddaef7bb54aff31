import LogosDelivery.StoreSync.Delivery
import LogosDelivery.StoreSync.Synchronization

/-! # Two nodes converge

A session leaves each node with the ids it is to send and with placeholders of those it waits for.
When no transfer fails, every order of the steps of both nodes comes to an end (`work`), and then
nothing is pending and either index has what it had and what the other one had in scope on the common
slice. -/

namespace LogosDelivery.StoreSync

open Archive (WakuMessageAndTopic ArchiveRow Ingress)
open Lib

/-! ### The end of the transfers -/

namespace Pair

variable {δ : Type} (c : Pair δ)

/-- The step has something to take from its queue. -/
def Busy : TransferStep → Prop
  | .send side _ => (c.node side).sync.remoteNeedsTx ≠ []
  | .receive side => c.wire side ≠ []
  | .index side => (c.node side).ingress.idsTx ≠ []

/-- The steps that the queues of a side still take. -/
def workAt (side : Bool) : ℕ :=
  3 * (c.node side).sync.remoteNeedsTx.length + 2 * (c.wire side).length +
    (c.node side).ingress.idsTx.length

def work : ℕ := c.workAt true + c.workAt false

theorem drained_iff_work : c.Drained ↔ c.work = 0 := by
  have hside : ∀ side, c.workAt side = 0 ↔ (c.node side).sync.remoteNeedsTx = [] ∧
      c.wire side = [] ∧ (c.node side).ingress.idsTx = [] := by
    intro side
    rw [← List.length_eq_zero_iff, ← List.length_eq_zero_iff (l := c.wire side),
      ← List.length_eq_zero_iff (l := (c.node side).ingress.idsTx), workAt]
    omega
  unfold Drained work
  rw [Nat.add_eq_zero_iff, hside, hside, Bool.forall_bool]
  exact and_comm

end Pair

section Work

variable {δ : Type} {d : Deployment δ} {start c : Pair δ} {ids : Bool → List SyncID}

/-- Each step that is not idle leaves one step less. -/
theorem Delivers.work_step (h : Promising d start ids) (hc : Delivers d start c ids) {a : TransferStep}
    (ha : a.Succeeds) (hbusy : c.Busy a) : (Pair.step d c a).work + 1 = c.work := by
  cases a with
  | send side net =>
      obtain ⟨done, queued, carried, waiting, hunder⟩ := hc.underway side
      cases waiting with
      | nil => exact absurd hunder.needs hbusy
      | cons x waiting =>
          obtain ⟨row, transfer, syncRange, _, _, _, hsend⟩ := hunder.send_eq h hc.intact ha
          have hneeds := congrArg List.length hunder.needs
          have hwire := congrArg List.length hunder.wire
          simp only [List.length_map, List.length_cons] at hneeds hwire
          rw [Pair.step, hsend]
          cases side <;> simp [Pair.work, Pair.workAt] <;> omega
  | receive side =>
      obtain ⟨done, queued, carried, waiting, hunder⟩ := hc.underway side
      cases carried with
      | nil => exact absurd hunder.wire hbusy
      | cons row carried =>
          obtain ⟨ingress, _, _, hidsTx, _, hreceive⟩ := hunder.receive_eq h
          have hwire := congrArg List.length hunder.wire
          have hqueue := congrArg List.length hunder.idsTx
          have hqueue' := congrArg List.length hidsTx
          simp only [List.length_map, List.length_cons, List.length_append, List.length_nil]
            at hwire hqueue hqueue'
          rw [Pair.step, hreceive]
          cases side <;> simp [Pair.work, Pair.workAt] at hqueue ⊢ <;> omega
  | index side =>
      obtain ⟨done, queued, carried, waiting, hunder⟩ := hc.underway (!side)
      cases queued with
      | nil =>
          have hidle := hunder.idsTx
          rw [Bool.not_not] at hidle
          exact absurd hidle hbusy
      | cons row queued =>
          have hindex := hunder.index_eq
          have hqueue := congrArg List.length hunder.idsTx
          obtain ⟨_, _, _, hneeds⟩ := messageIngress_row (hc.intact.wellFormed side)
            (hc.intact.deferredTx side) row
          rw [Bool.not_not] at hindex hqueue
          simp only [List.length_map, List.length_cons] at hqueue
          rw [Pair.step, hindex]
          cases side <;> simp [Pair.work, Pair.workAt, hneeds] <;> omega

/-- A run without idle steps gets through the work one step at a time. -/
theorem Promising.work_run (h : Promising d start ids) {steps : List TransferStep}
    (hsteps : ∀ a ∈ steps, a.Succeeds)
    (hbusy : AllSteps (fun past a => (run (Pair.step d) start past).Busy a) steps) :
    (run (Pair.step d) start steps).work + steps.length = start.work := by
  induction steps using List.reverseRecOn with
  | nil => rfl
  | append_singleton steps a ih =>
      obtain ⟨hpast, ha⟩ := List.forall_mem_append.mp hsteps
      have hwork := (h.delivers_run hpast).work_step h (ha a (List.mem_singleton_self a)) hbusy.last
      have hrest := ih hpast hbusy.init
      rw [run_concat, List.length_append, List.length_singleton]
      omega

/-- What a drained state is. -/
theorem Delivers.drained (h : Promising d start ids) (hc : Delivers d start c ids) (hdrained : c.Drained)
    (side : Bool) :
    (∀ x, x ∈ (c.node side).sync.storage.elements ↔
      x ∈ (start.node side).sync.storage.elements ∨ x ∈ ids (!side)) ∧
    (c.node side).sync.pendingSet = ∅ ∧
    ∀ x ∈ ids (!side), ∃ row ∈ c.rows d side, rowId row = x := by
  obtain ⟨done, queued, carried, waiting, hunder⟩ := hc.underway (!side)
  have hwaiting : waiting = [] := List.map_eq_nil_iff.mp (hunder.needs.symm.trans (hdrained _).1)
  have hcarried : carried = [] := List.map_eq_nil_iff.mp (hunder.wire.symm.trans (hdrained _).2.1)
  have hqueued : queued = [] := List.map_eq_nil_iff.mp (hunder.idsTx.symm.trans (hdrained _).2.2)
  subst hwaiting hcarried hqueued
  have horder : ids (!side) = done.map rowId := by
    rw [hunder.order]
    simp
  have helements := hunder.elements
  have hpending := hunder.pendingSet
  have harchived := hunder.archived
  rw [Bool.not_not] at helements hpending harchived
  refine ⟨?_, ?_, ?_⟩
  · rw [horder]
    exact helements
  · rw [hpending, Finset.sdiff_eq_empty_iff_subset]
    intro hash hhash
    obtain ⟨x, hx, rfl⟩ := h.pending side hash hhash
    rw [horder] at hx
    obtain ⟨row, hrow, rfl⟩ := List.mem_map.mp hx
    exact List.mem_toFinset.mpr (List.mem_map_of_mem hrow)
  · intro x hx
    rw [horder] at hx
    obtain ⟨row, hrow, rfl⟩ := List.mem_map.mp hx
    exact ⟨row, harchived row (List.mem_append_left _ hrow), rfl⟩

end Work

/-! ### A session and its transfers -/

/-- What was found are the own elements on the slice that the other side lacks. -/
theorem Finds.mem_found {own other : List SyncID} {start lo hi : ℤ} (hlo : lo ≤ start)
    (hhash : ∀ x ∈ own, x.hash ≠ emptyFingerprint) {found new : List SyncID}
    (h : Finds own other start hi
      (within (lacked start own other) ⟨SyncID.atTime lo, SyncID.atTime hi⟩) found new) {x : SyncID} :
    x ∈ found ↔ x ∈ own ∧ x ∉ other ∧ start ≤ x.time ∧ x.time < hi := by
  rw [h.perm.mem_iff, mem_within, mem_lacked]
  constructor
  · rintro ⟨⟨hown, hother, hstart⟩, hin⟩
    exact ⟨hown, hother, hstart, ((inBounds_atTime (hhash x hown)).mp hin).2⟩
  · rintro ⟨hown, hother, hstart, hhi⟩
    exact ⟨⟨hown, hother, hstart⟩, (inBounds_atTime (hhash x hown)).mpr ⟨hlo.trans hstart, hhi⟩⟩

/-- Between two sessions: no transfer is queued or refused, and the archives hold the messages of the
indexes, one row for a hash. -/
structure Archiving {δ : Type} (d : Deployment δ) (A B : SyncReconciliation) (transfer : Bool → SyncTransfer)
    (ingress : Bool → Ingress δ) : Prop where
  driver : Lasting d.archive.driver
  needs : A.remoteNeedsTx = [] ∧ B.remoteNeedsTx = []
  deferredTx : A.deferredTx = ∅ ∧ B.deferredTx = ∅
  refused : ∀ side, ∃ syncRange, (transfer side).refusedByPeer = Common.TimedMap.init syncRange
  idsTx : ∀ side, (ingress side).idsTx = []
  archived : ∀ side, ∀ x ∈ (cond side A B).storage.elements,
    ∃ row ∈ d.archive.driver.rows (ingress side).db, rowId row = x
  transferable : ∀ side, ∀ row ∈ d.archive.driver.rows (ingress side).db, Transferable d row
  one_row : ∀ side side' row row', row ∈ d.archive.driver.rows (ingress side).db →
    row' ∈ d.archive.driver.rows (ingress side').db → row.hash = row'.hash → row = row'

/-- The nodes after a session. -/
def afterSession {δ : Type} (A' B' : SyncReconciliation) (transfer : Bool → SyncTransfer)
    (ingress : Bool → Ingress δ) : Pair δ where
  node side := ⟨cond side A' B', transfer side, ingress side⟩
  wire _ := []

/-- One side after a session, from the node `s₀` that entered it. -/
structure Finished (s₀ s : SyncReconciliation) (slice : Slice SyncID) (own other : List SyncID)
    (peer : PeerId) (found : List SyncID) : Prop where
  wellFormed : s.storage.WellFormed
  remoteNeedsTx : s.remoteNeedsTx = found.map (fun x => (peer, x.hash))
  deferredTx : s.deferredTx = ∅
  mem_found : ∀ x, x ∈ found ↔ x ∈ own ∧ x ∉ other ∧ slice.a.time ≤ x.time ∧ x.time < slice.b.time
  elements : ∀ x, x ∈ s.storage.elements → x ∈ s₀.storage.elements ∨
    x ∈ other ∧ x ∉ own ∧ slice.a.time ≤ x.time ∧ x.time < slice.b.time
  kept : ∀ x ∈ s₀.storage.elements, x ∈ s.storage.elements
  pendingSet : ∀ hash ∈ s.pendingSet, ∃ x, x.hash = hash ∧ x ∈ other ∧ x ∉ own ∧
    slice.a.time ≤ x.time ∧ x.time < slice.b.time

theorem SyncReconciliation.Advanced.finished {s₀ s : SyncReconciliation} {a : Attribution}
    {slice : Slice SyncID} {own other : List SyncID} {peer : PeerId} {found recv : List SyncID} {lo : ℤ}
    (h : Advanced s₀ s peer recv (found.map SyncID.hash)) (hready : s₀.Ready a)
    (hneeds : s₀.remoteNeedsTx = []) (hdeferred : s₀.deferredTx = ∅) (hlo : lo ≤ slice.a.time)
    (hhash : ∀ x ∈ own, x.hash ≠ emptyFingerprint)
    (hfinds : Finds own other slice.a.time slice.b.time
      (within (lacked slice.a.time own other) ⟨SyncID.atTime lo, SyncID.atTime slice.b.time⟩) found
      recv) :
    Finished s₀ s slice own other peer found := by
  obtain ⟨hwell, hmem⟩ := SeqStorage.WellFormed.mem_promiseAll recv hready.sound.wellFormed
  rw [← h.storage] at hwell hmem
  refine ⟨hwell, ?_, h.deferredTx.trans hdeferred, fun x => hfinds.mem_found hlo hhash, ?_, ?_, ?_⟩
  · rw [h.remoteNeedsTx, hneeds, List.nil_append, List.map_map]
    rfl
  · intro x hx
    exact ((hmem x).mp hx).imp_right (hfinds.new_missing x)
  · exact fun x hx => (hmem x).mpr (Or.inl hx)
  · intro hash hhash'
    rw [h.pendingSet, hready.idle, Finset.empty_union, List.mem_toFinset] at hhash'
    obtain ⟨x, hx, rfl⟩ := List.mem_map.mp hhash'
    exact ⟨x, rfl, hfinds.new_missing x hx⟩

section Session

variable {δ : Type} {d : Deployment δ} {A B A₀ B₀ A' B' : SyncReconciliation}
  {transfer : Bool → SyncTransfer} {ingress : Bool → Ingress δ} {slice : Slice SyncID}
  {own other found found' : List SyncID}

/-- What a session leaves can be transferred. -/
theorem Archiving.promising (h : Archiving d A B transfer ingress)
    (hA : Finished A₀ A' slice own other (d.peerId false) found)
    (hB : Finished B₀ B' slice other own (d.peerId true) found')
    (hown : ∀ x ∈ own, x ∈ A.storage.elements) (hother : ∀ x ∈ other, x ∈ B.storage.elements) :
    Promising d (afterSession A' B' transfer ingress) (fun side => cond side found found') := by
  refine ⟨h.driver, ?_, fun _ => rfl, h.idsTx, ?_, h.refused, ?_, ?_, ?_, h.transferable, h.one_row⟩
  · intro side
    cases side with
    | false => exact hB.remoteNeedsTx
    | true => exact hA.remoteNeedsTx
  · intro side
    cases side with
    | false => exact hB.deferredTx
    | true => exact hA.deferredTx
  · intro side
    cases side with
    | false => exact hB.wellFormed
    | true => exact hA.wellFormed
  · intro side hash hhash
    cases side with
    | false =>
        obtain ⟨x, rfl, hx⟩ := hB.pendingSet hash hhash
        exact ⟨x, (hA.mem_found x).mpr hx, rfl⟩
    | true =>
        obtain ⟨x, rfl, hx⟩ := hA.pendingSet hash hhash
        exact ⟨x, (hB.mem_found x).mpr hx, rfl⟩
  · intro side x hx
    cases side with
    | false => exact h.archived false x (hother x ((hB.mem_found x).mp hx).1)
    | true => exact h.archived true x (hown x ((hA.mem_found x).mp hx).1)

/-- The elements that a side ends with. -/
theorem Finished.elements_iff {peer peer' : PeerId} (hA : Finished A₀ A' slice own other peer found)
    (hB : Finished B₀ B' slice other own peer' found')
    (hown : ∀ x ∈ own, x ∈ A₀.storage.elements) (x : SyncID) :
    (x ∈ A'.storage.elements ∨ x ∈ found') ↔ x ∈ A₀.storage.elements ∨
      x ∈ other ∧ slice.a.time ≤ x.time ∧ x.time < slice.b.time := by
  constructor
  · rintro (hx | hx)
    · exact (hA.elements x hx).imp_right (fun hnew => ⟨hnew.1, hnew.2.2⟩)
    · obtain ⟨hother, _, hin⟩ := (hB.mem_found x).mp hx
      exact Or.inr ⟨hother, hin⟩
  · rintro (hx | ⟨hother, hin⟩)
    · exact Or.inl (hA.kept x hx)
    · by_cases hmem : x ∈ own
      · exact Or.inl (hA.kept x (hown x hmem))
      · exact Or.inr ((hB.mem_found x).mpr ⟨hother, hmem, hin⟩)

end Session

theorem Ready.expirePending_queues {s : SyncReconciliation} {a : Attribution} (h : s.Ready a)
    (now : ℤ) : (s.expirePending now).remoteNeedsTx = s.remoteNeedsTx ∧
      (s.expirePending now).deferredTx = s.deferredTx := by
  rw [SyncReconciliation.expirePending_of_idle h.idle]
  exact ⟨rfl, rfl⟩

/-- A side after the transfers: nothing is pending, the index has what it had and what the other had
in scope on the slice, and the archive holds the message of each element. -/
structure Converged {δ : Type} (d : Deployment δ) (A B : SyncReconciliation)
    (topics : List PubsubTopic) (slice : Slice SyncID) (c : Pair δ) (side : Bool) : Prop where
  pendingSet : (c.node side).sync.pendingSet = ∅
  elements : ∀ x, x ∈ (c.node side).sync.storage.elements ↔
    x ∈ (cond side A B).storage.elements ∨
      x ∈ within ((cond side B A).storage.inScope topics) slice
  archived : ∀ x ∈ (c.node side).sync.storage.elements, ∃ row ∈ c.rows d side, rowId row = x

theorem sqliteDriver_lasting : Lasting Archive.sqliteDriver where
  keeps db row := by
    unfold Archive.sqliteDriver
    dsimp only
    split_ifs
    · exact List.Subset.refl _
    · exact List.Subset.refl _
    · exact List.Subset.refl _
    · exact List.subset_append_left _ _
  stores db row hpubsub hcontent := by
    unfold Archive.sqliteDriver
    dsimp only
    rw [if_neg hpubsub, if_neg hcontent]
    split_ifs
    · exact ⟨false, rfl⟩
    · exact ⟨true, rfl⟩
  holds db row hpubsub hcontent := by
    unfold Archive.sqliteDriver
    dsimp only
    rw [if_neg hpubsub, if_neg hcontent]
    split_ifs with hmem
    · exact List.mem_map.mp hmem
    · exact ⟨row, List.mem_append_right _ (List.mem_singleton_self row), rfl⟩

def hashAtFive : WakuMessageHash :=
  ⟨[90, 69, 165, 191, 186, 7, 229, 213, 191, 89, 90, 115, 57, 66, 101, 220, 134, 30, 29, 171, 29, 212,
    55, 125, 113, 116, 175, 99, 27, 151, 83, 51], rfl⟩

def hashAtSeven : WakuMessageHash :=
  ⟨[183, 126, 170, 99, 20, 14, 47, 85, 204, 245, 8, 233, 219, 119, 45, 54, 87, 163, 210, 101, 102, 236,
    181, 9, 144, 181, 4, 134, 219, 240, 82, 16], rfl⟩

def rowAtFive : ArchiveRow := ⟨hashAtFive, "/waku/2/rs/1/0", ⟨[1], "/a", [], 0, 5⟩⟩

def rowAtSeven : ArchiveRow := ⟨hashAtSeven, "/waku/2/rs/1/0", ⟨[2], "/a", [], 0, 7⟩⟩

/-- SHA-256 on the two messages, which are told apart by the last byte of their times. -/
def digestOfTwo (bytes : List Byte) : WakuMessageHash :=
  if bytes.getLast? = some 5 then hashAtFive else hashAtSeven

/-- The protobuf bytes of a message of one byte on `/a`, with the zigzag of its time, and its shard. -/
def encodedMessage (payload time : Byte) : List Byte :=
  [10, 9, 10, 1, payload, 18, 2, 47, 97, 80, time,
    18, 14, 47, 119, 97, 107, 117, 47, 50, 47, 114, 115, 47, 49, 47, 48]

def encodeTwo (payload : WakuMessageAndTopic) : List Byte :=
  if payload.message.timestamp = 5 then encodedMessage 1 10 else encodedMessage 2 14

def parseTwo (buffer : List Byte) : Option WakuMessageAndTopic :=
  if buffer = encodedMessage 1 10 then some (payloadOf rowAtFive)
  else if buffer = encodedMessage 2 14 then some (payloadOf rowAtSeven)
  else none

def twoArchives : Deployment (List ArchiveRow) where
  sha256 := digestOfTwo
  archive := { driver := Archive.sqliteDriver }
  encode := encodeTwo
  parse := parseTwo
  peerId side := cond side "a" "b"
  maxRpcSize _ := DefaultReadCap

theorem transferable_of_two {row : ArchiveRow} (h : row = rowAtFive ∨ row = rowAtSeven) :
    Transferable twoArchives row := by
  rcases h with rfl | rfl
  · refine ⟨?_, rfl, by decide +kernel, fun _ => show 27 ≤ DefaultReadCap by decide⟩
    unfold Archive.Ingress.Keyed
    decide +kernel
  · refine ⟨?_, rfl, by decide +kernel, fun _ => show 27 ≤ DefaultReadCap by decide⟩
    unfold Archive.Ingress.Keyed
    decide +kernel

/-- Each node has archived one of the messages. -/
def archiveOfOne (side : Bool) : Ingress (List ArchiveRow) where
  db := [cond side rowAtFive rowAtSeven]
  puts := [cond side rowAtFive rowAtSeven]
  idsTx := []
  transfers _ := .idle

theorem archiving_of_two : Archiving twoArchives (nodeWith ⟨5, hashAtFive⟩ [0, 1])
    (nodeWith ⟨7, hashAtSeven⟩ [0]) (fun _ => SyncTransfer.new 60) archiveOfOne where
  driver := sqliteDriver_lasting
  needs := ⟨rfl, rfl⟩
  deferredTx := ⟨rfl, rfl⟩
  refused _ := ⟨60, rfl⟩
  idsTx _ := rfl
  archived side x hx := by
    cases side with
    | false =>
        rw [cond_false, nodeWith_elements, List.mem_singleton] at hx
        exact ⟨rowAtSeven, List.mem_singleton_self _, hx.symm⟩
    | true =>
        rw [cond_true, nodeWith_elements, List.mem_singleton] at hx
        exact ⟨rowAtFive, List.mem_singleton_self _, hx.symm⟩
  transferable side row hrow := by
    rw [List.mem_singleton.mp hrow]
    cases side with
    | false => exact transferable_of_two (Or.inr rfl)
    | true => exact transferable_of_two (Or.inl rfl)
  one_row side side' row row' hrow hrow' hhash := by
    rw [List.mem_singleton.mp hrow, List.mem_singleton.mp hrow'] at hhash ⊢
    cases side <;> cases side' <;> first | rfl | exact absurd hhash (by decide)

end LogosDelivery.StoreSync
