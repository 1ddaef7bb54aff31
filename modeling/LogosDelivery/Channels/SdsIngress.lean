import LogosDelivery.Lib.Runs

/-! # The ingress of a reliable channel

`handleIncoming` of `scalable_data_sync.nim`.  The reliability manager of nim-sds, which is not
part of the repository, keeps the history of a channel and a buffer of the messages that miss a
dependency; beside it the handler keeps the content of buffered messages in a stash of at most
`maxPendingContent` entries and returns it when the manager calls `onMessageReady`.

Messages are given by their ids: `M` tells what a message is.  What the code relies on of the
manager is in `unwrapReceivedMessage` and `Cascade`: a message of the history changes nothing, one
with a dependency outside the history is buffered, and any other enters the history and is
followed by the buffered messages that became ready, one after the other, until none is left.  The
order in which these follow is an argument of an arrival.

A message without content (a sync message) that misses a dependency is parked like any other, and
returned later without content; and a message that is parked already and arrives again while the
stash is full pushes another one out.  Runs in which neither happens deliver every segment once,
after its causes (`ingress_after`). -/

namespace LogosDelivery.Channels.Sds

open Lib

variable {ι : Type} [DecidableEq ι]

/-- What a message is, apart from its id. -/
structure SdsMessage (ι : Type) where
  content : List UInt8
  senderId : String
  causalHistory : List ι

structure SdsDeliverable where
  content : List UInt8
  senderId : String
deriving DecidableEq

/-- The state of a nim-sds manager that the handler depends on. -/
structure ReliabilityManager (ι : Type) where
  messageHistory : Finset ι
  incomingBuffer : Finset ι

/-- The handler of a channel.  The entries of `released` carry the id of their message, which the
code does not keep. -/
structure SdsHandler (ι : Type) where
  reliabilityManager : ReliabilityManager ι
  pendingContent : List (ι × SdsDeliverable)
  released : List (ι × SdsDeliverable)

/-- A call of `handleIncoming`: the message, and the buffered messages that become ready by it, in
the order in which the manager takes them. -/
structure Arrival (ι : Type) where
  messageId : ι
  cascade : List ι

def maxPendingContent : ℕ := 32

variable (M : ι → SdsMessage ι)

/-- The deliverable of a message. -/
def deliverable (id : ι) : SdsDeliverable := ⟨(M id).content, (M id).senderId⟩

/-- The dependencies of a message outside the history. -/
def missingDeps (history : Finset ι) (id : ι) : List ι :=
  (M id).causalHistory.filter (fun dep => dep ∉ history)

/-! ### The manager -/

/-- A ready message leaves the buffer for the history. -/
def ReliabilityManager.accept (rm : ReliabilityManager ι) (id : ι) : ReliabilityManager ι where
  messageHistory := insert id rm.messageHistory
  incomingBuffer := rm.incomingBuffer.erase id

/-- The messages are buffered ones that become ready one after the other, and after the last of
them no buffered message is ready. -/
def Cascade : ReliabilityManager ι → List ι → Prop
  | rm, [] => ∀ id ∈ rm.incomingBuffer, missingDeps M rm.messageHistory id ≠ []
  | rm, id :: ids =>
      id ∈ rm.incomingBuffer ∧ missingDeps M rm.messageHistory id = [] ∧ Cascade (rm.accept id) ids

/-! ### The handler -/

namespace SdsHandler

/-- A handler whose manager restored a history. -/
def new (history : Finset ι) : SdsHandler ι where
  reliabilityManager := ⟨history, ∅⟩
  pendingContent := []
  released := []

/-- The ids of the parked messages, oldest first. -/
def parked (s : SdsHandler ι) : List ι := s.pendingContent.map Prod.fst

/-- Set an entry of the ordered table: an entry that is there keeps its place. -/
def setPending (pending : List (ι × SdsDeliverable)) (id : ι) (d : SdsDeliverable) :
    List (ι × SdsDeliverable) :=
  if id ∈ pending.map Prod.fst then pending.map (fun e => if e.1 = id then (id, d) else e)
  else pending ++ [(id, d)]

/-- The callback of the manager: a parked message is released. -/
def onMessageReady (s : SdsHandler ι) (messageId : ι) : SdsHandler ι :=
  match s.pendingContent.find? (fun e => decide (e.1 = messageId)) with
  | some entry =>
      { s with
        released := s.released ++ [entry]
        pendingContent := s.pendingContent.filter (fun e => e.1 ≠ messageId) }
  | none => s

/-- A buffered message that became ready. -/
def release (s : SdsHandler ι) (messageId : ι) : SdsHandler ι :=
  { s with reliabilityManager := s.reliabilityManager.accept messageId }.onMessageReady messageId

/-- The manager takes a message: the handler after its callbacks, and the missing dependencies. -/
def unwrapReceivedMessage (s : SdsHandler ι) (a : Arrival ι) : SdsHandler ι × List ι :=
  let rm := s.reliabilityManager
  if a.messageId ∈ rm.messageHistory then (s, [])
  else if missingDeps M rm.messageHistory a.messageId ≠ [] then
    ({ s with reliabilityManager :=
        { rm with incomingBuffer := insert a.messageId rm.incomingBuffer } },
      missingDeps M rm.messageHistory a.messageId)
  else
    (a.cascade.foldl release { s with reliabilityManager := rm.accept a.messageId }, [])

/-- The stash without its oldest entry, if it is full. -/
def makeRoom (pending : List (ι × SdsDeliverable)) : List (ι × SdsDeliverable) :=
  if maxPendingContent ≤ pending.length then pending.tail else pending

/-- A call of `handleIncoming` under the lock: the handler after it, and what it returns. -/
def handleIncoming (s : SdsHandler ι) (a : Arrival ι) :
    SdsHandler ι × List (ι × SdsDeliverable) :=
  let isDuplicate := decide (a.messageId ∈ s.reliabilityManager.messageHistory)
  let (s, missing) := unwrapReceivedMessage M { s with released := [] } a
  if isDuplicate then (s, [])
  else if 0 < missing.length then
    ({ s with pendingContent :=
        setPending (makeRoom s.pendingContent) a.messageId (deliverable M a.messageId) }, [])
  else
    let direct :=
      if 0 < (M a.messageId).content.length then [(a.messageId, deliverable M a.messageId)] else []
    ({ s with released := [] }, direct ++ s.released)

end SdsHandler

/-! ### Runs -/

/-- A run of the handler: with what it returned so far, in order, and the messages that were
dropped from the stash, that is, that left it without entering the history. -/
structure Ingress (ι : Type) where
  handler : SdsHandler ι
  returned : List (ι × SdsDeliverable)
  dropped : List ι

/-- The messages that a call dropped from the stash. -/
def droppedBy (s s' : SdsHandler ι) : List ι :=
  s.parked.filter (fun id => id ∉ s'.parked ∧ id ∉ s'.reliabilityManager.messageHistory)

def Ingress.step (s : Ingress ι) (a : Arrival ι) : Ingress ι :=
  let (handler, result) := s.handler.handleIncoming M a
  { handler := handler
    returned := s.returned ++ result
    dropped := s.dropped ++ droppedBy s.handler handler }

/-- The handler with a restored history, after the arrivals. -/
def after (history : Finset ι) (arrivals : List (Arrival ι)) : Ingress ι :=
  run (Ingress.step M) ⟨SdsHandler.new history, [], []⟩ arrivals

/-- What the code relies on: the messages that follow a message into the history are those that
become ready by it. -/
def Follows (s : SdsHandler ι) (a : Arrival ι) : Prop :=
  a.messageId ∉ s.reliabilityManager.messageHistory →
    missingDeps M s.reliabilityManager.messageHistory a.messageId = [] →
      Cascade M (s.reliabilityManager.accept a.messageId) a.cascade

/-- The arrival is not a message without content that misses a dependency, and not a message that
is parked while the stash is full. -/
def Regular (s : SdsHandler ι) (a : Arrival ι) : Prop :=
  ((M a.messageId).content = [] →
    a.messageId ∈ s.reliabilityManager.messageHistory ∨
      missingDeps M s.reliabilityManager.messageHistory a.messageId = []) ∧
  (a.messageId ∈ s.parked → s.pendingContent.length < maxPendingContent)

instance decidableCascade : ∀ (rm : ReliabilityManager ι) (ids : List ι), Decidable (Cascade M rm ids)
  | rm, [] =>
      inferInstanceAs (Decidable (∀ id ∈ rm.incomingBuffer,
        missingDeps M rm.messageHistory id ≠ []))
  | rm, id :: ids =>
      have := decidableCascade (rm.accept id) ids
      inferInstanceAs (Decidable (id ∈ rm.incomingBuffer ∧ missingDeps M rm.messageHistory id = [] ∧
        Cascade M (rm.accept id) ids))

instance (s : SdsHandler ι) (a : Arrival ι) : Decidable (Follows M s a) :=
  inferInstanceAs (Decidable (_ → _ → _))

instance (s : SdsHandler ι) (a : Arrival ι) : Decidable (Regular M s a) :=
  inferInstanceAs (Decidable (_ ∧ _))

/-! ### The invariant -/

variable {M} {s : SdsHandler ι} {out : List (ι × SdsDeliverable)} {dropped : List ι} {x : ι}

/-- A handler with what was returned before: parked messages have content and are buffered, what was
returned is in the history, each message once and after its causes, and a buffered message with
content is parked unless it was dropped. -/
structure Sound (M : ι → SdsMessage ι) (s : SdsHandler ι) (out : List (ι × SdsDeliverable))
    (dropped : List ι) : Prop where
  keys : s.parked.Nodup
  stash : ∀ e ∈ s.pendingContent, e.1 ∈ s.reliabilityManager.incomingBuffer ∧
    e.2 = deliverable M e.1 ∧ (M e.1).content ≠ []
  fresh : ∀ id ∈ s.reliabilityManager.incomingBuffer, id ∉ s.reliabilityManager.messageHistory
  outs : ∀ r ∈ out, r.1 ∈ s.reliabilityManager.messageHistory ∧ r.2 = deliverable M r.1 ∧
    (M r.1).content ≠ [] ∧ r.1 ∉ (M r.1).causalHistory ∧
    ∀ dep ∈ (M r.1).causalHistory, dep ∈ s.reliabilityManager.messageHistory
  once : (out.map Prod.fst).Nodup
  causal : out.Pairwise (fun r r' => r'.1 ∉ (M r.1).causalHistory)
  covered : ∀ id ∈ s.reliabilityManager.incomingBuffer, (M id).content ≠ [] →
    id ∈ s.parked ∨ id ∈ dropped

/-- Between two calls, moreover, every buffered message misses a dependency and the stash is not
over its bound. -/
structure Settled (M : ι → SdsMessage ι) (s : SdsHandler ι) (out : List (ι × SdsDeliverable))
    (dropped : List ι) : Prop extends Sound M s out dropped where
  eager : ∀ id ∈ s.reliabilityManager.incomingBuffer,
    missingDeps M s.reliabilityManager.messageHistory id ≠ []
  room : s.pendingContent.length ≤ maxPendingContent

theorem mem_missingDeps {history : Finset ι} {dep : ι} :
    dep ∈ missingDeps M history x ↔ dep ∈ (M x).causalHistory ∧ dep ∉ history := by
  rw [missingDeps, List.mem_filter, decide_eq_true_eq]

theorem missingDeps_eq_nil {history : Finset ι} :
    missingDeps M history x = [] ↔ ∀ dep ∈ (M x).causalHistory, dep ∈ history := by
  rw [List.eq_nil_iff_forall_not_mem]
  constructor
  · intro h dep hdep
    by_contra hnot
    exact h dep (mem_missingDeps.mpr ⟨hdep, hnot⟩)
  · intro h dep hdep
    exact (mem_missingDeps.mp hdep).2 (h dep (mem_missingDeps.mp hdep).1)

/-- What a message that enters the history adds to what is returned: nothing, or its content. -/
def Adds (M : ι → SdsMessage ι) (x : ι) (res : List (ι × SdsDeliverable)) : Prop :=
  res = [] ∨ res = [(x, deliverable M x)] ∧ (M x).content ≠ []

/-- A message all of whose dependencies are in the history enters it and leaves the stash. -/
theorem Sound.enter (h : Sound M s out dropped)
    (hnew : x ∉ s.reliabilityManager.messageHistory)
    (hdeps : missingDeps M s.reliabilityManager.messageHistory x = [])
    {res released : List (ι × SdsDeliverable)} (hres : Adds M x res) :
    Sound M
      { reliabilityManager := s.reliabilityManager.accept x
        pendingContent := s.pendingContent.filter (fun e => e.1 ≠ x)
        released := released }
      (out ++ res) dropped := by
  rw [missingDeps_eq_nil] at hdeps
  have hself : x ∉ (M x).causalHistory := fun hx => hnew (hdeps x hx)
  have hkeep {dep : ι} (hdep : dep ∈ s.reliabilityManager.messageHistory) :
      dep ∈ (s.reliabilityManager.accept x).messageHistory := Finset.mem_insert_of_mem hdep
  have hparked : (⟨s.reliabilityManager.accept x, s.pendingContent.filter (fun e => e.1 ≠ x),
      released⟩ : SdsHandler ι).parked = s.parked.filter (fun id => id ≠ x) := by
    simp only [SdsHandler.parked, List.filter_map]
    rfl
  refine ⟨?_, ?_, ?_, ?_, ?_, ?_, ?_⟩
  · rw [hparked]
    exact h.keys.filter _
  · intro e he
    obtain ⟨he, hne⟩ := List.mem_filter.mp he
    obtain ⟨hbuf, hrest⟩ := h.stash e he
    exact ⟨Finset.mem_erase.mpr ⟨of_decide_eq_true hne, hbuf⟩, hrest⟩
  · intro id hid
    obtain ⟨hne, hid⟩ := Finset.mem_erase.mp hid
    rw [ReliabilityManager.accept, Finset.mem_insert, not_or]
    exact ⟨hne, h.fresh id hid⟩
  · intro r hr
    rcases List.mem_append.mp hr with hr | hr
    · obtain ⟨hin, hd, hcontent, hnot, hall⟩ := h.outs r hr
      exact ⟨hkeep hin, hd, hcontent, hnot, fun dep hdep => hkeep (hall dep hdep)⟩
    · rcases hres with rfl | ⟨rfl, hcontent⟩
      · cases hr
      · rw [List.mem_singleton.mp hr]
        exact ⟨Finset.mem_insert_self _ _, rfl, hcontent, hself,
          fun dep hdep => hkeep (hdeps dep hdep)⟩
  · rcases hres with rfl | ⟨rfl, -⟩
    · rw [List.append_nil]
      exact h.once
    · rw [List.map_append]
      refine Lib.nodup_append_singleton h.once ?_
      intro hx
      obtain ⟨r, hr, hrx⟩ := List.mem_map.mp hx
      have hid : r.1 = x := hrx
      exact hnew (hid ▸ (h.outs r hr).1)
  · rcases hres with rfl | ⟨rfl, -⟩
    · rw [List.append_nil]
      exact h.causal
    · rw [List.pairwise_append]
      refine ⟨h.causal, List.pairwise_singleton _ _, ?_⟩
      intro r hr r' hr' hmem
      rw [List.mem_singleton.mp hr'] at hmem
      exact hnew ((h.outs r hr).2.2.2.2 x hmem)
  · intro id hid hcontent
    obtain ⟨hne, hid⟩ := Finset.mem_erase.mp hid
    rw [hparked]
    refine (h.covered id hid hcontent).imp_left (fun hmem => ?_)
    exact List.mem_filter.mpr ⟨hmem, decide_eq_true hne⟩

/-! ### Released messages -/

/-- What the release of a message returns: its content, if it is parked. -/
def releaseOf (M : ι → SdsMessage ι) (s : SdsHandler ι) (x : ι) : List (ι × SdsDeliverable) :=
  if x ∈ s.parked then [(x, deliverable M x)] else []

omit [DecidableEq ι] in
theorem mem_parked_iff : x ∈ s.parked ↔ ∃ d, (x, d) ∈ s.pendingContent := by
  simp [SdsHandler.parked]

/-- The release of a message, in one equation. -/
theorem Sound.release_eq (h : Sound M s out dropped) :
    s.release x =
      { reliabilityManager := s.reliabilityManager.accept x
        pendingContent := s.pendingContent.filter (fun e => e.1 ≠ x)
        released := s.released ++ releaseOf M s x } := by
  unfold SdsHandler.release SdsHandler.onMessageReady releaseOf
  cases hfind : s.pendingContent.find? (fun e => decide (e.1 = x)) with
  | some entry =>
      have hmem := List.mem_of_find?_eq_some hfind
      have hkey := List.find?_some hfind
      rw [decide_eq_true_eq] at hkey
      have hentry : entry = (x, deliverable M x) := Prod.ext hkey (hkey ▸ (h.stash entry hmem).2.1)
      have hparked : x ∈ s.parked := hkey ▸ List.mem_map_of_mem hmem
      simp only
      rw [if_pos hparked, hentry]
  | none =>
      have hnone : ∀ e ∈ s.pendingContent, e.1 ≠ x := by
        intro e he
        exact of_decide_eq_false (by simpa using List.find?_eq_none.mp hfind e he)
      have hparked : x ∉ s.parked := by
        rw [mem_parked_iff]
        rintro ⟨d, hd⟩
        exact hnone _ hd rfl
      have hfilter : s.pendingContent.filter (fun e => e.1 ≠ x) = s.pendingContent :=
        List.filter_eq_self.mpr (fun e he => decide_eq_true (hnone e he))
      simp only
      rw [if_neg hparked, hfilter, List.append_nil]

/-- What a call may do to the handler while messages enter the history: entries leave the stash only
with their message, and a message that enters is returned if it has content, unless it was dropped
before. -/
structure Enters (M : ι → SdsMessage ι) (s s' : SdsHandler ι) (dropped : List ι) : Prop where
  grows : s.reliabilityManager.messageHistory ⊆ s'.reliabilityManager.messageHistory
  stash : s'.pendingContent.Sublist s.pendingContent
  leaves : ∀ id ∈ s.parked, id ∉ s'.parked → id ∈ s'.reliabilityManager.messageHistory
  returns : ∀ id, id ∉ s.reliabilityManager.messageHistory →
    id ∈ s'.reliabilityManager.messageHistory → (M id).content ≠ [] →
      id ∈ s'.released.map Prod.fst ∨ id ∈ dropped
  keeps : s.released <+: s'.released

omit [DecidableEq ι] in
theorem Enters.refl : Enters M s s dropped where
  grows := Finset.Subset.refl _
  stash := List.Sublist.refl _
  leaves := fun _ hid hnot => absurd hid hnot
  returns := fun _ hnot hin => absurd hin hnot
  keeps := List.prefix_refl _

theorem Enters.trans {s₁ s₂ s₃ : SdsHandler ι} (h₁ : Enters M s₁ s₂ dropped)
    (h₂ : Enters M s₂ s₃ dropped) : Enters M s₁ s₃ dropped where
  grows := h₁.grows.trans h₂.grows
  stash := h₂.stash.trans h₁.stash
  leaves := by
    intro id hid hnot
    by_cases hmid : id ∈ s₂.parked
    · exact h₂.leaves id hmid hnot
    · exact h₂.grows (h₁.leaves id hid hmid)
  returns := by
    intro id hnot hin hcontent
    by_cases hmid : id ∈ s₂.reliabilityManager.messageHistory
    · refine (h₁.returns id hnot hmid hcontent).imp_left (fun hmem => ?_)
      exact (h₂.keeps.map Prod.fst).subset hmem
    · exact h₂.returns id hmid hin hcontent
  keeps := h₁.keeps.trans h₂.keeps

/-- A buffered message that is ready is released. -/
theorem Sound.release (h : Sound M s (out ++ s.released) dropped)
    (hbuf : x ∈ s.reliabilityManager.incomingBuffer)
    (hdeps : missingDeps M s.reliabilityManager.messageHistory x = []) :
    Sound M (s.release x) (out ++ (s.release x).released) dropped ∧
      Enters M s (s.release x) dropped := by
  have hnew := h.fresh x hbuf
  have hadds : Adds M x (releaseOf M s x) := by
    unfold releaseOf
    split_ifs with hparked
    · obtain ⟨d, hd⟩ := mem_parked_iff.mp hparked
      exact Or.inr ⟨rfl, (h.stash _ hd).2.2⟩
    · exact Or.inl rfl
  rw [h.release_eq]
  refine ⟨?_, ?_⟩
  · rw [← List.append_assoc]
    exact h.enter hnew hdeps hadds
  · refine ⟨Finset.subset_insert _ _, List.filter_sublist, ?_, ?_, List.prefix_append _ _⟩
    · intro id hid hnot
      obtain ⟨d, hd⟩ := mem_parked_iff.mp hid
      have hx : id = x := by
        by_contra hne
        exact hnot (mem_parked_iff.mpr ⟨d, List.mem_filter.mpr ⟨hd, decide_eq_true hne⟩⟩)
      exact hx ▸ Finset.mem_insert_self _ _
    · intro id hnot hin hcontent
      have hx : id = x := (Finset.mem_insert.mp hin).resolve_right hnot
      rw [hx] at hcontent ⊢
      refine (h.covered x hbuf hcontent).imp_left (fun hparked => ?_)
      simp only [releaseOf, if_pos hparked, List.map_append, List.map_singleton]
      exact List.mem_append_right _ (List.mem_singleton_self x)

/-- The messages that become ready are released one after the other. -/
theorem Sound.cascade (ids : List ι) :
    ∀ s : SdsHandler ι, Sound M s (out ++ s.released) dropped →
      Cascade M s.reliabilityManager ids →
        Sound M (ids.foldl SdsHandler.release s)
          (out ++ (ids.foldl SdsHandler.release s).released) dropped ∧
        Enters M s (ids.foldl SdsHandler.release s) dropped ∧
        ∀ id ∈ (ids.foldl SdsHandler.release s).reliabilityManager.incomingBuffer,
          missingDeps M (ids.foldl SdsHandler.release s).reliabilityManager.messageHistory id ≠ [] := by
  induction ids with
  | nil => exact fun s h hcascade => ⟨h, Enters.refl, hcascade⟩
  | cons x ids ih =>
      rintro s h ⟨hbuf, hdeps, hrest⟩
      obtain ⟨hsound, henters⟩ := h.release hbuf hdeps
      have hmanager : (s.release x).reliabilityManager = s.reliabilityManager.accept x := by
        rw [h.release_eq]
      obtain ⟨hsound', henters', heager⟩ := ih (s.release x) hsound (hmanager ▸ hrest)
      exact ⟨hsound', henters.trans henters', heager⟩

/-! ### The stash -/

omit [DecidableEq ι] in
theorem makeRoom_sublist (pending : List (ι × SdsDeliverable)) :
    (SdsHandler.makeRoom pending).Sublist pending := by
  unfold SdsHandler.makeRoom
  split_ifs
  · exact List.tail_sublist pending
  · exact List.Sublist.refl _

omit [DecidableEq ι] in
theorem makeRoom_length {pending : List (ι × SdsDeliverable)}
    (h : pending.length ≤ maxPendingContent) :
    (SdsHandler.makeRoom pending).length < maxPendingContent := by
  unfold SdsHandler.makeRoom
  split_ifs with hfull
  · rw [List.length_tail]
    unfold maxPendingContent at *
    omega
  · omega

omit [DecidableEq ι] in
theorem makeRoom_eq {pending : List (ι × SdsDeliverable)}
    (h : pending.length < maxPendingContent) : SdsHandler.makeRoom pending = pending :=
  if_neg (by omega)

/-- A message that is parked with its own content is parked again without a change. -/
theorem setPending_same {pending : List (ι × SdsDeliverable)}
    (hsame : ∀ e ∈ pending, e.2 = deliverable M e.1) (hmem : x ∈ pending.map Prod.fst) :
    SdsHandler.setPending pending x (deliverable M x) = pending := by
  rw [SdsHandler.setPending, if_pos hmem]
  conv_rhs => rw [← List.map_id pending]
  apply List.map_congr_left
  intro e he
  split_ifs with hx
  · rw [← hx, ← hsame e he]
    rfl
  · rfl

/-- A message is parked: the stash stays as it is, or a new entry follows what is left of it. -/
def Parks (M : ι → SdsMessage ι) (s : SdsHandler ι) (x : ι) (stash : List (ι × SdsDeliverable)) :
    Prop :=
  (x ∈ s.parked ∧ stash = s.pendingContent) ∨
    (x ∉ s.parked ∧ stash = SdsHandler.makeRoom s.pendingContent ++ [(x, deliverable M x)])

theorem Sound.parks (h : Sound M s out dropped) {a : Arrival ι} (hregular : Regular M s a) :
    Parks M s a.messageId (SdsHandler.setPending (SdsHandler.makeRoom s.pendingContent) a.messageId
      (deliverable M a.messageId)) := by
  by_cases hparked : a.messageId ∈ s.parked
  · refine Or.inl ⟨hparked, ?_⟩
    rw [makeRoom_eq (hregular.2 hparked), setPending_same (fun e he => (h.stash e he).2.1) hparked]
  · refine Or.inr ⟨hparked, if_neg (fun hmem => hparked ?_)⟩
    exact ((makeRoom_sublist s.pendingContent).map Prod.fst).subset hmem

section Parks

variable {stash : List (ι × SdsDeliverable)} (h : Parks M s x stash)
include h

omit [DecidableEq ι] in
theorem Parks.mem {e : ι × SdsDeliverable} (he : e ∈ stash) :
    e ∈ s.pendingContent ∨ e = (x, deliverable M x) := by
  rcases h with ⟨-, rfl⟩ | ⟨-, rfl⟩
  · exact Or.inl he
  · rw [List.mem_append, List.mem_singleton] at he
    exact he.imp_left (fun hmem => (makeRoom_sublist _).subset hmem)

omit [DecidableEq ι] in
theorem Parks.own : x ∈ stash.map Prod.fst := by
  rcases h with ⟨hparked, rfl⟩ | ⟨-, rfl⟩
  · exact hparked
  · rw [List.map_append]
    exact List.mem_append_right _ (List.mem_singleton_self _)

omit [DecidableEq ι] in
theorem Parks.nodup (hkeys : s.parked.Nodup) : (stash.map Prod.fst).Nodup := by
  rcases h with ⟨-, rfl⟩ | ⟨hparked, rfl⟩
  · exact hkeys
  · have hsub := (makeRoom_sublist s.pendingContent).map Prod.fst
    rw [List.map_append]
    exact Lib.nodup_append_singleton (hkeys.sublist hsub) (fun hid => hparked (hsub.subset hid))

omit [DecidableEq ι] in
theorem Parks.length_le (hroom : s.pendingContent.length ≤ maxPendingContent) :
    stash.length ≤ maxPendingContent := by
  rcases h with ⟨-, rfl⟩ | ⟨-, rfl⟩
  · exact hroom
  · rw [List.length_append, List.length_singleton]
    exact makeRoom_length hroom

omit [DecidableEq ι] in
/-- A parked message leaves the stash only when a new one finds it full. -/
theorem Parks.full (hroom : s.pendingContent.length ≤ maxPendingContent) {id : ι}
    (hid : id ∈ s.parked) (hout : id ∉ stash.map Prod.fst) :
    x ∉ s.parked ∧ s.pendingContent.length = maxPendingContent := by
  rcases h with ⟨-, rfl⟩ | ⟨hparked, rfl⟩
  · exact absurd hid hout
  · refine ⟨hparked, le_antisymm hroom ?_⟩
    by_contra hlt
    rw [makeRoom_eq (by omega), List.map_append] at hout
    exact hout (List.mem_append_left _ hid)

end Parks

/-- A call that leaves the message in the buffer. -/
theorem Settled.park (h : Settled M s out dropped) {a : Arrival ι} (hregular : Regular M s a)
    (hnew : a.messageId ∉ s.reliabilityManager.messageHistory)
    (hmissing : missingDeps M s.reliabilityManager.messageHistory a.messageId ≠ [])
    {s' : SdsHandler ι}
    (hs' : s' =
      { reliabilityManager := { s.reliabilityManager with
          incomingBuffer := insert a.messageId s.reliabilityManager.incomingBuffer }
        pendingContent := SdsHandler.setPending (SdsHandler.makeRoom s.pendingContent) a.messageId
          (deliverable M a.messageId)
        released := [] }) :
    Settled M s' out (dropped ++ droppedBy s s') ∧
      ∀ id ∈ droppedBy s s', a.messageId ∉ s.parked ∧ (M a.messageId).content ≠ [] ∧
        s.pendingContent.length = maxPendingContent := by
  have hcontent : (M a.messageId).content ≠ [] := by
    intro hnil
    rcases hregular.1 hnil with hin | hdeps
    · exact hnew hin
    · exact hmissing hdeps
  have hhistory : s'.reliabilityManager.messageHistory = s.reliabilityManager.messageHistory := by
    rw [hs']
  have hbuffer : s'.reliabilityManager.incomingBuffer =
      insert a.messageId s.reliabilityManager.incomingBuffer := by
    rw [hs']
  have hparks : Parks M s a.messageId s'.pendingContent := by
    rw [hs']
    exact h.toSound.parks hregular
  refine ⟨⟨⟨hparks.nodup h.keys, ?_, ?_, ?_, h.once, h.causal, ?_⟩, ?_, hparks.length_le h.room⟩, ?_⟩
  · intro e he
    rw [hbuffer]
    rcases hparks.mem he with hmem | rfl
    · exact ⟨Finset.mem_insert_of_mem (h.stash e hmem).1, (h.stash e hmem).2⟩
    · exact ⟨Finset.mem_insert_self _ _, rfl, hcontent⟩
  · intro id hid
    rw [hbuffer] at hid
    rw [hhistory]
    rcases Finset.mem_insert.mp hid with rfl | hid
    · exact hnew
    · exact h.fresh id hid
  · intro r hr
    rw [hhistory]
    exact h.outs r hr
  · intro id hid hid'
    rw [hbuffer] at hid
    rcases Finset.mem_insert.mp hid with rfl | hid
    · exact Or.inl hparks.own
    · by_cases hin : id ∈ s'.parked
      · exact Or.inl hin
      · refine Or.inr (List.mem_append.mpr ?_)
        rcases h.covered id hid hid' with hparked | hdropped
        · refine Or.inr (List.mem_filter.mpr ⟨hparked, decide_eq_true ⟨hin, ?_⟩⟩)
          rw [hhistory]
          exact h.fresh id hid
        · exact Or.inl hdropped
  · intro id hid
    rw [hbuffer] at hid
    rw [hhistory]
    rcases Finset.mem_insert.mp hid with rfl | hid
    · exact hmissing
    · exact h.eager id hid
  · intro id hid
    obtain ⟨hparked, hleft⟩ := List.mem_filter.mp hid
    obtain ⟨hmessage, hfull⟩ := hparks.full h.room hparked (of_decide_eq_true hleft).1
    exact ⟨hmessage, hcontent, hfull⟩

/-! ### Calls -/

/-- What a call returns of its own message. -/
def direct (M : ι → SdsMessage ι) (x : ι) : List (ι × SdsDeliverable) :=
  if 0 < (M x).content.length then [(x, deliverable M x)] else []

omit [DecidableEq ι] in
theorem direct_adds : Adds M x (direct M x) := by
  unfold direct
  split_ifs with hpos
  · exact Or.inr ⟨rfl, List.ne_nil_of_length_pos hpos⟩
  · exact Or.inl rfl

/-- What a call may do: a message that enters the history is returned if it has content, unless it
was dropped before, and a parked message is dropped only for a message with content that is not
parked, while the stash is full. -/
structure CallSpec (M : ι → SdsMessage ι) (s : SdsHandler ι) (a : Arrival ι) (dropped : List ι)
    (s' : SdsHandler ι) (result : List (ι × SdsDeliverable)) : Prop where
  returns : ∀ id, id ∉ s.reliabilityManager.messageHistory →
    id ∈ s'.reliabilityManager.messageHistory → (M id).content ≠ [] →
      id ∈ result.map Prod.fst ∨ id ∈ dropped
  drops : ∀ id ∈ droppedBy s s', a.messageId ∉ s.parked ∧ (M a.messageId).content ≠ [] ∧
    s.pendingContent.length = maxPendingContent

/-- A call whose message enters the history. -/
theorem Settled.accept (h : Settled M s out dropped) {a : Arrival ι}
    (hnew : a.messageId ∉ s.reliabilityManager.messageHistory)
    (hdeps : missingDeps M s.reliabilityManager.messageHistory a.messageId = [])
    (hcascade : Cascade M (s.reliabilityManager.accept a.messageId) a.cascade) {s' : SdsHandler ι}
    (hs' : s' = a.cascade.foldl SdsHandler.release
      { s with reliabilityManager := s.reliabilityManager.accept a.messageId, released := [] }) :
    Settled M { s' with released := [] } (out ++ (direct M a.messageId ++ s'.released))
      (dropped ++ droppedBy s { s' with released := [] }) ∧
      CallSpec M s a dropped { s' with released := [] } (direct M a.messageId ++ s'.released) := by
  -- a message whose dependencies are in the history is not buffered, so it is not parked
  have hunparked : ∀ e ∈ s.pendingContent, e.1 ≠ a.messageId := by
    intro e he heq
    exact h.eager e.1 (h.stash e he).1 (heq ▸ hdeps)
  have hfilter : s.pendingContent.filter (fun e => e.1 ≠ a.messageId) = s.pendingContent :=
    List.filter_eq_self.mpr (fun e he => decide_eq_true (hunparked e he))
  have hentered : Sound M
      { s with reliabilityManager := s.reliabilityManager.accept a.messageId, released := [] }
      (out ++ direct M a.messageId) dropped := by
    rw [← hfilter]
    exact h.toSound.enter hnew hdeps direct_adds
  obtain ⟨hsound, henters, heager⟩ := Sound.cascade a.cascade
    { s with reliabilityManager := s.reliabilityManager.accept a.messageId, released := [] }
    (by rw [List.append_nil]; exact hentered) hcascade
  rw [← hs'] at hsound henters heager
  have hnone : droppedBy s { s' with released := [] } = [] := by
    rw [droppedBy, List.filter_eq_nil_iff]
    intro id hid hleft
    obtain ⟨hnot, hout⟩ := of_decide_eq_true hleft
    exact hout (henters.leaves id hid hnot)
  refine ⟨⟨⟨hsound.keys, hsound.stash, hsound.fresh, ?_, ?_, ?_, ?_⟩, heager, ?_⟩, ?_, ?_⟩
  · rw [← List.append_assoc]
    exact hsound.outs
  · rw [← List.append_assoc]
    exact hsound.once
  · rw [← List.append_assoc]
    exact hsound.causal
  · rw [hnone, List.append_nil]
    exact hsound.covered
  · exact henters.stash.length_le.trans h.room
  · intro id hnot hin hcontent
    rw [List.map_append, List.mem_append]
    by_cases hx : id = a.messageId
    · refine Or.inl (Or.inl ?_)
      rw [direct, hx, if_pos (List.length_pos_of_ne_nil (hx ▸ hcontent))]
      exact List.mem_singleton_self _
    · have hnot' : id ∉ (s.reliabilityManager.accept a.messageId).messageHistory := by
        rw [ReliabilityManager.accept, Finset.mem_insert, not_or]
        exact ⟨hx, hnot⟩
      exact (henters.returns id hnot' hin hcontent).imp_left Or.inr
  · rw [hnone]
    intro id hid
    cases hid

theorem Settled.handleIncoming (h : Settled M s out dropped) {a : Arrival ι}
    (hfollows : Follows M s a) (hregular : Regular M s a) :
    Settled M (s.handleIncoming M a).1 (out ++ (s.handleIncoming M a).2)
      (dropped ++ droppedBy s (s.handleIncoming M a).1) ∧
    CallSpec M s a dropped (s.handleIncoming M a).1 (s.handleIncoming M a).2 := by
  by_cases hin : a.messageId ∈ s.reliabilityManager.messageHistory
  · -- a duplicate
    have hcall : s.handleIncoming M a = ({ s with released := [] }, []) := by
      simp [SdsHandler.handleIncoming, SdsHandler.unwrapReceivedMessage, hin]
    have hnone : droppedBy s { s with released := [] } = [] := by
      rw [droppedBy, List.filter_eq_nil_iff]
      intro id hid hleft
      exact (of_decide_eq_true hleft).1 hid
    rw [hcall]
    simp only
    rw [hnone, List.append_nil, List.append_nil]
    refine ⟨⟨⟨h.keys, h.stash, h.fresh, h.outs, h.once, h.causal, h.covered⟩, h.eager, h.room⟩,
      fun id hnot hin => absurd hin hnot, ?_⟩
    rw [hnone]
    intro id hid
    cases hid
  · by_cases hdeps : missingDeps M s.reliabilityManager.messageHistory a.messageId = []
    · have hcall : s.handleIncoming M a =
          ({ a.cascade.foldl SdsHandler.release { s with
              reliabilityManager := s.reliabilityManager.accept a.messageId, released := [] } with
              released := [] },
            direct M a.messageId ++ (a.cascade.foldl SdsHandler.release { s with
              reliabilityManager := s.reliabilityManager.accept a.messageId
              released := [] }).released) := by
        simp [SdsHandler.handleIncoming, SdsHandler.unwrapReceivedMessage, hin, hdeps, direct]
      rw [hcall]
      exact h.accept hin hdeps (hfollows hin hdeps) rfl
    · have hpos : 0 < (missingDeps M s.reliabilityManager.messageHistory a.messageId).length :=
        List.length_pos_of_ne_nil hdeps
      obtain ⟨hsettled, hdrops⟩ := h.park hregular hin hdeps rfl
      have hcall : s.handleIncoming M a =
          ({ reliabilityManager := { s.reliabilityManager with
              incomingBuffer := insert a.messageId s.reliabilityManager.incomingBuffer }
             pendingContent := SdsHandler.setPending (SdsHandler.makeRoom s.pendingContent)
              a.messageId (deliverable M a.messageId)
             released := [] }, []) := by
        simp [SdsHandler.handleIncoming, SdsHandler.unwrapReceivedMessage, hin, hdeps, hpos]
      rw [hcall]
      simp only
      rw [List.append_nil]
      exact ⟨hsettled, fun id hnot hin => absurd hin hnot, hdrops⟩

/-! ### All runs -/

variable (M) (history : Finset ι)

/-- The arrival is handled by the manager as the code relies on, and is a regular one. -/
def Expected (pre : List (Arrival ι)) (a : Arrival ι) : Prop :=
  Follows M (after M history pre).handler a ∧ Regular M (after M history pre).handler a

instance (pre : List (Arrival ι)) (a : Arrival ι) : Decidable (Expected M history pre a) :=
  inferInstanceAs (Decidable (_ ∧ _))

theorem new_settled : Settled M (SdsHandler.new history) [] [] where
  keys := List.nodup_nil
  stash e he := by cases he
  fresh id hid := by cases hid
  outs r hr := by cases hr
  once := List.nodup_nil
  causal := List.Pairwise.nil
  covered id hid := by cases hid
  eager id hid := by cases hid
  room := Nat.zero_le _

/-- The invariant holds along every run of expected arrivals. -/
theorem after_settled (arrivals : List (Arrival ι)) (h : AllSteps (Expected M history) arrivals) :
    Settled M (after M history arrivals).handler (after M history arrivals).returned
      (after M history arrivals).dropped := by
  induction arrivals using List.reverseRecOn with
  | nil => exact new_settled M history
  | append_singleton arrivals a ih =>
      rw [after, run_concat]
      exact ((ih h.init).handleIncoming h.last.1 h.last.2).1

/-- In every run in which no message without content arrives while it misses a dependency, and no
parked message arrives again while the stash is full: what is returned has content and is the
content of its message, each message is returned at most once and after the returned ones it
depends on, the stash keeps its bound and holds only content, and every call is as specified: a
message with content is returned in the call in which it enters the history unless it was dropped,
and a parked message is dropped only for a new message with content while the stash is full. -/
theorem ingress_after (arrivals : List (Arrival ι))
    (h : AllSteps (Expected M history) arrivals) :
    let s := after M history arrivals
    (∀ r ∈ s.returned, r.2 = deliverable M r.1 ∧ r.2.content ≠ []) ∧
    (s.returned.map Prod.fst).Nodup ∧
    (∀ (i j : ℕ) (r r' : ι × SdsDeliverable), s.returned[i]? = some r →
      s.returned[j]? = some r' → r'.1 ∈ (M r.1).causalHistory → j < i) ∧
    s.handler.pendingContent.length ≤ maxPendingContent ∧
    (∀ e ∈ s.handler.pendingContent, e.2.content ≠ []) ∧
    (∀ pre a, pre ++ [a] <+: arrivals →
      CallSpec M (after M history pre).handler a (after M history pre).dropped
        ((after M history pre).handler.handleIncoming M a).1
        ((after M history pre).handler.handleIncoming M a).2) := by
  intro s
  have hs : Settled M s.handler s.returned s.dropped := after_settled M history arrivals h
  refine ⟨?_, hs.once, ?_, hs.room, ?_, ?_⟩
  · intro r hr
    obtain ⟨-, hd, hcontent, -, -⟩ := hs.outs r hr
    refine ⟨hd, ?_⟩
    rw [hd]
    exact hcontent
  · intro i j r r' hi hj hdep
    by_contra hle
    rcases Nat.lt_or_eq_of_le (Nat.le_of_not_lt hle) with hlt | heq
    · obtain ⟨hi', hri⟩ := List.getElem?_eq_some_iff.mp hi
      obtain ⟨hj', hrj⟩ := List.getElem?_eq_some_iff.mp hj
      have hpair := List.pairwise_iff_getElem.mp hs.causal i j hi' hj' hlt
      rw [hri, hrj] at hpair
      exact hpair hdep
    · rw [heq, hj, Option.some.injEq] at hi
      rw [hi] at hdep
      exact (hs.outs r (List.mem_of_getElem? (hi ▸ hj))).2.2.2.1 hdep
  · intro e he
    obtain ⟨-, hd, hcontent⟩ := hs.stash e he
    rw [hd]
    exact hcontent
  · intro pre a hpre
    have hexpected := h pre a hpre
    exact ((after_settled M history pre
      (h.of_initial ((List.prefix_append _ _).trans hpre))).handleIncoming
        hexpected.1 hexpected.2).2

/-- Message `0` has no dependencies, and every other message depends on it; the messages from
`sync` on have no content. -/
def starMessages (sync : ℕ) (id : ℕ) : SdsMessage ℕ where
  content := if id < sync then [7] else []
  senderId := "a"
  causalHistory := if id = 0 then [] else [0]

/-- Two messages arrive before the one they depend on, and one of them twice. -/
theorem ingress_star :
    ((after (starMessages 3) ∅ [⟨2, []⟩, ⟨1, []⟩, ⟨2, []⟩, ⟨0, [1, 2]⟩]).returned.map
      Prod.fst).Nodup := by
  have h := ingress_after (starMessages 3) ∅ [⟨2, []⟩, ⟨1, []⟩, ⟨2, []⟩, ⟨0, [1, 2]⟩]
    (allSteps_of_get (by decide +kernel))
  exact h.2.1

/-- A sync message that waits for message `0` is returned without content; and where 32 messages
wait for message `0`, the second arrival of one of them drops another. -/
theorem parkedSync_returned_and_repeat_drops :
    (∃ r ∈ (after (starMessages 1) ∅ [⟨1, []⟩, ⟨0, [1]⟩]).returned, r.2.content = []) ∧
    (let s := after (starMessages 40) ∅ ((List.range 32).map (fun i => ⟨i + 1, []⟩))
     2 ∈ s.handler.parked ∧ 1 ∈ droppedBy s.handler (s.handler.handleIncoming (starMessages 40)
      ⟨2, []⟩).1) := by
  decide +kernel

end LogosDelivery.Channels.Sds
