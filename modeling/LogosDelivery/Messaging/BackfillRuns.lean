import LogosDelivery.Messaging.Backfill

/-! # The backfill skips no gap

A page that is accepted moves the start of the gap over rows that the archive had and that were
delivered (`fetchPage_complete`).  The state a fetch started from may change while it awaits its page;
what it leaves depends on the record, which must be the same, and on live delivery as it then is
(`recordAfter_online`).  `backfill_after` says this of every run. -/

namespace LogosDelivery.Messaging.Backfill

open Lib

/-! ### Pages -/

section Pages

variable {μ : Type}

/-- `rows` are the rows of the window in the archive, oldest first, and the answer has the first of
them, and all of them where it has no cursor. -/
def PageOf (rows : List (WakuMessage μ)) (response : StoreQueryResponse μ) : Prop :=
  rows.Pairwise (fun m m' => m.timestamp ≤ m'.timestamp) ∧
    ∃ k, response.messages = (rows.take k).map some ∧
      (response.paginationCursor = false → rows.length ≤ k)

/-- The row is in the answer, or is beyond the page at the instant `start` that fills the page. -/
def ListedFrom (start : ℤ) (response : StoreQueryResponse μ) (m : WakuMessage μ) : Prop :=
  some m ∈ response.messages ∨
    (m.timestamp = start ∧ response.paginationCursor = true ∧
      ∀ m', some m' ∈ response.messages → m'.timestamp = start)

/-- The rows of a window that begins at `start` are listed up to `next`. -/
def ListsUpTo (start next : ℤ) (response : StoreQueryResponse μ) : Prop :=
  ∀ rows, PageOf rows response → (∀ m ∈ rows, start ≤ m.timestamp) →
    ∀ m ∈ rows, m.timestamp < next → ListedFrom start response m

variable {queryStop last next start stop : ℤ} {deliver : WakuMessage μ → Bool}

/-- The rows of an accepted page lie between the start and the end of the window, up to the last
one, and are delivered. -/
theorem acceptRows_ok {rows : List (Option (WakuMessage μ))}
    (h : acceptRows queryStop deliver start rows = .ok last) :
    start ≤ last ∧ (rows ≠ [] → last < queryStop) ∧
      (∀ row ∈ rows, ∃ m, row = some m ∧ deliver m = true ∧ m.timestamp ≤ last) ∧
      (∀ m, rows.getLast? = some (some m) → m.timestamp = last) := by
  induction rows generalizing start with
  | nil =>
      cases h
      simp
  | cons row rows ih =>
      cases row with
      | none => cases h
      | some m =>
          rw [acceptRows] at h
          split_ifs at h with hrange hdeliver
          obtain ⟨hle, hlt, hrows, hlast⟩ := ih h
          have hlow : start ≤ m.timestamp := by omega
          have hhigh : m.timestamp < queryStop := by omega
          refine ⟨le_trans hlow hle, ?_, ?_, ?_⟩
          · intro _
            cases rows with
            | nil =>
                cases h
                exact hhigh
            | cons row' rows => exact hlt (List.cons_ne_nil _ _)
          · intro row hrow
            rcases List.mem_cons.mp hrow with rfl | hrow
            · exact ⟨m, rfl, by simpa using hdeliver, hle⟩
            · exact hrows row hrow
          · intro m' hm'
            cases rows with
            | nil =>
                cases h
                simp only [List.getLast?_singleton, Option.some.injEq] at hm'
                rw [← hm']
            | cons row' rows =>
                rw [List.getLast?_cons_cons] at hm'
                exact hlast m' hm'

/-- A row that an answer with rows leaves out is not before the last row of the answer. -/
theorem last_le_of_not_mem {rows : List (WakuMessage μ)} {response : StoreQueryResponse μ}
    (hrows : PageOf rows response) {m m' : WakuMessage μ} (hm : m ∈ rows)
    (hnot : some m ∉ response.messages) (hlast : response.messages.getLast? = some (some m')) :
    m'.timestamp ≤ m.timestamp := by
  obtain ⟨hsorted, k, hpage, -⟩ := hrows
  rw [hpage] at hnot hlast
  have hdrop : m ∈ rows.drop k := by
    rw [← List.take_append_drop k rows, List.mem_append] at hm
    exact hm.resolve_left (fun htake => hnot (List.mem_map_of_mem htake))
  have htake : m' ∈ rows.take k := by
    obtain ⟨m'', hm'', heq⟩ := List.mem_map.mp (List.mem_of_getLast? hlast)
    cases heq
    exact hm''
  rw [← List.take_append_drop k rows, List.pairwise_append] at hsorted
  exact hsorted.2.2 m' htake m hdrop

theorem acceptPage_ok {response : StoreQueryResponse μ} {found : Option ℤ}
    (h : acceptPage start queryStop response deliver = .ok found) :
    (∀ row ∈ response.messages, ∃ m, row = some m ∧ deliver m = true) ∧
      found.getD queryStop ≤ queryStop ∧ ListsUpTo start (found.getD queryStop) response := by
  unfold acceptPage at h
  cases hrows : acceptRows queryStop deliver start response.messages with
  | error e =>
      rw [hrows] at h
      cases h
  | ok last =>
      rw [hrows] at h
      obtain ⟨hle, hlt, hdelivered, hlast⟩ := acceptRows_ok hrows
      refine ⟨fun row hrow => ?_, ?_⟩
      · obtain ⟨m, hm, hdeliver, -⟩ := hdelivered row hrow
        exact ⟨m, hm, hdeliver⟩
      simp only at h
      split_ifs at h with hcursor hempty heq
      · -- without a cursor the answer has all the rows
        cases h
        refine ⟨le_refl _, fun rows hrows _ m hm _ => Or.inl ?_⟩
        obtain ⟨-, k, hpage, hall⟩ := hrows
        rw [hpage, List.take_of_length_le (hall hcursor)]
        exact List.mem_map_of_mem hm
      all_goals
        have hne : response.messages ≠ [] := fun hnil => hempty (by rw [hnil]; rfl)
        have hend := hlt hne
        obtain ⟨row, hrow⟩ : ∃ row, response.messages.getLast? = some row :=
          Option.isSome_iff_exists.mp (by rw [List.getLast?_isSome]; exact hne)
        obtain ⟨m', rfl, -, -⟩ := hdelivered row (List.mem_of_getLast? hrow)
        have hm' := hlast m' hrow
        cases h
      · -- all rows of the page are at the start, and the ones left out before the next instant too
        refine ⟨by simp only [Option.getD_some]; omega, fun rows hrows hstart m hm hbefore => ?_⟩
        by_cases hmem : some m ∈ response.messages
        · exact Or.inl hmem
        · refine Or.inr ⟨?_, by simpa using hcursor, ?_⟩
          · have hlow := hstart m hm
            simp only [Option.getD_some] at hbefore
            omega
          · intro m'' hmem''
            obtain ⟨k, hpage⟩ := hrows.2
            rw [hpage.1] at hmem''
            obtain ⟨x, hx, hxm⟩ := List.mem_map.mp hmem''
            cases hxm
            have hlow := hstart m'' (List.mem_of_mem_take hx)
            obtain ⟨y, hy, -, hyle⟩ := hdelivered (some m'') (by rw [hpage.1]; exact hmem'')
            cases hy
            omega
      · -- a row left out is at the last row of the page or after it
        refine ⟨by simp only [Option.getD_some]; omega, fun rows hrows hstart m hm hbefore => ?_⟩
        by_contra hnot
        rw [ListedFrom, not_or] at hnot
        have hbound := last_le_of_not_mem hrows hm hnot.1 hrow
        simp only [Option.getD_some] at hbefore
        omega

/-- A page that is accepted moves the start over rows that are delivered, within the window. -/
theorem fetchPage_complete {answer : Except String (StoreQueryResponse μ)}
    (h : fetchPage start stop answer deliver = .ok next) :
    ∃ response, answer = .ok response ∧
      (∀ row ∈ response.messages, ∃ m, row = some m ∧ deliver m = true) ∧
      next ≤ windowStop start stop ∧ ListsUpTo start next response := by
  unfold fetchPage at h
  cases answer with
  | error e => cases h
  | ok response =>
      simp only at h
      cases hpage : acceptPage start (windowStop start stop) response deliver with
      | error e =>
          rw [hpage] at h
          cases h
      | ok found =>
          rw [hpage] at h
          cases h
          exact ⟨response, rfl, acceptPage_ok hpage⟩

theorem ListsUpTo.mono {response : StoreQueryResponse μ} {next' : ℤ}
    (h : ListsUpTo start next response) (hle : next' ≤ next) : ListsUpTo start next' response :=
  fun rows hrows hstart m hm hbefore => h rows hrows hstart m hm (lt_of_lt_of_le hbefore hle)

/-! ### Requests -/

section Requests

variable {τ : Type} [DecidableEq τ]

namespace StoreQueryRequest

/-- The row of a topic is one that the request asks for. -/
def asks (request : StoreQueryRequest τ) (row : τ × WakuMessage μ) : Bool :=
  decide (row.1 = request.topic) &&
    request.startTime.all (fun start => decide (start ≤ row.2.timestamp)) &&
    request.endTime.all (fun stop => decide (row.2.timestamp < stop))

omit [DecidableEq τ] in
/-- `k` of the rows asked for, which are given oldest first. -/
def page (request : StoreQueryRequest τ) (rows : List (WakuMessage μ)) (k : ℕ) :
    List (Option (WakuMessage μ)) :=
  (match request.paginationForward with
    | .forward => rows.take k
    | .backward => rows.drop (rows.length - k)).map
    (fun m => if request.includeData then some m else none)

end StoreQueryRequest

/-- A Store that holds these messages, each under its topic, answers with a page of those that the
request asks for, and with all of them where there is no cursor. -/
def Answers (held : List (τ × WakuMessage μ)) (request : StoreQueryRequest τ)
    (response : StoreQueryResponse μ) : Prop :=
  ∃ rows k, rows.Perm ((held.filter request.asks).map Prod.snd) ∧
    rows.Pairwise (fun m m' => m.timestamp ≤ m'.timestamp) ∧
    response.messages = request.page rows k ∧
    (response.paginationCursor = false → rows.length ≤ k)

/-- Whatever the Store holds, its messages of the topic from `start` to before `next` are in its answer
to the request, but for those beyond the page at the instant `start` where that instant fills it. -/
def CompleteUpTo (topic : τ) (request : StoreQueryRequest τ) (start next : ℤ)
    (response : StoreQueryResponse μ) : Prop :=
  ∀ held, Answers held request response → ∀ m, (topic, m) ∈ held → start ≤ m.timestamp →
    m.timestamp < next → ListedFrom start response m

variable {topic : τ}

theorem asks_pageRequest {row : τ × WakuMessage μ} :
    (pageRequest topic start stop).asks row = true ↔
      row.1 = topic ∧ start ≤ row.2.timestamp ∧ row.2.timestamp < windowStop start stop := by
  rw [StoreQueryRequest.asks, Bool.and_eq_true, Bool.and_eq_true, decide_eq_true_iff, and_assoc]
  simp [pageRequest]

theorem completeUpTo_pageRequest {response : StoreQueryResponse μ}
    (hlists : ListsUpTo start next response) (hle : next ≤ windowStop start stop) :
    CompleteUpTo topic (pageRequest topic start stop) start next response := by
  rintro held ⟨rows, k, hperm, hsorted, hpage, hall⟩ m hm hstart hbefore
  have hrows : ∀ m' ∈ rows, start ≤ m'.timestamp := by
    intro m' hm'
    obtain ⟨row, hrow, rfl⟩ := List.mem_map.mp (hperm.subset hm')
    exact (asks_pageRequest.mp (List.mem_filter.mp hrow).2).2.1
  have hasked : m ∈ rows := by
    refine hperm.symm.subset (List.mem_map.mpr ⟨(topic, m), List.mem_filter.mpr ⟨hm, ?_⟩, rfl⟩)
    exact asks_pageRequest.mpr ⟨rfl, hstart, lt_of_lt_of_le hbefore hle⟩
  exact hlists rows ⟨hsorted, k, hpage, hall⟩ hrows m hasked hbefore

end Requests

end Pages

/-! ### Records -/

theorem newRecord_online {time liveSince variance : ℤ} {live : Bool}
    (h : (newRecord time live liveSince variance).state = .online) :
    live = true ∧ liveSince ≤ time ∧
      newRecord time live liveSince variance = ⟨time - variance, .online⟩ := by
  unfold newRecord at h ⊢
  split_ifs at h ⊢ with hlive
  exact ⟨hlive.1, hlive.2, rfl⟩

@[simp] theorem inOutage_state (record : TopicRecord) (detectedAt : ℤ) :
    (record.inOutage detectedAt).state = .offline := by
  unfold TopicRecord.inOutage
  split_ifs with h
  · exact h
  · rfl

@[simp] theorem atStart_state (record : TopicRecord) (lastReceivedAt : Option ℤ) :
    (record.atStart lastReceivedAt).state = .offline := by
  unfold TopicRecord.atStart
  split_ifs with h
  · exact h
  · cases lastReceivedAt with
    | none => rfl
    | some time => exact inOutage_state record time

section Steps

variable {τ μ : Type} [DecidableEq τ] {settings : BackfillSettings τ} {s : RecvService τ}

namespace RecvService

theorem writeRecord_eq (topic : τ) (record : Option TopicRecord) (written : Bool) :
    s.writeRecord settings topic record written =
      { s with storedRecords := (s.writeRecord settings topic record written).storedRecords } := by
  unfold writeRecord
  split_ifs <;> rfl

/-- A change of a subscription changes the record and the subscription of its topic, and the rows on
the disk. -/
theorem applySubscriptionChange_eq (written : Bool) (change : BackfillSubscriptionChange τ) :
    s.applySubscriptionChange settings written change =
      { s with
        subscribedSince := Function.update s.subscribedSince change.topic
          (if change.subscribed then some change.time else none)
        records := Function.update s.records change.topic
          (if change.subscribed then
            some ((s.records change.topic).getD
              (newRecord change.time s.live s.liveSince settings.timestampVariance))
          else none)
        storedRecords := (s.applySubscriptionChange settings written change).storedRecords } := by
  have hself : ∀ record : Option TopicRecord, s.records change.topic = record →
      Function.update s.records change.topic record = s.records := by
    rintro record rfl
    exact Function.update_eq_self _ _
  unfold applySubscriptionChange
  cases hsub : change.subscribed <;> cases hrec : s.records change.topic <;>
    simp [hrec, hself, setSubscribedSince, setRecord, writeRecord] <;> split_ifs <;> rfl

/-- A record after a change was there before, or is the new record of the subscribe. -/
theorem applySubscriptionChange_records {written : Bool} {change : BackfillSubscriptionChange τ}
    {topic : τ} {r : TopicRecord}
    (h : (s.applySubscriptionChange settings written change).records topic = some r) :
    s.records topic = some r ∨ (change.topic = topic ∧ change.subscribed = true ∧
      r = newRecord change.time s.live s.liveSince settings.timestampVariance) := by
  rw [applySubscriptionChange_eq] at h
  rcases mem_table_update h with ⟨rfl, hnew⟩ | ⟨-, hold⟩
  · split_ifs at hnew with hsub
    cases hrec : s.records change.topic with
    | none =>
        rw [hrec] at hnew
        exact Or.inr ⟨rfl, hsub, (Option.some.inj hnew).symm⟩
    | some r' =>
        rw [hrec] at hnew
        exact Or.inl hnew
  · exact Or.inl hold

theorem applySubscriptionChange_subscribedSince {written : Bool}
    {change : BackfillSubscriptionChange τ} {topic : τ} {time : ℤ}
    (h : (s.applySubscriptionChange settings written change).subscribedSince topic = some time) :
    s.subscribedSince topic = some time ∨ change = ⟨topic, true, time⟩ := by
  rw [applySubscriptionChange_eq] at h
  rcases mem_table_update h with ⟨rfl, hnew⟩ | ⟨-, hold⟩
  · split_ifs at hnew with hsub
    cases hnew
    obtain ⟨topic, subscribed, time⟩ := change
    cases hsub
    exact Or.inr rfl
  · exact Or.inl hold

variable (settings) in
theorem applyChanges_same (written : Bool) (changes : List (BackfillSubscriptionChange τ))
    (s : RecvService τ) :
    (s.applyChanges settings written changes).live = s.live ∧
      (s.applyChanges settings written changes).liveSince = s.liveSince ∧
      (s.applyChanges settings written changes).worker = s.worker := by
  induction changes generalizing s with
  | nil => exact ⟨rfl, rfl, rfl⟩
  | cons change changes ih =>
      obtain ⟨hlive, hsince, hworker⟩ := ih (s.applySubscriptionChange settings written change)
      rw [applySubscriptionChange_eq] at hlive hsince hworker
      rw [applyChanges, List.foldl_cons, applySubscriptionChange_eq]
      exact ⟨hlive, hsince, hworker⟩

theorem applyChanges_records {written : Bool} {changes : List (BackfillSubscriptionChange τ)}
    {s : RecvService τ} {topic : τ} {r : TopicRecord}
    (h : (s.applyChanges settings written changes).records topic = some r) :
    s.records topic = some r ∨ ∃ change ∈ changes, change.topic = topic ∧
      change.subscribed = true ∧
      r = newRecord change.time s.live s.liveSince settings.timestampVariance := by
  induction changes generalizing s with
  | nil => exact Or.inl h
  | cons change changes ih =>
      have hsame : (s.applySubscriptionChange settings written change).live = s.live ∧
          (s.applySubscriptionChange settings written change).liveSince = s.liveSince := by
        rw [applySubscriptionChange_eq]
        exact ⟨rfl, rfl⟩
      rcases ih h with hrec | ⟨change', hmem, htopic, hsub, hr⟩
      · rcases applySubscriptionChange_records hrec with hbefore | hnew
        · exact Or.inl hbefore
        · exact Or.inr ⟨change, List.mem_cons_self, hnew⟩
      · rw [hsame.1, hsame.2] at hr
        exact Or.inr ⟨change', List.mem_cons_of_mem _ hmem, htopic, hsub, hr⟩

theorem applyChanges_subscribedSince {written : Bool}
    {changes : List (BackfillSubscriptionChange τ)} {s : RecvService τ} {topic : τ} {time : ℤ}
    (h : (s.applyChanges settings written changes).subscribedSince topic = some time) :
    s.subscribedSince topic = some time ∨ ⟨topic, true, time⟩ ∈ changes := by
  induction changes generalizing s with
  | nil => exact Or.inl h
  | cons change changes ih =>
      rcases ih h with hsub | hmem
      · rcases applySubscriptionChange_subscribedSince hsub with hbefore | rfl
        · exact Or.inl hbefore
        · exact Or.inr List.mem_cons_self
      · exact Or.inr (List.mem_cons_of_mem _ hmem)

/-! ### The fetch -/

variable (settings s) in
/-- What a fetch does to the records: nothing, or it moves the record that it started from. -/
theorem backfillFetched_cases (fetch : PendingFetch τ)
    (answer : Except String (StoreQueryResponse μ)) (deliver : WakuMessage μ → Bool)
    (written : Bool) :
    (s.backfillFetched settings fetch answer deliver written).records = s.records ∨
      ∃ next, fetchPage fetch.record.timestamp fetch.fetchStop answer deliver = .ok next ∧
        (s.records fetch.topic).getD TopicRecord.default = fetch.record ∧
        (s.backfillFetched settings fetch answer deliver written).records =
          Function.update s.records fetch.topic (some (s.recordAfter settings fetch next)) := by
  unfold backfillFetched
  cases hpage : fetchPage fetch.record.timestamp fetch.fetchStop answer deliver with
  | error e => exact Or.inl rfl
  | ok next =>
      simp only
      split_ifs with hchanged
      · exact Or.inl rfl
      · rw [not_or, not_not] at hchanged
        refine Or.inr ⟨next, rfl, hchanged.2, ?_⟩
        rw [writeRecord_eq]
        rfl

variable (settings s) in
theorem backfillFetched_same (fetch : PendingFetch τ)
    (answer : Except String (StoreQueryResponse μ)) (deliver : WakuMessage μ → Bool)
    (written : Bool) :
    let s' := s.backfillFetched settings fetch answer deliver written
    s'.live = s.live ∧ s'.liveSince = s.liveSince ∧ s'.subscribedSince = s.subscribedSince ∧
      s'.worker = .running := by
  unfold backfillFetched
  cases fetchPage fetch.record.timestamp fetch.fetchStop answer deliver with
  | error e => exact ⟨rfl, rfl, rfl, rfl⟩
  | ok next =>
      simp only
      split_ifs
      · exact ⟨rfl, rfl, rfl, rfl⟩
      · rw [writeRecord_eq]
        exact ⟨rfl, rfl, rfl, rfl⟩

omit [DecidableEq τ] in
theorem recordAfter_online {fetch : PendingFetch τ} {next : ℤ}
    (h : (s.recordAfter settings fetch next).state = .online) :
    s.live = true ∧ (s.recordAfter settings fetch next).timestamp =
      coveredFrom s.liveSince ((s.subscribedSince fetch.topic).getD fetch.now)
        settings.delayExtra settings.timestampVariance := by
  unfold recordAfter at h ⊢
  simp only at h ⊢
  split_ifs at h ⊢ with hcond
  exact ⟨hcond.1, rfl⟩

omit [DecidableEq τ] in
theorem recordAfter_le {fetch : PendingFetch τ} {next : ℤ} :
    (s.recordAfter settings fetch next).timestamp ≤ next := by
  unfold recordAfter
  simp only
  split_ifs with hcond
  · exact hcond.2.2
  · exact le_refl _

/-! ### One action -/

variable (settings s) in
/-- What an action does to the records, the subscriptions, live delivery and the worker. -/
inductive Does : BackfillAction τ μ → RecvService τ → Prop where
  | rest {a : BackfillAction τ μ} {s' : RecvService τ} : s'.records = s.records →
      s'.subscribedSince = s.subscribedSince → s'.live = s.live → s'.liveSince = s.liveSince →
      (s'.worker = s.worker ∨ ∀ fetch, s'.worker ≠ .fetching fetch) → Does a s'
  | start {job live : Bool} {time : ℤ} {topics : List τ} :
      Does (.start job live time topics) (s.startRecvService settings job live time topics)
  | change {change : BackfillSubscriptionChange τ} {written : Bool} :
      Does (.subscriptionChanged change written) (s.applySubscriptionChange settings written change)
  | live {nowLive : Bool} {time : ℤ} {written : Bool} : nowLive ≠ s.live →
      Does (.liveChanged nowLive time written) (s.applyLiveChange settings nowLive time written)
  | read {readable : Bool} {decoded : τ → Bool} {lastReadable written : Bool} :
      Does (.readRecords readable decoded lastReadable written)
        { s.backfillReadRecordsAtStart settings readable decoded lastReadable written with
          worker := .writing }
  | started {written : Bool} :
      Does (.started written)
        { ({ s with started := true, worker := .running } : RecvService τ).applyChanges settings
            written s.pendingSubscriptionChanges with
          pendingSubscriptionChanges := [] }
  | fetch {topic : τ} {now : ℤ} : s.isCandidate topic = true →
      Does (.fetchTopic topic now) (s.backfillFetchTopic settings topic now)
  | fetched {fetch : PendingFetch τ} {answer : Except String (StoreQueryResponse μ)}
      {deliver : WakuMessage μ → Bool} {written : Bool} : s.worker = .fetching fetch →
      Does (.fetched answer deliver written) (s.backfillFetched settings fetch answer deliver written)

theorem Does.nothing (a : BackfillAction τ μ) : Does settings s a s :=
  .rest rfl rfl rfl rfl (Or.inl rfl)

theorem step_does (a : BackfillAction τ μ) : Does settings s a (s.step settings a) := by
  cases a with
  | start job live time topics =>
      cases hw : s.worker with
      | ended =>
          simp only [step, hw]
          exact .start
      | _ =>
          simp only [step, hw]
          exact .nothing _
  | subscriptionChanged change written =>
      simp only [step, backfillSubscriptionChanged]
      split_ifs
      · exact .change
      · exact .rest rfl rfl rfl rfl (Or.inl rfl)
  | liveChanged nowLive time written =>
      simp only [step, backfillLiveChanged]
      split_ifs with hsame
      · exact .nothing _
      · exact .live hsame
  | received time =>
      simp only [step]
      split_ifs
      · exact .rest rfl rfl rfl rfl (Or.inl rfl)
      · exact .nothing _
  | cleared written =>
      simp only [step]
      split
      · split_ifs <;> exact .rest rfl rfl rfl rfl (Or.inr (fun _ hfetch => by cases hfetch))
      · exact .nothing _
  | readRecords readable decoded lastReadable written =>
      cases hw : s.worker with
      | reading =>
          simp only [step, hw]
          exact .read
      | _ =>
          simp only [step, hw]
          exact .nothing _
  | started written =>
      cases hw : s.worker with
      | writing =>
          simp only [step, hw]
          exact .started
      | _ =>
          simp only [step, hw]
          exact .nothing _
  | fetchTopic topic now =>
      cases hw : s.worker with
      | running =>
          simp only [step, hw]
          split_ifs with hcandidate
          · rw [Bool.and_eq_true] at hcandidate
            exact .fetch hcandidate.2
          · exact .nothing _
      | _ =>
          simp only [step, hw]
          exact .nothing _
  | fetched answer deliver written =>
      cases hw : s.worker with
      | fetching fetch =>
          simp only [step, hw]
          exact .fetched hw
      | _ =>
          simp only [step, hw]
          exact .nothing _
  | stop => exact .rest rfl rfl rfl rfl (Or.inl rfl)
  | stopped =>
      simp only [step]
      split_ifs
      · exact .rest rfl rfl rfl rfl (Or.inr (fun _ hfetch => by cases hfetch))
      · exact .nothing _

omit [DecidableEq τ] in
/-- The records that are read at the start are `Offline`. -/
theorem backfillReadRecordsAtStart_records {readable : Bool} {decoded : τ → Bool}
    {lastReadable written : Bool} {topic : τ} {r : TopicRecord}
    (h : (s.backfillReadRecordsAtStart settings readable decoded lastReadable written).records topic =
      some r) : s.records topic = some r ∨ r.state = .offline := by
  unfold backfillReadRecordsAtStart at h
  split at h
  · exact Or.inl h
  · rcases Option.or_eq_some_iff.mp h with hrow | ⟨-, hbefore⟩
    · obtain ⟨r', -, rfl⟩ := Option.map_eq_some_iff.mp hrow
      exact Or.inr (atStart_state r' _)
    · exact Or.inl hbefore

omit [DecidableEq τ] in
theorem backfillFetchTopic_eq (topic : τ) (now : ℤ) :
    s.backfillFetchTopic settings topic now =
      { s with worker := (s.backfillFetchTopic settings topic now).worker } := by
  unfold backfillFetchTopic
  split
  · rfl
  · simp only
    split_ifs <;> rfl

/-- The step makes the record of a topic `Online` as the new record of a subscribe, while live
delivery is ready and did not change after the subscribe. -/
def NewOnline (settings : BackfillSettings τ) (s : RecvService τ) (a : BackfillAction τ μ) (topic : τ)
    (r : TopicRecord) : Prop :=
  ∃ time written, (a = .subscriptionChanged ⟨topic, true, time⟩ written ∨
      (a = .started written ∧ ⟨topic, true, time⟩ ∈ s.pendingSubscriptionChanges)) ∧
    s.live = true ∧ s.liveSince ≤ time ∧ r = ⟨time - settings.timestampVariance, .online⟩

/-- The step is the end of a fetch that moves the record of the topic to `r`. -/
def Moved (settings : BackfillSettings τ) (s : RecvService τ) (a : BackfillAction τ μ) (topic : τ)
    (r : TopicRecord) : Prop :=
  ∃ fetch answer deliver written next, a = .fetched answer deliver written ∧
    s.worker = .fetching fetch ∧ fetch.topic = topic ∧
    (s.records topic).getD TopicRecord.default = fetch.record ∧
    fetchPage fetch.record.timestamp fetch.fetchStop answer deliver = .ok next ∧
    r = s.recordAfter settings fetch next

variable {a : BackfillAction τ μ} {s' : RecvService τ} {topic : τ} {r : TopicRecord}

theorem fetched_records {fetch : PendingFetch τ} {answer : Except String (StoreQueryResponse μ)}
    {deliver : WakuMessage μ → Bool} {written : Bool} (hw : s.worker = .fetching fetch)
    (hr : (s.backfillFetched settings fetch answer deliver written).records topic = some r) :
    s.records topic = some r ∨ Moved settings s (.fetched answer deliver written) topic r := by
  rcases backfillFetched_cases settings s fetch answer deliver written with
    hsame | ⟨next, hpage, hrecord, hmoved⟩
  · rw [hsame] at hr
    exact Or.inl hr
  · rw [hmoved] at hr
    by_cases htopic : topic = fetch.topic
    · subst htopic
      rw [Function.update_self] at hr
      exact Or.inr ⟨fetch, answer, deliver, written, next, rfl, hw, rfl, hrecord, hpage,
        (Option.some.inj hr).symm⟩
    · rw [Function.update_of_ne htopic] at hr
      exact Or.inl hr

/-- A record after the end of a fetch was there before, or was moved by the fetch. -/
theorem Does.moved {answer : Except String (StoreQueryResponse μ)} {deliver : WakuMessage μ → Bool}
    {written : Bool} (h : Does settings s (.fetched answer deliver written) s')
    (hr : s'.records topic = some r) :
    s.records topic = some r ∨ Moved settings s (.fetched answer deliver written) topic r := by
  cases h with
  | rest hrecords =>
      rw [hrecords] at hr
      exact Or.inl hr
  | fetched hw => exact fetched_records hw hr

/-- A record that is `Online` after a step was so before, was moved by a fetch, or is new. -/
theorem Does.online (h : Does settings s a s') (hr : s'.records topic = some r)
    (hstate : r.state = .online) :
    s.records topic = some r ∨ Moved settings s a topic r ∨ NewOnline settings s a topic r := by
  cases h with
  | rest hrecords =>
      rw [hrecords] at hr
      exact Or.inl hr
  | start => cases hr
  | @change change written =>
      rcases applySubscriptionChange_records hr with hbefore | ⟨rfl, hsub, rfl⟩
      · exact Or.inl hbefore
      · obtain ⟨hlive, hsince, hrec⟩ := newRecord_online hstate
        obtain ⟨topic, subscribed, time⟩ := change
        cases hsub
        exact Or.inr (Or.inr ⟨time, written, Or.inl rfl, hlive, hsince, hrec⟩)
  | @live nowLive time written hne =>
      simp only [applyLiveChange] at hr
      split_ifs at hr
      · exact Or.inl hr
      · obtain ⟨r', -, rfl⟩ := Option.map_eq_some_iff.mp hr
        simp at hstate
  | read =>
      refine (backfillReadRecordsAtStart_records hr).imp_right (fun hoff => ?_)
      rw [hoff] at hstate
      cases hstate
  | @started written =>
      rcases applyChanges_records hr with hbefore | ⟨change, hmem, rfl, hsub, rfl⟩
      · exact Or.inl hbefore
      · obtain ⟨hlive, hsince, hrec⟩ := newRecord_online hstate
        obtain ⟨topic, subscribed, time⟩ := change
        cases hsub
        exact Or.inr (Or.inr ⟨time, written, Or.inr ⟨rfl, hmem⟩, hlive, hsince, hrec⟩)
  | fetch hcandidate =>
      rw [backfillFetchTopic_eq] at hr
      exact Or.inl hr
  | fetched hw => exact (fetched_records hw hr).imp_right Or.inl

/-- Live delivery after a step that is not an outage. -/
theorem Does.live_cases (h : Does settings s a s') :
    (s'.live = s.live ∧ s'.liveSince = s.liveSince) ∨
    (∃ nowLive time written, a = .liveChanged nowLive time written ∧ nowLive ≠ s.live ∧
      s' = s.applyLiveChange settings nowLive time written) ∨
    ∃ job live time topics, a = .start job live time topics ∧
      s' = s.startRecvService settings job live time topics := by
  cases h with
  | rest _ _ hlive hsince => exact Or.inl ⟨hlive, hsince⟩
  | start => exact Or.inr (Or.inr ⟨_, _, _, _, rfl, rfl⟩)
  | change =>
      rw [applySubscriptionChange_eq]
      exact Or.inl ⟨rfl, rfl⟩
  | live hne => exact Or.inr (Or.inl ⟨_, _, _, rfl, hne, rfl⟩)
  | read =>
      left
      unfold backfillReadRecordsAtStart
      split
      · exact ⟨rfl, rfl⟩
      · exact ⟨rfl, rfl⟩
  | @started written =>
      obtain ⟨hlive, hsince, -⟩ := applyChanges_same settings written s.pendingSubscriptionChanges
        { s with started := true, worker := .running }
      exact Or.inl ⟨hlive, hsince⟩
  | fetch =>
      rw [backfillFetchTopic_eq]
      exact Or.inl ⟨rfl, rfl⟩
  | @fetched fetch answer deliver written =>
      obtain ⟨hlive, hsince, -, -⟩ := backfillFetched_same settings s fetch answer deliver written
      exact Or.inl ⟨hlive, hsince⟩

/-- While live delivery is down no record is `Online`. -/
def OfflineWhenDown (s : RecvService τ) : Prop :=
  s.live = false → ∀ topic r, s.records topic = some r → r.state = .offline

theorem Does.offlineWhenDown (h : Does settings s a s') (hs : s.OfflineWhenDown) :
    s'.OfflineWhenDown := by
  intro hdown topic r hr
  cases hstate : r.state with
  | offline => rfl
  | online =>
      exfalso
      rcases h.live_cases with ⟨hlive, -⟩ | ⟨nowLive, time, written, -, -, rfl⟩ |
        ⟨job, live, time, topics, -, rfl⟩
      · rw [hlive] at hdown
        rcases h.online hr hstate with hbefore | ⟨fetch, answer, deliver, written, next, -, -, -, -,
          -, rfl⟩ | ⟨time, written, -, hup, -⟩
        · rw [hs hdown topic r hbefore] at hstate
          cases hstate
        · rw [(recordAfter_online hstate).1] at hdown
          cases hdown
        · rw [hup] at hdown
          cases hdown
      · simp only [applyLiveChange] at hdown hr
        split_ifs at hdown hr with hup
        · exact absurd hdown (by simpa using hup)
        · obtain ⟨r', -, rfl⟩ := Option.map_eq_some_iff.mp hr
          simp at hstate
      · cases hr

/-- What is known of a fetch while it awaits its page: it asked for its topic from its record on, up to
where the archive is known to be complete at most, and its topic has a record only while it is
subscribed. -/
def FetchPending (settings : BackfillSettings τ) (s : RecvService τ) : Prop :=
  ∀ fetch, s.worker = .fetching fetch → fetch.record.state = .offline ∧
    (fetch.request = pageRequest fetch.topic fetch.record.timestamp fetch.fetchStop ∧
      fetch.fetchStop ≤
        archivedBefore fetch.now settings.archiveTime settings.timestampVariance) ∧
    (s.subscribedSince fetch.topic = none → s.records fetch.topic = none)

theorem Does.fetchPending (h : Does settings s a s') (hs : FetchPending settings s) :
    FetchPending settings s' := by
  intro fetch hfetch
  cases h with
  | rest hrecords hsub _ _ hworker =>
      rw [hrecords, hsub]
      rcases hworker with hsame | hnot
      · rw [hsame] at hfetch
        exact hs fetch hfetch
      · exact absurd hfetch (hnot fetch)
  | start =>
      simp only [startRecvService] at hfetch
      split_ifs at hfetch
  | @change change written =>
      rw [applySubscriptionChange_eq] at hfetch ⊢
      obtain ⟨hoffline, harchived, hsub⟩ := hs fetch hfetch
      refine ⟨hoffline, harchived, ?_⟩
      simp only
      by_cases htopic : fetch.topic = change.topic
      · rw [htopic, Function.update_self, Function.update_self]
        split_ifs
        · exact nofun
        · exact fun _ => rfl
      · rw [Function.update_of_ne htopic, Function.update_of_ne htopic]
        exact hsub
  | live =>
      simp only [applyLiveChange] at hfetch ⊢
      split_ifs at hfetch ⊢
      · exact hs fetch hfetch
      · obtain ⟨hoffline, harchived, hsub⟩ := hs fetch hfetch
        exact ⟨hoffline, harchived, fun hnone => Option.map_eq_none_iff.mpr (hsub hnone)⟩
  | read => cases hfetch
  | @started written =>
      obtain ⟨-, -, hworker⟩ := applyChanges_same settings written s.pendingSubscriptionChanges
        { s with started := true, worker := .running }
      simp only [hworker] at hfetch
      cases hfetch
  | @fetch topic now hcandidate =>
      have hoffline : ((s.records topic).getD TopicRecord.default).state = .offline := by
        simp only [isCandidate, Bool.and_eq_true, decide_eq_true_eq] at hcandidate
        exact hcandidate.2
      rw [backfillFetchTopic_eq]
      unfold backfillFetchTopic at hfetch
      split at hfetch
      · exact hs fetch hfetch
      · rename_i since hsince
        simp only at hfetch
        split_ifs at hfetch
        · exact hs fetch hfetch
        · cases hfetch
          refine ⟨hoffline, ⟨rfl, min_le_right _ _⟩, fun hnone => ?_⟩
          simp only [hsince] at hnone
          cases hnone
  | @fetched fetch' answer deliver written hw =>
      obtain ⟨-, -, -, hworker⟩ := backfillFetched_same settings s fetch' answer deliver written
      rw [hworker] at hfetch
      cases hfetch

/-- The action subscribes the topic at the time, or applies such a subscribe. -/
def Subscribes (s : RecvService τ) (a : BackfillAction τ μ) (topic : τ) (time : ℤ) : Prop :=
  (∃ written, a = .subscriptionChanged ⟨topic, true, time⟩ written) ∨
    ∃ written, a = .started written ∧ ⟨topic, true, time⟩ ∈ s.pendingSubscriptionChanges

theorem Does.subscribes (h : Does settings s a s') {time : ℤ}
    (htime : s'.subscribedSince topic = some time) :
    s.subscribedSince topic = some time ∨ Subscribes s a topic time := by
  cases h with
  | rest _ hsub =>
      rw [hsub] at htime
      exact Or.inl htime
  | start => cases htime
  | change =>
      refine (applySubscriptionChange_subscribedSince htime).imp_right (fun hchange => ?_)
      rw [hchange]
      exact Or.inl ⟨_, rfl⟩
  | live =>
      simp only [applyLiveChange] at htime
      split_ifs at htime <;> exact Or.inl htime
  | read =>
      unfold backfillReadRecordsAtStart at htime
      split at htime <;> exact Or.inl htime
  | started => exact (applyChanges_subscribedSince htime).imp_right (fun hmem => Or.inr ⟨_, rfl, hmem⟩)
  | fetch =>
      rw [backfillFetchTopic_eq] at htime
      exact Or.inl htime
  | @fetched fetch answer deliver written =>
      obtain ⟨-, -, hsub, -⟩ := backfillFetched_same settings s fetch answer deliver written
      rw [hsub] at htime
      exact Or.inl htime

/-- Live delivery recovers at the time, or is ready at a start at that time. -/
def Recovers (s : RecvService τ) (a : BackfillAction τ μ) (time : ℤ) : Prop :=
  (∃ written, a = .liveChanged true time written ∧ s.live = false) ∨
    ∃ job topics, a = .start job true time topics

/-- The time since which live delivery is ready. -/
def readySince (s : RecvService τ) : Option ℤ := if s.live then some s.liveSince else none

theorem Does.recovers (h : Does settings s a s') {time : ℤ} (htime : s'.readySince = some time) :
    s.readySince = some time ∨ Recovers s a time := by
  rcases h.live_cases with ⟨hlive, hsince⟩ | ⟨nowLive, time', written, rfl, hne, rfl⟩ |
    ⟨job, live, time', topics, rfl, rfl⟩
  · rw [readySince, hlive, hsince] at htime
    exact Or.inl htime
  · simp only [readySince, applyLiveChange] at htime
    cases nowLive with
    | false => cases htime
    | true =>
        cases htime
        exact Or.inr (Or.inl ⟨written, rfl, by simpa using hne.symm⟩)
  · cases live with
    | false => cases htime
    | true =>
        cases htime
        exact Or.inr (Or.inr ⟨job, topics, rfl⟩)

/-- The fetch that awaits its page. -/
def pendingFetch (s : RecvService τ) : Option (PendingFetch τ) :=
  match s.worker with
  | .fetching fetch => some fetch
  | _ => none

omit [DecidableEq τ] in
theorem pendingFetch_eq_some {fetch : PendingFetch τ} :
    s.pendingFetch = some fetch ↔ s.worker = .fetching fetch := by
  unfold pendingFetch
  cases s.worker <;> simp

/-- The request whose answer the worker awaits. -/
def awaited (s : RecvService τ) : Option (StoreQueryRequest τ) := s.pendingFetch.map (·.request)

/-- A fetch that awaits its page was begun by the action of its topic and time. -/
theorem Does.fetches (h : Does settings s a s') {fetch : PendingFetch τ}
    (hfetch : s'.pendingFetch = some fetch) :
    s.pendingFetch = some fetch ∨ a = .fetchTopic fetch.topic fetch.now := by
  rw [pendingFetch_eq_some] at hfetch ⊢
  cases h with
  | rest _ _ _ _ hworker =>
      rcases hworker with hsame | hnot
      · rw [hsame] at hfetch
        exact Or.inl hfetch
      · exact absurd hfetch (hnot fetch)
  | start =>
      simp only [startRecvService] at hfetch
      split_ifs at hfetch
  | change =>
      rw [applySubscriptionChange_eq] at hfetch
      exact Or.inl hfetch
  | live =>
      simp only [applyLiveChange] at hfetch
      split_ifs at hfetch <;> exact Or.inl hfetch
  | read => cases hfetch
  | @started written =>
      obtain ⟨-, -, hworker⟩ := applyChanges_same settings written s.pendingSubscriptionChanges
        { s with started := true, worker := .running }
      simp only [hworker] at hfetch
      cases hfetch
  | fetch =>
      unfold backfillFetchTopic at hfetch
      split at hfetch
      · exact Or.inl hfetch
      · simp only at hfetch
        split_ifs at hfetch
        · exact Or.inl hfetch
        · cases hfetch
          exact Or.inr rfl
  | @fetched fetch' answer deliver written hw =>
      obtain ⟨-, -, -, hworker⟩ := backfillFetched_same settings s fetch' answer deliver written
      rw [hworker] at hfetch
      cases hfetch

end RecvService

end Steps

/-! ### Every run -/

section Runs

open RecvService

variable {τ μ : Type} [DecidableEq τ] (settings : BackfillSettings τ)

/-- Live delivery recovered at the time, and is ready since then. -/
def LiveSince (actions : List (BackfillAction τ μ)) (time : ℤ) : Prop :=
  ∃ pre a post, actions = pre ++ a :: post ∧ Recovers (after settings pre) a time ∧
    ∀ part, part <+: post → (after settings (pre ++ a :: part)).live = true

/-- The topic was subscribed at the time, and stays subscribed since then. -/
def SubscribedSince (actions : List (BackfillAction τ μ)) (topic : τ) (time : ℤ) : Prop :=
  ∃ pre a post, actions = pre ++ a :: post ∧ Subscribes (after settings pre) a topic time ∧
    ∀ part, part <+: post → (after settings (pre ++ a :: part)).subscribedSince topic = some time

/-- The fetch of the topic at `now` sent the request, which is not answered yet. -/
def Sent (actions : List (BackfillAction τ μ)) (topic : τ) (now : ℤ)
    (request : StoreQueryRequest τ) : Prop :=
  ∃ pre post, actions = pre ++ .fetchTopic topic now :: post ∧
    ∀ part, part <+: post →
      (after settings (pre ++ .fetchTopic topic now :: part)).awaited = some request

/-- The answer to a request that was sent for the topic moves its record from `a` to `b`: the rows of
the answer were delivered, the window of the request has all instants from `a` to `b` and ends where
the archive was complete when it was sent, and the answer lists what the Store has there. -/
def FetchedOver (actions : List (BackfillAction τ μ)) (topic : τ) (a b : TopicRecord)
    (answer : Except String (StoreQueryResponse μ)) (deliver : WakuMessage μ → Bool) : Prop :=
  ∃ now request response, Sent settings actions topic now request ∧ answer = .ok response ∧
    (∀ row ∈ response.messages, ∃ m, row = some m ∧ deliver m = true) ∧
    CompleteUpTo topic request a.timestamp b.timestamp response ∧
    request.topic = topic ∧ request.startTime = some a.timestamp ∧
    ∃ windowEnd, request.endTime = some windowEnd ∧ b.timestamp ≤ windowEnd ∧
      windowEnd ≤ archivedBefore now settings.archiveTime settings.timestampVariance

variable (actions : List (BackfillAction τ μ))

theorem after_offlineWhenDown : (after settings actions).OfflineWhenDown := by
  induction actions using List.reverseRecOn with
  | nil => exact fun _ topic r hr => by cases hr
  | append_singleton actions a ih =>
      rw [after, run_concat]
      exact (step_does a).offlineWhenDown ih

theorem after_fetchPending : FetchPending settings (after settings actions) := by
  induction actions using List.reverseRecOn with
  | nil => exact fun fetch hfetch => by cases hfetch
  | append_singleton actions a ih =>
      rw [after, run_concat]
      exact (step_does a).fetchPending ih

theorem after_liveSince (h : (after settings actions).live = true) :
    LiveSince settings actions (after settings actions).liveSince := by
  have hready : (after settings actions).readySince = some (after settings actions).liveSince :=
    if_pos h
  obtain ⟨pre, a, post, hsplit, hsets, hkept⟩ := exists_since (RecvService.step settings) {}
    readySince rfl (fun _ a _ htime => (step_does a).recovers htime) actions hready
  refine ⟨pre, a, post, hsplit, hsets, fun part hpart => ?_⟩
  by_contra hdown
  have hready' := hkept part hpart
  rw [readySince] at hready'
  split_ifs at hready' with hlive
  exact hdown hlive

theorem after_subscribedSince {topic : τ} {time : ℤ}
    (h : (after settings actions).subscribedSince topic = some time) :
    SubscribedSince settings actions topic time :=
  exists_since (RecvService.step settings) {} (fun s => s.subscribedSince topic) rfl
    (fun _ a _ htime => (step_does a).subscribes htime) actions h

theorem after_sent {fetch : PendingFetch τ} (h : (after settings actions).worker = .fetching fetch) :
    Sent settings actions fetch.topic fetch.now fetch.request := by
  obtain ⟨pre, a, post, hsplit, rfl, hkept⟩ := exists_since (RecvService.step settings) {}
    pendingFetch rfl (fun _ a _ hfetch => (step_does a).fetches hfetch) actions
    (pendingFetch_eq_some.mpr h)
  refine ⟨pre, post, hsplit, fun part hpart => ?_⟩
  have hpending : (after settings (pre ++ .fetchTopic fetch.topic fetch.now :: part)).pendingFetch =
      some fetch := hkept part hpart
  rw [awaited, hpending, Option.map_some]

/-- In every state of every run: while live delivery is down no record is `Online`; a fetch that moves
a record moves it from `Offline` over a window that Store answered completely, and to `Online` only
at the time from which live delivery covers the topic; and no other step makes a record `Online`,
but the new record of a subscribe while live delivery is ready since before. -/
theorem backfill_after (settings : BackfillSettings τ) (actions : List (BackfillAction τ μ)) :
    let s := after settings actions
    (s.live = false → ∀ topic r, s.records topic = some r → r.state = .offline) ∧
    (∀ answer deliver written topic a b, s.records topic = some a →
      (s.step settings (.fetched answer deliver written)).records topic = some b → a ≠ b →
      a.state = .offline ∧ FetchedOver settings actions topic a b answer deliver ∧
      (b.state = .online → ∃ recovery subscribe, LiveSince settings actions recovery ∧
        SubscribedSince settings actions topic subscribe ∧
        b.timestamp = coveredFrom recovery subscribe settings.delayExtra
          settings.timestampVariance)) ∧
    (∀ (action : BackfillAction τ μ) topic r, (∀ answer deliver written,
        action ≠ .fetched answer deliver written) →
      (s.step settings action).records topic = some r → r.state = .online →
      s.records topic ≠ some r → NewOnline settings s action topic r) := by
  intro s
  refine ⟨after_offlineWhenDown settings actions, ?_, ?_⟩
  · intro answer deliver written topic a b ha hb hne
    rcases (step_does _).moved hb with hsame | ⟨fetch, _, _, _, next, haction, hw, rfl, hrecord,
      hpage, rfl⟩
    · rw [ha] at hsame
      exact absurd (Option.some.inj hsame) hne
    · cases haction
      rw [ha, Option.getD_some] at hrecord
      rw [← hrecord] at hpage
      obtain ⟨hoffline, ⟨hrequest, harchived⟩, hsub⟩ := after_fetchPending settings actions fetch hw
      have hsent := after_sent settings actions hw
      rw [hrequest, ← hrecord] at hsent
      rw [← hrecord] at hoffline
      obtain ⟨response, hanswer, hdelivered, hnext, hlists⟩ := fetchPage_complete hpage
      have hinside : (s.recordAfter settings fetch next).timestamp ≤
          windowStop a.timestamp fetch.fetchStop := le_trans recordAfter_le hnext
      refine ⟨hoffline, ⟨fetch.now, _, response, hsent, hanswer, hdelivered,
        completeUpTo_pageRequest (hlists.mono recordAfter_le) hinside, rfl, rfl,
        windowStop a.timestamp fetch.fetchStop, rfl, hinside,
        le_trans (min_le_left _ _) harchived⟩, ?_⟩
      intro honline
      obtain ⟨hlive, htime⟩ := recordAfter_online honline
      -- the topic has its record, so it is still subscribed
      obtain ⟨since, hsince⟩ : ∃ since, s.subscribedSince fetch.topic = some since := by
        rw [← Option.isSome_iff_exists, ← Option.ne_none_iff_isSome]
        intro hnone
        rw [hsub hnone] at ha
        cases ha
      rw [hsince, Option.getD_some] at htime
      exact ⟨s.liveSince, since, after_liveSince settings actions hlive,
        after_subscribedSince settings actions hsince, htime⟩
  · intro action topic r hfetched hr hstate hnew
    rcases (step_does action).online hr hstate with hbefore | ⟨fetch, answer, deliver, written, -,
      haction, -⟩ | hnewOnline
    · exact absurd hbefore hnew
    · exact absurd haction (hfetched answer deliver written)
    · exact hnewOnline

end Runs

end LogosDelivery.Messaging.Backfill
