import LogosDelivery.Messaging.Backfill

/-! # Paging through a gap

`fetchPage` called again and again, each time from the start that the last call gave, against a
Store that answers every window with the oldest messages in it.  The Store's cursor only says
whether there are more: the next query starts at the last timestamp of the page, or one past it
when the whole page is at the start.

`fetchPage` adds `MaxQueryTimeRange` to the start in 64-bit arithmetic.  As long as this does not
overflow, the queries never fail, reach the stop and deliver the messages of the gap
(`backfillsWindow_iff`). -/

namespace LogosDelivery.Messaging.Backfill

/-- `high(Timestamp)`. -/
def maxTimestamp : ℤ := 2 ^ 63 - 1

/-- What ends a call early. -/
inductive Halt where
  | overflow
  | failed (error : String)
deriving DecidableEq

section Paging

variable {μ : Type}

/-- `fetchPage` with the check of the addition, given the answers of the Store. -/
def checkedFetchPage (start stop : ℤ) (query : ℤ → ℤ → StoreQueryResponse μ)
    (deliver : WakuMessage μ → Bool) : Except Halt ℤ :=
  if maxTimestamp < start + maxQueryTimeRange then .error .overflow
  else
    match fetchPage start stop (.ok (query start (windowStop start stop))) deliver with
    | .error e => .error (.failed e)
    | .ok next => .ok next

/-- The next start and the messages delivered after the first calls; `store n` answers call `n`. -/
def fetchPages (store : ℕ → ℤ → ℤ → StoreQueryResponse μ) (deliver : WakuMessage μ → Bool)
    (start stop : ℤ) : ℕ → Except Halt (ℤ × List (WakuMessage μ))
  | 0 => .ok (start, [])
  | n + 1 =>
      match fetchPages store deliver start stop n with
      | .error h => .error h
      | .ok (next, delivered) =>
          if next < stop then
            match checkedFetchPage next stop (store n) deliver with
            | .error h => .error h
            | .ok next' =>
                .ok (next', delivered ++ (store n next (windowStop next stop)).messages.filterMap id)
          else .ok (next, delivered)

/-- The messages of a window. -/
def inWindow (held : List (WakuMessage μ)) (start stop : ℤ) : List (WakuMessage μ) :=
  held.filter (fun m => decide (start ≤ m.timestamp ∧ m.timestamp < stop))

/-- An answer with the first messages of a window by time, and a cursor when there are more. -/
def AnswersWindow (held : List (WakuMessage μ)) (start stop : ℤ) (response : StoreQueryResponse μ) :
    Prop :=
  ∃ rows : List (WakuMessage μ), rows.Perm (inWindow held start stop) ∧
    rows.Pairwise (fun m m' => m.timestamp ≤ m'.timestamp) ∧
    response.messages = (rows.take maxPageSize).map some ∧
    (response.paginationCursor = true ↔ maxPageSize < rows.length)

/-- The calls never fail, move the start up to the stop and not past it, and have then delivered the
messages of the gap. -/
structure BackfillsWindow (held : List (WakuMessage μ)) (store : ℕ → ℤ → ℤ → StoreQueryResponse μ)
    (deliver : WakuMessage μ → Bool) (start stop : ℤ) : Prop where
  neverFails : ∀ n, ∃ next delivered, fetchPages store deliver start stop n = .ok (next, delivered)
  increases : ∀ n next delivered next' delivered',
    fetchPages store deliver start stop n = .ok (next, delivered) → next < stop →
    fetchPages store deliver start stop (n + 1) = .ok (next', delivered') → next < next'
  notPast : ∀ n next delivered,
    fetchPages store deliver start stop n = .ok (next, delivered) → next ≤ stop
  reaches : ∃ n delivered, fetchPages store deliver start stop n = .ok (stop, delivered) ∧
    ∀ m, m ∈ delivered ↔ m ∈ held ∧ start ≤ m.timestamp ∧ m.timestamp < stop

/-! ### One page -/

section Page

variable {held rows : List (WakuMessage μ)} {deliver : WakuMessage μ → Bool} {start stop : ℤ}

/-- Rows in order within the window are accepted, up to the last one. -/
theorem acceptRows_sorted (hdeliver : ∀ m, deliver m = true) {queryStop : ℤ} :
    ∀ (rows : List (WakuMessage μ)) (last : ℤ),
      rows.Pairwise (fun m m' => m.timestamp ≤ m'.timestamp) →
      (∀ m ∈ rows, last ≤ m.timestamp ∧ m.timestamp < queryStop) →
      acceptRows queryStop deliver last (rows.map some) =
        .ok ((rows.getLast?.map WakuMessage.timestamp).getD last)
  | [], _, _, _ => rfl
  | m :: rows, last, hsorted, hbounds => by
      obtain ⟨hfirst, hrest⟩ := List.pairwise_cons.mp hsorted
      have hm := hbounds m List.mem_cons_self
      have ih := acceptRows_sorted hdeliver rows m.timestamp hrest fun m' hm' =>
        ⟨hfirst m' hm', (hbounds m' (List.mem_cons_of_mem _ hm')).2⟩
      have hin : ¬ (m.timestamp < last ∨ queryStop ≤ m.timestamp) := by omega
      rw [List.map_cons, acceptRows, if_neg hin, hdeliver m, if_neg (by decide), ih]
      cases rows with
      | nil => rfl
      | cons m' rows =>
          rw [List.getLast?_cons_cons]
          cases hlast : (m' :: rows).getLast? with
          | none => simp at hlast
          | some l => rfl

theorem mem_inWindow {m : WakuMessage μ} :
    m ∈ inWindow held start stop ↔ m ∈ held ∧ start ≤ m.timestamp ∧ m.timestamp < stop := by
  simp [inWindow]

/-- The last row is the latest. -/
theorem timestamp_le_last (hsorted : rows.Pairwise (fun m m' => m.timestamp ≤ m'.timestamp))
    {last m : WakuMessage μ} (hlast : rows.getLast? = some last) (hm : m ∈ rows) :
    m.timestamp ≤ last.timestamp := by
  obtain ⟨hne, rfl⟩ := List.mem_getLast?_eq_getLast hlast
  exact hsorted.rel_getLast_of_rel_getLast_getLast hm le_rfl

theorem mem_take_or_drop {m : WakuMessage μ} (h : m ∈ rows) (n : ℕ) :
    m ∈ rows.take n ∨ m ∈ rows.drop n := by
  rw [← List.mem_append, List.take_append_drop]
  exact h

/-- No message at the start is left when a whole page is there. -/
theorem not_at_start (hheld : ∀ t, (held.filter (fun m => decide (m.timestamp = t))).length ≤
      maxPageSize) (hperm : rows.Perm (inWindow held start stop))
    (hfull : (rows.take maxPageSize).length = maxPageSize)
    (hpage : ∀ m ∈ rows.take maxPageSize, m.timestamp = start) :
    ∀ m ∈ rows.drop maxPageSize, m.timestamp ≠ start := by
  intro m hm hstart
  have hcount : (rows.filter (fun m => decide (m.timestamp = start))).length ≤ maxPageSize := by
    refine le_trans ?_ (hheld start)
    have hlen := (hperm.filter (fun m => decide (m.timestamp = start))).length_eq
    rw [hlen, inWindow]
    exact (List.filter_sublist.filter _).length_le
  have hall : (rows.take maxPageSize).filter (fun m => decide (m.timestamp = start)) =
      rows.take maxPageSize :=
    List.filter_eq_self.mpr fun m' hm' => decide_eq_true (hpage m' hm')
  have hleft : m ∈ (rows.drop maxPageSize).filter (fun m => decide (m.timestamp = start)) :=
    List.mem_filter.mpr ⟨hm, decide_eq_true hstart⟩
  have hpos := List.length_pos_of_mem hleft
  rw [← List.take_append_drop maxPageSize rows, List.filter_append, List.length_append, hall,
    hfull] at hcount
  omega

theorem windowStop_le (start stop : ℤ) : windowStop start stop ≤ stop := min_le_left _ _

theorem lt_windowStop (h : start < stop) : start < windowStop start stop :=
  lt_min h (by unfold maxQueryTimeRange; omega)

/-- **One page**: it is accepted, the start moves up within the window, and the messages before the
next start are in it. -/
theorem fetchPage_answered (hheld : ∀ t, (held.filter (fun m => decide (m.timestamp = t))).length ≤
      maxPageSize) (hdeliver : ∀ m, deliver m = true) (hlt : start < stop)
    {response : StoreQueryResponse μ}
    (hanswers : AnswersWindow held start (windowStop start stop) response) :
    ∃ next, fetchPage start stop (.ok response) deliver = .ok next ∧ start < next ∧
      next ≤ windowStop start stop ∧
      (∀ m ∈ response.messages.filterMap id, m ∈ inWindow held start (windowStop start stop)) ∧
      ∀ m ∈ held, start ≤ m.timestamp → m.timestamp < next →
        m ∈ response.messages.filterMap id := by
  obtain ⟨rows, hperm, hsorted, hmessages, hcursor⟩ := hanswers
  have hwindow := lt_windowStop hlt
  have hpage : response.messages.filterMap id = rows.take maxPageSize := by
    rw [hmessages, List.filterMap_map]
    exact List.filterMap_some
  have hbounds : ∀ m ∈ rows, start ≤ m.timestamp ∧ m.timestamp < windowStop start stop :=
    fun m hm => (mem_inWindow.mp (hperm.subset hm)).2
  have hfound : ∀ m ∈ held, start ≤ m.timestamp → m.timestamp < windowStop start stop → m ∈ rows :=
    fun m hm h1 h2 => hperm.symm.subset (mem_inWindow.mpr ⟨hm, h1, h2⟩)
  have haccept := acceptRows_sorted hdeliver (rows.take maxPageSize) start
    (hsorted.sublist (List.take_sublist _ _)) fun m hm => hbounds m (List.mem_of_mem_take hm)
  have hinside : ∀ m ∈ rows.take maxPageSize, m ∈ inWindow held start (windowStop start stop) :=
    fun m hm => hperm.subset (List.mem_of_mem_take hm)
  rw [hpage]
  unfold fetchPage acceptPage
  dsimp only
  rw [hmessages, haccept]
  dsimp only
  by_cases hmore : maxPageSize < rows.length
  · -- a full page, and messages beyond it
    have htrue := hcursor.mpr hmore
    have hfull : (rows.take maxPageSize).length = maxPageSize := by
      rw [List.length_take]
      omega
    have hne : rows.take maxPageSize ≠ [] := by
      intro hnil
      rw [hnil] at hfull
      exact absurd (show 0 = 100 from hfull) (by decide)
    obtain ⟨l, hl⟩ : ∃ l, (rows.take maxPageSize).getLast? = some l :=
      Option.isSome_iff_exists.mp (by rw [List.getLast?_isSome]; exact hne)
    have hlmem := List.mem_of_getLast? hl
    have hlbounds := hbounds l (List.mem_of_mem_take hlmem)
    have hsplit : (rows.take maxPageSize ++ rows.drop maxPageSize).Pairwise
        (fun m m' => m.timestamp ≤ m'.timestamp) := by
      rw [List.take_append_drop]
      exact hsorted
    have hbeyond : ∀ m ∈ rows.drop maxPageSize, l.timestamp ≤ m.timestamp :=
      (List.pairwise_append.mp hsplit).2.2 l hlmem
    have hlen : ((rows.take maxPageSize).map some).length ≠ 0 := by
      rw [List.length_map, hfull]
      decide
    rw [if_neg (by rw [htrue]; decide), if_neg hlen, hl, Option.map_some, Option.getD_some]
    by_cases hsame : l.timestamp = start
    · rw [if_pos hsame]
      have hat : ∀ m ∈ rows.take maxPageSize, m.timestamp = start := by
        intro m hm
        have hle := timestamp_le_last (hsorted.sublist (List.take_sublist _ _)) hl hm
        have hlow := (hbounds m (List.mem_of_mem_take hm)).1
        omega
      have hgone := not_at_start hheld hperm hfull hat
      refine ⟨l.timestamp + 1, rfl, by omega, by omega, hinside, fun m hm h1 h2 => ?_⟩
      rcases mem_take_or_drop (hfound m hm h1 (by omega)) maxPageSize with hm | hm
      · exact hm
      · exact absurd (by omega : m.timestamp = start) (hgone m hm)
    · rw [if_neg hsame]
      refine ⟨l.timestamp, rfl, by omega, by omega, hinside, fun m hm h1 h2 => ?_⟩
      rcases mem_take_or_drop (hfound m hm h1 (by omega)) maxPageSize with hm | hm
      · exact hm
      · exact absurd (hbeyond m hm) (by omega)
  · -- the window has no more rows
    have hfalse : response.paginationCursor = false :=
      Bool.eq_false_iff.mpr fun h => hmore (hcursor.mp h)
    rw [if_pos hfalse]
    refine ⟨windowStop start stop, rfl, hwindow, le_rfl, hinside, fun m hm h1 h2 => ?_⟩
    rw [List.take_of_length_le (not_lt.mp hmore)]
    exact hfound m hm h1 h2

end Page

/-! ### All pages -/

section Pages

variable {held : List (WakuMessage μ)} {store : ℕ → ℤ → ℤ → StoreQueryResponse μ}
  {deliver : WakuMessage μ → Bool} {start stop : ℤ}

/-- One call of the iteration. -/
theorem fetchPages_succ {n : ℕ} {next : ℤ} {delivered : List (WakuMessage μ)}
    (h : fetchPages store deliver start stop n = .ok (next, delivered)) :
    fetchPages store deliver start stop (n + 1) =
      if next < stop then
        match checkedFetchPage next stop (store n) deliver with
        | .error h => .error h
        | .ok next' =>
            .ok (next', delivered ++ (store n next (windowStop next stop)).messages.filterMap id)
      else .ok (next, delivered) := by
  rw [fetchPages, h]

/-- The messages delivered so far are those of the gap up to the next start, and maybe later ones. -/
structure Filled (held : List (WakuMessage μ)) (start stop next : ℤ)
    (delivered : List (WakuMessage μ)) : Prop where
  le : next ≤ stop
  inside : ∀ m ∈ delivered, m ∈ held ∧ start ≤ m.timestamp ∧ m.timestamp < stop
  filled : ∀ m ∈ held, start ≤ m.timestamp → m.timestamp < next → m ∈ delivered

theorem fetchPages_filled (hheld : ∀ t, (held.filter (fun m => decide (m.timestamp = t))).length ≤
      maxPageSize) (hstore : ∀ n s e, AnswersWindow held s e (store n s e))
    (hdeliver : ∀ m, deliver m = true) (hlt : start < stop)
    (hroom : ∀ n next delivered, fetchPages store deliver start stop n = .ok (next, delivered) →
      next < stop → next + maxQueryTimeRange ≤ maxTimestamp) :
    ∀ n, ∃ next delivered, fetchPages store deliver start stop n = .ok (next, delivered) ∧
      start ≤ next ∧ Filled held start stop next delivered ∧ (next < stop → start + n ≤ next)
  | 0 => ⟨start, [], rfl, le_rfl, ⟨hlt.le, by simp, fun m _ h1 h2 => by omega⟩, fun _ => by simp⟩
  | n + 1 => by
      obtain ⟨next, delivered, hpages, hlow, hfilled, hfar⟩ :=
        fetchPages_filled hheld hstore hdeliver hlt hroom n
      rw [fetchPages_succ hpages]
      by_cases hend : next < stop
      · obtain ⟨next', hfetch, hup, hwindow, hinside, hfound⟩ :=
          fetchPage_answered hheld hdeliver hend (hstore n next (windowStop next stop))
        have hstop := windowStop_le next stop
        have hchecked : checkedFetchPage next stop (store n) deliver = .ok next' := by
          rw [checkedFetchPage, if_neg (not_lt.mpr (hroom n next delivered hpages hend)), hfetch]
        rw [if_pos hend, hchecked]
        refine ⟨next', _, rfl, by omega, ⟨by omega, fun m hm => ?_, fun m hm h1 h2 => ?_⟩, ?_⟩
        · rcases List.mem_append.mp hm with hm | hm
          · exact hfilled.inside m hm
          · have hin := mem_inWindow.mp (hinside m hm)
            exact ⟨hin.1, by omega, by omega⟩
        · by_cases hbefore : m.timestamp < next
          · exact List.mem_append_left _ (hfilled.filled m hm h1 hbefore)
          · exact List.mem_append_right _ (hfound m hm (by omega) h2)
        · intro _
          have hprev := hfar hend
          push_cast
          omega
      · rw [if_neg hend]
        exact ⟨next, delivered, rfl, hlow, hfilled, fun h => absurd h hend⟩

/-- **Paging a gap**: against a Store with at most a page of messages at one instant, and a delivery
that accepts, the calls fill the gap exactly when none of them starts too late for the addition. -/
theorem backfillsWindow_iff (hheld : ∀ t, (held.filter (fun m => decide (m.timestamp = t))).length ≤
      maxPageSize) (hstore : ∀ n s e, AnswersWindow held s e (store n s e))
    (hdeliver : ∀ m, deliver m = true) (hlt : start < stop) :
    BackfillsWindow held store deliver start stop ↔
      ∀ n next delivered, fetchPages store deliver start stop n = .ok (next, delivered) →
        next < stop → next + maxQueryTimeRange ≤ maxTimestamp := by
  constructor
  · intro hfills n next delivered hpages hend
    by_contra hover
    have hstuck : fetchPages store deliver start stop (n + 1) = .error .overflow := by
      rw [fetchPages_succ hpages, if_pos hend, checkedFetchPage, if_pos (not_le.mp hover)]
    obtain ⟨next', delivered', hnext⟩ := hfills.neverFails (n + 1)
    rw [hstuck] at hnext
    cases hnext
  · intro hroom
    have hall := fetchPages_filled hheld hstore hdeliver hlt hroom
    refine ⟨fun n => ?_, fun n next delivered next' delivered' hpages hend hpages' => ?_,
      fun n next delivered hpages => ?_, ?_⟩
    · obtain ⟨next, delivered, hpages, -⟩ := hall n
      exact ⟨next, delivered, hpages⟩
    · obtain ⟨next₁, hfetch, hup, -⟩ :=
        fetchPage_answered hheld hdeliver hend (hstore n next (windowStop next stop))
      rw [fetchPages_succ hpages, if_pos hend, checkedFetchPage,
        if_neg (not_lt.mpr (hroom n next delivered hpages hend)), hfetch] at hpages'
      obtain ⟨rfl, -⟩ := Prod.mk.inj (Except.ok.inj hpages')
      exact hup
    · obtain ⟨next₁, delivered₁, hpages₁, -, hfilled, -⟩ := hall n
      rw [hpages] at hpages₁
      obtain ⟨rfl, -⟩ := Prod.mk.inj (Except.ok.inj hpages₁)
      exact hfilled.le
    · -- each call before the end moves the start by a nanosecond or more
      obtain ⟨next, delivered, hpages, -, hfilled, hfar⟩ := hall (stop - start).toNat
      have hdone : next = stop := by
        by_contra hne
        have hbelow : next < stop := lt_of_le_of_ne hfilled.le hne
        have := hfar hbelow
        omega
      subst hdone
      exact ⟨_, delivered, hpages, fun m => ⟨hfilled.inside m, fun hm =>
        hfilled.filled m hm.1 hm.2.1 hm.2.2⟩⟩

end Pages

/-! ### A Store -/

/-- A Store that sorts its messages by time. -/
def sortingStore (held : List (WakuMessage μ)) (start stop : ℤ) : StoreQueryResponse μ :=
  let rows := (inWindow held start stop).insertionSort (fun m m' => m.timestamp ≤ m'.timestamp)
  ⟨(rows.take maxPageSize).map some, decide (maxPageSize < rows.length)⟩

theorem sortingStore_answers (held : List (WakuMessage μ)) (start stop : ℤ) :
    AnswersWindow held start stop (sortingStore held start stop) := by
  have htotal : Std.Total (fun m m' : WakuMessage μ => m.timestamp ≤ m'.timestamp) :=
    ⟨fun m m' => le_total m.timestamp m'.timestamp⟩
  have htrans : IsTrans (WakuMessage μ) (fun m m' => m.timestamp ≤ m'.timestamp) :=
    ⟨fun _ _ _ => le_trans⟩
  exact ⟨_, List.perm_insertionSort _ _, List.pairwise_insertionSort _ _, rfl, decide_eq_true_iff⟩

end Paging

/-- Two messages in a gap of a hundred nanoseconds. -/
theorem backfillsWindow_twoMessages :
    BackfillsWindow [⟨10, "b"⟩, ⟨5, "a"⟩] (fun _ => sortingStore [⟨10, "b"⟩, ⟨5, "a"⟩])
      (fun _ => true) 0 100 := by
  refine (backfillsWindow_iff ?_ (fun _ => sortingStore_answers _) (fun _ => rfl) (by decide)).mpr ?_
  · intro t
    exact (List.length_filter_le _ _).trans (by decide)
  · intro n next delivered _ hnext
    unfold maxQueryTimeRange maxTimestamp
    omega

/-- A gap of one nanosecond at the end of time. -/
theorem backfillsWindow_overflows : ¬ ∀ (held : List (WakuMessage String))
    (store : ℕ → ℤ → ℤ → StoreQueryResponse String) (start stop : ℤ),
    (∀ t, (held.filter (fun m => decide (m.timestamp = t))).length ≤ maxPageSize) →
    (∀ n s e, AnswersWindow held s e (store n s e)) → start < stop → stop ≤ maxTimestamp →
    BackfillsWindow held store (fun _ => true) start stop := by
  intro hall
  have hfills := hall [] (fun _ => sortingStore []) (2 ^ 63 - 2) (2 ^ 63 - 1)
    (fun _ => Nat.zero_le _) (fun _ => sortingStore_answers _) (by decide) (by decide)
  obtain ⟨next, delivered, hpages⟩ := hfills.neverFails 1
  have hstuck : fetchPages (fun _ => sortingStore ([] : List (WakuMessage String))) (fun _ => true)
      (2 ^ 63 - 2) (2 ^ 63 - 1) 1 = .error .overflow := by
    rw [fetchPages_succ (n := 0) rfl, if_pos (by decide), checkedFetchPage, if_pos (by decide)]
  rw [hstuck] at hpages
  cases hpages

end LogosDelivery.Messaging.Backfill
