import LogosDelivery.Store.StoreProtocol

/-! # Paging through a Store server

A client repeats a request with the cursor of each response.  When the exchanges succeed, the client
gets the rows of the server's archive that match, each once and in order, whichever driver the archive
has: what `validate` lets pass, every driver answers.

The archive limits the content topics of a query only where it has a cursor.  A request with more of
them is answered, but its second page is refused; so paging ends well exactly if there is no second page
or the topics are few (`storeQuery_complete`). -/

namespace LogosDelivery.Store

open Archive (ArchiveStore ArchiveQuery ArchiveResponse ArchiveRow ArchiveError DriverQuery
  WakuMessageKeyValue MaxContentTopicsPerQuery findMessages pageLimit Shows CompletePages
  Serves acceptsId chronological)
open Archive.Sqlite (SqliteDatabase rowPlace)
open Lib
open StoreSync (WakuMessageHash emptyFingerprint constFingerprint)

/-! ### Generated ids -/

theorem mem_hexText {bytes : List (Fin 256)} {c : Char} (h : c ∈ Archive.hexText bytes) :
    c ∈ Archive.hexDigits := by
  have hdigit : ∀ n < 16, Archive.hexDigit n ∈ Archive.hexDigits := by decide
  obtain ⟨b, _, hc⟩ := List.mem_flatMap.mp h
  have hb := b.isLt
  rcases List.mem_cons.mp hc with rfl | hc
  · exact hdigit _ (by omega)
  · rw [List.mem_singleton.mp hc]
    exact hdigit _ (by omega)

/-- Every generated id is accepted. -/
theorem acceptsId_generateRequestId (bytes : RequestBytes) :
    acceptsId (generateRequestId bytes) = true := by
  have hchars := List.all_eq_true.mp (show Archive.hexDigits.all (fun c =>
    !Archive.Postgres.riskyChars.contains c && c != '?') = true by decide)
  have hlower := List.all_eq_true.mp (show Archive.hexDigits.all (fun c => c.toLower == c) = true by
    decide)
  -- each pattern has a character that is no hex digit
  have hpatterns : ∀ pattern ∈ Archive.Postgres.riskyPatterns, ' ' ∈ pattern ∨ '-' ∈ pattern ∨
      '*' ∈ pattern := by
    decide
  have hmarks : ' '.toLower ∉ Archive.hexDigits ∧ '-'.toLower ∉ Archive.hexDigits ∧
      '*'.toLower ∉ Archive.hexDigits := by
    decide
  unfold acceptsId generateRequestId Archive.Postgres.isSecureString
  rw [String.toList_ofList, Bool.and_eq_true, Bool.and_eq_true, Bool.not_eq_true', Bool.not_eq_true',
    Bool.not_eq_true', List.any_eq_false]
  refine ⟨⟨fun c hc => ?_, ?_⟩, ?_⟩
  · have hsafe := hchars c (mem_hexText hc)
    rw [Bool.and_eq_true, Bool.not_eq_true'] at hsafe
    rw [hsafe.1]
    exact Bool.false_ne_true
  · unfold Archive.Postgres.containsRiskyPatterns
    rw [List.any_eq_false]
    intro pattern hpattern hinfix
    have hdigit : ∀ c ∈ pattern, c.toLower ∈ Archive.hexDigits := by
      intro c hc
      have hmem := (of_decide_eq_true hinfix).subset (List.mem_map_of_mem hc)
      obtain ⟨d, hd, heq⟩ := List.mem_map.mp hmem
      rw [← heq, beq_iff_eq.mp (hlower d (mem_hexText hd))]
      exact mem_hexText hd
    rcases hpatterns pattern hpattern with hc | hc | hc
    · exact hmarks.1 (hdigit _ hc)
    · exact hmarks.2.1 (hdigit _ hc)
    · exact hmarks.2.2 (hdigit _ hc)
  · rw [← Bool.not_eq_true, List.contains_iff_mem]
    intro hmem
    have hsafe := hchars '?' (mem_hexText hmem)
    rw [Bool.and_eq_true] at hsafe
    exact absurd hsafe.2 (by decide)

theorem generateRequestId_ne (bytes : RequestBytes) : generateRequestId bytes ≠ "" := by
  intro h
  have hlist : Archive.hexText bytes.1 = [] := by
    have htext := congrArg String.toList h
    rwa [generateRequestId, String.toList_ofList] at htext
  obtain ⟨bytes, hlen⟩ := bytes
  cases bytes with
  | nil => cases hlen
  | cons b bytes => cases hlist

/-! ### Requests that are let pass -/

section Requests

variable {request : StoreQueryRequest} {bytes : RequestBytes}

theorem named_id_ne (request : StoreQueryRequest) (bytes : RequestBytes) :
    (request.named (generateRequestId bytes)).requestId ≠ "" := by
  unfold StoreQueryRequest.named
  split_ifs with h
  · exact generateRequestId_ne bytes
  · exact h

theorem decodeRequest_named (request : StoreQueryRequest) (bytes : RequestBytes) :
    decodeRequest (request.named (generateRequestId bytes)) =
      .ok (request.named (generateRequestId bytes)) := by
  refine if_neg fun hlen => named_id_ne request bytes ?_
  exact String.toList_eq_nil_iff.mp (List.length_eq_zero_iff.mp hlen)

theorem validate_named (request : StoreQueryRequest) (generated : String) :
    (request.named generated).validate = request.validate := by
  unfold StoreQueryRequest.named
  split_ifs <;> rfl

/-- Hashes are not combined with times. -/
theorem hashes_or_times (h : request.validate = .ok ()) :
    request.messageHashes = [] ∨ (request.startTime = none ∧ request.endTime = none) := by
  unfold StoreQueryRequest.validate at h
  split_ifs at h with hrange hfilter
  by_contra hboth
  rw [not_or] at hboth
  refine hfilter ?_
  have hhashes : 0 < request.messageHashes.length := List.length_pos_iff.mpr hboth.1
  have htimes : request.startTime.isSome = true ∨ request.endTime.isSome = true := by
    by_contra hnone
    rw [not_or, Option.not_isSome_iff_eq_none, Option.not_isSome_iff_eq_none] at hnone
    exact hboth.2 hnone
  rw [Bool.and_eq_true, decide_eq_true_iff]
  refine ⟨hhashes, ?_⟩
  unfold StoreQueryRequest.hasContentFilter
  rcases htimes with h | h <;> simp [h]

end Requests

/-! ### One page -/

/-- The key-value that the server sends of a row. -/
def keyValueOf (includeData : Bool) (row : ArchiveRow) : WakuMessageKeyValue :=
  if includeData then ⟨row.hash, some ⟨row.message, [], false⟩, some row.pubsubTopic⟩
  else ⟨row.hash, none, none⟩

/-- A successful response with the rows of a page, less those whose key-values the codec refuses. -/
structure Answers (includeData : Bool) (res : StoreQueryResponse) (page : List ArchiveRow) : Prop where
  statusCode : res.statusCode = success
  statusDesc : res.statusDesc = "OK"
  messages : res.messages = readMessages (page.map (keyValueOf includeData))

section Page

variable {getMessages : DriverQuery → Except String (List ArchiveRow)} {x : Exchange}
  {request : StoreQueryRequest} {response : ArchiveResponse} {page : List ArchiveRow}

theorem putMessages_shows {query : ArchiveQuery} (h : Shows query response page) :
    putMessages (response.hashes.map (fun hash => ⟨hash, none, none⟩)) response.messages
      response.topics = some (page.map (keyValueOf query.includeData)) := by
  rw [h.hashes, h.messages, h.topics, List.map_map]
  clear h
  cases query.includeData with
  | false =>
      rw [if_neg Bool.false_ne_true, if_neg Bool.false_ne_true]
      cases page <;> rfl
  | true =>
      rw [if_pos rfl, if_pos rfl]
      induction page with
      | nil => rfl
      | cons row page ih =>
          rw [List.map_cons, List.map_cons, List.map_cons, putMessages, ih]
          rfl

/-- What the archive of the server answers reaches the client. -/
theorem query_answers (peer : String) (hx : x.Succeeds) (hvalid : request.validate = .ok ())
    (hcursor : request.paginationCursor ≠ some emptyFingerprint)
    (hfind : findMessages getMessages (request.named (generateRequestId x.random)).toArchiveQuery =
      .ok response)
    (hshows : Shows request.toArchiveQuery response page) :
    ∃ res, query getMessages peer x request = .ok res ∧ Answers request.includeData res page ∧
      res.paginationCursor = response.cursor := by
  set named := request.named (generateRequestId x.random) with hnamed
  have hhandled : handler getMessages x named = some
      { requestId := named.requestId, statusCode := 200, statusDesc := "OK",
        messages := page.map (keyValueOf request.includeData),
        paginationCursor := response.cursor } := by
    have hput := putMessages_shows hshows
    unfold handler handleQueryRequest
    rw [hx.served, hx.requestRead, if_pos rfl, if_pos rfl, hnamed, decodeRequest_named]
    dsimp only
    rw [validate_named, hvalid, ← hnamed]
    dsimp only
    rw [requestHandler, hfind, toStoreResult, hput]
    rfl
  refine ⟨{ requestId := named.requestId, statusCode := 200, statusDesc := "OK",
            messages := readMessages (page.map (keyValueOf request.includeData)),
            paginationCursor := response.cursor }, ?_, ⟨rfl, rfl, rfl⟩, rfl⟩
  have hid : ¬ named.requestId.length = 0 := fun hlen => named_id_ne request x.random
    (String.toList_eq_nil_iff.mp (List.length_eq_zero_iff.mp hlen))
  unfold query sendStoreRequest
  rw [if_neg hcursor, hx.dialed, if_pos rfl, hx.written]
  dsimp only
  rw [← hnamed, hhandled]
  dsimp only
  rw [hx.responseRead, if_pos rfl, decodeResponse, if_neg hid, if_neg (show (200 : ℕ) ≠ 0 by decide)]
  rfl

/-- What the archive refuses is no response. -/
theorem query_refused (peer : String) (hx : x.Succeeds) (hvalid : request.validate = .ok ()) {error : ArchiveError}
    (hfind : findMessages getMessages (request.named (generateRequestId x.random)).toArchiveQuery =
      .error error) (res : StoreQueryResponse) : query getMessages peer x request ≠ .ok res := by
  set named := request.named (generateRequestId x.random) with hnamed
  have hhandled : ∃ code desc, code ≠ success ∧ handler getMessages x named = some
      { requestId := named.requestId, statusCode := code, statusDesc := desc } := by
    unfold handler handleQueryRequest
    rw [hx.served, hx.requestRead, if_pos rfl, if_pos rfl, hnamed, decodeRequest_named]
    dsimp only
    rw [validate_named, hvalid, ← hnamed]
    dsimp only
    rw [requestHandler, hfind]
    cases error with
    | driverError cause => exact ⟨300, _, by decide, rfl⟩
    | invalidQuery cause => exact ⟨400, _, by decide, rfl⟩
  obtain ⟨code, desc, hcode, hhandled⟩ := hhandled
  intro hok
  unfold query at hok
  split_ifs at hok
  unfold sendStoreRequest at hok
  rw [hx.written] at hok
  dsimp only at hok
  rw [← hnamed, hhandled] at hok
  dsimp only at hok
  rw [hx.responseRead, if_pos rfl] at hok
  split at hok
  · cases hok
  · rename_i res' hdecoded
    unfold decodeResponse at hdecoded
    split_ifs at hdecoded
    obtain rfl := Except.ok.inj hdecoded
    rw [if_pos hcode] at hok
    cases hok

end Page

/-! ### The archive of the server -/

/-- SQLite takes the values of the request; a Postgres archive is asked for no hashes, and its connection
accepts the id. -/
def Takes (request : StoreQueryRequest) : ArchiveStore → Prop
  | .queue _ => True
  | .sqlite db => ArchiveStore.valuesOf request.toArchiveQuery ≤ db.variableLimit
  | .postgres _ => request.messageHashes = [] ∧ acceptsId request.requestId = true

section Archive

variable {store : ArchiveStore} {request : StoreQueryRequest}

theorem suits_of_takes (h : Takes request store) (hvalid : request.validate = .ok ()) :
    store.Suits request.toArchiveQuery := by
  cases store with
  | queue driver => exact trivial
  | sqlite db => exact ⟨hashes_or_times hvalid, h⟩
  | postgres db => exact h

theorem getMessages_requestId (store : ArchiveStore) (query : DriverQuery) (requestId : String)
    (h : ∀ db, store = .postgres db → query.hashes = [] ∧ acceptsId query.requestId = true ∧
      acceptsId requestId = true) :
    store.getMessages { query with requestId := requestId } = store.getMessages query := by
  cases store with
  | queue driver => rfl
  | sqlite db => rfl
  | postgres db =>
      obtain ⟨hnil, hid, hid'⟩ := h db rfl
      have hnamed : acceptsId ({ query with requestId := requestId } : DriverQuery).requestId = true :=
        hid'
      have hkept : ({ query with requestId := requestId } : DriverQuery).hashes = [] := hnil
      exact (Archive.postgresMessages_noHashes db hkept hnamed).trans
        (Archive.postgresMessages_noHashes db hnil hid).symm

/-- The id under which a request is sent does not matter. -/
theorem findMessages_named (h : Takes request store) (cursor : Option WakuMessageHash)
    (bytes : RequestBytes) :
    findMessages store.getMessages
        ((request.withCursor cursor).named (generateRequestId bytes)).toArchiveQuery =
      findMessages store.getMessages (request.toArchiveQuery.withCursor cursor) := by
  have hid := acceptsId_generateRequestId bytes
  unfold StoreQueryRequest.named
  generalize generateRequestId bytes = requestId at hid ⊢
  split_ifs
  · have hsame := getMessages_requestId store (request.toArchiveQuery.withCursor cursor).driverQuery
      requestId (by rintro db rfl; exact ⟨h.1, h.2, hid⟩)
    unfold findMessages
    rw [← hsame]
    rfl
  · rfl

end Archive

/-! ### All pages -/

/-- The first request, with no cursor. -/
theorem exists_first {getMessages : DriverQuery → Except String (List ArchiveRow)}
    {archiveQuery : ArchiveQuery} {rows : List ArchiveRow} (h : Serves getMessages archiveQuery rows) :
    ∃ found response, found.Perm rows ∧
      Archive.InQueryOrder archiveQuery.direction rowPlace found ∧
      findMessages getMessages (archiveQuery.withCursor none) = .ok response ∧
      Shows archiveQuery response
        (chronological archiveQuery.direction (found.take (pageLimit archiveQuery.pageSize))) ∧
      response.cursor = cursorAfter ArchiveRow.hash (pageLimit archiveQuery.pageSize) found := by
  obtain ⟨found, sent, horder, hperm, hhash, hdata, hserved⟩ := h
  obtain ⟨hshows, hcursor⟩ := Archive.shows_respond (archiveQuery.withCursor none) (found.map sent)
  refine ⟨found, _, hperm, horder, Archive.findMessages_ok rfl (hserved none found rfl), ?_, ?_⟩
  · have hmap : (chronological archiveQuery.direction (found.take (pageLimit archiveQuery.pageSize))).map
        sent = chronological archiveQuery.direction
          ((found.map sent).take (pageLimit archiveQuery.pageSize)) := by
      unfold chronological
      split_ifs <;> simp
    refine Shows.of_sent hhash hdata ?_
    rw [hmap]
    exact ⟨hshows.hashes, hshows.topics, hshows.messages⟩
  · refine hcursor.trans ?_
    simp [cursorAfter, ← List.map_take, Function.comp_def, ArchiveQuery.withCursor, hhash]

section Complete

variable {store : ArchiveStore} {request : StoreQueryRequest}
  {net : Option WakuMessageHash → Exchange}

/-- The rows of the archive that the request asks for. -/
def matching (store : ArchiveStore) (request : StoreQueryRequest) : List ArchiveRow :=
  store.rows.filter (request.toArchiveQuery.selects)

/-- The answer to the request with a cursor. -/
def ask (store : ArchiveStore) (peer : String) (net : Option WakuMessageHash → Exchange)
    (request : StoreQueryRequest) (cursor : Option WakuMessageHash) :
    Except StoreError StoreQueryResponse :=
  query store.getMessages peer (net cursor) (request.withCursor cursor)

/-- There is one page, or the archive accepts the topics of the next one. -/
def FitsPages (store : ArchiveStore) (request : StoreQueryRequest) : Prop :=
  request.contentTopics.length ≤ MaxContentTopicsPerQuery ∨
    (matching store request).length ≤ pageLimit request.toArchiveQuery.pageSize

theorem findMessages_zeroCursor {getMessages : DriverQuery → Except String (List ArchiveRow)}
    {archiveQuery : ArchiveQuery} {response : ArchiveResponse}
    (h : findMessages getMessages (archiveQuery.withCursor (some emptyFingerprint)) = .ok response) :
    False := by
  unfold findMessages Archive.checkCursor ArchiveQuery.withCursor at h
  simp at h

/-- What the archive answers to a cursor reaches the client. -/
theorem ask_answers (peer : String) (hnet : ∀ cursor, (net cursor).Succeeds) (hvalid : request.validate = .ok ())
    (htakes : Takes request store) {cursor : Option WakuMessageHash} {response : ArchiveResponse}
    {page : List ArchiveRow}
    (hfind : findMessages store.getMessages (request.toArchiveQuery.withCursor cursor) = .ok response)
    (hshows : Shows request.toArchiveQuery response page) :
    ∃ res, ask store peer net request cursor = .ok res ∧ Answers request.includeData res page ∧
      res.paginationCursor = response.cursor := by
  have hshows' : Shows (request.withCursor cursor).toArchiveQuery response page :=
    ⟨hshows.hashes, hshows.topics, hshows.messages⟩
  refine query_answers peer (hnet cursor) hvalid ?_ ?_ hshows'
  · rintro hzero
    obtain rfl : cursor = some emptyFingerprint := hzero
    exact findMessages_zeroCursor hfind
  · rw [findMessages_named htakes]
    exact hfind

/-- Requests that fit end well, and the client has everything. -/
theorem exists_complete (peer : String) (hstore : store.Usable) (hnet : ∀ cursor, (net cursor).Succeeds)
    (hvalid : request.validate = .ok ()) (htakes : Takes request store)
    (hfits : FitsPages store request) :
    ∃ rs pages, Paged (ask store peer net request) StoreQueryResponse.paginationCursor none rs ∧
      List.Forall₂ (Answers request.includeData) rs pages ∧
      CompletePages request.toArchiveQuery rowPlace (matching store request) pages := by
  have hsuits := suits_of_takes htakes hvalid
  rcases hfits with htopics | hone
  · obtain ⟨rs, pages, hpaged, hshows, hcomplete⟩ := hstore.exists_pages hsuits htopics
    have hreach : ∀ cursor response page,
        findMessages store.getMessages (request.toArchiveQuery.withCursor cursor) = .ok response →
        Shows request.toArchiveQuery response page →
        ∃ res, ask store peer net request cursor = .ok res ∧
          Answers request.includeData res page ∧ res.paginationCursor = response.cursor :=
      fun cursor response page hfind hpage => ask_answers peer hnet hvalid htakes hfind hpage
    obtain ⟨rs', hpaged', hanswers⟩ := hpaged.passed_on hreach hshows
    exact ⟨rs', pages, hpaged', hanswers, hcomplete⟩
  · obtain ⟨found, response, hperm, horder, hfind, hshows, hcursor⟩ :=
      exists_first (hstore.serves hsuits)
    have hall : found.length ≤ pageLimit request.toArchiveQuery.pageSize := hperm.length_eq ▸ hone
    rw [List.take_of_length_le hall] at hshows
    rw [cursorAfter_eq_none hall] at hcursor
    obtain ⟨res, hok, hanswers, hlast⟩ := ask_answers peer hnet hvalid htakes hfind hshows
    refine ⟨[res], [chronological request.toArchiveQuery.direction found],
      .last hok (hlast.trans hcursor), .cons hanswers .nil, ?_⟩
    have hflat : [found].flatten = found := List.flatten_singleton
    exact Archive.completePages_of_flatten hflat horder hperm (by simpa using hall)

/-- Where there is a second page, many topics are refused on it. -/
theorem fitsPages_of_paged {peer : String} (hstore : store.Usable) (hnet : ∀ cursor, (net cursor).Succeeds)
    (hvalid : request.validate = .ok ()) (htakes : Takes request store) {rs : List StoreQueryResponse}
    (hpaged : Paged (ask store peer net request) StoreQueryResponse.paginationCursor none rs) :
    FitsPages store request := by
  by_contra hnot
  unfold FitsPages at hnot
  rw [not_or, not_le, not_le] at hnot
  obtain ⟨hmany, hmore⟩ := hnot
  obtain ⟨found, response, hperm, _, hfind, hshows, hcursor⟩ :=
    exists_first (hstore.serves (suits_of_takes htakes hvalid))
  obtain ⟨res, hok, _, hnext⟩ := ask_answers peer hnet hvalid htakes hfind hshows
  have hmore' : pageLimit request.toArchiveQuery.pageSize < found.length := hperm.length_eq ▸ hmore
  have hstart : RowsFrom ArchiveRow.hash found none found := rfl
  obtain ⟨next, hafter, _⟩ := hstart.drop (Archive.pageLimit_pos _) hmore'
  rw [hcursor, hafter] at hnext
  cases hpaged with
  | last h hc =>
      obtain rfl := Except.ok.inj (hok.symm.trans h)
      rw [hnext] at hc
      cases hc
  | more h hc hrest =>
      obtain rfl := Except.ok.inj (hok.symm.trans h)
      obtain rfl := Option.some.inj (hnext.symm.trans hc)
      have hmany' : request.toArchiveQuery.contentTopics.length > MaxContentTopicsPerQuery := hmany
      have hrefused : ∃ e, findMessages store.getMessages
          (request.toArchiveQuery.withCursor (some next)) = .error e := by
        unfold findMessages Archive.checkCursor ArchiveQuery.withCursor
        dsimp only
        by_cases hzero : next = emptyFingerprint
        · exact ⟨_, by rw [if_pos hzero]⟩
        · exact ⟨_, by rw [if_neg hzero, if_pos hmany']⟩
      obtain ⟨e, hrefused⟩ := hrefused
      have hnone : ∀ res, ask store peer net request (some next) ≠ .ok res :=
        query_refused peer (hnet (some next)) hvalid (by rw [findMessages_named htakes]; exact hrefused)
      cases hrest with
      | last h' _ => exact hnone _ h'
      | more h' _ _ => exact hnone _ h'

/-- **A Store query is complete.**  A client whose exchanges succeed gets to the last page of a valid
request exactly if there is only one page or the content topics are at most ten; and then the pages
are the matching rows of the server's archive, each once and in order, whichever driver it has. -/
theorem storeQuery_complete (store : ArchiveStore) (hstore : store.Usable) (peer : String)
    (request : StoreQueryRequest) (hvalid : request.validate = .ok ()) (htakes : Takes request store)
    (net : Option WakuMessageHash → Exchange) (hnet : ∀ cursor, (net cursor).Succeeds) :
    ((∃ rs, Paged (ask store peer net request) StoreQueryResponse.paginationCursor none rs) ↔
      FitsPages store request) ∧
    ∀ rs, Paged (ask store peer net request) StoreQueryResponse.paginationCursor none rs →
      ∃ pages, List.Forall₂ (Answers request.includeData) rs pages ∧
        CompletePages request.toArchiveQuery rowPlace (matching store request) pages := by
  refine ⟨⟨?_, ?_⟩, ?_⟩
  · rintro ⟨rs, hpaged⟩
    exact fitsPages_of_paged hstore hnet hvalid htakes hpaged
  · intro hfits
    obtain ⟨rs, _, hpaged, _⟩ :=
      exists_complete peer hstore hnet hvalid htakes hfits
    exact ⟨rs, hpaged⟩
  · intro rs hpaged
    have hfits := fitsPages_of_paged hstore hnet hvalid htakes hpaged
    obtain ⟨rs', pages, hpaged', hanswers, hcomplete⟩ :=
      exists_complete peer hstore hnet hvalid htakes hfits
    rw [hpaged.unique hpaged']
    exact ⟨pages, hanswers, hcomplete⟩

end Complete

/-! ### An example -/

/-- Two messages, the newer first. -/
def newerFirst : SqliteDatabase where
  rows := [⟨constFingerprint 4, "p", ⟨[], "c", [], 0, 70⟩⟩, ⟨constFingerprint 3, "p", ⟨[], "c", [], 0, 20⟩⟩]
  variableLimit := 999
  primaryKey := by decide
  notNull := by simp

/-- Backward from the newest message, one a page, of eleven topics. -/
def elevenTopics : StoreQueryRequest where
  requestId := ""
  includeData := true
  pubsubTopic := some "p"
  contentTopics := List.replicate 11 "c"
  startTime := none
  endTime := none
  messageHashes := []
  paginationCursor := none
  paginationForward := .backward
  paginationLimit := some 1

/-- Every request is answered. -/
def answered : Exchange where
  dialed := true
  written := .ok ()
  served := true
  requestRead := true
  responseRead := true
  closed := ""
  random := ⟨List.replicate 10 0, by decide⟩

/-- The second page is refused. -/
theorem storeQuery_elevenTopics :
    ¬ FitsPages (.sqlite newerFirst) elevenTopics ∧
    ¬ ∃ rs, Paged (ask (.sqlite newerFirst) "peer" (fun _ => answered) elevenTopics)
      StoreQueryResponse.paginationCursor none rs := by
  have hfits : ¬ FitsPages (.sqlite newerFirst) elevenTopics := by
    unfold FitsPages matching
    decide +kernel
  have hcomplete := storeQuery_complete (.sqlite newerFirst)
    ⟨by decide, by decide, nofun, nofun⟩ "peer" elevenTopics (by decide)
    (show ArchiveStore.valuesOf elevenTopics.toArchiveQuery ≤ 999 by decide) (fun _ => answered)
    (fun _ => ⟨rfl, rfl, rfl, rfl, rfl⟩)
  exact ⟨hfits, fun hpaged => hfits (hcomplete.1.mp hpaged)⟩

end LogosDelivery.Store
