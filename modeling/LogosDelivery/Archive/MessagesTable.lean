import LogosDelivery.Archive.Archive

/-! # The tables of the Postgres archive

The tables `messages` and `messages_lookup`, and what a query asks of them: the first rows, in the
requested order of `(timestamp, messageHash)`, of the rows after the cursor that match all the
filters.  The column `messageHash` is the text that `toHex` writes, and texts compare character by
character. -/

namespace LogosDelivery.Archive

open Lib
open StoreSync (WakuMessageHash PubsubTopic ContentTopic)

abbrev Text := List Char

def hexDigits : List Char :=
  ['0', '1', '2', '3', '4', '5', '6', '7', '8', '9', 'a', 'b', 'c', 'd', 'e', 'f']

def hexDigit (n : ℕ) : Char := hexDigits.getD n '0'

/-- The text of a byte sequence in lower case hexadecimal. -/
def hexText (bytes : List (Fin 256)) : Text :=
  bytes.flatMap (fun b => [hexDigit (b.val / 16), hexDigit (b.val % 16)])

/-- `toHex`. -/
def toHex (hash : WakuMessageHash) : Text := hexText hash.1

/-- The two tables, which both have the primary key `(messageHash, timestamp)`.  `put` writes a row of
`messages` and then, in a statement of its own, one of `messages_lookup`, so either table may have a
row without the other one's. -/
structure Database where
  messages : List ArchiveRow
  lookup : List (WakuMessageHash × Timestamp)
  primaryKey : (messages.map (fun row => (row.hash, row.message.timestamp))).Nodup
  lookupKey : lookup.Nodup

/-- `(timestamp, messageHash)`. -/
def rowKey (row : ArchiveRow) : Timestamp ×ₗ Text := toLex (row.message.timestamp, toHex row.hash)

/-- `SELECT timestamp FROM messages_lookup WHERE messageHash = $1`. -/
def Database.getTimeCursor (db : Database) (hash : WakuMessageHash) : Option Timestamp :=
  (db.lookup.find? (fun row => decide (toHex row.1 = toHex hash))).map Prod.snd

/-! ### What a query asks for -/

def MaxHashesPerQuery : ℕ := 100

def DriverQuery.withHashes (q : DriverQuery) (hashes : List WakuMessageHash) : DriverQuery :=
  { q with hashes := hashes }

/-- A place in the order. -/
abbrev Place := Timestamp ×ₗ Text

/-- The row is after a place, if there is one. -/
def isAfter (ascendingOrder : Bool) (place : Option Place) (row : ArchiveRow) : Bool :=
  place.all (fun p => if ascendingOrder then decide (p < rowKey row) else decide (rowKey row < p))

/-- The rows in the requested order. -/
def inOrder (ascendingOrder : Bool) (rows : List ArchiveRow) : List ArchiveRow :=
  if ascendingOrder then orderBy rowKey rows else orderBy (fun row => OrderDual.toDual (rowKey row)) rows

/-- The matching rows after a place, in the requested order. -/
def Database.matchingRows (db : Database) (q : DriverQuery) (place : Option Place) :
    List ArchiveRow :=
  inOrder q.ascendingOrder (db.messages.filter (fun row =>
    rowMatches q row && isAfter q.ascendingOrder place row))

/-- The times under which a message is stored. -/
def Database.storedAt (db : Database) (hash : WakuMessageHash) : List Timestamp :=
  (db.messages.filter (fun row => decide (row.hash = hash))).map (fun row => row.message.timestamp)

/-- The time of a message: the one under which it is stored, and the one that is looked up where it is
stored under several or not at all. -/
def Database.timeOf (db : Database) (hash : WakuMessageHash) : Option Timestamp :=
  match db.getTimeCursor hash with
  | none => (db.storedAt hash).head?
  | some t => if t ∈ db.storedAt hash then some t else (db.storedAt hash).head?.or (some t)

/-- The place of a cursor whose message has that time. -/
def placeAt (q : DriverQuery) (time : WakuMessageHash → Option Timestamp) :
    Except String (Option Place) :=
  match q.cursor with
  | none => .ok none
  | some c =>
      match time c with
      | none => .error "cursor not found"
      | some t => .ok (some (toLex (t, toHex c)))

/-- The place of the cursor. -/
def Database.cursorPlace (db : Database) (q : DriverQuery) : Except String (Option Place) :=
  placeAt q db.timeOf

/-- The place that `messages_lookup` gives for the cursor. -/
def Database.lookedUpPlace (db : Database) (q : DriverQuery) : Except String (Option Place) :=
  placeAt q db.getTimeCursor

/-- The answer to a query: the first of the matching rows after the cursor. -/
def Database.answer (db : Database) (q : DriverQuery) : Except String (List ArchiveRow) :=
  (db.cursorPlace q).map (fun place => (db.matchingRows q place).take q.maxPageSize)

/-- Two selections have the same first rows: before each row in which they differ there are enough
rows that both have. -/
def Database.SameFirst (db : Database) (q : DriverQuery) (p p' : ArchiveRow → Bool) : Prop :=
  ∀ row ∈ db.messages, p row ≠ p' row →
    q.maxPageSize ≤ (db.messages.filter (fun row' =>
      p row' && p' row' && isAfter q.ascendingOrder (some (rowKey row')) row)).length

/-! ### Hashes as texts -/

theorem hexDigit_inj : ∀ a < 16, ∀ b < 16, hexDigit a = hexDigit b → a = b := by
  decide

theorem hexText_injective : Function.Injective hexText := by
  intro x
  induction x with
  | nil =>
      intro y h
      cases y with
      | nil => rfl
      | cons b y => simp [hexText] at h
  | cons a x ih =>
      intro y h
      cases y with
      | nil => simp [hexText] at h
      | cons b y =>
          simp only [hexText, List.flatMap_cons, List.cons_append, List.nil_append,
            List.cons.injEq] at h
          obtain ⟨hhigh, hlow, hrest⟩ := h
          have ha := a.isLt
          have hb := b.isLt
          have hdiv := hexDigit_inj _ (by omega) _ (by omega) hhigh
          have hmod := hexDigit_inj _ (by omega) _ (by omega) hlow
          have hab : a = b := by
            apply Fin.ext
            omega
          rw [hab, ih hrest]

theorem toHex_inj {x y : WakuMessageHash} : toHex x = toHex y ↔ x = y :=
  ⟨fun h => Subtype.ext (hexText_injective h), fun h => h ▸ rfl⟩

namespace Database

variable (db : Database)

theorem nodup_messages : db.messages.Nodup := db.primaryKey.of_map

theorem distinct_messages : DistinctKeys rowKey db.messages := by
  refine List.Pairwise.imp_of_mem ?_ db.nodup_messages
  intro row row' hrow hrow' hne hkey
  obtain ⟨htime, hhex⟩ := Prod.mk.inj (toLex.injective hkey)
  exact hne (List.inj_on_of_nodup_map db.primaryKey hrow hrow'
    (Prod.ext (toHex_inj.mp hhex) htime))

theorem mem_storedAt {hash : WakuMessageHash} {t : Timestamp} : t ∈ db.storedAt hash ↔
    ∃ row ∈ db.messages, row.hash = hash ∧ row.message.timestamp = t := by
  simp [storedAt, and_assoc]

/-- A message has a time when it is stored or looked up. -/
theorem timeOf_eq_none {hash : WakuMessageHash} : db.timeOf hash = none ↔
    db.getTimeCursor hash = none ∧ ∀ row ∈ db.messages, row.hash ≠ hash := by
  have hstored : db.storedAt hash = [] ↔ ∀ row ∈ db.messages, row.hash ≠ hash := by
    simp [storedAt, List.filter_eq_nil_iff]
  unfold timeOf
  cases db.getTimeCursor hash with
  | none => simp [hstored]
  | some t =>
      dsimp only
      split_ifs <;> simp

/-- Every stored message is looked up, at its time. -/
def LooksUp : Prop := ∀ row ∈ db.messages, db.getTimeCursor row.hash = some row.message.timestamp

/-- Then the place of a cursor is the one that is looked up. -/
theorem LooksUp.cursorPlace_eq (h : db.LooksUp) (q : DriverQuery) :
    db.cursorPlace q = db.lookedUpPlace q := by
  have htime : db.timeOf = db.getTimeCursor := by
    funext hash
    have hstored : ∀ t ∈ db.storedAt hash, db.getTimeCursor hash = some t := by
      intro t ht
      obtain ⟨row, hrow, rfl, rfl⟩ := db.mem_storedAt.mp ht
      exact h row hrow
    unfold timeOf
    cases hs : db.storedAt hash with
    | nil => cases db.getTimeCursor hash <;> simp
    | cons t rest =>
        have ht : db.getTimeCursor hash = some t := hstored t (by rw [hs]; exact List.mem_cons_self)
        simp [ht]
  rw [cursorPlace, lookedUpPlace, htime]

/-- The time of a message that is stored once. -/
theorem timeOf_row (hnodup : (db.messages.map (·.hash)).Nodup) {row : ArchiveRow}
    (h : row ∈ db.messages) : db.timeOf row.hash = some row.message.timestamp := by
  have hmem : row.message.timestamp ∈ db.storedAt row.hash := db.mem_storedAt.mpr ⟨row, h, rfl, rfl⟩
  have hall : ∀ t ∈ db.storedAt row.hash, t = row.message.timestamp := by
    intro t ht
    obtain ⟨row', h', hhash, rfl⟩ := db.mem_storedAt.mp ht
    rw [List.inj_on_of_nodup_map hnodup h' h hhash]
  obtain ⟨first, rest, hsplit⟩ := List.exists_cons_of_ne_nil (List.ne_nil_of_mem hmem)
  have hfirst : first = row.message.timestamp := hall first (by rw [hsplit]; exact List.mem_cons_self)
  unfold timeOf
  cases db.getTimeCursor row.hash with
  | none => rw [hsplit, hfirst]; rfl
  | some t =>
      dsimp only
      split_ifs with ht
      · rw [hall t ht]
      · rw [hsplit, hfirst]; rfl

end Database

theorem perm_inOrder (ascendingOrder : Bool) (rows : List ArchiveRow) :
    (inOrder ascendingOrder rows).Perm rows := by
  unfold inOrder
  split_ifs <;> exact perm_orderBy rows

/-- Rows in an order, without repetition. -/
def Ordered (ascendingOrder : Bool) (rows : List ArchiveRow) : Prop :=
  if ascendingOrder then Ascending rowKey rows
  else Ascending (fun row => OrderDual.toDual (rowKey row)) rows

theorem Ordered.eq_of_mem_iff {ascendingOrder : Bool} {rows rows' : List ArchiveRow}
    (h : Ordered ascendingOrder rows) (h' : Ordered ascendingOrder rows')
    (hmem : ∀ row, row ∈ rows ↔ row ∈ rows') : rows = rows' := by
  unfold Ordered at h h'
  split_ifs at h h'
  · exact h.eq_of_mem_iff h' hmem
  · exact h.eq_of_mem_iff h' hmem

theorem ordered_inOrder {ascendingOrder : Bool} {rows : List ArchiveRow}
    (h : DistinctKeys rowKey rows) : Ordered ascendingOrder (inOrder ascendingOrder rows) := by
  have hdual : DistinctKeys (fun row => OrderDual.toDual (rowKey row)) rows := h
  unfold Ordered inOrder
  split_ifs
  · exact ascending_orderBy h
  · exact ascending_orderBy hdual

theorem ordered_iff {ascendingOrder : Bool} {rows : List ArchiveRow} :
    Ordered ascendingOrder rows ↔
      rows.Pairwise (fun x y => isAfter ascendingOrder (some (rowKey x)) y = true) := by
  unfold Ordered Ascending isAfter
  cases ascendingOrder with
  | true => simp
  | false => simp

theorem Ordered.nodup {ascendingOrder : Bool} {rows : List ArchiveRow}
    (h : Ordered ascendingOrder rows) : rows.Nodup := by
  unfold Ordered at h
  split_ifs at h
  · exact h.nodup
  · exact h.nodup

theorem Database.mem_matchingRows (db : Database) (q : DriverQuery) (place : Option Place)
    (row : ArchiveRow) : row ∈ db.matchingRows q place ↔
      row ∈ db.messages ∧ rowMatches q row = true ∧ isAfter q.ascendingOrder place row = true := by
  rw [Database.matchingRows, (perm_inOrder _ _).mem_iff, List.mem_filter, Bool.and_eq_true]

theorem Database.ordered_matchingRows (db : Database) (q : DriverQuery) (place : Option Place) :
    Ordered q.ascendingOrder (db.matchingRows q place) :=
  ordered_inOrder (db.distinct_messages.filter _)

/-- The first rows of two selections are the same just when the selections have the same first rows. -/
theorem Database.sameFirst_iff (db : Database) (q : DriverQuery) (p p' : ArchiveRow → Bool) :
    (inOrder q.ascendingOrder (db.messages.filter p)).take q.maxPageSize =
        (inOrder q.ascendingOrder (db.messages.filter p')).take q.maxPageSize ↔
      db.SameFirst q p p' := by
  have hdual : DistinctKeys (fun row => OrderDual.toDual (rowKey row)) db.messages :=
    db.distinct_messages
  unfold inOrder SameFirst
  cases q.ascendingOrder with
  | true => exact take_orderBy_filter_iff db.distinct_messages p p' q.maxPageSize
  | false => exact take_orderBy_filter_iff hdual p p' q.maxPageSize

/-- The matching rows after a place are those of all the matching rows. -/
theorem Database.matchingRows_place (db : Database) (q : DriverQuery) (place : Option Place) :
    db.matchingRows q place = (db.matchingRows q none).filter (isAfter q.ascendingOrder place) := by
  have hall := db.ordered_matchingRows q none
  rw [ordered_iff] at hall
  refine (db.ordered_matchingRows q place).eq_of_mem_iff (ordered_iff.mpr (hall.filter _)) ?_
  intro row
  rw [List.mem_filter, db.mem_matchingRows, db.mem_matchingRows]
  simp [isAfter, and_assoc]

theorem isAfter_asymm {ascendingOrder : Bool} {x y : ArchiveRow}
    (h : isAfter ascendingOrder (some (rowKey y)) x = true) :
    isAfter ascendingOrder (some (rowKey x)) y = false := by
  cases ascendingOrder with
  | true =>
      have hlt : rowKey y < rowKey x := by simpa [isAfter] using h
      simpa [isAfter] using hlt.le
  | false =>
      have hlt : rowKey x < rowKey y := by simpa [isAfter] using h
      simpa [isAfter] using hlt.le

/-- The matching rows after one of them. -/
theorem Database.matchingRows_after (db : Database) {q : DriverQuery} {pre rest : List ArchiveRow}
    {x : ArchiveRow} (h : db.matchingRows q none = pre ++ x :: rest) :
    db.matchingRows q (some (rowKey x)) = rest := by
  have hall := db.ordered_matchingRows q none
  rw [ordered_iff, h, List.pairwise_append] at hall
  obtain ⟨-, hrest, hpre⟩ := hall
  rw [List.pairwise_cons] at hrest
  have hself : isAfter q.ascendingOrder (some (rowKey x)) x = false := by
    unfold isAfter
    cases q.ascendingOrder <;> simp
  rw [db.matchingRows_place, h, List.filter_append, List.filter_cons, hself]
  have hnone : pre.filter (isAfter q.ascendingOrder (some (rowKey x))) = [] := by
    refine List.filter_eq_nil_iff.mpr fun y hy => ?_
    rw [isAfter_asymm (hpre y hy x List.mem_cons_self)]
    exact Bool.false_ne_true
  have hsome : rest.filter (isAfter q.ascendingOrder (some (rowKey x))) = rest :=
    List.filter_eq_self.mpr hrest.1
  rw [hnone, hsome]
  rfl

/-! ### A small table -/

/-- Two messages. -/
def twoRows : Database where
  messages := [⟨StoreSync.constFingerprint 1, "/waku/2/rs/0/0", ⟨[7], "/app/1/chat/proto", [], 0, 1⟩⟩,
    ⟨StoreSync.constFingerprint 2, "/waku/2/rs/0/0", ⟨[8], "/app/1/chat/proto", [], 0, 2⟩⟩]
  lookup := [(StoreSync.constFingerprint 1, 1), (StoreSync.constFingerprint 2, 2)]
  primaryKey := by decide
  lookupKey := by decide

/-- Everything, the first first. -/
def allRows : DriverQuery where
  includeData := true
  contentTopics := []
  pubsubTopic := none
  cursor := none
  startTime := none
  endTime := none
  hashes := []
  maxPageSize := 21
  ascendingOrder := true
  requestId := ""

end LogosDelivery.Archive
