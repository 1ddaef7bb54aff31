import LogosDelivery.Lib.Runs
import LogosDelivery.Persistency.Backend

/-! # The backend as an ordered map

What the backend is for: a map from categories and keys to payloads, whose keys are scanned in byte
order.  `Represents` relates the rows of the table to such a map.

The empty byte string is bound as `NULL`, so it is not a value like the others.  A put with an empty
category, key or payload fails, a deletion with the empty prefix deletes nothing, and a range that
starts at the empty key is empty.  `Suited` says of a request that it does not run into this, and
the requests of a run are answered as by the map exactly when all of them are suited. -/

namespace LogosDelivery.Persistency

open Lib

/-- A map from categories and keys to payloads. -/
abbrev KvMap := List Byte × Key → Option (List Byte)

namespace KvMap

def applyOne (m : KvMap) : TxOp → KvMap
  | .put category key payload => Function.update m (category, key) (some payload)
  | .delete category key => Function.update m (category, key) none
  | .deletePrefix category p => fun x => if x.1 = category ∧ p <+: x.2 then none else m x

def applyAll (m : KvMap) (ops : List TxOp) : KvMap := ops.foldl applyOne m

/-- The answer to a scan: the keys of the range with their payloads, in order. -/
structure ScanOf (m : KvMap) (category : List Byte) (range : KeyRange) (reverse : Bool)
    (rows : List (Key × List Byte)) : Prop where
  ordered : Ascending Prod.fst (if reverse then rows.reverse else rows)
  mem_iff : ∀ k payload, (k, payload) ∈ rows ↔
    range.contains k = true ∧ m (category, k) = some payload

end KvMap

/-- The rows of the table are the graph of the map; the columns are never empty. -/
structure Represents (rows : List Row) (m : KvMap) : Prop where
  distinct : DistinctKeys (fun row : Row => (row.category, row.key)) rows
  nonempty : ∀ row ∈ rows, row.category ≠ [] ∧ row.key ≠ [] ∧ row.payload ≠ []
  mem_iff : ∀ category key payload,
    (⟨category, key, payload⟩ : Row) ∈ rows ↔ m (category, key) = some payload

/-! ### Bound parameters -/

@[simp] theorem bindBlob_nil : bindBlob [] = none := rfl

theorem bindBlob_of_ne {val : List Byte} (h : val ≠ []) : bindBlob val = some val :=
  if_pos (List.length_pos_iff.mpr h)

theorem sqlEq_bindBlob {column val : List Byte} (hc : column ≠ []) :
    sqlEq column (bindBlob val) = true ↔ column = val := by
  by_cases hv : val = []
  · simp [sqlEq, hv, hc]
  · rw [bindBlob_of_ne hv]
    simp [sqlEq, eq_comm]

theorem isSqlRow_bindBlob {row : Row} (hc : row.category ≠ []) (hk : row.key ≠ [])
    (category : List Byte) (key : Key) :
    isSqlRow (bindBlob category) (bindBlob key) row = true ↔
      row.category = category ∧ row.key = key := by
  rw [isSqlRow, Bool.and_eq_true, sqlEq_bindBlob hc, sqlEq_bindBlob hk]

/-- The condition of a range statement; a range from the empty key has no rows. -/
theorem inSqlRange_bindBlob {row : Row} (hc : row.category ≠ []) (category : List Byte)
    (range : KeyRange) :
    inSqlRange (bindBlob category) (bindBlob range.start)
        (if range.stop.length = 0 then none else some (bindBlob range.stop)) row = true ↔
      row.category = category ∧ range.start ≠ [] ∧ range.contains row.key = true := by
  unfold inSqlRange
  rw [Bool.and_eq_true, Bool.and_eq_true, sqlEq_bindBlob hc, KeyRange.contains,
    Bool.and_eq_true, Bool.or_eq_true, Key.le_iff, Key.lt_iff, decide_eq_true_iff, and_assoc]
  refine and_congr_right fun _ => ?_
  have hstart : sqlGe row.key (bindBlob range.start) = true ↔
      range.start ≠ [] ∧ range.start ≤ row.key := by
    by_cases hs : range.start = []
    · simp [hs, sqlGe]
    · rw [bindBlob_of_ne hs]
      simp [hs, sqlGe]
  rw [hstart, and_assoc]
  refine and_congr_right fun _ => and_congr_right fun _ => ?_
  by_cases hstop : range.stop = []
  · simp [hstop]
  · have hlen : ¬ range.stop.length = 0 := fun h => hstop (List.length_eq_zero_iff.mp h)
    rw [if_neg hlen, bindBlob_of_ne hstop]
    simp [hstop, sqlLt]

/-! ### Reading -/

namespace Represents

variable {db : Db} {rows : List Row} {m : KvMap}

theorem nil : Represents [] (fun _ => none) where
  distinct := List.Pairwise.nil
  nonempty := by simp
  mem_iff := by simp

theorem find? (h : Represents rows m) (category : List Byte) (key : Key) :
    (rows.find? (isSqlRow (bindBlob category) (bindBlob key))).map Row.payload =
      m (category, key) := by
  cases hfind : rows.find? (isSqlRow (bindBlob category) (bindBlob key)) with
  | none =>
      cases hm : m (category, key) with
      | none => rfl
      | some payload =>
          have hmem := (h.mem_iff category key payload).mpr hm
          have hne := h.nonempty _ hmem
          have hnot := List.find?_eq_none.mp hfind _ hmem
          exact absurd ((isSqlRow_bindBlob hne.1 hne.2.1 category key).mpr ⟨rfl, rfl⟩) hnot
  | some row =>
      have hmem := List.mem_of_find?_eq_some hfind
      have hne := h.nonempty row hmem
      obtain ⟨rfl, rfl⟩ := (isSqlRow_bindBlob hne.1 hne.2.1 category key).mp
        (List.find?_some hfind)
      exact ((h.mem_iff _ _ row.payload).mp hmem).symm

theorem getOne (h : Represents db.rows m) (category : List Byte) (key : Key) :
    db.getOne category key = m (category, key) := h.find? category key

theorem existsOne (h : Represents db.rows m) (category : List Byte) (key : Key) :
    db.existsOne category key = (m (category, key)).isSome := by
  rw [← h.find? category key, Db.existsOne, Option.isSome_map]

theorem mem_rangeRows (h : Represents db.rows m) (category : List Byte) (range : KeyRange)
    (row : Row) : row ∈ db.rangeRows category range ↔
      row ∈ db.rows ∧ row.category = category ∧ range.start ≠ [] ∧
        range.contains row.key = true := by
  rw [Db.rangeRows, List.mem_filter]
  refine and_congr_right fun hrow => ?_
  exact inSqlRange_bindBlob (h.nonempty row hrow).1 category range

theorem distinct_rangeRows (h : Represents db.rows m) (category : List Byte) (range : KeyRange) :
    DistinctKeys Row.key (db.rangeRows category range) := by
  have hsub : DistinctKeys (fun row : Row => (row.category, row.key))
      (db.rangeRows category range) := h.distinct.filter _
  refine List.Pairwise.imp_of_mem ?_ hsub
  intro x y hx hy hne hkey
  have hcx := ((h.mem_rangeRows category range x).mp hx).2.1
  have hcy := ((h.mem_rangeRows category range y).mp hy).2.1
  exact hne (Prod.ext (hcx.trans hcy.symm) hkey)

theorem length_scanRange (category : List Byte) (range : KeyRange) (reverse : Bool) :
    (db.scanRange category range reverse).length = db.countRange category range := by
  cases reverse <;> simp [Db.scanRange, Db.countRange, orderBy]

theorem mem_scanRange (h : Represents db.rows m) (category : List Byte) (range : KeyRange)
    (reverse : Bool) (k : Key) (payload : List Byte) :
    (k, payload) ∈ db.scanRange category range reverse ↔
      range.start ≠ [] ∧ range.contains k = true ∧ m (category, k) = some payload := by
  have hmem : (k, payload) ∈ db.scanRange category range reverse ↔
      ∃ row ∈ db.rangeRows category range, (row.key, row.payload) = (k, payload) := by
    cases reverse <;> simp [Db.scanRange]
  rw [hmem]
  constructor
  · rintro ⟨row, hrow, heq⟩
    obtain ⟨hin, hcat, hstart, hcontains⟩ := (h.mem_rangeRows category range row).mp hrow
    obtain ⟨rfl, rfl⟩ := Prod.mk.inj heq
    subst hcat
    exact ⟨hstart, hcontains, (h.mem_iff _ _ _).mp hin⟩
  · rintro ⟨hstart, hcontains, hm⟩
    refine ⟨⟨category, k, payload⟩, ?_, rfl⟩
    exact (h.mem_rangeRows category range _).mpr
      ⟨(h.mem_iff category k payload).mpr hm, rfl, hstart, hcontains⟩

theorem ascending_scanRange (h : Represents db.rows m) (category : List Byte) (range : KeyRange)
    (reverse : Bool) :
    Ascending Prod.fst (if reverse then (db.scanRange category range reverse).reverse
      else db.scanRange category range reverse) := by
  have hdistinct := h.distinct_rangeRows category range
  cases reverse with
  | false =>
      have hasc := ascending_orderBy hdistinct
      simpa [Db.scanRange, Ascending, List.pairwise_map] using hasc
  | true =>
      have hdual : DistinctKeys (fun row : Row => OrderDual.toDual row.key)
          (db.rangeRows category range) := hdistinct
      have hasc := ascending_toDual_iff.mp (ascending_orderBy hdual)
      simpa [Db.scanRange, Ascending, List.pairwise_map, List.pairwise_reverse] using hasc

/-- A scan is right unless it starts at the empty key and should have found something. -/
theorem scanOf_iff (h : Represents db.rows m) (category : List Byte) (range : KeyRange)
    (reverse : Bool) :
    m.ScanOf category range reverse (db.scanRange category range reverse) ↔
      (range.start = [] → ∀ k, range.contains k = true → m (category, k) = none) := by
  constructor
  · intro hscan hstart k hk
    cases hm : m (category, k) with
    | none => rfl
    | some payload =>
        have hmem := (hscan.mem_iff k payload).mpr ⟨hk, hm⟩
        exact absurd hstart ((h.mem_scanRange category range reverse k payload).mp hmem).1
  · intro hsuited
    refine ⟨h.ascending_scanRange category range reverse, ?_⟩
    intro k payload
    rw [h.mem_scanRange]
    constructor
    · rintro ⟨-, hk, hm⟩
      exact ⟨hk, hm⟩
    · rintro ⟨hk, hm⟩
      refine ⟨?_, hk, hm⟩
      intro hstart
      rw [hsuited hstart k hk] at hm
      cases hm

theorem countOf_iff (h : Represents db.rows m) (category : List Byte) (range : KeyRange) :
    (∃ rows, m.ScanOf category range false rows ∧ db.countRange category range = rows.length) ↔
      (range.start = [] → ∀ k, range.contains k = true → m (category, k) = none) := by
  constructor
  · rintro ⟨rows, hscan, hcount⟩ hstart k hk
    cases hm : m (category, k) with
    | none => rfl
    | some payload =>
        have hmem := (hscan.mem_iff k payload).mpr ⟨hk, hm⟩
        have hpos := List.length_pos_of_mem hmem
        rw [← hcount, ← length_scanRange category range false] at hpos
        obtain ⟨⟨k', payload'⟩, hrow⟩ := List.length_pos_iff_exists_mem.mp hpos
        exact absurd hstart ((h.mem_scanRange category range false k' payload').mp hrow).1
  · intro hsuited
    exact ⟨_, (h.scanOf_iff category range false).mpr hsuited,
      (length_scanRange category range false).symm⟩

/-! ### Writing -/

/-- The rows without some of them, and the map without their keys. -/
theorem erase (h : Represents rows m) (p : Row → Bool) (q : List Byte × Key → Prop) [DecidablePred q]
    (hpq : ∀ row ∈ rows, p row = true ↔ q (row.category, row.key)) :
    Represents (rows.filter (fun row => !p row)) (fun x => if q x then none else m x) where
  distinct := h.distinct.filter _
  nonempty := fun row hrow => h.nonempty row (List.mem_of_mem_filter hrow)
  mem_iff := fun category key payload => by
    rw [List.mem_filter, h.mem_iff]
    constructor
    · rintro ⟨hm, hp⟩
      have hrow := (h.mem_iff category key payload).mpr hm
      have hq : ¬ q (category, key) := fun hq => by
        rw [(hpq _ hrow).mpr hq] at hp
        cases hp
      rw [if_neg hq, hm]
    · intro hm
      by_cases hq : q (category, key)
      · rw [if_pos hq] at hm
        cases hm
      · rw [if_neg hq] at hm
        have hrow := (h.mem_iff category key payload).mpr hm
        refine ⟨hm, ?_⟩
        rw [Bool.not_eq_true', Bool.eq_false_iff]
        exact fun hp => hq ((hpq _ hrow).mp hp)

/-- A new row, whose key no row has. -/
theorem add (h : Represents rows m) {category payload : List Byte} {key : Key}
    (hne : category ≠ [] ∧ key ≠ [] ∧ payload ≠ []) (hfree : m (category, key) = none) :
    Represents (rows ++ [⟨category, key, payload⟩])
      (Function.update m (category, key) (some payload)) where
  distinct := by
    apply List.pairwise_append.mpr
    refine ⟨h.distinct, List.pairwise_singleton _ _, ?_⟩
    intro row hrow new hnew heq
    rw [List.mem_singleton.mp hnew] at heq
    obtain ⟨hc, hk⟩ := Prod.mk.inj heq
    have hm := (h.mem_iff row.category row.key row.payload).mp hrow
    rw [hc, hk, hfree] at hm
    cases hm
  nonempty := fun row hrow => by
    rcases List.mem_append.mp hrow with hrow | hrow
    · exact h.nonempty row hrow
    · rw [List.mem_singleton.mp hrow]
      exact hne
  mem_iff := fun category' key' payload' => by
    rw [List.mem_append, h.mem_iff, List.mem_singleton, Row.mk.injEq]
    by_cases hx : (category', key') = (category, key)
    · obtain ⟨rfl, rfl⟩ := Prod.mk.inj hx
      simp [hfree, eq_comm]
    · rw [Function.update_of_ne hx]
      have hx' : ¬ (category' = category ∧ key' = key) := fun h => hx (Prod.ext h.1 h.2)
      constructor
      · rintro (hm | ⟨hc, hk, -⟩)
        · exact hm
        · exact absurd ⟨hc, hk⟩ hx'
      · exact Or.inl

/-- The rows of one category and key taken out. -/
theorem eraseKey (h : Represents rows m) (category : List Byte) (key : Key) :
    Represents (rows.filter (fun row => !isSqlRow (bindBlob category) (bindBlob key) row))
      (Function.update m (category, key) none) := by
  have herase := h.erase (isSqlRow (bindBlob category) (bindBlob key))
    (fun x => x = (category, key)) (fun row hrow => by
      have hne := h.nonempty row hrow
      rw [isSqlRow_bindBlob hne.1 hne.2.1, Prod.mk.injEq])
  have hupdate : Function.update m (category, key) none =
      fun x => if x = (category, key) then none else m x := by
    funext x
    rw [Function.update_apply]
  rw [hupdate]
  exact herase

end Represents

/-- An operation that the backend does not refuse. -/
def TxOp.Accepted : TxOp → Prop
  | .put category key payload => category ≠ [] ∧ key ≠ [] ∧ payload ≠ []
  | _ => True

/-- A deletion of a whole category by the empty prefix. -/
def TxOp.deletesAll : TxOp → Bool
  | .deletePrefix _ p => decide (p = [])
  | _ => false

/-- What an operation does to the map that the rows represent. -/
def KvMap.effect (m : KvMap) (op : TxOp) : KvMap := if op.deletesAll then m else m.applyOne op

theorem applyOne_accepted {db : Db} {m : KvMap} (h : Represents db.rows m) {op : TxOp}
    (hop : op.Accepted) :
    ∃ rows, applyOne execStmt db op = (.ok (), { db with rows := rows }) ∧
      Represents rows (m.effect op) := by
  cases op with
  | put category key payload =>
      obtain ⟨hc, hk, hp⟩ := hop
      refine ⟨_, by rw [applyOne, bindBlob_of_ne hc, bindBlob_of_ne hk, bindBlob_of_ne hp]; rfl, ?_⟩
      have herase := h.eraseKey category key
      rw [bindBlob_of_ne hc, bindBlob_of_ne hk] at herase
      have hadd := herase.add ⟨hc, hk, hp⟩ (Function.update_self _ _ _)
      rw [Function.update_idem] at hadd
      exact hadd
  | delete category key => exact ⟨_, rfl, h.eraseKey category key⟩
  | deletePrefix category p =>
      refine ⟨_, rfl, ?_⟩
      have hrange : ∀ row ∈ db.rows, inSqlRange (bindBlob category) (bindBlob (prefixRange p).start)
          (if (prefixRange p).stop.length = 0 then none
            else some (bindBlob (prefixRange p).stop)) row = true ↔
          row.category = category ∧ p ≠ [] ∧ p <+: row.key := by
        intro row hrow
        rw [inSqlRange_bindBlob (h.nonempty row hrow).1, contains_prefixRange, prefixRange_eq]
      by_cases hp : p = []
      · have hkeep : db.rows.filter (fun row => !inSqlRange (bindBlob category)
            (bindBlob (prefixRange p).start) (if (prefixRange p).stop.length = 0 then none
              else some (bindBlob (prefixRange p).stop)) row) = db.rows := by
          apply List.filter_eq_self.mpr
          intro row hrow
          rw [Bool.not_eq_true', Bool.eq_false_iff]
          intro hin
          exact ((hrange row hrow).mp hin).2.1 hp
        rw [hkeep]
        simpa [KvMap.effect, TxOp.deletesAll, hp] using h
      · have herase := h.erase _ (fun x => x.1 = category ∧ p <+: x.2) (fun row hrow => by
          rw [hrange row hrow]
          simp [hp])
        simpa [KvMap.effect, TxOp.deletesAll, hp, KvMap.applyOne] using herase

theorem applyOne_refused {op : TxOp} (db : Db) (hop : ¬ op.Accepted) :
    ∃ e, applyOne execStmt db op = (.error e, db) := by
  cases op with
  | put category key payload =>
      by_cases hc : category = []
      · exact ⟨_, by rw [applyOne, hc]; rfl⟩
      by_cases hk : key = []
      · exact ⟨_, by rw [applyOne, hk, bindBlob_of_ne hc]; rfl⟩
      by_cases hp : payload = []
      · exact ⟨_, by rw [applyOne, hp, bindBlob_of_ne hc, bindBlob_of_ne hk]; rfl⟩
      · exact absurd ⟨hc, hk, hp⟩ hop
  | _ => exact absurd trivial hop

/-! ### Batches -/

/-- The operations of a batch that have an effect. -/
def effective (ops : List TxOp) : List TxOp := ops.filter (fun op => !op.deletesAll)

theorem foldl_effect (m : KvMap) (ops : List TxOp) :
    ops.foldl KvMap.effect m = m.applyAll (effective ops) := by
  induction ops generalizing m with
  | nil => rfl
  | cons op ops ih =>
      rw [List.foldl_cons, ih, effective, effective, List.filter_cons]
      cases hop : op.deletesAll with
      | false => simp [KvMap.effect, hop, KvMap.applyAll]
      | true => simp [KvMap.effect, hop]

theorem applyAll_accepted {db : Db} {m : KvMap} {before : List Row} (h : Represents db.rows m)
    (hsaved : db.saved = some before) {ops : List TxOp} (hops : ∀ op ∈ ops, op.Accepted) :
    ∃ rows, applyAll execStmt db ops = (.ok (), { rows := rows, saved := none }) ∧
      Represents rows (ops.foldl KvMap.effect m) := by
  induction ops generalizing db m with
  | nil =>
      refine ⟨db.rows, ?_, h⟩
      simp [applyAll, execSql, execStmt, hsaved, Except.mapError]
  | cons op ops ih =>
      obtain ⟨rows, hone, hrep⟩ := applyOne_accepted h (hops op (List.mem_cons_self))
      have hsaved' : ({ db with rows := rows } : Db).saved = some before := hsaved
      obtain ⟨rows', hrest, hrep'⟩ := ih hrep hsaved' (fun o ho => hops o (List.mem_cons_of_mem _ ho))
      refine ⟨rows', ?_, hrep'⟩
      rw [applyAll, hone]
      exact hrest

/-- A refused operation undoes the batch. -/
theorem applyAll_refused {db : Db} {m : KvMap} {before : List Row} (h : Represents db.rows m)
    (hsaved : db.saved = some before) {ops : List TxOp} (hops : ¬ ∀ op ∈ ops, op.Accepted) :
    ∃ e, applyAll execStmt db ops = (.error e, { rows := before, saved := none }) := by
  induction ops generalizing db m with
  | nil => exact absurd (fun op hop => absurd hop List.not_mem_nil) hops
  | cons op ops ih =>
      by_cases hop : op.Accepted
      · obtain ⟨rows, hone, hrep⟩ := applyOne_accepted h hop
        have hrest : ¬ ∀ o ∈ ops, o.Accepted := by
          intro hall
          apply hops
          intro o ho
          rcases List.mem_cons.mp ho with rfl | ho
          · exact hop
          · exact hall o ho
        have hsaved' : ({ db with rows := rows } : Db).saved = some before := hsaved
        obtain ⟨e, he⟩ := ih hrep hsaved' hrest
        refine ⟨e, ?_⟩
        rw [applyAll, hone]
        exact he
      · obtain ⟨e, he⟩ := applyOne_refused db hop
        refine ⟨e, ?_⟩
        rw [applyAll, he]
        simp [execSql, execStmt, hsaved]

theorem applyOps_accepted {db : Db} {m : KvMap} (h : Represents db.rows m) (hsaved : db.saved = none)
    {ops : List TxOp} (hops : ∀ op ∈ ops, op.Accepted) :
    ∃ rows, applyOps execStmt db ops = (.ok (), { rows := rows, saved := none }) ∧
      Represents rows (m.applyAll (effective ops)) := by
  rw [← foldl_effect]
  match ops, hops with
  | [], _ =>
      refine ⟨db.rows, ?_, h⟩
      rw [applyOps, ← hsaved]
  | [op], hops =>
      obtain ⟨rows, hone, hrep⟩ := applyOne_accepted h (hops op (List.mem_cons_self))
      refine ⟨rows, ?_, hrep⟩
      rw [applyOps, hone, hsaved]
  | op₁ :: op₂ :: ops, hops =>
      obtain ⟨rows, hall, hrep⟩ := @applyAll_accepted { db with saved := some db.rows } _ _ h rfl _
        hops
      refine ⟨rows, ?_, hrep⟩
      rw [← hall]
      simp [applyOps, execSql, execStmt, hsaved, Except.mapError]

theorem applyOps_refused {db : Db} {m : KvMap} (h : Represents db.rows m) (hsaved : db.saved = none)
    {ops : List TxOp} (hops : ¬ ∀ op ∈ ops, op.Accepted) :
    ∃ e, applyOps execStmt db ops = (.error e, db) := by
  match ops, hops with
  | [], hops => exact absurd (fun op hop => absurd hop List.not_mem_nil) hops
  | [op], hops =>
      rw [applyOps]
      exact applyOne_refused db (by simpa using hops)
  | op₁ :: op₂ :: ops, hops =>
      obtain ⟨e, hall⟩ := @applyAll_refused { db with saved := some db.rows } _ _ h rfl _ hops
      refine ⟨e, ?_⟩
      have hdb : ({ rows := db.rows, saved := none } : Db) = db := by rw [← hsaved]
      rw [hdb] at hall
      rw [← hall]
      simp [applyOps, execSql, execStmt, hsaved, Except.mapError]

/-! ### Runs -/

/-- The requests to a backend. -/
inductive Request where
  | applyOps (ops : List TxOp)
  | getOne (category : List Byte) (key : Key)
  | existsOne (category : List Byte) (key : Key)
  | countRange (category : List Byte) (range : KeyRange)
  | scanRange (category : List Byte) (range : KeyRange) (reverse : Bool)

def Db.step (db : Db) : Request → Db
  | .applyOps ops => (LogosDelivery.Persistency.applyOps execStmt db ops).2
  | _ => db

def KvMap.step (m : KvMap) : Request → KvMap
  | .applyOps ops => m.applyAll ops
  | _ => m

/-- The request is answered as by the map; after a batch this means that it succeeds and that every
key has the payload that the map then has. -/
def AnsweredAs (db : Db) (m : KvMap) : Request → Prop
  | .applyOps ops =>
      (applyOps execStmt db ops).1 = .ok () ∧
        ∀ category key, (applyOps execStmt db ops).2.getOne category key =
          m.applyAll ops (category, key)
  | .getOne category key => db.getOne category key = m (category, key)
  | .existsOne category key => db.existsOne category key = (m (category, key)).isSome
  | .countRange category range =>
      ∃ rows, m.ScanOf category range false rows ∧ db.countRange category range = rows.length
  | .scanRange category range reverse =>
      m.ScanOf category range reverse (db.scanRange category range reverse)

/-- The request does not run into the binding of the empty byte string: no put has an empty
category, key or payload; the deletions with the empty prefix make no difference; and a range from
the empty key has no key in it. -/
def Suited (m : KvMap) : Request → Prop
  | .applyOps ops =>
      (∀ category key payload, .put category key payload ∈ ops →
        category ≠ [] ∧ key ≠ [] ∧ payload ≠ []) ∧
      m.applyAll ops = m.applyAll (ops.filter (fun op => !op.deletesAll))
  | .countRange category range | .scanRange category range _ =>
      range.start = [] → ∀ k, range.contains k = true → m (category, k) = none
  | _ => True

theorem accepted_iff (ops : List TxOp) : (∀ op ∈ ops, op.Accepted) ↔
    ∀ category key payload, .put category key payload ∈ ops →
      category ≠ [] ∧ key ≠ [] ∧ payload ≠ [] := by
  constructor
  · intro h category key payload hop
    exact h _ hop
  · intro h op hop
    cases op with
    | put category key payload => exact h category key payload hop
    | _ => trivial

theorem answeredAs_iff {db : Db} {m : KvMap} (h : Represents db.rows m) (hsaved : db.saved = none)
    (req : Request) : AnsweredAs db m req ↔ Suited m req := by
  cases req with
  | applyOps ops =>
      simp only [AnsweredAs, Suited, ← accepted_iff]
      by_cases hops : ∀ op ∈ ops, op.Accepted
      · obtain ⟨rows, hres, hrep⟩ := applyOps_accepted h hsaved hops
        rw [hres]
        have hget : ∀ category key, ({ rows := rows, saved := none } : Db).getOne category key =
            m.applyAll (effective ops) (category, key) := hrep.getOne
        simp only [hget, true_and]
        constructor
        · intro hsame
          refine ⟨hops, ?_⟩
          funext ⟨category, key⟩
          exact (hsame category key).symm
        · rintro ⟨-, hsame⟩ category key
          rw [hsame]
          rfl
      · obtain ⟨e, hres⟩ := applyOps_refused h hsaved hops
        rw [hres]
        simp [hops]
  | getOne category key => simp [AnsweredAs, Suited, h.getOne]
  | existsOne category key => simp [AnsweredAs, Suited, h.existsOne]
  | countRange category range => exact h.countOf_iff category range
  | scanRange category range reverse => exact h.scanOf_iff category range reverse

/-- **The backend is an ordered map** as long as its requests are suited, and only then. -/
theorem answers_iff_suited (reqs : List Request) :
    AllSteps (fun pre req => AnsweredAs (run Db.step {} pre)
        (run KvMap.step (fun _ => none) pre) req) reqs ↔
      AllSteps (fun pre req => Suited (run KvMap.step (fun _ => none) pre) req) reqs := by
  refine @allSteps_congr _ _ _ (fun pre => (run Db.step {} pre).saved = none ∧
    Represents (run Db.step {} pre).rows (run KvMap.step (fun _ => none) pre)) ?_ ?_ ?_ reqs
  · exact ⟨rfl, Represents.nil⟩
  · rintro pre req ⟨hsaved, hrep⟩ hans
    rw [run_concat, run_concat]
    cases req with
    | applyOps ops =>
        obtain ⟨hops, hsame⟩ := (answeredAs_iff hrep hsaved _).mp hans
        obtain ⟨rows, hres, hrep'⟩ := applyOps_accepted hrep hsaved ((accepted_iff ops).mpr hops)
        rw [Db.step, KvMap.step, hres, hsame]
        exact ⟨rfl, hrep'⟩
    | _ => exact ⟨hsaved, hrep⟩
  · rintro pre req ⟨hsaved, hrep⟩
    exact answeredAs_iff hrep hsaved req

/-- A put of a payload, then a scan of its category from the empty key. -/
def scanFromEmptyKey : List Request :=
  [.applyOps [.put [1] [2] [3]], .scanRange [1] { start := [], stop := [] } false]

/-- The scan finds nothing. -/
theorem scanFromEmptyKey_misses :
    ¬ AllSteps (fun pre req => AnsweredAs (run Db.step {} pre)
        (run KvMap.step (fun _ => none) pre) req) scanFromEmptyKey := by
  intro h
  have hscan := h [.applyOps [.put [1] [2] [3]]] _ (List.prefix_refl _)
  have hmem := (hscan.mem_iff [2] [3]).mpr ⟨by decide, by decide⟩
  revert hmem
  decide

end LogosDelivery.Persistency
