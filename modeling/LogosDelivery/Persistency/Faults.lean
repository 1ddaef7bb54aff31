import LogosDelivery.Persistency.OrderedMap

/-! # Batches when statements fail

`applyOps` against a server whose statements can fail.  A script says which ones do: a statement
that the script fails has no effect of its own, so a failed `COMMIT` leaves its transaction open.  A
`ROLLBACK` is never failed by the script.

The server keeps a ghost list of the write statements that have taken effect and were not undone.
A batch is all or nothing unless its `COMMIT` fails (`applyOps_allOrNothing_iff`): `applyOps` then
returns without a `ROLLBACK`. -/

namespace LogosDelivery.Persistency

/-- Which statements fail, by their number, and the message. -/
abbrev Script := ℕ → Option String

structure Server where
  db : Db := {}
  /-- The number of statements so far. -/
  served : ℕ := 0
  /-- The write statements that have taken effect, in order. -/
  effects : List Stmt := []
  /-- Those from before the open transaction. -/
  savedEffects : List Stmt := []

/-- The script's failure of a statement. -/
def Script.failure (script : Script) (n : ℕ) : Stmt → Option String
  | .rollback => none
  | _ => script n

/-- The ghost lists after a statement. -/
def Server.record (s : Server) : Stmt → Server
  | .beginImmediate => { s with savedEffects := s.effects }
  | .commit => s
  | .rollback => { s with effects := s.savedEffects }
  | stmt => { s with effects := s.effects ++ [stmt] }

/-- A statement on a server with faults. -/
def faultyExec (script : Script) (s : Server) (stmt : Stmt) : Except String Unit × Server :=
  let next := { s with served := s.served + 1 }
  match script.failure s.served stmt with
  | some e => (.error e, next)
  | none =>
      match execStmt s.db stmt with
      | (.error e, db) => (.error e, { next with db := db })
      | (.ok _, db) => (.ok (), { next.record stmt with db := db })

/-- The statement of an operation. -/
def TxOp.stmt : TxOp → Stmt
  | .put category key payload => .put (bindBlob category) (bindBlob key) (bindBlob payload)
  | .delete category key => .delete (bindBlob category) (bindBlob key)
  | .deletePrefix category key =>
      let rng := prefixRange key
      .deleteRange (bindBlob category) (bindBlob rng.start)
        (if rng.stop.length = 0 then none else some (bindBlob rng.stop))

/-- The rows after an operation. -/
def TxOp.after (rows : List Row) (op : TxOp) : List Row := (execStmt { rows := rows } op.stmt).2.rows

/-- A batch on a server is all or nothing. -/
structure AllOrNothing (script : Script) (s : Server) (ops : List TxOp) : Prop where
  ok_iff : (applyOps (faultyExec script) s ops).1 = .ok () ↔
    (applyOps (faultyExec script) s ops).2.effects = s.effects ++ ops.map TxOp.stmt ∧
      (applyOps (faultyExec script) s ops).2.db.saved = none
  rows : (applyOps (faultyExec script) s ops).1 = .ok () →
    (applyOps (faultyExec script) s ops).2.db.rows = ops.foldl TxOp.after s.db.rows
  unchanged : ∀ e, (applyOps (faultyExec script) s ops).1 = .error e →
    (applyOps (faultyExec script) s ops).2.db.rows = s.db.rows
  closed : (applyOps (faultyExec script) s ops).2.db.saved = none

/-- The statements of these operations, from number `n` on, all succeed. -/
def OpsPass (script : Script) : ℕ → List TxOp → Prop
  | _, [] => True
  | n, op :: ops => (script n = none ∧ op.Accepted) ∧ OpsPass script (n + 1) ops

/-- The `COMMIT` of a batch fails, after everything before it succeeded. -/
structure CommitFails (script : Script) (n : ℕ) (ops : List TxOp) : Prop where
  several : 2 ≤ ops.length
  begins : script n = none
  pass : OpsPass script (n + 1) ops
  commit : script (n + 1 + ops.length) ≠ none

/-! ### One operation -/

section Ops

variable {script : Script} {s : Server} {op : TxOp}

/-- An operation is its statement, with a word before the message of a failure. -/
theorem applyOne_eq {σ : Type} (exec : σ → Stmt → Except String Unit × σ) (db : σ) (op : TxOp) :
    ∃ word : String, applyOne exec db op =
      ((exec db op.stmt).1.mapError (word ++ ·), (exec db op.stmt).2) := by
  cases op with
  | put category key payload => exact ⟨_, rfl⟩
  | delete category key => exact ⟨_, rfl⟩
  | deletePrefix category key => exact ⟨_, rfl⟩

theorem failure_stmt (script : Script) (n : ℕ) (op : TxOp) :
    script.failure n op.stmt = script n := by
  cases op <;> rfl

theorem record_stmt (s : Server) (op : TxOp) :
    s.record op.stmt = { s with effects := s.effects ++ [op.stmt] } := by
  cases op <;> rfl

theorem execStmt_accepted (db : Db) (hop : op.Accepted) :
    execStmt db op.stmt = (.ok (), { db with rows := op.after db.rows }) := by
  cases op with
  | put category key payload =>
      obtain ⟨hc, hk, hp⟩ := hop
      simp only [TxOp.after, TxOp.stmt, bindBlob_of_ne hc, bindBlob_of_ne hk, bindBlob_of_ne hp]
      rfl
  | delete category key => rfl
  | deletePrefix category key => rfl

theorem execStmt_refused (db : Db) (hop : ¬ op.Accepted) :
    ∃ e, execStmt db op.stmt = (.error e, db) := by
  obtain ⟨e, he⟩ := applyOne_refused db hop
  obtain ⟨word, hone⟩ := applyOne_eq execStmt db op
  rw [hone] at he
  obtain ⟨hres, hdb⟩ := Prod.mk.inj he
  cases hrun : (execStmt db op.stmt).1 with
  | ok u =>
      rw [hrun] at hres
      cases hres
  | error e' => exact ⟨e', Prod.ext hrun hdb⟩

theorem applyOne_pass (hscript : script s.served = none) (hop : op.Accepted) :
    applyOne (faultyExec script) s op =
      (.ok (), { s with
        db := { s.db with rows := op.after s.db.rows }
        served := s.served + 1
        effects := s.effects ++ [op.stmt] }) := by
  obtain ⟨word, hone⟩ := applyOne_eq (faultyExec script) s op
  have hrun : faultyExec script s op.stmt =
      (.ok (), { s with
        db := { s.db with rows := op.after s.db.rows }
        served := s.served + 1
        effects := s.effects ++ [op.stmt] }) := by
    simp only [faultyExec, failure_stmt, hscript, execStmt_accepted s.db hop, record_stmt]
  rw [hone, hrun]
  rfl

/-- A statement that fails has no effect. -/
theorem applyOne_fail (h : ¬ (script s.served = none ∧ op.Accepted)) :
    ∃ e, applyOne (faultyExec script) s op = (.error e, { s with served := s.served + 1 }) := by
  obtain ⟨word, hone⟩ := applyOne_eq (faultyExec script) s op
  have hrun : ∃ e, faultyExec script s op.stmt = (.error e, { s with served := s.served + 1 }) := by
    cases hscript : script s.served with
    | some e =>
        refine ⟨e, ?_⟩
        simp only [faultyExec, failure_stmt, hscript]
    | none =>
        have hrefused : ¬ op.Accepted := fun hop => h ⟨hscript, hop⟩
        obtain ⟨e, he⟩ := execStmt_refused s.db hrefused
        refine ⟨e, ?_⟩
        simp only [faultyExec, failure_stmt, hscript, he]
  obtain ⟨e, he⟩ := hrun
  rw [hone, he]
  exact ⟨_, rfl⟩

end Ops

/-! ### The operations of a transaction -/

section Transaction

variable {script : Script}

/-- `COMMIT` at the end of a transaction. -/
theorem commit_eq {s : Server} {before : List Row} (hsaved : s.db.saved = some before) :
    ∃ word : String, execSql (faultyExec script) s "COMMIT;" .commit =
      match script s.served with
      | some e => (.error (word ++ e), { s with served := s.served + 1 })
      | none => (.ok (), { s with
          db := { s.db with saved := none }
          served := s.served + 1 }) := by
  refine ⟨"COMMIT;: ", ?_⟩
  cases hscript : script s.served with
  | some e => simp [execSql, faultyExec, Script.failure, hscript, Except.mapError]
  | none =>
      simp [execSql, faultyExec, Script.failure, hscript, execStmt, hsaved, Server.record,
        Except.mapError]

theorem rollback_eq {s : Server} {before : List Row} (hsaved : s.db.saved = some before) :
    (execSql (faultyExec script) s "ROLLBACK;" .rollback).2 =
      { s with
        db := { rows := before, saved := none }
        served := s.served + 1
        effects := s.savedEffects } := by
  simp [execSql, faultyExec, Script.failure, execStmt, hsaved, Server.record]

/-- The operations with their `COMMIT`: committed, rolled back, or left open. -/
theorem applyAll_faulty {before : List Row} : ∀ (ops : List TxOp) (s : Server),
    s.db.saved = some before →
    (OpsPass script s.served ops ∧ script (s.served + ops.length) = none →
      ∃ n, applyAll (faultyExec script) s ops =
        (.ok (), { s with
          db := { rows := ops.foldl TxOp.after s.db.rows, saved := none }
          served := n
          effects := s.effects ++ ops.map TxOp.stmt })) ∧
    (OpsPass script s.served ops ∧ script (s.served + ops.length) ≠ none →
      (applyAll (faultyExec script) s ops).2.db.saved = some before) ∧
    (¬ OpsPass script s.served ops →
      ∃ e n, applyAll (faultyExec script) s ops =
        (.error e, { s with
          db := { rows := before, saved := none }
          served := n
          effects := s.savedEffects }))
  | [], s, hsaved => by
      obtain ⟨word, hcommit⟩ := @commit_eq script s before hsaved
      refine ⟨fun h => ⟨s.served + 1, ?_⟩, fun h => ?_, fun h => absurd trivial h⟩
      · rw [applyAll, hcommit, show script s.served = none from h.2]
        simp
      · obtain ⟨e, he⟩ := Option.ne_none_iff_exists'.mp h.2
        rw [applyAll, hcommit, show script s.served = some e from he]
        exact hsaved
  | op :: ops, s, hsaved => by
      by_cases hop : script s.served = none ∧ op.Accepted
      · have hone := applyOne_pass (s := s) hop.1 hop.2
        obtain ⟨hcommitted, hopen, hback⟩ := @applyAll_faulty before ops
          { s with
            db := { s.db with rows := op.after s.db.rows }
            served := s.served + 1
            effects := s.effects ++ [op.stmt] } hsaved
        have hlen : s.served + (op :: ops).length = s.served + 1 + ops.length := by
          rw [List.length_cons]
          omega
        rw [hlen, applyAll, hone]
        refine ⟨fun h => ?_, fun h => hopen ⟨h.1.2, h.2⟩, fun h => hback fun hpass => h ⟨hop, hpass⟩⟩
        obtain ⟨n, hrun⟩ := hcommitted ⟨h.1.2, h.2⟩
        refine ⟨n, hrun.trans ?_⟩
        simp
      · obtain ⟨e, hone⟩ := applyOne_fail hop
        refine ⟨fun h => absurd h.1.1 hop, fun h => absurd h.1.1 hop, fun _ => ?_⟩
        refine ⟨e, s.served + 1 + 1, ?_⟩
        rw [applyAll, hone]
        dsimp only
        rw [rollback_eq (s := { s with served := s.served + 1 }) hsaved]

end Transaction

/-! ### Batches -/

theorem append_stmts_ne (effects : List Stmt) {ops : List TxOp} (h : ops ≠ []) :
    effects ≠ effects ++ ops.map TxOp.stmt := by
  intro heq
  have hlen := congrArg List.length heq
  rw [List.length_append, List.length_map] at hlen
  have hpos := List.length_pos_iff.mpr h
  omega

/-- A batch that succeeds. -/
theorem allOrNothing_of_ok {script : Script} {s s' : Server} {ops : List TxOp}
    (h : applyOps (faultyExec script) s ops = (.ok (), s'))
    (heffects : s'.effects = s.effects ++ ops.map TxOp.stmt) (hsaved : s'.db.saved = none)
    (hrows : s'.db.rows = ops.foldl TxOp.after s.db.rows) : AllOrNothing script s ops where
  ok_iff := by
    rw [h]
    exact iff_of_true rfl ⟨heffects, hsaved⟩
  rows := by
    rw [h]
    exact fun _ => hrows
  unchanged e he := by
    rw [h] at he
    cases he
  closed := by
    rw [h]
    exact hsaved

/-- A batch that fails and leaves nothing behind. -/
theorem allOrNothing_of_error {script : Script} {s s' : Server} {ops : List TxOp} {e : String}
    (h : applyOps (faultyExec script) s ops = (.error e, s')) (hops : ops ≠ [])
    (heffects : s'.effects = s.effects) (hsaved : s'.db.saved = none)
    (hrows : s'.db.rows = s.db.rows) : AllOrNothing script s ops where
  ok_iff := by
    rw [h, heffects]
    exact iff_of_false (fun he => nomatch he) fun hboth => append_stmts_ne _ hops hboth.1
  rows he := by
    rw [h] at he
    cases he
  unchanged e he := by
    rw [h]
    exact hrows
  closed := by
    rw [h]
    exact hsaved

/-- **A batch is all or nothing** unless its `COMMIT` fails. -/
theorem applyOps_allOrNothing_iff (script : Script) (s : Server) (hclosed : s.db.saved = none)
    (ops : List TxOp) : AllOrNothing script s ops ↔ ¬ CommitFails script s.served ops := by
  match ops with
  | [] =>
      refine iff_of_true ?_ fun h => absurd h.several (by decide)
      exact allOrNothing_of_ok rfl (List.append_nil _).symm hclosed rfl
  | [op] =>
      refine iff_of_true ?_ fun h => absurd h.several (by simp)
      by_cases hop : script s.served = none ∧ op.Accepted
      · exact allOrNothing_of_ok (applyOne_pass hop.1 hop.2) rfl hclosed rfl
      · obtain ⟨e, hone⟩ := applyOne_fail hop
        exact allOrNothing_of_error hone (by simp) rfl hclosed rfl
  | op₁ :: op₂ :: ops =>
      have hops : op₁ :: op₂ :: ops ≠ [] := by simp
      have hseveral : 2 ≤ (op₁ :: op₂ :: ops).length := by simp
      generalize hall : op₁ :: op₂ :: ops = all at hops hseveral
      cases hbegin : script s.served with
      | some e =>
          refine iff_of_true ?_ fun h => by simpa [hbegin] using h.begins
          have hrun : applyOps (faultyExec script) s all =
              (.error ("BEGIN IMMEDIATE;: " ++ e), { s with served := s.served + 1 }) := by
            subst hall
            simp [applyOps, execSql, faultyExec, Script.failure, hbegin, Except.mapError]
          exact allOrNothing_of_error hrun hops rfl hclosed rfl
      | none =>
          have hrun : applyOps (faultyExec script) s all =
              applyAll (faultyExec script)
                { s with
                  db := { s.db with saved := some s.db.rows }
                  served := s.served + 1
                  savedEffects := s.effects } all := by
            subst hall
            simp [applyOps, execSql, faultyExec, Script.failure, hbegin, execStmt, hclosed,
              Server.record, Except.mapError]
          obtain ⟨hcommitted, hopen, hback⟩ := @applyAll_faulty script s.db.rows all
            { s with
              db := { s.db with saved := some s.db.rows }
              served := s.served + 1
              savedEffects := s.effects } rfl
          rw [← hrun] at hcommitted hopen hback
          by_cases hpass : OpsPass script (s.served + 1) all
          · cases hcommit : script (s.served + 1 + all.length) with
            | none =>
                refine iff_of_true ?_ fun h => absurd hcommit h.commit
                obtain ⟨n, hdone⟩ := hcommitted ⟨hpass, hcommit⟩
                exact allOrNothing_of_ok hdone rfl rfl rfl
            | some e =>
                have hfails : script (s.served + 1 + all.length) ≠ none := by simp [hcommit]
                refine iff_of_false (fun h => ?_) (not_not.mpr ⟨hseveral, hbegin, hpass, hfails⟩)
                have hleft := hopen ⟨hpass, hfails⟩
                rw [h.closed] at hleft
                cases hleft
          · refine iff_of_true ?_ fun h => hpass h.pass
            obtain ⟨e, n, hdone⟩ := hback hpass
            exact allOrNothing_of_error hdone hops rfl rfl rfl

/-- Two puts, of which the second is refused. -/
theorem applyOps_refusedPut : AllOrNothing (fun _ => none) {}
    [.put [1] [2] [3], .put [1] [2] []] :=
  (applyOps_allOrNothing_iff _ _ rfl _).mpr fun h => h.pass.2.1.2.2.2 rfl

/-- Two puts whose `COMMIT` fails leave their transaction open. -/
theorem applyOps_leftOpen : ¬ ∀ (script : Script) (s : Server) (ops : List TxOp),
    s.db.saved = none → AllOrNothing script s ops := by
  intro hall
  have hclosed := (hall (fun n => if n = 3 then some "database is locked" else none) {}
    [.put [1] [2] [3], .put [1] [4] [5]] rfl).closed
  revert hclosed
  decide

end LogosDelivery.Persistency
