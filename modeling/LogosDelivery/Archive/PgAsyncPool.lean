import LogosDelivery.Lib.Runs

/-! # The connection pool of the Postgres driver

`db_postgres/pgasyncpool.nim`, with the parts of `dbconn.nim` that it is about.  A query or a stored
statement acquires a connection, uses it and releases it; it waits while all connections are busy
and opens a new one where the limit allows it.  A connection is busy while its `futBecomeFree` is not
complete.

The calls on a pool are coroutines, each suspended at one of its awaits; what runs between two awaits
is one step.  Connections and futures are numbered in the order in which they are made.  A cancelled
call raises at the await where it is suspended; one that is cancelled after the awaited call has
completed still gets the result, that is, it is resumed before it is cancelled.  A query that has a
connection may await the server any number of times before it releases it, which does not touch the
pool. -/

namespace LogosDelivery.Archive.Pool

open Lib

/-- A `DbConnWrapper`; `futBecomeFree` is the number of its last future. -/
structure DbConnWrapper where
  isOpen : Bool := false
  futBecomeFree : Option ℕ := none
deriving DecidableEq

/-- What libpq says of a connection: whether its session is in order and no command is in flight,
whether a command is in flight, and the id of its backend. -/
structure LibpqStatus where
  usable : Bool
  commandInFlight : Bool
  backendPid : ℤ
deriving DecidableEq

structure PgAsyncPool where
  maxConnections : ℕ
  /-- There are SET statements to run on a new connection. -/
  hasSessionSettings : Bool
  generation : ℕ := 0
  conns : List ℕ := []
  numConnecting : ℤ := 0
  wrappers : ℕ → DbConnWrapper := fun _ => {}
  /-- The number of connections opened so far. -/
  opened : ℕ := 0
  /-- The number of futures made so far, and those that are complete. -/
  futures : ℕ := 0
  finished : ℕ → Bool := fun _ => false

/-! ### Connections -/

namespace PgAsyncPool

variable (pool : PgAsyncPool)

def setWrapper (conn : ℕ) (wrapper : DbConnWrapper) : PgAsyncPool :=
  { pool with wrappers := Function.update pool.wrappers conn wrapper }

def isPgDbConnBusy (conn : ℕ) : Bool :=
  match (pool.wrappers conn).futBecomeFree with
  | none => false
  | some fut => !pool.finished fut

def markBusy (conn : ℕ) : PgAsyncPool :=
  { pool.setWrapper conn { pool.wrappers conn with futBecomeFree := some pool.futures } with
    futures := pool.futures + 1 }

def markFree (conn : ℕ) : PgAsyncPool :=
  match (pool.wrappers conn).futBecomeFree with
  | none => pool
  | some fut => { pool with finished := Function.update pool.finished fut true }

def isReusable (conn : ℕ) (status : LibpqStatus) : Bool :=
  (pool.wrappers conn).isOpen && status.usable

def isCommandInFlight (conn : ℕ) (status : LibpqStatus) : Bool :=
  (pool.wrappers conn).isOpen && status.commandInFlight

def closeDbConn (conn : ℕ) : PgAsyncPool :=
  pool.setWrapper conn { pool.wrappers conn with isOpen := false }

/-- `DbConnWrapper.new` returns a connection. -/
def newConn : PgAsyncPool :=
  { pool.setWrapper pool.opened { isOpen := true } with opened := pool.opened + 1 }

/-! ### Acquiring and releasing -/

/-- The `finally` of `acquireConn`. -/
def giveBackSlot : PgAsyncPool := { pool with numConnecting := pool.numConnecting - 1 }

end PgAsyncPool

/-- Where a query or statement is suspended, or how it ended. -/
inductive QueryPhase where
  | starting
  /-- `await race(busyFuts)`. -/
  | waiting (busyFuts : List ℕ)
  /-- `await sleepAsync(10.milliseconds)`. -/
  | sleeping
  /-- `await pool.connectString()`. -/
  | resolving (generation : ℕ)
  /-- `await DbConnWrapper.new(..)`. -/
  | connecting (generation : ℕ)
  /-- The SET statements run on the new connection. -/
  | setup (generation conn : ℕ)
  /-- `acquireConn` returned the connection, and `releaseConn` did not run. -/
  | holding (conn : ℕ)
  | released
  | failed (error : String)
  | cancelled
deriving DecidableEq

namespace QueryPhase

/-- The query is between reserving a slot and giving it back. -/
def isConnecting : QueryPhase → Bool
  | resolving _ => true
  | connecting _ => true
  | setup _ _ => true
  | _ => false

/-- The connection that the query opens or holds. -/
def conn : QueryPhase → Option ℕ
  | setup _ conn => some conn
  | holding conn => some conn
  | _ => none

/-- The query has no slot and no connection. -/
def idle (phase : QueryPhase) : Bool := !phase.isConnecting && phase.conn.isNone

end QueryPhase

/-- How a query is resumed. -/
inductive QueryEvent where
  | woken
  | resolved
  | connected
  | applied
  | failed (error : String)
  | finished (status : LibpqStatus)
  | cancelled (status : LibpqStatus)
deriving DecidableEq

namespace PgAsyncPool

variable (pool : PgAsyncPool)

/-- One turn of the loop of `acquireConn`, up to its next await or its return. -/
def acquireConn : PgAsyncPool × QueryPhase :=
  match pool.conns.find? (fun conn => !pool.isPgDbConnBusy conn) with
  | some conn => (pool.markBusy conn, .holding conn)
  | none =>
      if pool.conns.length + pool.numConnecting < pool.maxConnections then
        ({ pool with numConnecting := pool.numConnecting + 1 }, .resolving pool.generation)
      else
        let busyFuts := pool.conns.filterMap (fun conn => (pool.wrappers conn).futBecomeFree)
        if busyFuts.length = 0 then (pool, .sleeping) else (pool, .waiting busyFuts)

/-- The end of `acquireConn` with a new connection that is set up. -/
def addConn (generation conn : ℕ) : PgAsyncPool × QueryPhase :=
  if generation ≠ pool.generation then
    ((pool.closeDbConn conn).giveBackSlot, .failed "the pool was closed while connecting")
  else
    ({ pool.markBusy conn with conns := pool.conns ++ [conn] }.giveBackSlot, .holding conn)

def releaseConn (conn : ℕ) (status : LibpqStatus) : PgAsyncPool :=
  let pool :=
    if pool.isReusable conn status then pool
    else { pool.closeDbConn conn with conns := pool.conns.filter (fun c => c ≠ conn) }
  pool.markFree conn

/-- The release of the connection asks its backend to cancel a command. -/
def cancelsBackend (conn : ℕ) (status : LibpqStatus) : Bool :=
  !pool.isReusable conn status && pool.isCommandInFlight conn status && status.backendPid ≠ 0

/-- A query is resumed; an event that is not one of its await changes nothing. -/
def resume : QueryPhase → QueryEvent → PgAsyncPool × QueryPhase
  | .waiting busyFuts, .woken =>
      if busyFuts.any pool.finished then pool.acquireConn else (pool, .waiting busyFuts)
  | .sleeping, .woken => pool.acquireConn
  | .resolving generation, .resolved => (pool, .connecting generation)
  | .resolving _, .failed error =>
      (pool.giveBackSlot, .failed ("error building the connection string: " ++ error))
  | .connecting generation, .connected =>
      if pool.hasSessionSettings then (pool.newConn, .setup generation pool.opened)
      else pool.newConn.addConn generation pool.opened
  | .connecting _, .failed error =>
      (pool.giveBackSlot, .failed ("error creating DbConnWrapper: " ++ error))
  | .setup generation conn, .applied => pool.addConn generation conn
  | .setup _ conn, .failed error =>
      ((pool.closeDbConn conn).giveBackSlot,
        .failed ("could not apply the session settings: " ++ error))
  | .holding conn, .finished status => (pool.releaseConn conn status, .released)
  | .waiting _, .cancelled _ => (pool, .cancelled)
  | .sleeping, .cancelled _ => (pool, .cancelled)
  | .resolving _, .cancelled _ => (pool.giveBackSlot, .cancelled)
  | .connecting _, .cancelled _ => (pool.giveBackSlot, .cancelled)
  | .setup _ conn, .cancelled _ => ((pool.closeDbConn conn).giveBackSlot, .cancelled)
  | .holding conn, .cancelled status => (pool.releaseConn conn status, .cancelled)
  | phase, _ => (pool, phase)

/-! ### Closing -/

/-- The futures that `close` waits for. -/
def currentFuts : List ℕ := pool.conns.filterMap (fun conn => (pool.wrappers conn).futBecomeFree)

/-- `close` after its wait. -/
def closeAll : PgAsyncPool := { pool.conns.foldl closeDbConn pool with conns := [] }

end PgAsyncPool

/-- Where a `close` (or a `resetConnPool`) is. -/
inductive ClosePhase where
  | waiting (futs : List ℕ)
  | finished
  | cancelled
deriving DecidableEq

/-- Where a `cancelBackend` is. -/
inductive CancelPhase where
  | resolving
  | connecting
  | querying (conn : ℕ)
  | finished
deriving DecidableEq

def CancelPhase.conn : CancelPhase → Option ℕ
  | querying conn => some conn
  | _ => none

/-! ### The calls on a pool -/

structure PoolSystem where
  pool : PgAsyncPool
  queries : List QueryPhase := []
  closes : List ClosePhase := []
  cancels : List CancelPhase := []

inductive PoolAction where
  /-- `pgQuery` or `runStmt` is called. -/
  | query
  | resumeQuery (i : ℕ) (event : QueryEvent)
  /-- `close` or `resetConnPool` is called. -/
  | close
  | resumeClose (i : ℕ)
  | cancelClose (i : ℕ)
  /-- The next await of a `cancelBackend` returns, with a result or not. -/
  | resumeCancel (i : ℕ) (ok : Bool)
deriving DecidableEq

namespace PoolSystem

variable (s : PoolSystem)

def initial (maxConnections : ℕ) (hasSessionSettings : Bool) : PoolSystem where
  pool := { maxConnections := maxConnections, hasSessionSettings := hasSessionSettings }

/-- The `cancelBackend` that an event of a query starts. -/
def spawned (phase : QueryPhase) : QueryEvent → List CancelPhase
  | .finished status =>
      match phase with
      | .holding conn => if s.pool.cancelsBackend conn status then [.resolving] else []
      | _ => []
  | .cancelled status =>
      match phase with
      | .holding conn => if s.pool.cancelsBackend conn status then [.resolving] else []
      | _ => []
  | _ => []

/-- A `close` goes on where no future that it waits for is left. -/
def closeAfter (pool : PgAsyncPool) (futs : List ℕ) : PgAsyncPool × ClosePhase :=
  if futs.all pool.finished then (pool.closeAll, .finished) else (pool, .waiting futs)

/-- `cancelBackend` is resumed; it closes its connection in any case. -/
def resumeCancelBackend (pool : PgAsyncPool) (ok : Bool) : CancelPhase → PgAsyncPool × CancelPhase
  | .resolving => (pool, if ok then .connecting else .finished)
  | .connecting => if ok then (pool.newConn, .querying pool.opened) else (pool, .finished)
  | .querying conn => (pool.closeDbConn conn, .finished)
  | .finished => (pool, .finished)

def step : PoolAction → PoolSystem
  | .query =>
      let (pool, phase) := s.pool.acquireConn
      { s with pool := pool, queries := s.queries ++ [phase] }
  | .resumeQuery i event =>
      match s.queries[i]? with
      | none => s
      | some phase =>
          let (pool, phase') := s.pool.resume phase event
          { s with
            pool := pool
            queries := s.queries.set i phase'
            cancels := s.cancels ++ s.spawned phase event }
  | .close =>
      let pool := { s.pool with generation := s.pool.generation + 1 }
      let (pool, phase) := closeAfter pool pool.currentFuts
      { s with pool := pool, closes := s.closes ++ [phase] }
  | .resumeClose i =>
      match s.closes[i]? with
      | some (.waiting futs) =>
          let (pool, phase) := closeAfter s.pool futs
          { s with pool := pool, closes := s.closes.set i phase }
      | _ => s
  | .cancelClose i =>
      match s.closes[i]? with
      | some (.waiting _) => { s with closes := s.closes.set i .cancelled }
      | _ => s
  | .resumeCancel i ok =>
      match s.cancels[i]? with
      | none => s
      | some phase =>
          let (pool, phase') := resumeCancelBackend s.pool ok phase
          { s with pool := pool, cancels := s.cancels.set i phase' }

/-- The connections that an action closes with `closeDbConn` in `close`. -/
def closedBy : PoolAction → List ℕ
  | .close => if s.pool.currentFuts.all s.pool.finished then s.pool.conns else []
  | .resumeClose i =>
      match s.closes[i]? with
      | some (.waiting futs) => if futs.all s.pool.finished then s.pool.conns else []
      | _ => []
  | _ => []

/-- No query that acquired a connection which the action closes is before its release. -/
def ClosesUnused (a : PoolAction) : Prop :=
  ∀ conn ∈ s.closedBy a, ∀ i : ℕ, s.queries[i]? ≠ some (QueryPhase.holding conn)

/-- A `close` that is resumed finds every connection released that was acquired since it began to
wait, that is, whose future is not one of those it waited for. -/
def ReleasedAgain : PoolAction → Prop
  | .resumeClose i =>
      match s.closes[i]? with
      | some (.waiting futs) => futs.all s.pool.finished = true →
          ∀ conn ∈ s.pool.conns, ∀ fut, (s.pool.wrappers conn).futBecomeFree = some fut →
            fut ∉ futs → s.pool.finished fut = true
      | _ => True
  | _ => True

end PoolSystem

end LogosDelivery.Archive.Pool
