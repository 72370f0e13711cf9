import RefCache.Database.Fault
import RefCache.Settings

/-! A pool of connections to a database server. A pool that closes connections now and then starts
with one and opens more when a read finds none idle; one that keeps them opens all at once. The
first connection must be open before the time to wait for one is over. -/

namespace RefCache

structure Pool where
  /-- How many connections there may be. -/
  limit : Nat
  size : Nat
  idle : Nat
  closed : Bool
  deriving DecidableEq, Repr

namespace Pool

def creatingEvent (s : PoolSettings) : Event :=
  ⟨.info, "Creating database connection pool",
    [("op", .text "create"), ("max_connections", .count s.maxConnections),
     ("acquire_timeout_secs", .count s.acquireSeconds), ("recycle", .bool s.recycle)]⟩

def establishedEvent (p : Pool) : Event :=
  ⟨.info, "Database connection pool established",
    [("op", .text "established"), ("pool_size", .count p.size), ("pool_idle", .count p.idle)]⟩

def healthEvent (p : Pool) : Event :=
  ⟨.debug, "Pool health check",
    [("op", .text "metrics"), ("pool_size", .count p.size), ("pool_idle", .count p.idle)]⟩

def busyEvent (p : Pool) : Event :=
  ⟨.warn, "Connection pool has no idle connections, category reads may queue",
    [("pool_size", .count p.size)]⟩

/-- A pool as it is when its first connections are open. -/
def opened (s : PoolSettings) : Pool :=
  let size := if s.recycle then 1 else s.maxConnections
  ⟨s.maxConnections, size, size, false⟩

/-- What a pool finds at the address it is given. -/
inductive Server where
  /-- The address is none. -/
  | nowhere
  | listening
  | refusing (code message : String)
  deriving DecidableEq, Repr

/-- The refusals that a pool takes for passing, and meets by trying again until its time is over:
too many connections, and a server that is not ready yet. -/
def isPassing (code : String) : Bool := code == "53300" || code == "57P03"

/-- The clock counts seconds below the bound and has been running for a day already. -/
def longestWait : Nat := Nat.pow 2 63 - 86400

def noRoom : Payload := .text "capacity must be non-zero"

def clockOverflow : Payload := .text "overflow when adding duration to instant"

/-- The pool with its first connections, or what came up first. -/
def connect (s : PoolSettings) : Server → Except DatabaseFault Pool
  | .nowhere => .error (.failed .badAddress)
  | server =>
    if longestWait < s.acquireSeconds then .error (.panicked clockOverflow)
    else if s.maxConnections = 0 then .error (.panicked noRoom)
    else if s.acquireSeconds = 0 then .error (.failed .poolTimedOut)
    else
      match server with
      | .refusing code message =>
        .error (.failed (if isPassing code then .poolTimedOut else .refused message))
      | _ => .ok (opened s)

/-- What came of opening a pool. -/
structure Opening where
  pool : Except DatabaseFault Pool
  events : List Event

def create (s : PoolSettings) (server : Server) : Opening :=
  let pool := connect s server
  let established := match pool with
    | .ok p => [establishedEvent p]
    | .error _ => []
  ⟨pool, creatingEvent s :: established⟩

/-- Takes connections out of the pool, idle ones first; beyond the limit the wait for one is in
vain. -/
def hold (p : Pool) (count : Nat) : Except DatabaseError Pool :=
  if p.closed ∧ 0 < count then .error .poolClosed
  else if p.limit < count then .error .poolTimedOut
  else .ok { p with size := max p.size count, idle := p.idle - count }

/-- All connections are idle again. -/
def rest (p : Pool) : Pool := { p with idle := p.size }

def close (p : Pool) : Pool := { p with size := 0, closed := true }

/-- A look at the health of the pool: that none is idle is worth a warning, unless none is open. -/
def metrics (p : Pool) : List Event :=
  p.healthEvent :: if p.idle = 0 ∧ 0 < p.size then [p.busyEvent] else []

end Pool

end RefCache
