import RefCache.Tasks

/-! A coordinator runs its four tasks side by side, each under a supervisor of its own, until it is
shut down or dropped. Its turns may be taken in any order; `moves` lists those that are open. -/

namespace RefCache

/-- A coordinator with its tasks, and whether its shutdown has been seen through. -/
structure Coordinator where
  signal : ShutdownSignal
  own : Own
  timed : Supervised TimedRun
  hook : Supervised HookRun
  listener : Supervised ListenRun
  gauge : Supervised GaugeRun
  ended : Bool

namespace Coordinator

def create (key : Nat) (policies : Policies) (plans : List SubscriptionPlan) : Coordinator where
  signal := .none
  own := ⟨key, plans, [], .blank, false⟩
  timed := .create policies.timed
  hook := .create policies.hook
  listener := .create policies.listener
  gauge := .create policies.gauge
  ended := false

def startingEvent (interval : Nat) : Event :=
  ⟨.info, "Starting dictionary coordinator",
    [("sync_interval_secs", .count (interval / 1000)), ("hook_poll_ms", .count hookPollMillis)]⟩

def shuttingDownEvent : Event := ⟨.info, "Coordinator shutting down", []⟩

def stoppedEvent : Event := ⟨.info, "Coordinator stopped", []⟩

/-- One turn of a coordinator. -/
structure Move where
  shared : Shared
  coordinator : Coordinator
  events : List Event

variable (c : Coordinator) (shared : Shared)

def gaugeMoves : List Move :=
  (c.gauge.turns Tasks.gauge c.signal shared.now ⟨shared, c.own⟩).map fun t =>
    ⟨t.world.shared, { c with own := t.world.own, gauge := t.supervised }, t.events⟩

def listenerMoves : List Move :=
  (c.listener.turns Tasks.listen c.signal shared.now ⟨shared, c.own⟩).map fun t =>
    ⟨t.world.shared, { c with own := t.world.own, listener := t.supervised }, t.events⟩

def hookMoves : List Move :=
  (c.hook.turns Tasks.hook c.signal shared.now ⟨shared, c.own⟩).map fun t =>
    ⟨t.world.shared, { c with own := t.world.own, hook := t.supervised }, t.events⟩

def timedMoves : List Move :=
  (c.timed.turns Tasks.timed c.signal shared.now ⟨shared, c.own⟩).map fun t =>
    ⟨t.world.shared, { c with own := t.world.own, timed := t.supervised }, t.events⟩

def isStopped : Bool :=
  c.timed.isStopped && c.hook.isStopped && c.listener.isStopped && c.gauge.isStopped

def endMoves : List Move :=
  if c.signal.requested && c.isStopped && !c.ended then
    [⟨shared, { c with ended := true }, [stoppedEvent]⟩]
  else []

/-- Every turn that is open; the gauge comes first and sees the cache before a refresh. -/
def moves : List Move :=
  c.gaugeMoves shared ++ c.listenerMoves shared ++ c.hookMoves shared ++ c.timedMoves shared
    ++ c.endMoves shared

/-- When the tasks want to be looked at again. -/
def deadlines : List Nat :=
  (c.timed.deadline Tasks.timed).toList ++ (c.hook.deadline Tasks.hook).toList
    ++ (c.listener.deadline Tasks.listen).toList ++ (c.gauge.deadline Tasks.gauge).toList

/-- The tickets of refreshes that the tasks wait for. -/
def tickets : List Nat :=
  (match c.timed.stage with
    | .running (.refreshing ticket _) => [ticket]
    | _ => [])
  ++ (match c.hook.stage with
    | .running (.refreshing ticket) => [ticket]
    | _ => [])

/-- Drops the tasks where they are: what they wait for is given up. -/
def abandon : Shared :=
  { shared with
    desk := c.tickets.foldl Desk.cancel shared.desk
    channel := shared.channel.unsubscribe c.own.key }

/-- The coordinator after that. -/
def abandoned : Coordinator :=
  { c with
    timed.stage := .stopped
    hook.stage := .stopped
    listener.stage := .stopped
    gauge.stage := .stopped
    ended := true }

def requestShutdown : Coordinator := { c with signal.requested := true }

/-- Somebody has looked at the snapshot. -/
def looked : Coordinator := { c with own.fresh := false }

end Coordinator

end RefCache
