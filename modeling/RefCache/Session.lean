import RefCache.Coordinator
import RefCache.Query
import RefCache.Storage
import RefCache.Store

/-! A cache at work: its store, the refreshes and coordinators under way, and a clock that moves
only when it is told to. Between two moves of the clock everything runs until nothing can go on; of
the turns that are open then, the first is taken. -/

namespace RefCache

instance : Store Storage where
  read c since s :=
    let (fetched, s) := s.read c since
    ⟨fetched, s, []⟩
  waits s c := s.isParked c

structure Session (σ : Type) where
  photos : Uuid → Photo
  /-- How much of what happens is logged, if anything is. -/
  level : Option Level
  store : σ
  shared : Shared
  /-- Every coordinator ever started; its place is its key. -/
  coordinators : List Coordinator
  /-- The coordinator that can be shut down. -/
  handle : Option Nat
  /-- The coordinator that was shut down last. -/
  stopping : Option Nat
  /-- Tickets of refreshes in the background whose reports nobody has seen. -/
  background : List Nat
  /-- Events, the latest first. -/
  log : List Event

namespace Session

variable {σ : Type}

def start (photos : Uuid → Photo) (level : Option Level) (store : σ) (now : Timestamp)
    (interval : Nat) (channel : Broadcast Nat) : Session σ where
  photos := photos
  level := level
  store := store
  shared := ⟨0, interval, .start now, .start, channel⟩
  coordinators := []
  handle := none
  stopping := none
  background := []
  log := []

def cache (s : Session σ) : Cache := s.shared.cache

def setCache (s : Session σ) (cache : Cache) : Session σ :=
  { s with shared := { s.shared with cache } }

def setDesk (s : Session σ) (desk : Desk) : Session σ := { s with shared := { s.shared with desk } }

def setChannel (s : Session σ) (channel : Broadcast Nat) : Session σ :=
  { s with shared := { s.shared with channel } }

def setNow (s : Session σ) (now : Nat) : Session σ := { s with shared := { s.shared with now } }

def setStore (s : Session σ) (store : σ) : Session σ := { s with store }

/-- Logs the events that the level lets through. -/
def note (s : Session σ) (events : List Event) : Session σ :=
  match s.level with
  | none => s
  | some level => { s with log := (events.filter (·.shownAt level)).reverse ++ s.log }

def clearLog (s : Session σ) : Session σ := { s with log := [] }

def journal (s : Session σ) : List Json := Event.journal .debug s.log.reverse

/-- The first open turn of the first coordinator that has one. -/
def coordinatorTurn (shared : Shared) :
    List Coordinator → Option (Shared × List Coordinator × List Event)
  | [] => none
  | c :: rest =>
    match (c.moves shared).head? with
    | some m => some (m.shared, m.coordinator :: rest, m.events)
    | none => (coordinatorTurn shared rest).map fun (shared, later, events) =>
      (shared, c :: later, events)

def coordinatorMove? (s : Session σ) : Option (Session σ) :=
  (coordinatorTurn s.shared s.coordinators).map fun (shared, coordinators, events) =>
    { s with shared, coordinators }.note events

/-- Takes one step of a puller and files the refresh again. -/
def pullerStep (s : Session σ) (ticket : Nat) (r : Refresh) (c : Category) (step : PullStep c) :
    Option (Session σ) :=
  (Refresh.step s.photos c ⟨s.cache, r, []⟩ step).map fun after =>
    ((s.setCache after.cache).setDesk
      { s.shared.desk with active := some (ticket, after.refresh) }).note after.events

variable [Store σ]

/-- The step that the puller of a category, or the collector, can take. -/
def pullerMove? (s : Session σ) (ticket : Nat) (r : Refresh) (c : Category) : Option (Session σ) :=
  match r.puller c with
  | .ready => s.pullerStep ticket r c .readMark
  | .reading since =>
    if Store.waits s.store c then none
    else
      let t := Store.read c since s.store
      ((s.setStore t.store).note t.events).pullerStep ticket r c (.fetch t.fetched)
  | .fetched _ _ => s.pullerStep ticket r c .absorb
  | .finished _ => s.pullerStep ticket r c .join
  | .joined => none

def refreshMove? (s : Session σ) : Option (Session σ) :=
  match s.shared.desk.active with
  | none => s.shared.desk.grant?.map s.setDesk
  | some (ticket, r) =>
    match Category.all.findSome? (s.pullerMove? ticket r) with
    | some after => some after
    | none => s.shared.desk.finish?.map fun (desk, event) => (s.setDesk desk).note [event]

def move? (s : Session σ) : Option (Session σ) :=
  match s.coordinatorMove? with
  | some after => some after
  | none => s.refreshMove?

/-- Takes open turns, at most so many. -/
def run : Nat → Session σ → Session σ
  | 0, s => s
  | fuel + 1, s =>
    match s.move? with
    | some after => run fuel after
    | none => s

/-- More turns than can be open at one instant: a refresh takes some fifty, a coordinator starts
two at most, and a listener takes every message once. -/
def turnBound (s : Session σ) : Nat :=
  1000 * (s.coordinators.length + s.shared.desk.waiting.length + 2)
    + 4 * s.shared.channel.retained.length * (s.coordinators.length + 1)

def settle (s : Session σ) : Session σ := s.run s.turnBound

def deadlines (s : Session σ) : List Nat := s.coordinators.flatMap (·.deadlines)

/-- The first deadline after now and not after `limit`. -/
def nextDeadline? (s : Session σ) (limit : Nat) : Option Nat :=
  (s.deadlines.filter fun d => s.shared.now < d && d ≤ limit).min?

/-- Moves the clock from deadline to deadline, at most so many times. -/
def runUntil (limit : Nat) : Nat → Session σ → Session σ
  | 0, s => s
  | fuel + 1, s =>
    match s.nextDeadline? limit with
    | some t => runUntil limit fuel (s.setNow t).settle
    | none => (s.setNow limit).settle

def advance (s : Session σ) (millis : Nat) : Session σ :=
  s.settle.runUntil (s.shared.now + millis) (millis + 1)

/-- Pulls one category on its own, if its read need not wait. -/
def pull (s : Session σ) (c : Category) : Option (PullResult × Session σ) :=
  if Store.waits s.store c then none
  else
    let t := Store.read c (s.cache.mark c) s.store
    let a := s.cache.absorb s.photos c t.fetched
    some (a.result, (((s.setStore t.store).note t.events).setCache a.cache).note a.events)

def requestRefresh (s : Session σ) : Nat × Session σ :=
  let (desk, ticket) := s.shared.desk.request
  (ticket, s.setDesk desk)

/-- A full refresh and its report, unless a read keeps it waiting. -/
def refresh (s : Session σ) : Option Report × Session σ :=
  let (ticket, s) := s.requestRefresh
  let s := s.settle
  (s.shared.desk.report? ticket, s.setDesk (s.shared.desk.collect ticket))

def spawnRefresh (s : Session σ) : Session σ :=
  let (ticket, s) := s.requestRefresh
  { s with background := s.background ++ [ticket] }.settle

/-- The reports of background refreshes that came in since the last look, and how many are out. -/
def collectRefreshes (s : Session σ) : List Report × Nat × Session σ :=
  let finished := s.background.filter fun t => (s.shared.desk.report? t).isSome
  let out := s.background.filter fun t => (s.shared.desk.report? t).isNone
  (s.background.filterMap s.shared.desk.report?, out.length,
    { s with background := out }.setDesk (finished.foldl Desk.collect s.shared.desk))

def coordinator? (s : Session σ) (key : Option Nat) : Option Coordinator :=
  key.bind fun k => s.coordinators[k]?

/-- The coordinator started last. -/
def latest? (s : Session σ) : Option Coordinator := s.coordinators.getLast?

def changeCoordinator (s : Session σ) (key : Nat) (f : Coordinator → Coordinator) : Session σ :=
  { s with coordinators := s.coordinators.modify key f }

/-- Drops the coordinator that can be shut down, if there is one, where it is. -/
def dropHandle (s : Session σ) : Session σ :=
  match s.handle, s.coordinator? s.handle with
  | some key, some c =>
    { s with shared := c.abandon s.shared, handle := none }.changeCoordinator key
      Coordinator.abandoned
  | _, _ => s

def startCoordinator (s : Session σ) (policies : Policies) (plans : List SubscriptionPlan) :
    Session σ :=
  let s := (s.note [Coordinator.startingEvent s.shared.interval]).dropHandle
  let key := s.coordinators.length
  { s with
    coordinators := s.coordinators ++ [Coordinator.create key policies plans]
    handle := some key }.settle

/-- Asks the coordinator to stop, and tells whether the one asked last has stopped. -/
def shutdown (s : Session σ) : Option Bool × Session σ :=
  let s := match s.handle with
    | some key =>
      { s with handle := none, stopping := some key }.changeCoordinator key
          Coordinator.requestShutdown
        |>.note [Coordinator.shuttingDownEvent]
        |>.settle
    | none => s
  ((s.coordinator? s.stopping).map (·.ended), s)

def publishOne (s : Session σ) (m : Message) : Session σ :=
  (s.note [s.shared.channel.publishedEvent m]).setChannel (s.shared.channel.publish m)

/-- Publishes a message so many times before anybody can take one. -/
def publish (s : Session σ) (m : Message) (times : Nat) : Session σ :=
  (times.repeat (publishOne · m) s).settle

/-- Looks at the gauge of the coordinator started last: whether it has published anything since
the last look, or nothing if it is gone. -/
def gaugeChanged (s : Session σ) : Option (Option Bool) × Session σ :=
  match s.latest? with
  | none => (none, s)
  | some c =>
    if c.gauge.isStopped then (some none, s)
    else (some (some c.own.fresh), s.changeCoordinator c.own.key Coordinator.looked)

end Session

end RefCache
