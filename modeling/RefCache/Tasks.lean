import RefCache.Broadcast
import RefCache.Desk
import RefCache.Settings
import RefCache.Stats

/-! The four tasks that keep a cache fresh: a refresh at regular times, a refresh whenever the cache
is marked for an update, a listener that marks it on every message of the update channel, and a
gauge that publishes statistics. Time is counted in milliseconds. -/

namespace RefCache

/-- How the next attempt to subscribe goes. -/
inductive SubscriptionPlan where
  | channel
  | ends
  | messages (payloads : List String)
  | fails
  | panics
  deriving DecidableEq, Repr

/-- What all coordinators share. -/
structure Shared where
  now : Nat
  interval : Nat
  cache : Cache
  desk : Desk
  channel : Broadcast Nat

/-- What belongs to one coordinator: its key at the channel, how its subscriptions go (the last
plan repeats), when they were made, and the statistics it published last. -/
structure Own where
  key : Nat
  plans : List SubscriptionPlan
  subscribedAt : List Nat
  snapshot : Stats
  /-- Nobody has looked at the snapshot yet. -/
  fresh : Bool

structure Scene where
  shared : Shared
  own : Own

namespace Scene

def now (s : Scene) : Nat := s.shared.now

def setCache (s : Scene) (cache : Cache) : Scene := { s with shared := { s.shared with cache } }

def setDesk (s : Scene) (desk : Desk) : Scene := { s with shared := { s.shared with desk } }

def setChannel (s : Scene) (channel : Broadcast Nat) : Scene :=
  { s with shared := { s.shared with channel } }

end Scene

inductive TimedRun where
  | ticking (deadline : Nat)
  | refreshing (ticket next : Nat)
  deriving DecidableEq, Repr

inductive HookRun where
  | polling (deadline : Nat)
  | refreshing (ticket : Nat)
  deriving DecidableEq, Repr

inductive ListenRun where
  | channel
  | messages (left : List String)
  deriving DecidableEq, Repr

inductive GaugeRun where
  | sleeping (deadline : Nat)
  deriving DecidableEq, Repr

namespace Tasks

/-- The turn that shutdown opens to a waiting run. -/
def returns {ρ : Type} (signal : ShutdownSignal) (s : Scene) : List (RunTurn Scene ρ) :=
  if signal.resolved then [⟨s, .error .returned, []⟩] else []

/-- The turn that a refresh opens by handing in its report. -/
def resumes {ρ : Type} (s : Scene) (ticket : Nat) (next : ρ) : List (RunTurn Scene ρ) :=
  if (s.shared.desk.report? ticket).isSome then
    [⟨s.setDesk (s.shared.desk.collect ticket), .ok next, s.shared.cache.info⟩]
  else []

def zeroPeriod : Payload := .text "`period` must be non-zero."

/-- A tick later than this many milliseconds has been missed. -/
def tickSlack : Nat := 5

/-- When the next tick is due: a tick that was missed moves all later ones. -/
def nextTick (interval deadline now : Nat) : Nat :=
  if deadline + tickSlack < now then now + interval else deadline + interval

def tick (s : Scene) (deadline : Nat) : RunTurn Scene TimedRun :=
  let (desk, ticket) := s.shared.desk.request
  ⟨s.setDesk desk, .ok (.refreshing ticket (nextTick s.shared.interval deadline s.now)), []⟩

def timed : Task Scene TimedRun where
  start s :=
    if s.shared.interval = 0 then ⟨s, .error (.panicked zeroPeriod), []⟩
    else ⟨s, .ok (.ticking s.now), []⟩
  turns signal s
    | .ticking deadline =>
      (if deadline ≤ s.now then [tick s deadline] else []) ++ returns signal s
    | .refreshing ticket next => resumes s ticket (.ticking next)
  deadline
    | .ticking deadline => some deadline
    | .refreshing _ _ => none

def updateRequestedEvent : Event :=
  ⟨.debug, "Update requested, refreshing", [("op", .text "hook_sync")]⟩

/-- Takes the request for an update, if there is one, before the refresh it leads to. -/
def poll (s : Scene) : RunTurn Scene HookRun :=
  if s.shared.cache.shouldUpdate then
    let (desk, ticket) := s.shared.desk.request
    ⟨(s.setCache (s.shared.cache.setUpdate false)).setDesk desk, .ok (.refreshing ticket),
      [updateRequestedEvent]⟩
  else ⟨s, .ok (.polling (s.now + hookPollMillis)), []⟩

def hook : Task Scene HookRun where
  start s := ⟨s, .ok (.polling (s.now + hookPollMillis)), []⟩
  turns signal s
    | .polling deadline =>
      (if deadline ≤ s.now then [poll s] else []) ++ returns signal s
    | .refreshing ticket => resumes s ticket (.polling (s.now + hookPollMillis))
  deadline
    | .polling deadline => some deadline
    | .refreshing _ => none

def subscribedEvent : Event :=
  ⟨.info, "Subscribed to update channel", [("channel", .text updateTopic)]⟩

def receivedEvent (payload : String) : Event :=
  ⟨.debug, "Update received", [("channel", .text updateTopic), ("payload", .text payload)]⟩

def subscriptionClosed : RunEnd :=
  .failed (.pubSub ("subscription to " ++ updateTopic ++ " closed"))

/-- The plan of the next subscription, and the plans after it. -/
def nextPlan : List SubscriptionPlan → SubscriptionPlan × List SubscriptionPlan
  | [] => (.channel, [])
  | [last] => (last, [last])
  | plan :: rest => (plan, rest)

def subscribe (s : Scene) : RunTurn Scene ListenRun :=
  let (plan, later) := nextPlan s.own.plans
  let s := { s with own.plans := later, own.subscribedAt := s.own.subscribedAt ++ [s.now] }
  match plan with
  | .channel =>
    ⟨s.setChannel (s.shared.channel.subscribe s.own.key updateTopic), .ok .channel,
      [subscribedEvent]⟩
  | .ends => ⟨s, .ok (.messages []), [subscribedEvent]⟩
  | .messages payloads => ⟨s, .ok (.messages payloads), [subscribedEvent]⟩
  | .fails => ⟨s, .error (.failed (.pubSub "connection reset")), []⟩
  | .panics => ⟨s, .error (.panicked (.text "subscribe panicked")), []⟩

/-- A message asks for an update, whatever it says. -/
def mark (s : Scene) : Scene := s.setCache (s.shared.cache.setUpdate true)

/-- Takes the next message of the channel, if there is one. -/
def receive (s : Scene) : List (RunTurn Scene ListenRun) :=
  match s.shared.channel.receive? s.own.key with
  | none => [⟨s, .error subscriptionClosed, []⟩]
  | some got =>
    let after := s.setChannel got.channel
    match got.received with
    | .payload text => [⟨mark after, .ok .channel, got.events ++ [receivedEvent text]⟩]
    | .closed => [⟨after, .error subscriptionClosed, got.events⟩]
    | .pending =>
      if got.channel.receivers[s.own.key]? = s.shared.channel.receivers[s.own.key]? then []
      else [⟨after, .ok .channel, got.events⟩]

def dropReceiver (s : Scene) : Scene := s.setChannel (s.shared.channel.unsubscribe s.own.key)

/-- A run of the listener that ends takes its receiver with it. -/
def leaving (t : RunTurn Scene ListenRun) : RunTurn Scene ListenRun :=
  match t.next with
  | .ok _ => t
  | .error _ => { t with world := dropReceiver t.world }

def listen : Task Scene ListenRun where
  start s := subscribe s
  turns signal s
    | .channel => (returns signal s ++ receive s).map leaving
    | .messages [] => returns signal s ++ [⟨s, .error subscriptionClosed, []⟩]
    | .messages (payload :: later) =>
      returns signal s ++ [⟨mark s, .ok (.messages later), [receivedEvent payload]⟩]
  deadline _ := none

def sample (s : Scene) : RunTurn Scene GaugeRun :=
  let stats := s.shared.cache.stats
  ⟨{ s with own.snapshot := stats, own.fresh := true },
    .ok (.sleeping (s.now + gaugeSeconds * 1000)), [stats.gaugeEvent]⟩

def gauge : Task Scene GaugeRun where
  start s := sample s
  turns signal s
    | .sleeping deadline =>
      (if deadline ≤ s.now then [sample s] else []) ++ returns signal s
  deadline
    | .sleeping deadline => some deadline

end Tasks

end RefCache
