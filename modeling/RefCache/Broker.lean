import RefCache.Broadcast
import RefCache.Broker.Address

/-! An update channel by way of a broker on the network. Every subscription has a connection of its
own; all publishing shares one, which is opened when something is published first. Payloads are
bytes on the way, and a subscription passes over those that are no text. -/

namespace RefCache

/-- What a broker is asked to do. -/
inductive Command where
  | subscribe (topic : String)
  | publish (topic payload : String)
  deriving DecidableEq, Repr

def Command.words : Command → List String
  | .subscribe topic => ["SUBSCRIBE", topic]
  | .publish topic payload => ["PUBLISH", topic, payload]

def Command.verb (c : Command) : String := c.words.headD ""

/-- A subscription: its topic, unless the broker refused it, and the payloads that came in. -/
structure Subscription where
  topic : Option String
  inbox : List (List UInt8)
  /-- The connection is gone, and nothing more comes in. -/
  ended : Bool
  deriving DecidableEq, Repr

structure Broker where
  subscriptions : Std.ExtTreeMap String Subscription
  /-- The commands that the broker refuses, with its messages. -/
  refusals : Std.ExtTreeMap String String
  publishing : Bool
  /-- How many connections were ever opened. -/
  connections : Nat
  /-- No new connection can be opened. -/
  down : Bool
  /-- The commands since somebody last looked, the latest first. -/
  commands : List Command

namespace Broker

def start : Broker := ⟨∅, ∅, false, 0, false, []⟩

def configuredEvent (address : String) : Event :=
  ⟨.info, "Redis update channel configured", [("redis_url", .text (Address.masked address))]⟩

def connectedEvent : Event := ⟨.info, "Publisher connected to Redis", []⟩

def droppedEvent (topic : String) : Event :=
  ⟨.warn, "Dropping update with non-text payload", [("channel", .text topic)]⟩

/-- The events of opening a channel, if the address is one. -/
def configure (address : String) : Except Error (List Event) :=
  if Address.isUsable address then .ok [configuredEvent address]
  else .error (.pubSub "invalid address")

def unreachable : Error := .pubSub "connection refused"

def setRefusal (b : Broker) (verb : String) : Option String → Broker
  | some message => { b with refusals := b.refusals.insert verb message }
  | none => { b with refusals := b.refusals.erase verb }

def refusal? (b : Broker) (c : Command) : Option String := b.refusals[c.verb]?

def note (b : Broker) (c : Command) : Broker := { b with commands := c :: b.commands }

def connect (b : Broker) : Broker := { b with connections := b.connections + 1 }

/-- A refused subscription looks like any other, but nothing ever comes in. -/
def subscribe (b : Broker) (key topic : String) : Except Error Broker :=
  if b.down then .error unreachable
  else
    let command := Command.subscribe topic
    let heard := if (b.refusal? command).isSome then none else some topic
    .ok { (b.connect.note command) with
      subscriptions := b.subscriptions.insert key ⟨heard, [], false⟩ }

/-- Hands a payload to the subscriptions of a topic that are still connected. -/
def deliver (b : Broker) (topic : String) (payload : List UInt8) : Broker :=
  { b with subscriptions := b.subscriptions.map fun _ s =>
      if s.topic = some topic ∧ !s.ended then { s with inbox := s.inbox ++ [payload] } else s }

/-- What came of publishing. -/
structure Publication where
  broker : Broker
  failure : Option Error
  events : List Event

def send (b : Broker) (topic payload : String) (events : List Event) : Publication :=
  let command := Command.publish topic payload
  match b.refusal? command with
  | some message => ⟨b.note command, some (.pubSub message), events⟩
  | none => ⟨(b.note command).deliver topic payload.toUTF8.toList, none, events⟩

def publish (b : Broker) (topic payload : String) : Publication :=
  if b.publishing then b.send topic payload []
  else if b.down then ⟨b, some unreachable, []⟩
  else { b.connect with publishing := true }.send topic payload [connectedEvent]

/-- Announces an update; a failure is only logged. -/
def announce (b : Broker) (payload : String) : Publication :=
  let p := b.publish updateTopic payload
  match p.failure with
  | some e => ⟨p.broker, none, p.events ++ [publishFailedEvent payload e]⟩
  | none => p

/-- The first payload that is a text, how many were none before it, and the payloads after it. -/
def nextText : List (List UInt8) → Option String × Nat × List (List UInt8)
  | [] => (none, 0, [])
  | bytes :: rest =>
    match bytesText? bytes with
    | some text => (some text, 0, rest)
    | none =>
      let (text, passed, rest) := nextText rest
      (text, passed + 1, rest)

structure Reception where
  broker : Broker
  received : Received
  events : List Event

/-- What the subscription of a key finds next, if there is one. -/
def receive? (b : Broker) (key : String) : Option Reception :=
  b.subscriptions[key]?.map fun s =>
    let (text, passed, inbox) := nextText s.inbox
    let events := List.replicate passed (droppedEvent (s.topic.getD ""))
    let b := { b with subscriptions := b.subscriptions.insert key { s with inbox } }
    match text with
    | some text => ⟨b, .payload text, events⟩
    | none => ⟨b, if s.ended then .closed else .pending, events⟩

/-- Closes every connection; what has come in by then can still be received. -/
def kick (b : Broker) : Broker :=
  { b with subscriptions := b.subscriptions.map fun _ s => { s with ended := true } }

def takeDown (b : Broker) : Broker := { b with down := true }

def forgetCommands (b : Broker) : Broker := { b with commands := [] }

end Broker

end RefCache
