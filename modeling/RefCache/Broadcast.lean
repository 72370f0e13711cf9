import RefCache.Error
import RefCache.Event
import Std.Data.ExtTreeMap

/-! The update channel of one process: messages on topics, one bounded buffer for all of them.
Every receiver has its own place in the sequence of messages; one that has fallen behind the
buffer goes on with the oldest message that is still there. -/

namespace RefCache

structure Message where
  topic : String
  payload : String
  deriving DecidableEq, Repr

/-- A receiver: the topic it listens to and how many messages lie behind it. -/
structure Receiver where
  topic : String
  next : Nat
  deriving DecidableEq, Repr

/-- The channel with its receivers, which are known by keys of any kind. -/
structure Broadcast (κ : Type) [Ord κ] where
  /-- How many messages are retained: a power of two. -/
  capacity : Nat
  /-- How many messages were ever sent. -/
  sent : Nat
  /-- The latest messages, oldest first. -/
  retained : List Message
  receivers : Std.ExtTreeMap κ Receiver
  /-- Nobody can send any more. -/
  closed : Bool

def updateTopic : String := "update"

def defaultCapacity : Nat := 256

/-- What a receiver finds. -/
inductive Received where
  | payload (text : String)
  | pending
  | closed
  deriving DecidableEq, Repr

namespace Broadcast

variable {κ : Type} [Ord κ] [Std.TransOrd κ]

/-- A channel that retains at least so many messages. -/
def ofCapacity (capacity : Nat) : Broadcast κ := ⟨capacity.nextPowerOfTwo, 0, [], ∅, false⟩

/-- More places than this cannot be addressed. -/
def maxCapacity : Nat := Nat.pow 2 56

/-- A channel of the capacity, unless it is none or beyond all bounds. -/
def create? (capacity : Nat) : Option (Broadcast κ) :=
  if capacity = 0 ∨ maxCapacity < capacity then none else some (ofCapacity capacity)

def subscribe (b : Broadcast κ) (key : κ) (topic : String) : Broadcast κ :=
  { b with receivers := b.receivers.insert key ⟨topic, b.sent⟩ }

def unsubscribe (b : Broadcast κ) (key : κ) : Broadcast κ :=
  { b with receivers := b.receivers.erase key }

def count (b : Broadcast κ) : Nat := b.receivers.size

def close (b : Broadcast κ) : Broadcast κ := { b with closed := true }

def publishedEvent (b : Broadcast κ) (m : Message) : Event :=
  ⟨.debug, "Published update",
    [("channel", .text m.topic), ("payload", .text m.payload), ("delivered", .count b.count)]⟩

/-- Sends a message; the oldest one retained gives way when the buffer is full. -/
def publish (b : Broadcast κ) (m : Message) : Broadcast κ :=
  let all := b.retained ++ [m]
  { b with sent := b.sent + 1, retained := all.drop (all.length - b.capacity) }

/-- The number of the oldest message retained. -/
def oldest (b : Broadcast κ) : Nat := b.sent - b.retained.length

def lagEvent (r : Receiver) (missed : Nat) : Event :=
  ⟨.warn, "Update subscriber lagged, messages dropped",
    [("channel", .text r.topic), ("missed", .count missed)]⟩

/-- A receiver after it has skipped what it missed, and how much that was. -/
def catchUp (b : Broadcast κ) (r : Receiver) : Receiver × Nat :=
  ({ r with next := max r.next b.oldest }, b.oldest - r.next)

/-- The messages that lie ahead of a receiver. -/
def ahead (b : Broadcast κ) (r : Receiver) : List Message := b.retained.drop (r.next - b.oldest)

/-- Takes the next message of the topic, passing over the others. -/
def take (r : Receiver) : List Message → Receiver × Option String
  | [] => (r, none)
  | m :: rest =>
    let r := { r with next := r.next + 1 }
    if m.topic = r.topic then (r, some m.payload) else take r rest

structure Reception (κ : Type) [Ord κ] where
  channel : Broadcast κ
  received : Received
  events : List Event

/-- What the receiver of a key finds next, if there is one. -/
def receive? (b : Broadcast κ) (key : κ) : Option (Reception κ) :=
  b.receivers[key]?.map fun r =>
    let (r, missed) := b.catchUp r
    let events := if missed = 0 then [] else [lagEvent r missed]
    let (r, payload) := take r (b.ahead r)
    let b := { b with receivers := b.receivers.insert key r }
    match payload with
    | some text => ⟨b, .payload text, events⟩
    | none => ⟨b, if b.closed then .closed else .pending, events⟩

end Broadcast

/-- The event of an update that could not be announced. -/
def publishFailedEvent (payload : String) (e : Error) : Event :=
  ⟨.error, "Failed to publish update",
    [("channel", .text updateTopic), ("payload", .text payload), ("error", .text e.message)]⟩

end RefCache
