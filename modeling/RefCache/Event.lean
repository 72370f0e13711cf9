import RefCache.Json.Value

/-! Log events. Operations answer the events they cause as values, oldest first; a journal shows
those of its level and above, ordered by their text. -/

namespace RefCache

inductive Level where
  | error
  | warn
  | info
  | debug
  deriving DecidableEq, Repr

def Level.name : Level → String
  | .error => "ERROR"
  | .warn => "WARN"
  | .info => "INFO"
  | .debug => "DEBUG"

/-- How far down the level is; more severe levels come first. -/
def Level.depth : Level → Nat
  | .error => 0
  | .warn => 1
  | .info => 2
  | .debug => 3

structure Event where
  level : Level
  message : String
  fields : List (String × Json)

namespace Event

def byKey (a b : String × Json) : Bool := decide (a.1 ≤ b.1)

/-- The event as an object with sorted keys. -/
def json (e : Event) : Json :=
  let members := ("level", .text e.level.name) :: ("message", .text e.message) :: e.fields
  .object (members.mergeSort byKey)

def shownAt (limit : Level) (e : Event) : Bool := e.level.depth ≤ limit.depth

/-- What a journal of the level shows of some events. -/
def journal (limit : Level) (events : List Event) : List Json :=
  let lines := (events.filter (shownAt limit)).map fun e => (e.json.render, e.json)
  (lines.mergeSort byKey).map (·.2)

end Event

/-- What a panic carries: a text or something that is none. -/
inductive Payload where
  | text (message : String)
  | other
  deriving DecidableEq, Repr

def Payload.message : Payload → String
  | .text message => message
  | .other => "unknown panic"

/-- The event of every panic, whether it is caught or not. -/
def Payload.captured (p : Payload) : Event :=
  ⟨.error, "Panic captured", [("panic.message", .text p.message)]⟩

end RefCache
