import RefCache.Supervisor
import RefCache.Text.Decimal

/-! Settings, their defaults, and the settings that are read from texts. A text that is no
positive number in range stands for the default. -/

namespace RefCache

def defaultSyncSeconds : Nat := 10

def hookPollMillis : Nat := 100

def gaugeSeconds : Nat := 10

def listenerCooldownSeconds : Nat := 5

def hookCooldownMillis : Nat := 1

/-- The sync interval in seconds, and whether the setting had to be ignored. -/
structure SyncInterval where
  seconds : Nat
  warned : Bool
  deriving DecidableEq, Repr

def readSyncInterval : Option String → SyncInterval
  | none => ⟨defaultSyncSeconds, false⟩
  | some text =>
    match readPositive (Nat.pow 2 64) text with
    | some n => ⟨n, false⟩
    | none => ⟨defaultSyncSeconds, true⟩

/-- The size of a database pool, how long a read waits for a connection, and whether connections
are closed when they have been idle or open for long. -/
structure PoolSettings where
  maxConnections : Nat
  acquireSeconds : Nat
  recycle : Bool
  deriving DecidableEq, Repr

namespace PoolSettings

/-- One connection for each category and a spare one. -/
def standard : PoolSettings := ⟨12, 30, true⟩

def single : PoolSettings := { standard with maxConnections := 1, recycle := false }

/-- A setting, or its default if it is missing or no positive number of 32 bits. -/
def setting (text : Option String) (default : Nat) : Nat :=
  (text.bind (readPositive (Nat.pow 2 32))).getD default

def read (maxConnections acquireSeconds : Option String) : PoolSettings :=
  { standard with
    maxConnections := setting maxConnections standard.maxConnections
    acquireSeconds := setting acquireSeconds standard.acquireSeconds }

end PoolSettings

/-- The restart policies of the coordinator's four tasks. -/
structure Policies where
  timed : RestartPolicy
  hook : RestartPolicy
  listener : RestartPolicy
  gauge : RestartPolicy
  deriving DecidableEq, Repr

/-- The timed refresh pauses for as long as it waits between two refreshes. -/
def Policies.standard (intervalMillis : Nat) : Policies where
  timed := ⟨"timed_sync", intervalMillis⟩
  hook := ⟨"hook_sync", hookCooldownMillis⟩
  listener := ⟨"pubsub_listener", listenerCooldownSeconds * 1000⟩
  gauge := ⟨"gauge", gaugeSeconds * 1000⟩

def Policies.all (p : Policies) : List RestartPolicy := [p.timed, p.hook, p.listener, p.gauge]

end RefCache
