import RefCache.Error
import RefCache.Event

/-! Supervision: a task is run again and again until shutdown. Every run that ends before that,
well or not, is logged as a failure and followed by a pause of fixed length. -/

namespace RefCache

/-- Thirty years in milliseconds: no timer runs longer, whatever it is set to. -/
def longestTimer : Nat := 30 * 365 * 86400000

/-- When a timer set now goes off. -/
def timerEnd (now millis : Nat) : Nat := now + min millis longestTimer

/-- A task's name in the log, and the pause between two runs in milliseconds. -/
structure RestartPolicy where
  task : String
  cooldown : Nat
  deriving DecidableEq, Repr

/-- The pause as the log shows it: a number of 64 bits. -/
def RestartPolicy.shownCooldown (policy : RestartPolicy) : Nat := policy.cooldown % Nat.pow 2 64

/-- What is known of the shutdown: it was requested, or nobody is left to request it. -/
structure ShutdownSignal where
  requested : Bool
  abandoned : Bool
  deriving DecidableEq, Repr

namespace ShutdownSignal

def none : ShutdownSignal := ⟨false, false⟩

/-- Whoever waits for a request waits no longer. -/
def resolved (s : ShutdownSignal) : Bool := s.requested || s.abandoned

end ShutdownSignal

/-- How a run ends; one that panics before it is under way takes its supervisor with it. -/
inductive RunEnd where
  | returned
  | failed (error : Error)
  | panicked (payload : Payload)
  | escaped (payload : Payload)
  deriving DecidableEq, Repr

/-- What a supervisor is doing; a run under way has a state of its own. -/
inductive Stage (ρ : Type) where
  | starting
  | running (run : ρ)
  | cooling (until_ : Nat)
  | stopped
  deriving DecidableEq, Repr

structure Supervised (ρ : Type) where
  policy : RestartPolicy
  restarts : Nat
  stage : Stage ρ
  deriving DecidableEq, Repr

/-- One turn of a run: the world after it, and the run's new state or its end. -/
structure RunTurn (σ ρ : Type) where
  world : σ
  next : Except RunEnd ρ
  events : List Event

/-- A task: how a run of it begins, and every turn that a run under way can take. When several are
open, any of them may be taken; none means that the run waits. -/
structure Task (σ ρ : Type) where
  start : σ → RunTurn σ ρ
  turns : ShutdownSignal → σ → ρ → List (RunTurn σ ρ)
  /-- When a waiting run wants to be looked at again. -/
  deadline : ρ → Option Nat

/-- One turn of a supervised task. -/
structure Turn (σ ρ : Type) where
  world : σ
  supervised : Supervised ρ
  events : List Event

namespace Supervised

variable {σ ρ : Type}

def create (policy : RestartPolicy) : Supervised ρ := ⟨policy, 0, .starting⟩

def startedEvent (s : Supervised ρ) : Event :=
  ⟨.info, "Starting task", [("task", .text s.policy.task), ("restarts", .count s.restarts)]⟩

def stoppedEvent (s : Supervised ρ) : Event :=
  ⟨.info, "Task stopped", [("task", .text s.policy.task), ("restarts", .count s.restarts)]⟩

def failureEvent (s : Supervised ρ) (message : String) (error : List (String × Json)) : Event :=
  ⟨.error, message,
    [("task", .text s.policy.task), ("cooldown_ms", .count s.policy.shownCooldown)] ++ error⟩

def stop (s : Supervised ρ) : Supervised ρ × List Event :=
  ({ s with stage := .stopped }, [s.stoppedEvent])

/-- After a run that ended with some failure: either the end, or a pause. -/
def pause (s : Supervised ρ) (signal : ShutdownSignal) (now : Nat) (failure : Event) :
    Supervised ρ × List Event :=
  if signal.requested then s.stop
  else
    ({ s with
        restarts := s.restarts + 1
        stage := .cooling (timerEnd now s.policy.cooldown) }, [failure])

/-- Takes note of the end of a run. -/
def runEnded (s : Supervised ρ) (signal : ShutdownSignal) (now : Nat) :
    RunEnd → Supervised ρ × List Event
  | .returned => s.pause signal now (s.failureEvent "Task exited unexpectedly, restarting" [])
  | .failed e =>
    s.pause signal now (s.failureEvent "Task failed, restarting" [("error", .text e.message)])
  | .panicked p =>
    let (s, events) := s.pause signal now
      (s.failureEvent "Task panicked, restarting" [("error", .text p.message)])
    (s, p.captured :: events)
  | .escaped p => ({ s with stage := .stopped }, [p.captured])

/-- The supervised task after a turn of its run. -/
def afterRun (s : Supervised ρ) (signal : ShutdownSignal) (now : Nat) (t : RunTurn σ ρ) :
    Turn σ ρ :=
  match t.next with
  | .ok run => ⟨t.world, { s with stage := .running run }, t.events⟩
  | .error e =>
    let (s, events) := s.runEnded signal now e
    ⟨t.world, s, t.events ++ events⟩

/-- Every turn that is open, shutdown first. -/
def turns (task : Task σ ρ) (signal : ShutdownSignal) (now : Nat) (world : σ) (s : Supervised ρ) :
    List (Turn σ ρ) :=
  match s.stage with
  | .starting =>
    if signal.requested then
      let (s, events) := s.stop
      [⟨world, s, events⟩]
    else
      let turn := s.afterRun signal now (task.start world)
      [{ turn with events := s.startedEvent :: turn.events }]
  | .running run => (task.turns signal world run).map (s.afterRun signal now)
  | .cooling until_ =>
    let (stopped, events) := s.stop
    (if signal.resolved then [⟨world, stopped, events⟩] else []) ++
      (if until_ ≤ now then [⟨world, { s with stage := .starting }, []⟩] else [])
  | .stopped => []

def deadline (task : Task σ ρ) (s : Supervised ρ) : Option Nat :=
  match s.stage with
  | .running run => task.deadline run
  | .cooling until_ => some until_
  | .starting | .stopped => none

def isStopped (s : Supervised ρ) : Bool :=
  match s.stage with
  | .stopped => true
  | _ => false

end Supervised

end RefCache
