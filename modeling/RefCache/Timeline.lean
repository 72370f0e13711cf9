import RefCache.Supervisor

/-! A supervised task that follows a script, on a clock of its own. The n-th run does what the n-th
entry says; runs after the last entry wait for the shutdown. A run may last as long as it likes, one
that sleeps on a timer no longer than timers do. -/

namespace RefCache

inductive ScriptedEnd where
  | ends (how : RunEnd)
  /-- Returns once shutdown is requested or nobody is left to request it. -/
  | waits
  /-- Panics before the run is under way. -/
  | escapes (payload : Payload)
  deriving DecidableEq, Repr

/-- A run that lasts so many milliseconds and then does something. -/
structure LastingRun where
  duration : Nat
  ending : ScriptedEnd
  deriving DecidableEq, Repr

/-- A run that sleeps on one timer and then does something. -/
structure ScriptedRun where
  sleep : Nat
  ending : ScriptedEnd
  deriving DecidableEq, Repr

def ScriptedRun.lasting (run : ScriptedRun) : LastingRun := ⟨min run.sleep longestTimer, run.ending⟩

/-- The runs to come, the time, and when runs were started. -/
structure Script where
  now : Nat
  runs : List LastingRun
  starts : List Nat
  deriving DecidableEq, Repr

/-- A run of the script under way. -/
structure RunningScript where
  until_ : Nat
  ending : ScriptedEnd
  deriving DecidableEq, Repr

namespace Script

def begin (s : Script) : RunTurn Script RunningScript :=
  let after := { s with runs := s.runs.tail, starts := s.starts ++ [s.now] }
  match s.runs.head? with
  | some run =>
    match run.ending with
    | .escapes p => ⟨after, .error (.escaped p), []⟩
    | ending => ⟨after, .ok ⟨s.now + run.duration, ending⟩, []⟩
  | none => ⟨after, .ok ⟨s.now, .waits⟩, []⟩

def turn (signal : ShutdownSignal) (s : Script) (run : RunningScript) :
    List (RunTurn Script RunningScript) :=
  if s.now < run.until_ then []
  else
    match run.ending with
    | .ends how => [⟨s, .error how, []⟩]
    | .waits => if signal.resolved then [⟨s, .error .returned, []⟩] else []
    | .escapes p => [⟨s, .error (.escaped p), []⟩]

def task : Task Script RunningScript where
  start := begin
  turns := turn
  deadline run := some run.until_

end Script

/-- The supervised script, and the events since somebody last looked, oldest first. -/
structure Timeline where
  signal : ShutdownSignal
  script : Script
  supervised : Supervised RunningScript
  events : List Event

namespace Timeline

/-- The first open turn. -/
def move? (t : Timeline) : Option Timeline :=
  (t.supervised.turns Script.task t.signal t.script.now t.script).head?.map fun turn =>
    { t with
      script := turn.world, supervised := turn.supervised, events := t.events ++ turn.events }

def run : Nat → Timeline → Timeline
  | 0, t => t
  | fuel + 1, t =>
    match t.move? with
    | some after => run fuel after
    | none => t

/-- At one instant a run takes three turns: it starts, ends, and its pause is over. Every run but
the last two uses up an entry of the script. -/
def turnBound (t : Timeline) : Nat := 3 * t.script.runs.length + 9

def settle (t : Timeline) : Timeline := t.run t.turnBound

def deadline? (t : Timeline) (limit : Nat) : Option Nat :=
  (t.supervised.deadline Script.task).filter fun d => t.script.now < d && d ≤ limit

def setNow (t : Timeline) (now : Nat) : Timeline := { t with script.now := now }

def runUntil (limit : Nat) : Nat → Timeline → Timeline
  | 0, t => t
  | fuel + 1, t =>
    match t.deadline? limit with
    | some d => runUntil limit fuel (t.setNow d).settle
    | none => (t.setNow limit).settle

/-- Nothing has happened yet; whatever comes first, the supervisor finds it done. -/
def ofRuns (policy : RestartPolicy) (runs : List LastingRun) (stopped : Bool) : Timeline :=
  ⟨⟨stopped, false⟩, ⟨0, runs, []⟩, .create policy, []⟩

def start (policy : RestartPolicy) (runs : List ScriptedRun) (stopped : Bool) : Timeline :=
  ofRuns policy (runs.map ScriptedRun.lasting) stopped

def advance (t : Timeline) (millis : Nat) : Timeline :=
  t.settle.runUntil (t.script.now + millis) (millis + 1)

/-- Requests the shutdown, if somebody is left who can. -/
def requestShutdown (t : Timeline) : Timeline :=
  { t with signal.requested := t.signal.requested || !t.signal.abandoned }.settle

/-- The last one who could request the shutdown goes away. -/
def dropSender (t : Timeline) : Timeline := { t with signal.abandoned := true }.settle

end Timeline

end RefCache
