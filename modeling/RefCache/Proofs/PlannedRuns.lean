import RefCache.Timeline
import Mathlib.Data.Nat.Init

/-! Planned runs of a supervised task, by the clock. Between two moves of the clock a plan stands in
one of a few places: a run is under way, or a pause, or the last run waits, or everything has
stopped. Every timer that goes off leads from one of them to another, and so does the request for a
shutdown. A pause counts for no more than thirty years, whatever it is set to. -/

namespace RefCache

/-- How a run ends of its own accord. -/
inductive Outcome where
  | returned
  | failed (error : Error)
  | panicked (payload : Payload)

namespace Outcome

def runEnd : Outcome → RunEnd
  | returned => .returned
  | failed e => .failed e
  | panicked p => .panicked p

/-- The event of a panic, which is logged whatever comes of it. -/
def captured : Outcome → List Event
  | panicked p => [p.captured]
  | _ => []

/-- What a supervisor logs of a run that it did not expect to end. -/
def failure (policy : RestartPolicy) : Outcome → Event
  | returned =>
    ⟨.error, "Task exited unexpectedly, restarting",
      [("task", .text policy.task), ("cooldown_ms", .count (policy.cooldown % Nat.pow 2 64))]⟩
  | failed e =>
    ⟨.error, "Task failed, restarting",
      [("task", .text policy.task), ("cooldown_ms", .count (policy.cooldown % Nat.pow 2 64)),
        ("error", .text e.message)]⟩
  | panicked p =>
    ⟨.error, "Task panicked, restarting",
      [("task", .text policy.task), ("cooldown_ms", .count (policy.cooldown % Nat.pow 2 64)),
        ("error", .text p.message)]⟩

end Outcome

/-- A run that lasts so many milliseconds and ends of its own accord. -/
structure PlannedRun where
  duration : Nat
  outcome : Outcome

def PlannedRun.lasting (r : PlannedRun) : LastingRun := ⟨r.duration, .ends r.outcome.runEnd⟩

/-- How long the pause between two runs is by its timer. -/
def RestartPolicy.pause (policy : RestartPolicy) : Nat := min policy.cooldown longestTimer

/-- The sum of some times. -/
def total (times : List Nat) : Nat := times.foldr (· + ·) 0

theorem total_append (a b : List Nat) : total (a ++ b) = total a + total b := by
  induction a with
  | nil => exact (Nat.zero_add _).symm
  | cons time a ih => exact (congrArg (time + ·) ih).trans (Nat.add_assoc ..).symm

namespace Timeline

section Plan

variable (policy : RestartPolicy) (runs : List PlannedRun)

/-- When a run is due: after all runs before it and the pauses that follow them. -/
def startTime (k : Nat) : Nat := total ((runs.take k).map fun r => r.duration + policy.pause)

def startTimes (k : Nat) : List Nat := (List.range k).map (startTime policy runs)

def startedEvent (k : Nat) : Event :=
  ⟨.info, "Starting task", [("task", .text policy.task), ("restarts", .count k)]⟩

def stoppedEvent (k : Nat) : Event :=
  ⟨.info, "Task stopped", [("task", .text policy.task), ("restarts", .count k)]⟩

/-- What is logged of the first runs when all of them have failed. -/
def failedLog : Nat → List Event
  | 0 => []
  | k + 1 =>
    failedLog k ++ startedEvent policy k ::
      (runs[k]?.map fun r => r.outcome.captured ++ [r.outcome.failure policy]).getD []

end Plan

variable {policy : RestartPolicy} {runs : List PlannedRun} {k m now : Nat} {r : PlannedRun}

theorem startTime_succ (h : runs[k]? = some r) :
    startTime policy runs (k + 1) = startTime policy runs k + r.duration + policy.pause := by
  have hlast : total [r.duration + policy.pause] = r.duration + policy.pause := rfl
  rw [startTime, List.take_add_one, h, Option.toList_some, List.map_append, List.map_cons,
    List.map_nil, total_append, hlast, Nat.add_assoc]
  rfl

theorem startTime_le_succ : startTime policy runs k ≤ startTime policy runs (k + 1) := by
  cases h : runs[k]? with
  | none => simp [startTime, List.take_add_one, h]
  | some r =>
    rw [startTime_succ h]
    omega

theorem startTime_mono (h : k ≤ m) : startTime policy runs k ≤ startTime policy runs m := by
  induction m, h using Nat.le_induction with
  | base => exact Nat.le_refl _
  | succ m _ ih => exact Nat.le_trans ih startTime_le_succ

/-- A run and its pause are over when a later run is due. -/
theorem over_by_startTime (h : runs[k]? = some r) (hk : k < m) :
    startTime policy runs k + r.duration + policy.pause ≤ startTime policy runs m := by
  rw [← startTime_succ h]
  exact startTime_mono hk

theorem startTimes_succ :
    startTimes policy runs (k + 1) = startTimes policy runs k ++ [startTime policy runs k] := by
  simp [startTimes, List.range_succ]

theorem failedLog_succ (h : runs[k]? = some r) :
    failedLog policy runs (k + 1) = failedLog policy runs k ++ [startedEvent policy k] ++
      (r.outcome.captured ++ [r.outcome.failure policy]) := by
  simp [failedLog, h]

/-! ### Moves -/

theorem run_of_settled {t : Timeline} (h : t.move? = none) (fuel : Nat) : run fuel t = t := by
  cases fuel with
  | zero => rfl
  | succ fuel => rw [run, h]

theorem run_of_move {t u : Timeline} (h : t.move? = some u) (fuel : Nat) :
    run (fuel + 1) t = run fuel u := by
  rw [run, h]

theorem settle_of_settled {t : Timeline} (h : t.move? = none) : t.settle = t :=
  run_of_settled h _

theorem settle_of_move {t u : Timeline} (h : t.move? = some u) (hu : u.move? = none) :
    t.settle = u :=
  (run_of_move h _).trans (run_of_settled hu _)

/-- Settling has turns to spare after a first move. -/
theorem exists_settle_eq_run {t u : Timeline} (h : t.move? = some u) :
    ∃ fuel, t.settle = run (fuel + 2) u :=
  ⟨3 * t.script.runs.length + 6, run_of_move h _⟩

variable {requested : Bool} {left : List PlannedRun} {starts : List Nat} {until_ : Nat}
  {events : List Event}

/-- A timeline of planned runs. -/
def planned (policy : RestartPolicy) (requested : Bool) (now : Nat) (left : List PlannedRun)
    (starts : List Nat) (restarts : Nat) (stage : Stage RunningScript) (events : List Event) :
    Timeline :=
  ⟨⟨requested, false⟩, ⟨now, left.map PlannedRun.lasting, starts⟩, ⟨policy, restarts, stage⟩,
    events⟩

theorem move?_due_run :
    (planned policy false now (r :: left) starts k .starting events).move? =
      some (planned policy false now left (starts ++ [now]) k
        (.running ⟨now + r.duration, .ends r.outcome.runEnd⟩) (events ++ [startedEvent policy k])) :=
  rfl

theorem move?_due_wait :
    (planned policy false now [] starts k .starting events).move? =
      some (planned policy false now [] (starts ++ [now]) k (.running ⟨now, .waits⟩)
        (events ++ [startedEvent policy k])) :=
  rfl

theorem move?_due_requested :
    (planned policy true now left starts k .starting events).move? =
      some (planned policy true now left starts k .stopped (events ++ [stoppedEvent policy k])) :=
  rfl

theorem move?_running (h : now < until_) {ending : ScriptedEnd} :
    (planned policy requested now left starts k (.running ⟨until_, ending⟩) events).move? =
      none := by
  simp [planned, move?, Supervised.turns, Script.task, Script.turn, h]

/-- A run that has come to its end is followed by a pause. -/
theorem move?_ended (h : until_ ≤ now) {outcome : Outcome} :
    (planned policy false now left starts k (.running ⟨until_, .ends outcome.runEnd⟩)
      events).move? =
      some (planned policy false now left starts (k + 1) (.cooling (now + policy.pause))
        (events ++ (outcome.captured ++ [outcome.failure policy]))) := by
  have hover : ¬now < until_ := Nat.not_lt.2 h
  cases outcome <;>
    simp [planned, move?, Supervised.turns, Script.task, Script.turn, hover, Outcome.runEnd,
      Supervised.afterRun, Supervised.runEnded, Supervised.pause, Supervised.failureEvent,
      Outcome.captured, Outcome.failure, RestartPolicy.pause, RestartPolicy.shownCooldown, timerEnd]

theorem move?_ended_requested (h : until_ ≤ now) {outcome : Outcome} :
    (planned policy true now left starts k (.running ⟨until_, .ends outcome.runEnd⟩)
      events).move? =
      some (planned policy true now left starts k .stopped
        (events ++ (outcome.captured ++ [stoppedEvent policy k]))) := by
  have hover : ¬now < until_ := Nat.not_lt.2 h
  cases outcome <;>
    simp [planned, move?, Supervised.turns, Script.task, Script.turn, hover, Outcome.runEnd,
      Supervised.afterRun, Supervised.runEnded, Supervised.pause, Supervised.stop,
      Supervised.stoppedEvent, stoppedEvent, Outcome.captured]

theorem move?_waiting :
    (planned policy false now left starts k (.running ⟨until_, .waits⟩) events).move? = none := by
  by_cases h : now < until_ <;>
    simp [planned, move?, Supervised.turns, Script.task, Script.turn, h, ShutdownSignal.resolved]

theorem move?_waiting_requested (h : until_ ≤ now) :
    (planned policy true now left starts k (.running ⟨until_, .waits⟩) events).move? =
      some (planned policy true now left starts k .stopped
        (events ++ [stoppedEvent policy k])) := by
  have hover : ¬now < until_ := Nat.not_lt.2 h
  simp [planned, move?, Supervised.turns, Script.task, Script.turn, hover, Supervised.afterRun,
    Supervised.runEnded, Supervised.pause, Supervised.stop, Supervised.stoppedEvent, stoppedEvent,
    ShutdownSignal.resolved]

theorem move?_cooling (h : now < until_) :
    (planned policy false now left starts k (.cooling until_) events).move? = none := by
  have hearly : ¬until_ ≤ now := Nat.not_le.2 h
  simp [planned, move?, Supervised.turns, ShutdownSignal.resolved, hearly]

theorem move?_cooled (h : until_ ≤ now) :
    (planned policy false now left starts k (.cooling until_) events).move? =
      some (planned policy false now left starts k .starting events) := by
  simp [planned, move?, Supervised.turns, ShutdownSignal.resolved, h]

theorem move?_cooling_requested :
    (planned policy true now left starts k (.cooling until_) events).move? =
      some (planned policy true now left starts k .stopped
        (events ++ [stoppedEvent policy k])) :=
  rfl

theorem move?_stopped :
    (planned policy requested now left starts k .stopped events).move? = none :=
  rfl

/-! ### Where a plan stands -/

/-- Times that have come by now, and before the shutdown was requested. -/
def InTime (shutdown : Option Nat) (now time : Nat) : Prop :=
  time ≤ now ∧ ∀ T ∈ shutdown, time < T

def isRequested (shutdown : Option Nat) (now : Nat) : Bool := shutdown.any (· ≤ now)

variable {shutdown : Option Nat} {T : Nat}

theorem InTime.of_le {a b : Nat} (h : InTime shutdown now b) (hab : a ≤ b) :
    InTime shutdown now a :=
  ⟨Nat.le_trans hab h.1, fun T hT => Nat.lt_of_le_of_lt hab (h.2 T hT)⟩

/-- All states that a plan can be in between two moves of the clock. -/
inductive Stands (policy : RestartPolicy) (runs : List PlannedRun) (shutdown : Option Nat)
    (now : Nat) : Timeline → Prop where
  /-- A run is under way. -/
  | running {m : Nat} {r : PlannedRun} : runs[m]? = some r →
    InTime shutdown now (startTime policy runs m) → now < startTime policy runs m + r.duration →
    Stands policy runs shutdown now
      (planned policy (isRequested shutdown now) now (runs.drop (m + 1))
        (startTimes policy runs (m + 1)) m
        (.running ⟨startTime policy runs m + r.duration, .ends r.outcome.runEnd⟩)
        (failedLog policy runs m ++ [startedEvent policy m]))
  /-- The pause after a run. -/
  | cooling {m : Nat} {r : PlannedRun} : runs[m]? = some r → isRequested shutdown now = false →
    startTime policy runs m + r.duration ≤ now → now < startTime policy runs (m + 1) →
    Stands policy runs shutdown now
      (planned policy false now (runs.drop (m + 1)) (startTimes policy runs (m + 1)) (m + 1)
        (.cooling (startTime policy runs (m + 1))) (failedLog policy runs (m + 1)))
  /-- The last run, which waits for the shutdown. -/
  | waiting : isRequested shutdown now = false → startTime policy runs runs.length ≤ now →
    Stands policy runs shutdown now
      (planned policy false now [] (startTimes policy runs (runs.length + 1)) runs.length
        (.running ⟨startTime policy runs runs.length, .waits⟩)
        (failedLog policy runs runs.length ++ [startedEvent policy runs.length]))
  /-- The shutdown was requested before anything was started. -/
  | unstarted : shutdown = some 0 →
    Stands policy runs shutdown now
      (planned policy true now runs [] 0 .stopped [stoppedEvent policy 0])
  /-- The shutdown was requested while a run was under way, which has ended since. -/
  | outrun {m : Nat} {r : PlannedRun} {T : Nat} : runs[m]? = some r → shutdown = some T →
    startTime policy runs m < T → T < startTime policy runs m + r.duration →
    startTime policy runs m + r.duration ≤ now →
    Stands policy runs shutdown now
      (planned policy true now (runs.drop (m + 1)) (startTimes policy runs (m + 1)) m .stopped
        (failedLog policy runs m ++ [startedEvent policy m] ++
          (r.outcome.captured ++ [stoppedEvent policy m])))
  /-- The shutdown was requested in the pause after a run. -/
  | cut {m : Nat} {r : PlannedRun} {T : Nat} : runs[m]? = some r → shutdown = some T →
    startTime policy runs m + r.duration < T → T < startTime policy runs (m + 1) → T ≤ now →
    Stands policy runs shutdown now
      (planned policy true now (runs.drop (m + 1)) (startTimes policy runs (m + 1)) (m + 1)
        .stopped (failedLog policy runs (m + 1) ++ [stoppedEvent policy (m + 1)]))
  /-- The shutdown was requested while the last run waited for it. -/
  | woken {T : Nat} : shutdown = some T → startTime policy runs runs.length < T → T ≤ now →
    Stands policy runs shutdown now
      (planned policy true now [] (startTimes policy runs (runs.length + 1)) runs.length .stopped
        (failedLog policy runs runs.length ++ [startedEvent policy runs.length] ++
          [stoppedEvent policy runs.length]))

/-- The plan when its next run is due. -/
def due (policy : RestartPolicy) (runs : List PlannedRun) (m : Nat) : Timeline :=
  planned policy false (startTime policy runs m) (runs.drop m) (startTimes policy runs m) m
    .starting (failedLog policy runs m)

theorem Stands.settled {t : Timeline} (h : Stands policy runs shutdown now t) :
    t.move? = none := by
  cases h with
  | running hm hstart hend => exact move?_running hend
  | cooling hm hnot hend hnext => exact move?_cooling hnext
  | waiting hnot hstart => exact move?_waiting
  | _ => exact move?_stopped

theorem Stands.run {t : Timeline} (h : Stands policy runs shutdown now t) (fuel : Nat) :
    Stands policy runs shutdown now (run fuel t) := by
  rwa [run_of_settled h.settled]

theorem Stands.of_move {t u : Timeline} (h : Stands policy runs shutdown now u)
    (hmove : t.move? = some u) : Stands policy runs shutdown now t.settle := by
  rwa [settle_of_move hmove h.settled]

/-- At one instant a run starts, and if it takes no time its pause begins. -/
theorem stands_due (hpause : 0 < policy.pause) (hm : m ≤ runs.length) (fuel : Nat) :
    Stands policy runs none (startTime policy runs m) (run (fuel + 2) (due policy runs m)) := by
  unfold due
  rcases Nat.lt_or_eq_of_le hm with hlt | rfl
  · obtain ⟨r, hr⟩ : ∃ r, runs[m]? = some r := ⟨_, List.getElem?_eq_getElem hlt⟩
    have hdrop : runs.drop m = r :: runs.drop (m + 1) := by
      rw [List.drop_eq_getElem_cons hlt]
      congr
      exact Option.some.inj ((List.getElem?_eq_getElem hlt).symm.trans hr)
    rw [hdrop, run_of_move move?_due_run, ← startTimes_succ]
    rcases Nat.eq_zero_or_pos r.duration with hzero | hpos
    · have hend : startTime policy runs m + r.duration ≤ startTime policy runs m := by omega
      have hnext : startTime policy runs (m + 1) = startTime policy runs m + policy.pause := by
        rw [startTime_succ hr]
        omega
      rw [run_of_move (move?_ended hend), ← failedLog_succ hr, ← hnext]
      exact (Stands.cooling hr rfl hend (by omega)).run fuel
    · have hstart : InTime none (startTime policy runs m) (startTime policy runs m) :=
        ⟨Nat.le_refl _, nofun⟩
      exact (Stands.running hr hstart (by omega)).run (fuel + 1)
  · rw [List.drop_length, run_of_move move?_due_wait, ← startTimes_succ]
    exact (Stands.waiting rfl (Nat.le_refl _)).run (fuel + 1)

/-! ### The clock -/

theorem InTime.later {limit time : Nat} (h : InTime shutdown now time) (hlimit : now ≤ limit) :
    InTime shutdown limit time :=
  ⟨Nat.le_trans h.1 hlimit, h.2⟩

/-- Whether the shutdown is requested does not change after the time of the shutdown. -/
theorem isRequested_later {limit : Nat} (hpast : ∀ T ∈ shutdown, T ≤ now) (hlimit : now ≤ limit) :
    isRequested shutdown limit = isRequested shutdown now := by
  cases shutdown with
  | none => rfl
  | some T =>
    have hnow : T ≤ now := hpast T rfl
    have hlater : T ≤ limit := Nat.le_trans hnow hlimit
    simp [isRequested, hnow, hlater]

theorem isRequested_past (hpast : ∀ T ∈ shutdown, T ≤ now) :
    isRequested shutdown now = shutdown.isSome := by
  cases shutdown with
  | none => rfl
  | some T => simpa [isRequested] using hpast T rfl

theorem Stands.now_eq {t : Timeline} (h : Stands policy runs shutdown now t) :
    t.script.now = now := by
  cases h <;> rfl

theorem Stands.deadline_spec {t : Timeline} {limit d : Nat}
    (h : Stands policy runs shutdown now t) (hd : t.deadline? limit = some d) :
    now < d ∧ d ≤ limit := by
  have hfilter := (Option.filter_eq_some_iff.1 hd).2
  rw [h.now_eq] at hfilter
  simpa using hfilter

/-- No timer goes off before the limit. -/
theorem Stands.later {t : Timeline} {limit : Nat} (h : Stands policy runs shutdown now t)
    (hpast : ∀ T ∈ shutdown, T ≤ now) (hlimit : now ≤ limit) (hd : t.deadline? limit = none) :
    Stands policy runs shutdown limit (t.setNow limit) := by
  have hsame := isRequested_later hpast hlimit
  have hdue : ∀ until_, t.supervised.deadline Script.task = some until_ → now < until_ →
      limit < until_ := by
    intro until_ huntil hlater
    have hnone := Option.filter_eq_none_iff.1 hd until_ huntil
    rw [h.now_eq] at hnone
    simp only [Bool.and_eq_true, decide_eq_true_eq, not_and, Nat.not_le] at hnone
    exact hnone hlater
  cases h with
  | running hm hstart hend =>
    rw [← hsame]
    exact .running hm (hstart.later hlimit) (hdue _ rfl hend)
  | cooling hm hnot hend hnext =>
    exact .cooling hm (hsame.trans hnot) (Nat.le_trans hend hlimit) (hdue _ rfl hnext)
  | waiting hnot hstart => exact .waiting (hsame.trans hnot) (Nat.le_trans hstart hlimit)
  | unstarted hT => exact .unstarted hT
  | outrun hm hT hstart hend hover => exact .outrun hm hT hstart hend (Nat.le_trans hover hlimit)
  | cut hm hT hend hnext hnow => exact .cut hm hT hend hnext (Nat.le_trans hnow hlimit)
  | woken hT hstart hnow => exact .woken hT hstart (Nat.le_trans hnow hlimit)

/-- The next timer goes off. -/
theorem Stands.jump {t : Timeline} {limit d : Nat} (hpause : 0 < policy.pause)
    (h : Stands policy runs shutdown now t) (hpast : ∀ T ∈ shutdown, T ≤ now)
    (hd : t.deadline? limit = some d) : Stands policy runs shutdown d (t.setNow d).settle := by
  obtain ⟨hnow, hlimit⟩ := h.deadline_spec hd
  have hsame := isRequested_later hpast (Nat.le_of_lt hnow)
  have hdeadline := (Option.filter_eq_some_iff.1 hd).1
  cases h with
  | @running m r hm hstart hend =>
    obtain rfl : startTime policy runs m + r.duration = d := Option.some.inj hdeadline
    rw [isRequested_past hpast]
    cases shutdown with
    | none =>
      have hnext : startTime policy runs (m + 1) =
          startTime policy runs m + r.duration + policy.pause := startTime_succ hm
      have hcooling : Stands policy runs none (startTime policy runs m + r.duration) _ :=
        .cooling hm rfl (Nat.le_refl _) (by omega)
      rw [failedLog_succ hm, hnext] at hcooling
      exact hcooling.of_move (move?_ended (Nat.le_refl _))
    | some T =>
      have hT : T ≤ now := hpast T rfl
      have houtrun : Stands policy runs (some T) (startTime policy runs m + r.duration) _ :=
        .outrun hm rfl (hstart.2 T rfl) (by omega) (Nat.le_refl _)
      exact houtrun.of_move (move?_ended_requested (Nat.le_refl _))
  | @cooling m r hm hnot hend hnext =>
    obtain rfl : startTime policy runs (m + 1) = d := Option.some.inj hdeadline
    rw [isRequested_past hpast] at hnot
    obtain rfl : shutdown = none := by simpa using hnot
    have hlength : m + 1 ≤ runs.length := (List.getElem?_eq_some_iff.1 hm).1
    obtain ⟨fuel, hsettle⟩ := exists_settle_eq_run (move?_cooled (Nat.le_refl _))
    exact hsettle ▸ stands_due hpause hlength fuel
  | waiting hnot hstart =>
    obtain rfl : startTime policy runs runs.length = d := Option.some.inj hdeadline
    exact absurd hnow (Nat.not_lt.2 hstart)
  | _ => cases hdeadline

/-- What one timer keeps, the clock keeps until the limit. -/
theorem Stands.runUntil {t : Timeline} {limit fuel : Nat} (hpause : 0 < policy.pause)
    (h : Stands policy runs shutdown now t) (hpast : ∀ T ∈ shutdown, T ≤ now)
    (hlimit : now ≤ limit) (hfuel : limit - now < fuel) :
    Stands policy runs shutdown limit (t.runUntil limit fuel) := by
  induction fuel generalizing now t with
  | zero => exact absurd hfuel (Nat.not_lt_zero _)
  | succ fuel ih =>
    rw [Timeline.runUntil]
    cases hd : t.deadline? limit with
    | none =>
      have hlater := h.later hpast hlimit hd
      rwa [settle_of_settled hlater.settled]
    | some d =>
      obtain ⟨hnow, hd'⟩ := h.deadline_spec hd
      exact ih (h.jump hpause hpast hd)
        (fun T hT => Nat.le_trans (hpast T hT) (Nat.le_of_lt hnow)) hd' (by omega)

theorem Stands.advance {t : Timeline} (hpause : 0 < policy.pause)
    (h : Stands policy runs shutdown now t) (hpast : ∀ T ∈ shutdown, T ≤ now) (millis : Nat) :
    Stands policy runs shutdown (now + millis) (t.advance millis) := by
  rw [Timeline.advance, settle_of_settled h.settled, h.now_eq]
  exact h.runUntil hpause hpast (Nat.le_add_right _ _) (by omega)

/-! ### Supervision with a shutdown -/

/-- The script of some planned runs, which nobody has looked at yet. -/
def scheduled (policy : RestartPolicy) (runs : List PlannedRun) : Timeline :=
  ofRuns policy (runs.map PlannedRun.lasting) false

theorem stands_scheduled (hpause : 0 < policy.pause) (now : Nat) :
    Stands policy runs none now ((scheduled policy runs).advance now) := by
  have hstart : Stands policy runs none 0 (scheduled policy runs).settle :=
    stands_due hpause (Nat.zero_le _) _
  have hrun := hstart.runUntil hpause nofun (Nat.zero_le now) (Nat.lt_succ_self _)
  have hzero : (scheduled policy runs).script.now = 0 := rfl
  rwa [Timeline.advance, hzero, Nat.zero_add]

/-- What has become of the runs when the shutdown is requested at some time, if at all, and some
milliseconds have gone by. A shutdown at the very start comes before everything else. -/
def observed (policy : RestartPolicy) (runs : List PlannedRun) (shutdown : Option Nat)
    (now : Nat) : Timeline :=
  match shutdown with
  | none => (scheduled policy runs).advance now
  | some T =>
    if now < T then (scheduled policy runs).advance now
    else if T = 0 then (scheduled policy runs).requestShutdown.advance now
    else ((scheduled policy runs).advance T).requestShutdown.advance (now - T)

/-- The shutdown does not coincide with the end of a run or of a pause. -/
def Apart (policy : RestartPolicy) (runs : List PlannedRun) (shutdown : Option Nat) : Prop :=
  ∀ T ∈ shutdown, ∀ k r, runs[k]? = some r →
    T ≠ startTime policy runs k + r.duration ∧ T ≠ startTime policy runs (k + 1)

theorem Apart.ne_startTime (h : Apart policy runs (some T)) (hT : T ≠ 0) (hm : m ≤ runs.length) :
    T ≠ startTime policy runs m := by
  cases m with
  | zero => exact hT
  | succ m => exact (h T rfl m _ (List.getElem?_eq_getElem hm)).2

theorem Stands.requestShutdown {t : Timeline} (h : Stands policy runs none T t) (hT : T ≠ 0)
    (hapart : Apart policy runs (some T)) :
    Stands policy runs (some T) T t.requestShutdown := by
  have hsome : isRequested (some T) T = true := by simp [isRequested]
  cases h with
  | @running m r hm hstart hend =>
    have hlength : m ≤ runs.length := Nat.le_of_lt (List.getElem?_eq_some_iff.1 hm).1
    have hlt : startTime policy runs m < T :=
      Nat.lt_of_le_of_ne hstart.1 (hapart.ne_startTime hT hlength).symm
    have hrunning : Stands policy runs (some T) T _ :=
      .running hm ⟨hstart.1, fun U hU => Option.some.inj hU ▸ hlt⟩ hend
    rw [hsome] at hrunning
    exact hrunning.run _
  | @cooling m r hm hnot hend hnext =>
    have hlt : startTime policy runs m + r.duration < T :=
      Nat.lt_of_le_of_ne hend (hapart T rfl m r hm).1.symm
    have hcut : Stands policy runs (some T) T _ := .cut hm rfl hlt hnext (Nat.le_refl T)
    exact hcut.of_move move?_cooling_requested
  | waiting hnot hstart =>
    have hlt : startTime policy runs runs.length < T :=
      Nat.lt_of_le_of_ne hstart (hapart.ne_startTime hT (Nat.le_refl _)).symm
    have hwoken : Stands policy runs (some T) T _ := .woken rfl hlt (Nat.le_refl T)
    exact hwoken.of_move (move?_waiting_requested hstart)
  | unstarted hT => cases hT
  | outrun hm hT => cases hT
  | cut hm hT => cases hT
  | woken hT => cases hT

/-- Before its time, a shutdown makes no difference. -/
theorem Stands.before {t : Timeline} (h : Stands policy runs none now t) (hnow : now < T) :
    Stands policy runs (some T) now t := by
  have hnot : isRequested (some T) now = false := by simp [isRequested, hnow]
  cases h with
  | @running m r hm hstart hend =>
    have hrunning : Stands policy runs (some T) now _ :=
      .running hm ⟨hstart.1, fun U hU => by cases hU; exact Nat.lt_of_le_of_lt hstart.1 hnow⟩ hend
    rwa [hnot] at hrunning
  | cooling hm _ hend hnext => exact .cooling hm hnot hend hnext
  | waiting _ hstart => exact .waiting hnot hstart
  | unstarted hT => cases hT
  | outrun hm hT => cases hT
  | cut hm hT => cases hT
  | woken hT => cases hT

theorem stands_observed (hpause : 0 < policy.pause) (hapart : Apart policy runs shutdown)
    (now : Nat) : Stands policy runs shutdown now (observed policy runs shutdown now) := by
  cases shutdown with
  | none => exact stands_scheduled hpause now
  | some T =>
    simp only [observed]
    split
    · rename_i hnow
      exact (stands_scheduled hpause now).before hnow
    · rename_i hnow
      split
      · rename_i hzero
        subst hzero
        have hstopped : Stands policy runs (some 0) 0 (scheduled policy runs).requestShutdown :=
          (Stands.unstarted rfl).of_move move?_due_requested
        have hlater := hstopped.advance hpause (fun T hT => by cases hT; exact Nat.le_refl 0) now
        rwa [Nat.zero_add] at hlater
      · rename_i hT
        have hrequested := (stands_scheduled hpause T).requestShutdown hT hapart
        have hlater := hrequested.advance hpause (fun U hU => by cases hU; exact Nat.le_refl T)
          (now - T)
        rwa [Nat.add_sub_cancel' (Nat.not_lt.1 hnow)] at hlater

end Timeline

end RefCache
