import RefCache.Coordinator

/-! What the turns of a coordinator do to what is shared. Whatever turn it takes, it leaves desk and
cache alone, fetches one report, raises the flag on a message, or draws one ticket, for which it
may lower the flag. It never touches the refresh that is under way. -/

namespace RefCache

/-! ### Turns of a supervised task -/

namespace Supervised

variable {σ ρ : Type} {task : Task σ ρ} {signal : ShutdownSignal} {now : Nat} {world : σ}
  {s : Supervised ρ} {t : Turn σ ρ}

/-- When a turn is open and what it is, case by case. -/
inductive Opens (task : Task σ ρ) (signal : ShutdownSignal) (now : Nat) (world : σ)
    (s : Supervised ρ) : Turn σ ρ → Prop where
  | stop : s.stage = .starting → signal.requested →
    Opens task signal now world s ⟨world, s.stop.1, s.stop.2⟩
  | start : s.stage = .starting → ¬ signal.requested →
    Opens task signal now world s
      { s.afterRun signal now (task.start world) with
        events := s.startedEvent :: (s.afterRun signal now (task.start world)).events }
  | run {run : ρ} {u : RunTurn σ ρ} : s.stage = .running run → u ∈ task.turns signal world run →
    Opens task signal now world s (s.afterRun signal now u)
  | giveUp {until_ : Nat} : s.stage = .cooling until_ → signal.resolved →
    Opens task signal now world s ⟨world, s.stop.1, s.stop.2⟩
  | resume {until_ : Nat} : s.stage = .cooling until_ → until_ ≤ now →
    Opens task signal now world s ⟨world, { s with stage := .starting }, []⟩

theorem opens_of_mem_turns (h : t ∈ s.turns task signal now world) :
    Opens task signal now world s t := by
  unfold turns at h
  split at h
  · split at h
    · obtain rfl := List.mem_singleton.1 h
      exact .stop ‹_› ‹_›
    · obtain rfl := List.mem_singleton.1 h
      exact .start ‹_› ‹_›
  · obtain ⟨u, hu, rfl⟩ := List.mem_map.1 h
    exact .run ‹_› hu
  · rcases List.mem_append.1 h with h | h
    · split at h
      · obtain rfl := List.mem_singleton.1 h
        exact .giveUp ‹_› ‹_›
      · cases h
    · split at h
      · obtain rfl := List.mem_singleton.1 h
        exact .resume ‹_› ‹_›
      · cases h
  · cases h

theorem world_afterRun (s : Supervised ρ) (signal : ShutdownSignal) (now : Nat)
    (u : RunTurn σ ρ) : (s.afterRun signal now u).world = u.world := by
  unfold afterRun
  split <;> rfl

end Supervised

/-! ### The flag, as the log tells it -/

/-- What a turn does to the flag: it is raised on a message, or taken for a refresh. -/
inductive FlagUse where
  | raised
  | taken
  deriving DecidableEq

def Event.flagUse? (e : Event) : Option FlagUse :=
  if e.message = "Update received" then some .raised
  else if e.message = "Update requested, refreshing" then some .taken
  else none

def flagUses (events : List Event) : List FlagUse := events.filterMap Event.flagUse?

@[simp] theorem flagUses_append (a b : List Event) :
    flagUses (a ++ b) = flagUses a ++ flagUses b :=
  List.filterMap_append

namespace Supervised

variable {σ ρ : Type} {signal : ShutdownSignal} {now : Nat}

@[simp] theorem flagUses_started (s : Supervised ρ) (events : List Event) :
    flagUses (s.startedEvent :: events) = flagUses events := rfl

theorem flagUses_pause (s : Supervised ρ) {failure : Event} (h : failure.flagUse? = none) :
    flagUses (s.pause signal now failure).2 = [] := by
  unfold pause
  split
  · rfl
  · simp [flagUses, h]

theorem flagUses_runEnded (s : Supervised ρ) (e : RunEnd) :
    flagUses (s.runEnded signal now e).2 = [] := by
  cases e with
  | returned => exact s.flagUses_pause rfl
  | failed e => exact s.flagUses_pause rfl
  | panicked p => exact s.flagUses_pause rfl
  | escaped p => rfl

/-- A supervisor has nothing to do with the flag. -/
theorem flagUses_afterRun (s : Supervised ρ) (u : RunTurn σ ρ) :
    flagUses (s.afterRun signal now u).events = flagUses u.events := by
  unfold afterRun
  split
  · rfl
  · simp [flagUses_runEnded]

/-- What holds of the turns of all runs, and of those that begin one, holds of every turn. -/
theorem of_mem_turns {P : σ → List FlagUse → Prop} (task : Task σ ρ) {s : Supervised ρ} {world : σ}
    {t : Turn σ ρ} (hidle : P world [])
    (hstart : P (task.start world).world (flagUses (task.start world).events))
    (hturns : ∀ run, s.stage = .running run → ∀ u ∈ task.turns signal world run,
      P u.world (flagUses u.events))
    (h : t ∈ s.turns task signal now world) : P t.world (flagUses t.events) := by
  cases opens_of_mem_turns h with
  | stop => exact hidle
  | start =>
    simp only [flagUses_started, flagUses_afterRun, world_afterRun]
    exact hstart
  | run hstage hu =>
    rw [flagUses_afterRun, world_afterRun]
    exact hturns _ hstage _ hu
  | giveUp => exact hidle
  | resume => exact hidle

end Supervised

/-! ### Turns of the tasks -/

/-- What a turn of the listener or of the gauge does to what is shared. -/
inductive Shared.Heard (s : Shared) : Shared → List FlagUse → Prop where
  | rests {s' : Shared} : s'.cache = s.cache → s'.desk = s.desk → Heard s s' []
  | marks {s' : Shared} : s'.cache = s.cache.setUpdate true → s'.desk = s.desk →
    Heard s s' [.raised]

theorem Shared.Heard.desk_eq {s s' : Shared} {uses : List FlagUse} (h : s.Heard s' uses) :
    s'.desk = s.desk := by
  cases h with
  | rests _ hdesk => exact hdesk
  | marks _ hdesk => exact hdesk

/-- What a turn of a coordinator does to what is shared. -/
inductive Shared.Turned (s : Shared) : Shared → List FlagUse → Prop where
  | hears {s' : Shared} {uses : List FlagUse} : s.Heard s' uses → Turned s s' uses
  | collects {s' : Shared} (ticket : Nat) : s'.cache = s.cache →
    s'.desk = s.desk.collect ticket → Turned s s' []
  | ticks {s' : Shared} : s'.cache = s.cache → s'.desk = s.desk.request.1 → Turned s s' []
  | takes {s' : Shared} : s.cache.shouldUpdate → s'.cache = s.cache.setUpdate false →
    s'.desk = s.desk.request.1 → Turned s s' [.taken]

namespace Tasks

variable {ρ : Type} {signal : ShutdownSignal} {s : Scene}

def Hears (s s' : Scene) (uses : List FlagUse) : Prop := s.shared.Heard s'.shared uses

def Turns (s s' : Scene) (uses : List FlagUse) : Prop := s.shared.Turned s'.shared uses

theorem hears_self : Hears s s [] := .rests rfl rfl

/-- What shutdown opens to a waiting run changes nothing, so it depends on the other turns. -/
theorem of_mem_append {P : Scene → List FlagUse → Prop} {u : RunTurn Scene ρ}
    {others : List (RunTurn Scene ρ)} (hidle : P s [])
    (hothers : u ∈ others → P u.world (flagUses u.events)) (h : u ∈ returns signal s ++ others) :
    P u.world (flagUses u.events) := by
  rcases List.mem_append.1 h with h | h
  · unfold returns at h
    split at h
    · obtain rfl := List.mem_singleton.1 h
      exact hidle
    · cases h
  · exact hothers h

/-- A run that waits for its time takes one turn when the time has come. -/
theorem of_due {P : Scene → List FlagUse → Prop} {u v : RunTurn Scene ρ} {deadline : Nat}
    (hidle : P s []) (hv : deadline ≤ s.now → P v.world (flagUses v.events))
    (h : u ∈ (if deadline ≤ s.now then [v] else []) ++ returns signal s) :
    P u.world (flagUses u.events) := by
  refine of_mem_append hidle (fun h => ?_) (List.mem_append.2 (List.mem_append.1 h).symm)
  split at h
  · obtain rfl := List.mem_singleton.1 h
    exact hv ‹_›
  · cases h

/-- A run that waits for a refresh takes one turn when that is over. -/
theorem of_resumes {P : Scene → List FlagUse → Prop} {u : RunTurn Scene ρ} {ticket : Nat} {next : ρ}
    (hcollect : P (s.setDesk (s.shared.desk.collect ticket)) []) (h : u ∈ resumes s ticket next) :
    P u.world (flagUses u.events) := by
  unfold resumes at h
  split at h
  · obtain rfl := List.mem_singleton.1 h
    exact hcollect
  · cases h

theorem turns_timed (run : TimedRun) (u : RunTurn Scene TimedRun)
    (h : u ∈ timed.turns signal s run) : Turns s u.world (flagUses u.events) := by
  cases run with
  | ticking deadline =>
    exact of_due (P := Turns s) (v := tick s deadline) (.hears hears_self)
      (fun _ => .ticks rfl rfl) h
  | refreshing ticket next => exact of_resumes (P := Turns s) (.collects ticket rfl rfl) h

theorem turns_poll : Turns s (poll s).world (flagUses (poll s).events) := by
  unfold poll
  split
  · exact .takes ‹_› rfl rfl
  · exact .hears hears_self

theorem turns_hook (run : HookRun) (u : RunTurn Scene HookRun)
    (h : u ∈ hook.turns signal s run) : Turns s u.world (flagUses u.events) := by
  cases run with
  | polling deadline => exact of_due (P := Turns s) (.hears hears_self) (fun _ => turns_poll) h
  | refreshing ticket => exact of_resumes (P := Turns s) (.collects ticket rfl rfl) h

theorem hears_subscribe : Hears s (subscribe s).world (flagUses (subscribe s).events) := by
  simp only [subscribe]
  split <;> exact .rests rfl rfl

theorem flagUses_reception {b : Broadcast Nat} {key : Nat} {got : Broadcast.Reception Nat}
    (h : b.receive? key = some got) : flagUses got.events = [] := by
  obtain ⟨r, -, rfl⟩ := Option.map_eq_some_iff.1 h
  have hlag : ∀ (r : Receiver) missed,
      flagUses (if missed = 0 then [] else [Broadcast.lagEvent r missed]) = [] := by
    intro r missed
    split <;> rfl
  simp only
  split <;> exact hlag ..

theorem hears_receive {u : RunTurn Scene ListenRun} (h : u ∈ receive s) :
    Hears s u.world (flagUses u.events) := by
  unfold receive at h
  split at h
  · obtain rfl := List.mem_singleton.1 h
    exact .rests rfl rfl
  · rename_i got hgot
    have huses := flagUses_reception hgot
    simp only at h
    split at h
    · obtain rfl := List.mem_singleton.1 h
      simp only [flagUses_append, huses]
      exact .marks rfl rfl
    · obtain rfl := List.mem_singleton.1 h
      simp only [huses]
      exact .rests rfl rfl
    · split at h
      · cases h
      · obtain rfl := List.mem_singleton.1 h
        simp only [huses]
        exact .rests rfl rfl

/-- Leaving concerns the channel alone. -/
theorem hears_leaving {u : RunTurn Scene ListenRun} (h : Hears s u.world (flagUses u.events)) :
    Hears s (leaving u).world (flagUses (leaving u).events) := by
  unfold leaving
  split
  · exact h
  · generalize flagUses u.events = uses at h
    cases h with
    | rests hcache hdesk => exact .rests hcache hdesk
    | marks hcache hdesk => exact .marks hcache hdesk

theorem hears_listen (run : ListenRun) (u : RunTurn Scene ListenRun)
    (h : u ∈ listen.turns signal s run) : Hears s u.world (flagUses u.events) := by
  cases run with
  | channel =>
    obtain ⟨v, hv, rfl⟩ := List.mem_map.1 h
    exact hears_leaving (of_mem_append (P := Hears s) hears_self hears_receive hv)
  | messages left =>
    cases left with
    | nil =>
      refine of_mem_append (P := Hears s) hears_self (fun h => ?_) h
      obtain rfl := List.mem_singleton.1 h
      exact hears_self
    | cons payload later =>
      refine of_mem_append (P := Hears s) hears_self (fun h => ?_) h
      obtain rfl := List.mem_singleton.1 h
      exact .marks rfl rfl

theorem hears_gauge (run : GaugeRun) (u : RunTurn Scene GaugeRun)
    (h : u ∈ gauge.turns signal s run) : Hears s u.world (flagUses u.events) := by
  cases run with
  | sleeping deadline =>
    exact of_due (P := Hears s) (v := sample s) hears_self (fun _ => .rests rfl rfl) h

end Tasks

namespace Coordinator

variable {c : Coordinator} {shared : Shared} {m : Move}

theorem heard_of_mem_gaugeMoves (h : m ∈ c.gaugeMoves shared) :
    shared.Heard m.shared (flagUses m.events) := by
  obtain ⟨t, ht, rfl⟩ := List.mem_map.1 h
  exact Supervised.of_mem_turns (P := Tasks.Hears ⟨shared, c.own⟩) Tasks.gauge Tasks.hears_self
    (.rests rfl rfl) (fun run _ => Tasks.hears_gauge run) ht

theorem heard_of_mem_listenerMoves (h : m ∈ c.listenerMoves shared) :
    shared.Heard m.shared (flagUses m.events) := by
  obtain ⟨t, ht, rfl⟩ := List.mem_map.1 h
  exact Supervised.of_mem_turns (P := Tasks.Hears ⟨shared, c.own⟩) Tasks.listen Tasks.hears_self
    Tasks.hears_subscribe (fun run _ => Tasks.hears_listen run) ht

theorem turned_of_mem_moves (h : m ∈ c.moves shared) :
    shared.Turned m.shared (flagUses m.events) := by
  simp only [moves, List.mem_append] at h
  rcases h with (((h | h) | h) | h) | h
  · exact .hears (heard_of_mem_gaugeMoves h)
  · exact .hears (heard_of_mem_listenerMoves h)
  · obtain ⟨t, ht, rfl⟩ := List.mem_map.1 h
    exact Supervised.of_mem_turns (P := Tasks.Turns ⟨shared, c.own⟩) Tasks.hook
      (.hears Tasks.hears_self) (.hears Tasks.hears_self) (fun run _ => Tasks.turns_hook run) ht
  · obtain ⟨t, ht, rfl⟩ := List.mem_map.1 h
    refine Supervised.of_mem_turns (P := Tasks.Turns ⟨shared, c.own⟩) Tasks.timed
      (.hears Tasks.hears_self) ?_ (fun run _ => Tasks.turns_timed run) ht
    simp only [Tasks.timed]
    split <;> exact .hears Tasks.hears_self
  · unfold endMoves at h
    split at h
    · obtain rfl := List.mem_singleton.1 h
      exact .hears (.rests rfl rfl)
    · cases h

end Coordinator

/-! ### The desk -/

/-- What somebody who wants refreshes does at the desk. -/
inductive Desk.Visit (d : Desk) : Desk → Prop where
  | none : Visit d d
  | request : Visit d d.request.1
  | collect (ticket : Nat) : Visit d (d.collect ticket)

theorem Desk.exists_of_grant? {d d' : Desk} (h : d.grant? = some d') :
    ∃ ticket rest, d.active = none ∧ d.waiting = ticket :: rest ∧
      d' = { d with waiting := rest, active := some (ticket, .start) } := by
  unfold grant? at h
  split at h
  · obtain rfl := Option.some.inj h
    exact ⟨_, _, ‹_›, ‹_›, rfl⟩
  · cases h

theorem Desk.exists_of_finish? {d : Desk} {after : Desk × Event} (h : d.finish? = some after) :
    ∃ ticket r, d.active = some (ticket, r) ∧ r.complete ∧
      after.1 = { d with active := none, reports := d.reports ++ [(ticket, r.report)] } := by
  unfold finish? at h
  split at h
  · split at h
    · obtain rfl := Option.some.inj h
      exact ⟨_, _, ‹_›, ‹_›, rfl⟩
    · cases h
  · cases h

theorem Shared.Turned.visit {s s' : Shared} {uses : List FlagUse} (h : s.Turned s' uses) :
    s.desk.Visit s'.desk := by
  cases h with
  | hears h => exact h.desk_eq ▸ .none
  | collects ticket _ hdesk => exact hdesk ▸ .collect ticket
  | ticks _ hdesk => exact hdesk ▸ .request
  | takes _ _ hdesk => exact hdesk ▸ .request

/-- A coordinator only visits the desk. -/
theorem Coordinator.visit_of_mem_moves {c : Coordinator} {shared : Shared} {m : Move}
    (h : m ∈ c.moves shared) : shared.desk.Visit m.shared.desk :=
  (turned_of_mem_moves h).visit

end RefCache
