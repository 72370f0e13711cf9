import RefCache.Proofs.Duty

/-! A coordinator after its shutdown. A loop that waits may find its time come and the shutdown
requested at once, and is then free to begin one more refresh. That is the only way in which it can
begin one; and if every task that could leave does leave, none is begun, and all of them end as
soon as the refreshes that they wait for are over. -/

namespace RefCache

/-! ### Ways out -/

/-- Of what is open, that which stops, if there is any. -/
def prompt {α : Type} (stops : α → Bool) (turns : List α) : List α :=
  if turns.any stops then turns.filter stops else turns

section Prompt

variable {α β : Type} {stops : α → Bool} {turns : List α} {t out : α}

theorem mem_of_mem_prompt (h : t ∈ prompt stops turns) : t ∈ turns := by
  unfold prompt at h
  split at h
  · exact (List.mem_filter.1 h).1
  · exact h

theorem stops_of_mem_prompt (h : t ∈ prompt stops turns) (hout : out ∈ turns) (hstops : stops out) :
    stops t := by
  have hany : turns.any stops := List.any_eq_true.2 ⟨out, hout, hstops⟩
  rw [prompt, if_pos hany] at h
  exact (List.mem_filter.1 h).2

theorem eq_nil_of_prompt_eq_nil (h : prompt stops turns = []) : turns = [] := by
  unfold prompt at h
  split at h
  · rename_i hany
    obtain ⟨out, hout, hstops⟩ := List.any_eq_true.1 hany
    exact absurd (h ▸ List.mem_filter.2 ⟨hout, hstops⟩) List.not_mem_nil
  · exact h

theorem prompt_map (f : β → α) (turns : List β) :
    prompt stops (turns.map f) = (prompt (fun t => stops (f t)) turns).map f := by
  simp only [prompt, List.any_map, List.filter_map, Function.comp_def]
  split <;> rfl

end Prompt

namespace Supervised

variable {σ ρ : Type} {task : Task σ ρ} {signal : ShutdownSignal} {now : Nat} {world : σ}
  {s : Supervised ρ} {t : Turn σ ρ}

/-- How many turns a task has before it after the shutdown, if it leaves when it can. -/
def left (awaits : ρ → Bool) (s : Supervised ρ) : Nat :=
  match s.stage with
  | .stopped => 0
  | .running run => if awaits run then 2 else 1
  | .starting | .cooling _ => 1

theorem left_le_two (awaits : ρ → Bool) (s : Supervised ρ) : s.left awaits ≤ 2 := by
  unfold left
  split
  · decide
  · split <;> decide
  · decide
  · decide

theorem left_le_one (s : Supervised ρ) : s.left (fun _ => false) ≤ 1 := by
  unfold left
  split <;> simp

theorem left_of_isStopped {awaits : ρ → Bool} (h : s.isStopped) : s.left awaits = 0 := by
  unfold isStopped at h
  unfold left
  split at h
  · rw [‹s.stage = .stopped›]
  · cases h

/-- After the shutdown every run that ends is the last. -/
theorem isStopped_afterRun (hreq : signal.requested) {u : RunTurn σ ρ} {e : RunEnd}
    (h : u.next = .error e) : (s.afterRun signal now u).supervised.isStopped := by
  have hpause : ∀ failure, (s.pause signal now failure).1.isStopped := by
    intro failure
    rw [pause, if_pos hreq]
    rfl
  unfold afterRun
  rw [h]
  cases e with
  | returned => exact hpause _
  | failed e => exact hpause _
  | panicked p => exact hpause _
  | escaped p => rfl

/-- What a run may do after the shutdown: it can end at once, or it waits for something first and
then goes on to where it can. In doing so it leaves the world as `P` says. -/
def Leaves (task : Task σ ρ) (signal : ShutdownSignal) (world : σ) (awaits : ρ → Bool)
    (P : σ → Prop) (run : ρ) : Prop :=
  ∀ u ∈ task.turns signal world run, match u.next with
    | .error _ => P u.world
    | .ok run' => (∃ v ∈ task.turns signal world run, ∃ e, v.next = .error e) ∨
        (awaits run ∧ awaits run' = false ∧ P u.world)

theorem leaves_of_exit {awaits : ρ → Bool} {P : σ → Prop} {run : ρ}
    (hexit : ∃ v ∈ task.turns signal world run, ∃ e, v.next = .error e)
    (h : ∀ u ∈ task.turns signal world run, ∀ e, u.next = .error e → P u.world) :
    Leaves task signal world awaits P run := by
  intro u hu
  cases hnext : u.next with
  | error e' => exact h u hu e' hnext
  | ok run' => exact Or.inl hexit

/-- After the shutdown a prompt turn leaves the world as `P` says, and brings the task nearer to its
end. -/
theorem left_of_mem_prompt {awaits : ρ → Bool} {P : σ → Prop} (hreq : signal.requested)
    (hidle : P world) (hruns : ∀ run, Leaves task signal world awaits P run)
    (h : t ∈ prompt (·.supervised.isStopped) (s.turns task signal now world)) :
    P t.world ∧ t.supervised.left awaits < s.left awaits := by
  have hresolved : signal.resolved := by simp [ShutdownSignal.resolved, hreq]
  have hmem := mem_of_mem_prompt h
  cases opens_of_mem_turns hmem with
  | stop hstage =>
    refine ⟨hidle, ?_⟩
    rw [left_of_isStopped (s := s.stop.1) rfl]
    simp [left, hstage]
  | start _ hrunning => exact absurd hreq hrunning
  | giveUp hstage =>
    refine ⟨hidle, ?_⟩
    rw [left_of_isStopped (s := s.stop.1) rfl]
    simp [left, hstage]
  | resume hstage =>
    -- a pause can be given up, so it is not sat out
    have hout : (⟨world, s.stop.1, s.stop.2⟩ : Turn σ ρ) ∈ s.turns task signal now world := by
      simp [turns, hstage, hresolved]
    cases stops_of_mem_prompt h hout rfl
  | @run run u hstage hu =>
    have hleaves := hruns run u hu
    have hleft : 0 < s.left awaits := by
      simp only [left, hstage]
      split <;> decide
    rw [world_afterRun]
    cases hnext : u.next with
    | error e =>
      rw [hnext] at hleaves
      rw [left_of_isStopped (isStopped_afterRun hreq hnext)]
      exact ⟨hleaves, hleft⟩
    | ok run' =>
      rw [hnext] at hleaves
      rcases hleaves with ⟨v, hv, e, hend⟩ | ⟨hawaits, hfree, hworld⟩
      · have hout : s.afterRun signal now v ∈ s.turns task signal now world := by
          simp only [turns, hstage]
          exact List.mem_map_of_mem hv
        have hstopped := stops_of_mem_prompt h hout (isStopped_afterRun hreq hend)
        simp [afterRun, hnext, isStopped] at hstopped
      · refine ⟨hworld, ?_⟩
        simp [afterRun, hnext, left, hstage, hawaits, hfree]

/-- After the shutdown only a run that can do nothing keeps a task from its end. -/
theorem isStopped_of_turns_eq_nil (hreq : signal.requested)
    (hruns : ∀ run, s.stage = .running run → task.turns signal world run ≠ [])
    (h : s.turns task signal now world = []) : s.isStopped := by
  have hresolved : signal.resolved := by simp [ShutdownSignal.resolved, hreq]
  unfold turns at h
  split at h
  · rw [if_pos hreq] at h
    cases h
  · rename_i run hstage
    exact absurd (List.map_eq_nil_iff.1 h) (hruns run hstage)
  · simp [hresolved] at h
  · rename_i hstage
    simp [isStopped, hstage]

end Supervised

/-! ### The tasks of a coordinator -/

/-- Whether the run waits for a refresh. -/
def TimedRun.awaits : TimedRun → Bool
  | .ticking _ => false
  | .refreshing _ _ => true

def HookRun.awaits : HookRun → Bool
  | .polling _ => false
  | .refreshing _ => true

namespace Tasks

variable {ρ : Type} {signal : ShutdownSignal} {s : Scene}

/-- No ticket has been drawn. -/
def DrawsNone (s s' : Scene) : Prop := s'.shared.desk.next = s.shared.desk.next

theorem mem_returns (h : signal.resolved) :
    (⟨s, .error .returned, []⟩ : RunTurn Scene ρ) ∈ returns signal s := by
  simp [returns, h]

theorem mem_due {u : RunTurn Scene ρ} {others : List (RunTurn Scene ρ)} {deadline : Nat}
    (h : deadline ≤ s.now) : u ∈ (if deadline ≤ s.now then [u] else []) ++ others := by
  simp [h]

theorem exists_exit_due {others : List (RunTurn Scene ρ)} (h : signal.resolved) :
    ∃ v ∈ others ++ returns signal s, ∃ e, v.next = .error e :=
  ⟨_, List.mem_append_right _ (mem_returns h), _, rfl⟩

theorem exists_exit_listen (h : signal.resolved) (run : ListenRun) :
    ∃ v ∈ listen.turns signal s run, ∃ e, v.next = .error e := by
  cases run with
  | channel =>
    exact ⟨_, List.mem_map_of_mem (List.mem_append_left _ (mem_returns h)), _, rfl⟩
  | messages left =>
    cases left with
    | nil => exact ⟨_, List.mem_append_left _ (mem_returns h), _, rfl⟩
    | cons payload later => exact ⟨_, List.mem_append_left _ (mem_returns h), _, rfl⟩

theorem resumes_ne_nil {ticket : Nat} {next : ρ} (h : (s.shared.desk.report? ticket).isSome) :
    resumes s ticket next ≠ [] := by
  simp [resumes, h]

theorem eq_of_mem_returns {u : RunTurn Scene ρ} (h : u ∈ returns signal s) :
    u = ⟨s, .error .returned, []⟩ := by
  unfold returns at h
  split at h
  · exact List.mem_singleton.1 h
  · cases h

/-- A run that waits for its time can return instead. -/
theorem leaves_due {task : Task Scene ρ} {awaits : ρ → Bool} {run : ρ} {u : RunTurn Scene ρ}
    {deadline : Nat} {next : ρ} (hres : signal.resolved) (hu : u.next = .ok next)
    (hturns : task.turns signal s run =
      (if deadline ≤ s.now then [u] else []) ++ returns signal s) :
    Supervised.Leaves task signal s awaits (DrawsNone s) run := by
  refine Supervised.leaves_of_exit (hturns ▸ exists_exit_due hres) ?_
  intro v hv e hend
  rw [hturns] at hv
  rcases List.mem_append.1 hv with hv | hv
  · split at hv
    · obtain rfl := List.mem_singleton.1 hv
      cases hu.symm.trans hend
    · cases hv
  · rw [eq_of_mem_returns hv]
    exact rfl

/-- A run that waits for a refresh goes on when that is over. -/
theorem leaves_resumes {task : Task Scene ρ} {awaits : ρ → Bool} {run next : ρ} {ticket : Nat}
    (hawaits : awaits run) (hfree : awaits next = false)
    (hturns : task.turns signal s run = resumes s ticket next) :
    Supervised.Leaves task signal s awaits (DrawsNone s) run := by
  intro u hu
  rw [hturns] at hu
  unfold resumes at hu
  split at hu
  · obtain rfl := List.mem_singleton.1 hu
    exact Or.inr ⟨hawaits, hfree, rfl⟩
  · cases hu

theorem leaves_timed (hres : signal.resolved) (run : TimedRun) :
    Supervised.Leaves timed signal s TimedRun.awaits (DrawsNone s) run := by
  cases run with
  | ticking deadline => exact leaves_due (u := tick s deadline) hres rfl rfl
  | refreshing ticket next => exact leaves_resumes rfl rfl rfl

theorem leaves_hook (hres : signal.resolved) (run : HookRun) :
    Supervised.Leaves hook signal s HookRun.awaits (DrawsNone s) run := by
  cases run with
  | polling deadline =>
    have hpoll : ∃ next, (poll s).next = .ok next := by
      unfold poll
      split <;> exact ⟨_, rfl⟩
    obtain ⟨next, hnext⟩ := hpoll
    exact leaves_due hres hnext rfl
  | refreshing ticket => exact leaves_resumes rfl rfl rfl

theorem leaves_gauge (hres : signal.resolved) (run : GaugeRun) :
    Supervised.Leaves gauge signal s (fun _ => false) (DrawsNone s) run := by
  cases run with
  | sleeping deadline => exact leaves_due (u := sample s) hres rfl rfl

theorem leaves_listen (hres : signal.resolved) (run : ListenRun) :
    Supervised.Leaves listen signal s (fun _ => false) (DrawsNone s) run := by
  refine Supervised.leaves_of_exit (exists_exit_listen hres run) fun u hu e _ => ?_
  exact congrArg Desk.next (hears_listen run u hu).desk_eq

end Tasks

namespace Coordinator

variable {c : Coordinator} {shared : Shared} {m : Move}

/-- The turns that are open to a coordinator each task of which leaves when it can. -/
def promptMoves (c : Coordinator) (shared : Shared) : List Move :=
  prompt (·.coordinator.gauge.isStopped) (c.gaugeMoves shared) ++
    prompt (·.coordinator.listener.isStopped) (c.listenerMoves shared) ++
    prompt (·.coordinator.hook.isStopped) (c.hookMoves shared) ++
    prompt (·.coordinator.timed.isStopped) (c.timedMoves shared) ++ c.endMoves shared

/-- How many turns a coordinator has before it after the shutdown, if its tasks leave when they
can. -/
def left (c : Coordinator) : Nat :=
  c.gauge.left (fun _ => false) + c.listener.left (fun _ => false) + c.hook.left HookRun.awaits +
    c.timed.left TimedRun.awaits + if c.ended then 0 else 1

theorem mem_moves_of_mem_promptMoves (h : m ∈ c.promptMoves shared) : m ∈ c.moves shared := by
  simp only [promptMoves, List.mem_append] at h
  simp only [moves, List.mem_append]
  exact h.imp_left (Or.imp (Or.imp (Or.imp mem_of_mem_prompt mem_of_mem_prompt) mem_of_mem_prompt)
    mem_of_mem_prompt)

/-- The moves that one task of a coordinator makes of its prompt turns. -/
theorem exists_of_mem_prompt {ρ : Type} {task : Task Scene ρ} {awaits : ρ → Bool}
    {s : Supervised ρ} {f : Turn Scene ρ → Move} {stops : Move → Bool}
    (hreq : c.signal.requested) (hstops : ∀ t, stops (f t) = t.supervised.isStopped)
    (hruns : ∀ run, Supervised.Leaves task c.signal ⟨shared, c.own⟩ awaits
      (Tasks.DrawsNone ⟨shared, c.own⟩) run)
    (h : m ∈ prompt stops ((s.turns task c.signal shared.now ⟨shared, c.own⟩).map f)) :
    ∃ t, f t = m ∧ t.world.shared.desk.next = shared.desk.next ∧
      t.supervised.left awaits < s.left awaits := by
  simp only [prompt_map, hstops] at h
  obtain ⟨t, ht, hm⟩ := List.mem_map.1 h
  exact ⟨t, hm, Supervised.left_of_mem_prompt (P := Tasks.DrawsNone ⟨shared, c.own⟩) hreq rfl
    hruns ht⟩

/-- After the shutdown a prompt turn draws no ticket and brings the coordinator nearer to its
end. -/
theorem of_mem_promptMoves (hreq : c.signal.requested) (h : m ∈ c.promptMoves shared) :
    m.shared.desk.next = shared.desk.next ∧ m.coordinator.left < c.left ∧
      m.coordinator.signal = c.signal := by
  have hres : c.signal.resolved := by simp [ShutdownSignal.resolved, hreq]
  simp only [promptMoves, List.mem_append] at h
  rcases h with (((h | h) | h) | h) | h
  · obtain ⟨t, rfl, hnext, hleft⟩ :=
      exists_of_mem_prompt hreq (fun _ => rfl) (Tasks.leaves_gauge hres) h
    refine ⟨hnext, ?_, rfl⟩
    simp only [left]
    omega
  · obtain ⟨t, rfl, hnext, hleft⟩ :=
      exists_of_mem_prompt hreq (fun _ => rfl) (Tasks.leaves_listen hres) h
    refine ⟨hnext, ?_, rfl⟩
    simp only [left]
    omega
  · obtain ⟨t, rfl, hnext, hleft⟩ :=
      exists_of_mem_prompt hreq (fun _ => rfl) (Tasks.leaves_hook hres) h
    refine ⟨hnext, ?_, rfl⟩
    simp only [left]
    omega
  · obtain ⟨t, rfl, hnext, hleft⟩ :=
      exists_of_mem_prompt hreq (fun _ => rfl) (Tasks.leaves_timed hres) h
    refine ⟨hnext, ?_, rfl⟩
    simp only [left]
    omega
  · unfold endMoves at h
    split at h
    · obtain rfl := List.mem_singleton.1 h
      refine ⟨rfl, ?_, rfl⟩
      simp_all [left]
    · cases h

theorem left_le (c : Coordinator) : c.left ≤ 7 := by
  have hgauge := c.gauge.left_le_one
  have hlistener := c.listener.left_le_one
  have hhook := c.hook.left_le_two HookRun.awaits
  have htimed := c.timed.left_le_two TimedRun.awaits
  unfold left
  split <;> omega

/-- A coordinator that has been shut down, and whose refreshes are over, has a turn before it until
it has ended. -/
theorem ended_of_promptMoves_eq_nil (hreq : c.signal.requested)
    (hreports : ∀ t ∈ c.tickets, (shared.desk.report? t).isSome) (h : c.promptMoves shared = []) :
    c.isStopped ∧ c.ended := by
  have hres : c.signal.resolved := by simp [ShutdownSignal.resolved, hreq]
  simp only [promptMoves, List.append_eq_nil_iff] at h
  obtain ⟨⟨⟨⟨hgauge, hlistener⟩, hhook⟩, htimed⟩, hend⟩ := h
  have hexit : ∀ {ρ : Type} {turns : List (RunTurn Scene ρ)},
      (∃ v ∈ turns, ∃ e, v.next = .error e) → turns ≠ [] :=
    fun ⟨_, hv, _⟩ => List.ne_nil_of_mem hv
  have hgauge : c.gauge.isStopped := by
    refine Supervised.isStopped_of_turns_eq_nil hreq ?_
      (List.map_eq_nil_iff.1 (eq_nil_of_prompt_eq_nil hgauge))
    rintro ⟨deadline⟩ -
    exact hexit (Tasks.exists_exit_due hres)
  have hlistener : c.listener.isStopped := by
    refine Supervised.isStopped_of_turns_eq_nil hreq ?_
      (List.map_eq_nil_iff.1 (eq_nil_of_prompt_eq_nil hlistener))
    exact fun run _ => hexit (Tasks.exists_exit_listen hres run)
  have hhook : c.hook.isStopped := by
    refine Supervised.isStopped_of_turns_eq_nil hreq ?_
      (List.map_eq_nil_iff.1 (eq_nil_of_prompt_eq_nil hhook))
    rintro (deadline | ticket) hstage
    · exact hexit (Tasks.exists_exit_due hres)
    · exact Tasks.resumes_ne_nil (hreports ticket (by simp [tickets, hstage]))
  have htimed : c.timed.isStopped := by
    refine Supervised.isStopped_of_turns_eq_nil hreq ?_
      (List.map_eq_nil_iff.1 (eq_nil_of_prompt_eq_nil htimed))
    rintro (deadline | ⟨ticket, next⟩) hstage
    · exact hexit (Tasks.exists_exit_due hres)
    · exact Tasks.resumes_ne_nil (hreports ticket (by simp [tickets, hstage]))
  have hstopped : c.isStopped := by simp [isStopped, hgauge, hlistener, hhook, htimed]
  refine ⟨hstopped, ?_⟩
  simpa [endMoves, hreq, hstopped] using hend

/-- The timed loop waits, and its time has come. -/
def TickDue (c : Coordinator) (shared : Shared) : Prop :=
  ∃ deadline, c.timed.stage = .running (.ticking deadline) ∧ deadline ≤ shared.now

/-- The hook loop waits, and its time has come while the flag is raised. -/
def UpdateDue (c : Coordinator) (shared : Shared) : Prop :=
  ∃ deadline, c.hook.stage = .running (.polling deadline) ∧ deadline ≤ shared.now ∧
    shared.cache.shouldUpdate

theorem tickDue_of_mem_timedMoves (h : m ∈ c.timedMoves shared)
    (hdraws : shared.desk.next < m.shared.desk.next) : c.TickDue shared := by
  obtain ⟨t, ht, rfl⟩ := List.mem_map.1 h
  let P : Scene → List FlagUse → Prop :=
    fun s _ => shared.desk.next < s.shared.desk.next → c.TickDue shared
  have hidle : ∀ own, P ⟨shared, own⟩ [] := fun _ h => absurd h (Nat.lt_irrefl _)
  refine Supervised.of_mem_turns (P := P) Tasks.timed (hidle _) ?_ ?_ ht hdraws
  · simp only [Tasks.timed]
    split <;> exact hidle _
  · intro run hstage u hu
    cases run with
    | ticking deadline =>
      exact Tasks.of_due (P := P) (hidle _) (fun hle _ => ⟨deadline, hstage, hle⟩) hu
    | refreshing ticket next => exact Tasks.of_resumes (P := P) (hidle _) hu

theorem updateDue_of_mem_hookMoves (h : m ∈ c.hookMoves shared)
    (hdraws : shared.desk.next < m.shared.desk.next) : c.UpdateDue shared := by
  obtain ⟨t, ht, rfl⟩ := List.mem_map.1 h
  let P : Scene → List FlagUse → Prop :=
    fun s _ => shared.desk.next < s.shared.desk.next → c.UpdateDue shared
  have hidle : ∀ own, P ⟨shared, own⟩ [] := fun _ h => absurd h (Nat.lt_irrefl _)
  refine Supervised.of_mem_turns (P := P) Tasks.hook (hidle _) (hidle _) ?_ ht hdraws
  intro run hstage u hu
  cases run with
  | polling deadline =>
    refine Tasks.of_due (P := P) (hidle _) (fun hle => ?_) hu
    unfold Tasks.poll
    split
    · exact fun _ => ⟨deadline, hstage, hle, ‹_›⟩
    · exact hidle _
  | refreshing ticket => exact Tasks.of_resumes (P := P) (hidle _) hu

theorem exists_of_tickDue (h : c.TickDue shared) :
    ∃ m ∈ c.moves shared, shared.desk.next < m.shared.desk.next := by
  obtain ⟨deadline, hstage, hle⟩ := h
  have hturn : c.timed.afterRun c.signal shared.now (Tasks.tick ⟨shared, c.own⟩ deadline) ∈
      c.timed.turns Tasks.timed c.signal shared.now ⟨shared, c.own⟩ := by
    simp only [Supervised.turns, hstage]
    exact List.mem_map_of_mem (Tasks.mem_due hle)
  refine ⟨_, List.mem_append_left _ (List.mem_append_right _ (List.mem_map_of_mem hturn)), ?_⟩
  exact Nat.lt_succ_self _

theorem exists_of_updateDue (h : c.UpdateDue shared) :
    ∃ m ∈ c.moves shared, shared.desk.next < m.shared.desk.next := by
  obtain ⟨deadline, hstage, hle, hflag⟩ := h
  have hturn : c.hook.afterRun c.signal shared.now (Tasks.poll ⟨shared, c.own⟩) ∈
      c.hook.turns Tasks.hook c.signal shared.now ⟨shared, c.own⟩ := by
    simp only [Supervised.turns, hstage]
    exact List.mem_map_of_mem (Tasks.mem_due hle)
  refine ⟨_, List.mem_append_left _ (List.mem_append_left _ (List.mem_append_right _
    (List.mem_map_of_mem hturn))), ?_⟩
  simp only [Supervised.world_afterRun, Tasks.poll, hflag, if_true]
  exact Nat.lt_succ_self _

/-- A ticket can be drawn exactly when a waiting loop finds its time come, the hook loop only with
the flag raised. -/
theorem draws_iff : (∃ m ∈ c.moves shared, shared.desk.next < m.shared.desk.next) ↔
    c.TickDue shared ∨ c.UpdateDue shared := by
  constructor
  · rintro ⟨m, hm, hdraws⟩
    simp only [moves, List.mem_append] at hm
    rcases hm with (((h | h) | h) | h) | h
    · rw [(heard_of_mem_gaugeMoves h).desk_eq] at hdraws
      exact absurd hdraws (Nat.lt_irrefl _)
    · rw [(heard_of_mem_listenerMoves h).desk_eq] at hdraws
      exact absurd hdraws (Nat.lt_irrefl _)
    · exact Or.inr (updateDue_of_mem_hookMoves h hdraws)
    · exact Or.inl (tickDue_of_mem_timedMoves h hdraws)
    · unfold endMoves at h
      split at h
      · obtain rfl := List.mem_singleton.1 h
        exact absurd hdraws (Nat.lt_irrefl _)
      · cases h
  · rintro (hdue | hdue)
    · exact exists_of_tickDue hdue
    · exact exists_of_updateDue hdue

end Coordinator

/-! ### After the shutdown -/

namespace Duty

variable {photos : Uuid → Photo} {d d' : Duty}

def Op.isTurn : Op → Bool
  | .turn _ => true
  | _ => false

/-- A step during which every task of the coordinator leaves if it can. -/
def promptStep (photos : Uuid → Photo) (d : Duty) : Op → Option Duty
  | .turn i => (d.coordinator.promptMoves d.shared)[i]?.map d.after
  | op => d.step photos op

/-- Such a step is one that can be taken. -/
theorem exists_step_of_promptStep {op : Op} (h : d.promptStep photos op = some d') :
    ∃ op', d.step photos op' = some d' := by
  cases op with
  | turn i =>
    obtain ⟨m, hm, rfl⟩ := Option.map_eq_some_iff.1 h
    have hmem := Coordinator.mem_moves_of_mem_promptMoves (List.mem_of_getElem? hm)
    obtain ⟨j, hj⟩ := List.getElem?_of_mem hmem
    exact ⟨.turn j, Option.map_eq_some_iff.2 ⟨m, hj, rfl⟩⟩
  | shutdown => exact ⟨.shutdown, h⟩
  | around op => exact ⟨.around op, h⟩

/-- The notes have grown, but no refresh was begun. -/
def BeginsNone (notes notes' : List Note) : Prop :=
  ∃ new, notes' = notes ++ new ∧ ∀ t, .begun t ∉ new

theorem beginsNone_turnNotes {before : Shared} {m : Coordinator.Move}
    (h : m.shared.desk.next = before.desk.next) (notes : List Note) :
    BeginsNone notes (notes ++ turnNotes before m) := by
  refine ⟨_, rfl, fun t ht => ?_⟩
  simp only [turnNotes, h, Nat.lt_irrefl, if_false, List.append_nil, List.mem_map] at ht
  obtain ⟨use, -, huse⟩ := ht
  cases use <;> cases huse

theorem BeginsNone.trans {a b c : List Note} (h : BeginsNone a b) (h' : BeginsNone b c) :
    BeginsNone a c := by
  obtain ⟨new, rfl, hnew⟩ := h
  obtain ⟨new', rfl, hnew'⟩ := h'
  refine ⟨new ++ new', List.append_assoc .., fun t ht => ?_⟩
  exact (List.mem_append.1 ht).elim (hnew t) (hnew' t)

/-- After the shutdown a prompt step begins no refresh, and if it is the coordinator's own, brings
that nearer to its end. -/
theorem promptStep_requested {op : Op} (hreq : d.coordinator.signal.requested)
    (h : d.promptStep photos op = some d') :
    d'.coordinator.signal.requested ∧ BeginsNone d.notes d'.notes ∧
      [op].countP Op.isTurn + d'.coordinator.left ≤ d.coordinator.left := by
  cases op with
  | turn i =>
    obtain ⟨m, hm, rfl⟩ := Option.map_eq_some_iff.1 h
    obtain ⟨hnext, hleft, hsignal⟩ :=
      Coordinator.of_mem_promptMoves hreq (List.mem_of_getElem? hm)
    refine ⟨(congrArg ShutdownSignal.requested hsignal).trans hreq,
      beginsNone_turnNotes hnext d.notes, ?_⟩
    simp only [after, List.countP_singleton, Op.isTurn, if_true]
    omega
  | shutdown =>
    obtain rfl := Option.some.inj h
    exact ⟨rfl, ⟨[.stopping], rfl, by simp⟩, Nat.le_of_eq (Nat.zero_add _)⟩
  | around op =>
    obtain ⟨o, -, rfl⟩ := Option.map_eq_some_iff.1 h
    refine ⟨hreq, ⟨aroundNotes op ++ o.log.map .entry, List.append_assoc .., fun t ht => ?_⟩,
      Nat.le_of_eq (Nat.zero_add _)⟩
    rcases List.mem_append.1 ht with ht | ht
    · unfold aroundNotes at ht
      split at ht
      · cases List.mem_singleton.1 ht
      · cases ht
    · obtain ⟨e, -, he⟩ := List.mem_map.1 ht
      cases he

theorem promptRun_requested {ops : List Op} (hreq : d.coordinator.signal.requested)
    (h : ops.foldlM (promptStep photos) d = some d') :
    d'.coordinator.signal.requested ∧ BeginsNone d.notes d'.notes ∧
      ops.countP Op.isTurn + d'.coordinator.left ≤ d.coordinator.left := by
  induction ops generalizing d with
  | nil =>
    obtain rfl := Option.some.inj h
    exact ⟨hreq, ⟨[], (List.append_nil _).symm, by simp⟩, Nat.le_of_eq (Nat.zero_add _)⟩
  | cons op ops ih =>
    rw [List.foldlM_cons] at h
    obtain ⟨mid, hmid, hrest⟩ := Option.bind_eq_some_iff.1 h
    obtain ⟨hreq', hnone, hleft⟩ := promptStep_requested hreq hmid
    obtain ⟨hreq'', hnone', hleft'⟩ := ih hreq' hrest
    refine ⟨hreq'', hnone.trans hnone', ?_⟩
    rw [← List.singleton_append, List.countP_append]
    omega

/-- After the shutdown a coordinator can begin a refresh only where a loop that waits finds its time
come. If its tasks leave whenever they can, none is begun, the coordinator takes at most seven more
turns, and it has ended when no turn of it is open and the refreshes that it waits for are over. -/
theorem refreshes_after_shutdown (photos : Uuid → Photo) (hreq : d.coordinator.signal.requested) :
    ((∃ m ∈ d.coordinator.moves d.shared, d.shared.desk.next < m.shared.desk.next) ↔
        d.coordinator.TickDue d.shared ∨ d.coordinator.UpdateDue d.shared) ∧
      ∀ (ops : List Op) (d' : Duty), ops.foldlM (promptStep photos) d = some d' →
        BeginsNone d.notes d'.notes ∧ ops.countP Op.isTurn ≤ 7 ∧
        (d'.coordinator.promptMoves d'.shared = [] →
          (∀ t ∈ d'.coordinator.tickets, (d'.shared.desk.report? t).isSome) →
          d'.coordinator.isStopped ∧ d'.coordinator.ended) := by
  refine ⟨Coordinator.draws_iff, fun ops d' h => ?_⟩
  obtain ⟨hreq', hnone, hleft⟩ := promptRun_requested hreq h
  have hbound := d.coordinator.left_le
  refine ⟨hnone, by omega, fun hclosed hreports => ?_⟩
  exact Coordinator.ended_of_promptMoves_eq_nil hreq' hreports hclosed

/-- A coordinator that refreshes every second. -/
def everySecond : Duty :=
  start 0 1000 (.start ⟨0, 0⟩) (.ofCapacity 16) (.create 0 (.standard 1000) [])

/-- The first tick and the shutdown come together, and all tasks leave. -/
theorem refreshes_after_shutdown_at_tick :
    ∃ d d', [.turn 3, .shutdown].foldlM (step fun _ => default) everySecond = some d ∧
      (∃ m ∈ d.coordinator.moves d.shared, d.shared.desk.next < m.shared.desk.next) ∧
      (List.replicate 5 (.turn 0)).foldlM (promptStep fun _ => default) d = some d' ∧
      d.notes = [.stopping] ∧ BeginsNone d.notes d'.notes ∧
      d'.coordinator.isStopped ∧ d'.coordinator.ended := by
  obtain ⟨d, d', hd, hreq, hstage, hd', hnotes, hclosed, htickets⟩ : ∃ d d',
      [.turn 3, .shutdown].foldlM (step fun _ => default) everySecond = some d ∧
      d.coordinator.signal.requested ∧
      (d.coordinator.timed.stage = .running (.ticking 0) ∧ 0 ≤ d.shared.now) ∧
      (List.replicate 5 (.turn 0)).foldlM (promptStep fun _ => default) d = some d' ∧
      d.notes = [.stopping] ∧ d'.coordinator.promptMoves d'.shared = [] ∧
      d'.coordinator.tickets = [] :=
    ⟨_, _, rfl, rfl, ⟨rfl, Nat.le_refl _⟩, rfl, rfl, rfl, rfl⟩
  obtain ⟨hdraws, hprompt⟩ := refreshes_after_shutdown (fun _ => default) hreq
  obtain ⟨hnone, -, hended⟩ := hprompt _ d' hd'
  refine ⟨d, d', hd, hdraws.2 (Or.inl ⟨0, hstage⟩), hd', hnotes, hnone, ?_⟩
  exact hended hclosed (by simp [htickets])

/-- The shutdown comes while a refresh is under way that lasts for more than two seconds. When it is
over, the next tick is overdue. -/
def overdueTick : List Op :=
  [.turn 3, .turn 3, .around .grant, .shutdown, .around (.surroundings 2500 (.ofCapacity 16))] ++
    (Refresh.abreast Refresh.mixedReads).map (fun a => .around (.pull a)) ++
    [.around .release, .turn 3, .turn 3]

set_option maxRecDepth 2000 in
/-- The timed loop begins another refresh. -/
theorem refresh_begun_after_shutdown :
    ∃ d after, overdueTick.foldlM (step fun _ => default) everySecond = some d ∧
      d.notes = [.begun 0, .entry (.took 0)] ++ .stopping :: after ∧
      after.getLast? = some (.begun 1) := by
  obtain ⟨d, hd, hnotes, hlast⟩ : ∃ d,
      overdueTick.foldlM (step fun _ => default) everySecond = some d ∧
      d.notes = [.begun 0, .entry (.took 0)] ++ .stopping :: d.notes.drop 3 ∧
      (d.notes.drop 3).getLast? = some (.begun 1) :=
    ⟨_, rfl, rfl, rfl⟩
  exact ⟨d, _, hd, hnotes, hlast⟩

end Duty

end RefCache
