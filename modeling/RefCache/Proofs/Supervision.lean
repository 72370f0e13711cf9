import RefCache.Proofs.PlannedRuns
import Mathlib.Tactic.ByContra

/-! What is to be seen of a supervised task. Its runs start one after the other, each when all runs
before it and the pauses after them are over, until a shutdown is requested; the run under way then
is waited for, and nothing starts any more. -/

namespace RefCache

namespace Timeline

variable {policy : RestartPolicy} {runs : List PlannedRun} {shutdown : Option Nat}
  {k m now T : Nat} {r : PlannedRun}

/-- The events with which the end of a run is logged. -/
def isFailure (e : Event) : Bool :=
  ["Task exited unexpectedly, restarting", "Task failed, restarting",
    "Task panicked, restarting"].contains e.message

/-- Supervision has ended: the shutdown was requested, and the run under way then, if there was
one, is over. -/
def Ended (policy : RestartPolicy) (runs : List PlannedRun) (shutdown : Option Nat) (now : Nat) :
    Prop :=
  ∃ T, shutdown = some T ∧ T ≤ now ∧ ∀ k r, runs[k]? = some r → startTime policy runs k < T →
    T < startTime policy runs k + r.duration → startTime policy runs k + r.duration ≤ now

/-- What is to be seen of a plan at some time. -/
structure AsPlanned (policy : RestartPolicy) (runs : List PlannedRun) (shutdown : Option Nat)
    (now : Nat) (t : Timeline) : Prop where
  /-- Every run starts when it is due, if the shutdown has not been requested. -/
  starts : ∀ k s, t.script.starts[k]? = some s ↔
    k ≤ runs.length ∧ s = startTime policy runs k ∧ InTime shutdown now s
  /-- A run that starts finds all runs before it ended. -/
  apart : ∀ (j k : Nat) (r : PlannedRun) (s : Nat), j < k → runs[j]? = some r →
    t.script.starts[k]? = some s → startTime policy runs j + r.duration ≤ s
  /-- No two runs are under way. -/
  alone : t.script.starts.length ≤ t.supervised.restarts + 1
  /-- The runs that ended before the shutdown are counted. -/
  restarts : ∀ k r, runs[k]? = some r →
    (k < t.supervised.restarts ↔ InTime shutdown now (startTime policy runs k + r.duration))
  restarts_le : t.supervised.restarts ≤ runs.length
  /-- They and no others are logged as failed. -/
  failures : t.events.filter isFailure =
    (runs.take t.supervised.restarts).map fun r => r.outcome.failure policy
  /-- Supervision ends with the shutdown, or with the run that is under way then. -/
  stopped : t.supervised.isStopped ↔ Ended policy runs shutdown now
  /-- The last word is how many runs were restarted. -/
  farewell : t.supervised.isStopped →
    t.events.getLast? = some (stoppedEvent policy t.supervised.restarts)

theorem length_startTimes : (startTimes policy runs k).length = k := by
  simp [startTimes]

theorem getElem?_startTimes {j s : Nat} :
    (startTimes policy runs k)[j]? = some s ↔ j < k ∧ s = startTime policy runs j := by
  simp only [startTimes, List.getElem?_map, Option.map_eq_some_iff, List.getElem?_eq_some_iff,
    List.length_range, List.getElem_range]
  constructor
  · rintro ⟨i, ⟨hj, rfl⟩, rfl⟩
    exact ⟨hj, rfl⟩
  · rintro ⟨hj, rfl⟩
    exact ⟨j, ⟨hj, rfl⟩, rfl⟩

theorem end_le_startTime (h : runs[k]? = some r) (hk : k < m) :
    startTime policy runs k + r.duration ≤ startTime policy runs m :=
  Nat.le_trans (Nat.le_add_right _ _) (over_by_startTime h hk)

/-- How many runs have started and how many have ended, in time. -/
structure Reached (policy : RestartPolicy) (runs : List PlannedRun) (shutdown : Option Nat)
    (now started ended : Nat) : Prop where
  starts : ∀ j s, (startTimes policy runs started)[j]? = some s ↔
    j ≤ runs.length ∧ s = startTime policy runs j ∧ InTime shutdown now s
  ends : ∀ k r, runs[k]? = some r →
    (k < ended ↔ InTime shutdown now (startTime policy runs k + r.duration))
  started_le : started ≤ ended + 1
  ended_le : ended ≤ runs.length

/-- The last run that has started was due in time, and the next one was not. -/
theorem starts_iff {j s : Nat} (hm : m ≤ runs.length)
    (hstart : InTime shutdown now (startTime policy runs m))
    (hnext : m < runs.length → ¬InTime shutdown now (startTime policy runs (m + 1))) :
    (startTimes policy runs (m + 1))[j]? = some s ↔
      j ≤ runs.length ∧ s = startTime policy runs j ∧ InTime shutdown now s := by
  rw [getElem?_startTimes]
  constructor
  · rintro ⟨hj, rfl⟩
    exact ⟨by omega, rfl, hstart.of_le (startTime_mono (Nat.le_of_lt_succ hj))⟩
  · rintro ⟨hj, rfl, htime⟩
    refine ⟨?_, rfl⟩
    by_contra hlater
    exact hnext (by omega) (htime.of_le (startTime_mono (Nat.not_lt.1 hlater)))

/-- A run that is under way is the first that has not ended. -/
theorem reached_running (hm : runs[m]? = some r)
    (hstart : InTime shutdown now (startTime policy runs m))
    (hend : ¬InTime shutdown now (startTime policy runs m + r.duration)) :
    Reached policy runs shutdown now (m + 1) m := by
  have hlength : m < runs.length := (List.getElem?_eq_some_iff.1 hm).1
  refine ⟨fun j s => starts_iff (Nat.le_of_lt hlength) hstart fun _ htime =>
      hend (htime.of_le (end_le_startTime hm (Nat.lt_succ_self m))),
    fun k r' hk => ⟨fun hlt => hstart.of_le (end_le_startTime hk hlt), fun htime => ?_⟩,
    Nat.le_refl _, Nat.le_of_lt hlength⟩
  by_contra hlater
  rcases Nat.lt_or_eq_of_le (Nat.not_lt.1 hlater) with hlt | rfl
  · exact hend (htime.of_le (Nat.le_trans (end_le_startTime hm hlt) (Nat.le_add_right _ _)))
  · obtain rfl := Option.some.inj (hm.symm.trans hk)
    exact hend htime

/-- In the pause after a run, all runs that have started have ended. -/
theorem reached_pause (hm : runs[m]? = some r)
    (hend : InTime shutdown now (startTime policy runs m + r.duration))
    (hnext : ¬InTime shutdown now (startTime policy runs (m + 1))) :
    Reached policy runs shutdown now (m + 1) (m + 1) := by
  have hlength : m < runs.length := (List.getElem?_eq_some_iff.1 hm).1
  refine ⟨fun j s => starts_iff (Nat.le_of_lt hlength) (hend.of_le (Nat.le_add_right _ _))
      fun _ => hnext,
    fun k r' hk => ⟨fun hlt => ?_, fun htime => ?_⟩, Nat.le_succ _, hlength⟩
  · rcases Nat.lt_or_eq_of_le (Nat.le_of_lt_succ hlt) with hlt | rfl
    · exact hend.of_le (Nat.le_trans (end_le_startTime hk hlt) (Nat.le_add_right _ _))
    · obtain rfl := Option.some.inj (hm.symm.trans hk)
      exact hend
  · by_contra hlater
    have hlate : startTime policy runs (m + 1) ≤ startTime policy runs k :=
      startTime_mono (Nat.not_lt.1 hlater)
    exact hnext (htime.of_le (Nat.le_trans hlate (Nat.le_add_right _ _)))

/-- When the last run is under way, all others have ended. -/
theorem reached_waiting (hstart : InTime shutdown now (startTime policy runs runs.length)) :
    Reached policy runs shutdown now (runs.length + 1) runs.length := by
  refine ⟨fun j s => starts_iff (Nat.le_refl _) hstart fun hlt => absurd hlt (Nat.lt_irrefl _),
    fun k r hk => ?_, Nat.le_refl _, Nat.le_refl _⟩
  have hlength : k < runs.length := (List.getElem?_eq_some_iff.1 hk).1
  exact ⟨fun _ => hstart.of_le (end_le_startTime hk hlength), fun _ => hlength⟩

theorem reached_nothing : Reached policy runs (some 0) now 0 0 := by
  have hnone : ∀ time, ¬InTime (some 0) now time := fun time h =>
    absurd (h.2 0 rfl) (Nat.not_lt_zero _)
  exact ⟨fun j s => ⟨nofun, fun h => absurd h.2.2 (hnone s)⟩,
    fun k r _ => ⟨fun hk => absurd hk (Nat.not_lt_zero _), fun h => absurd h (hnone _)⟩,
    Nat.zero_le _, Nat.zero_le _⟩

theorem filter_captured (o : Outcome) : o.captured.filter isFailure = [] := by
  cases o <;> rfl

theorem filter_failure (o : Outcome) :
    [o.failure policy].filter isFailure = [o.failure policy] := by
  cases o <;> rfl

theorem filter_startedEvent : [startedEvent policy k].filter isFailure = [] := rfl

theorem filter_stoppedEvent : [stoppedEvent policy k].filter isFailure = [] := rfl

theorem filter_failedLog (hm : m ≤ runs.length) :
    (failedLog policy runs m).filter isFailure =
      (runs.take m).map fun r => r.outcome.failure policy := by
  induction m with
  | zero => rfl
  | succ m ih =>
    have hr := List.getElem?_eq_getElem hm
    rw [failedLog_succ hr, List.filter_append, List.filter_append, List.filter_append,
      ih (Nat.le_of_succ_le hm), filter_startedEvent, filter_captured, filter_failure,
      List.take_add_one, hr]
    simp only [Option.toList_some, List.map_append, List.map_cons, List.map_nil, List.nil_append,
      List.append_nil]

theorem inTime_iff_of_not_requested {time : Nat} (h : isRequested shutdown now = false) :
    InTime shutdown now time ↔ time ≤ now := by
  refine ⟨fun htime => htime.1, fun htime => ⟨htime, fun T hT => ?_⟩⟩
  have hlater : ¬T ≤ now := by simpa [isRequested, Option.mem_def.1 hT] using h
  omega

theorem inTime_some {time : Nat} (h : T ≤ now) : InTime (some T) now time ↔ time < T := by
  refine ⟨fun htime => htime.2 T rfl, fun htime => ⟨by omega, fun U hU => ?_⟩⟩
  obtain rfl := Option.some.inj hU
  exact htime

theorem Reached.asPlanned {t : Timeline} {started ended : Nat}
    (h : Reached policy runs shutdown now started ended)
    (hstarts : t.script.starts = startTimes policy runs started)
    (hrestarts : t.supervised.restarts = ended)
    (hfailures : t.events.filter isFailure =
      (runs.take ended).map fun r => r.outcome.failure policy)
    (hstopped : t.supervised.isStopped ↔ Ended policy runs shutdown now)
    (hfarewell : t.supervised.isStopped → t.events.getLast? = some (stoppedEvent policy ended)) :
    AsPlanned policy runs shutdown now t := by
  subst hrestarts
  refine ⟨hstarts ▸ h.starts, ?_, ?_, h.ends, h.ended_le, hfailures, hstopped, hfarewell⟩
  · intro j k r s hjk hr hs
    obtain ⟨-, rfl⟩ := getElem?_startTimes.1 (hstarts ▸ hs)
    exact end_le_startTime hr hjk
  · rw [hstarts, length_startTimes]
    exact h.started_le

theorem not_ended_of_not_requested (h : isRequested shutdown now = false) :
    ¬Ended policy runs shutdown now := by
  rintro ⟨T, rfl, hT, -⟩
  simp [isRequested, hT] at h

/-- While a run is under way, the supervisor waits for it. -/
theorem not_ended_of_running (hm : runs[m]? = some r)
    (hstart : InTime shutdown now (startTime policy runs m))
    (hend : now < startTime policy runs m + r.duration) : ¬Ended policy runs shutdown now := by
  rintro ⟨T, rfl, hT, hover⟩
  have hended := hover m r hm (hstart.2 T rfl) (Nat.lt_of_le_of_lt hT hend)
  omega

/-- A shutdown in the middle of a run ends with this run. -/
theorem ended_of_outrun (hm : runs[m]? = some r) (hstart : startTime policy runs m < T)
    (hend : T < startTime policy runs m + r.duration)
    (hover : startTime policy runs m + r.duration ≤ now) : Ended policy runs (some T) now := by
  refine ⟨T, rfl, by omega, fun k r' hk hstart' hend' => ?_⟩
  rcases Nat.lt_trichotomy k m with hlt | rfl | hgt
  · have hbefore : startTime policy runs k + r'.duration ≤ startTime policy runs m :=
      end_le_startTime hk hlt
    omega
  · obtain rfl := Option.some.inj (hm.symm.trans hk)
    exact hover
  · have hafter : startTime policy runs m + r.duration ≤ startTime policy runs k :=
      end_le_startTime hm hgt
    omega

/-- A shutdown between a run and the next one ends at once. -/
theorem ended_of_between (hT : T ≤ now)
    (hbefore : ∀ k r, runs[k]? = some r → k < m → startTime policy runs k + r.duration < T)
    (hafter : ∀ k r, runs[k]? = some r → m ≤ k → T < startTime policy runs k) :
    Ended policy runs (some T) now := by
  refine ⟨T, rfl, hT, fun k r hk hstart hend => ?_⟩
  rcases Nat.lt_or_ge k m with hlt | hge
  · exact absurd (hbefore k r hk hlt) (Nat.not_lt.2 (Nat.le_of_lt hend))
  · exact absurd (hafter k r hk hge) (Nat.not_lt.2 (Nat.le_of_lt hstart))

/-- Starts and stops are no failures. -/
theorem filter_append_plain {log others : List Event} (h : others.filter isFailure = []) :
    (log ++ others).filter isFailure = log.filter isFailure := by
  rw [List.filter_append, h, List.append_nil]

theorem Stands.asPlanned {t : Timeline} (h : Stands policy runs shutdown now t) :
    AsPlanned policy runs shutdown now t := by
  cases h with
  | @running m r hm hstart hend =>
    have hreached := reached_running hm hstart fun htime => absurd htime.1 (Nat.not_le.2 hend)
    have hwaits := not_ended_of_running hm hstart hend
    refine hreached.asPlanned rfl rfl ?_ ⟨nofun, fun hended => absurd hended hwaits⟩ nofun
    exact (filter_append_plain filter_startedEvent).trans (filter_failedLog hreached.ended_le)
  | @cooling m r hm hnot hend hnext =>
    have hreached := reached_pause hm ((inTime_iff_of_not_requested hnot).2 hend)
      fun htime => absurd htime.1 (Nat.not_le.2 hnext)
    have hwaits : ¬Ended policy runs shutdown now := not_ended_of_not_requested hnot
    exact hreached.asPlanned rfl rfl (filter_failedLog hreached.ended_le)
      ⟨nofun, fun hended => absurd hended hwaits⟩ nofun
  | waiting hnot hstart =>
    have hreached := reached_waiting ((inTime_iff_of_not_requested hnot).2 hstart)
    have hwaits : ¬Ended policy runs shutdown now := not_ended_of_not_requested hnot
    refine hreached.asPlanned rfl rfl ?_ ⟨nofun, fun hended => absurd hended hwaits⟩ nofun
    exact (filter_append_plain filter_startedEvent).trans (filter_failedLog hreached.ended_le)
  | unstarted hT =>
    subst hT
    have hended : Ended policy runs (some 0) now :=
      ⟨0, rfl, Nat.zero_le _, fun k r _ hstart => absurd hstart (Nat.not_lt_zero _)⟩
    exact reached_nothing.asPlanned rfl rfl rfl ⟨fun _ => hended, fun _ => rfl⟩ fun _ => rfl
  | @outrun m r T hm hT hstart hend hover =>
    subst hT
    have hnow : T ≤ now := by omega
    have hreached := reached_running hm ((inTime_some hnow).2 hstart)
      fun htime => absurd ((inTime_some hnow).1 htime) (Nat.not_lt.2 (Nat.le_of_lt hend))
    have hended := ended_of_outrun hm hstart hend hover
    refine hreached.asPlanned rfl rfl ?_ ⟨fun _ => hended, fun _ => rfl⟩ fun _ => ?_
    · have hplain : (r.outcome.captured ++ [stoppedEvent policy m]).filter isFailure = [] := by
        rw [List.filter_append, filter_captured, filter_stoppedEvent, List.append_nil]
      exact (filter_append_plain hplain).trans
        ((filter_append_plain filter_startedEvent).trans (filter_failedLog hreached.ended_le))
    · rw [← List.append_assoc]
      exact List.getLast?_concat
  | @cut m r T hm hT hend hnext hnow =>
    subst hT
    have hreached := reached_pause hm ((inTime_some hnow).2 hend)
      fun htime => absurd ((inTime_some hnow).1 htime) (Nat.not_lt.2 (Nat.le_of_lt hnext))
    have hended : Ended policy runs (some T) now := by
      refine ended_of_between (m := m + 1) hnow (fun k r' hk hlt => ?_) fun k r' hk hge => ?_
      · exact (inTime_some hnow).1 ((hreached.ends k r' hk).1 hlt)
      · exact Nat.lt_of_lt_of_le hnext (startTime_mono hge)
    refine hreached.asPlanned rfl rfl ?_ ⟨fun _ => hended, fun _ => rfl⟩
      fun _ => List.getLast?_concat
    exact (filter_append_plain filter_stoppedEvent).trans (filter_failedLog hreached.ended_le)
  | @woken T hT hstart hnow =>
    subst hT
    have hreached := reached_waiting ((inTime_some hnow).2 hstart)
    have hended : Ended policy runs (some T) now := by
      refine ended_of_between (m := runs.length) hnow (fun k r hk hlt => ?_) fun k r hk hge => ?_
      · exact Nat.lt_of_le_of_lt (end_le_startTime hk hlt) hstart
      · exact absurd (List.getElem?_eq_some_iff.1 hk).1 (Nat.not_lt.2 hge)
    refine hreached.asPlanned rfl rfl ?_ ⟨fun _ => hended, fun _ => rfl⟩
      fun _ => List.getLast?_concat
    exact (filter_append_plain filter_stoppedEvent).trans
      ((filter_append_plain filter_startedEvent).trans (filter_failedLog hreached.ended_le))

/-- Whatever the runs and whenever the shutdown, supervision goes by the plan. -/
theorem supervised_as_planned (hcooldown : 0 < policy.cooldown)
    (hapart : Apart policy runs shutdown) (now : Nat) :
    AsPlanned policy runs shutdown now (observed policy runs shutdown now) := by
  have hpause : 0 < policy.pause := Nat.lt_min.2 ⟨hcooldown, by decide⟩
  exact (stands_observed hpause hapart now).asPlanned

/-- A task that fails, panics and returns; the shutdown comes during its second run, which lasts
longer than any timer. -/
def flakyRuns : List PlannedRun :=
  [⟨0, .failed (.internal "first run fails")⟩,
    ⟨longestTimer + 20, .panicked (.text "second run panics")⟩, ⟨300, .returned⟩]

/-- The second run is under way at the shutdown, and supervision ends with it. -/
theorem supervised_as_planned_flaky :
    let policy : RestartPolicy := ⟨"flaky", 5000⟩
    let last := observed policy flakyRuns (some 5010) (longestTimer + 5020)
    0 < policy.cooldown ∧ Apart policy flakyRuns (some 5010) ∧
      AsPlanned policy flakyRuns (some 5010) (longestTimer + 5020) last ∧
      last.script.starts = [0, 5000] ∧ last.supervised.restarts = 1 ∧
      last.supervised.isStopped ∧
      (observed policy flakyRuns (some 5010) (longestTimer + 5019)).supervised.isStopped = false
      := by
  have hapart : Apart ⟨"flaky", 5000⟩ flakyRuns (some 5010) := by
    rintro T hT k r hr
    obtain rfl := Option.some.inj hT
    have hk : k < 3 := (List.getElem?_eq_some_iff.1 hr).1
    rcases hk' : k with _ | _ | _ | k
    · subst hk'
      obtain rfl := Option.some.inj hr
      decide
    · subst hk'
      obtain rfl := Option.some.inj hr
      decide
    · subst hk'
      obtain rfl := Option.some.inj hr
      decide
    · omega
  exact ⟨by decide, hapart, supervised_as_planned (by decide) hapart _, by decide +kernel,
    by decide +kernel, by decide +kernel, by decide +kernel⟩

/-- A pause that is set to more than thirty years is over after thirty years, and so the next run
starts before the sum of the times that were set. -/
theorem pause_over_after_thirty_years :
    ¬∀ (policy : RestartPolicy) (runs : List PlannedRun) (now k s : Nat), 0 < policy.cooldown →
      ((observed policy runs none now).script.starts[k]? = some s ↔ k ≤ runs.length ∧
        s = total ((runs.take k).map fun r => r.duration + policy.cooldown) ∧ s ≤ now) := by
  intro h
  have hstarts : (observed ⟨"idle", longestTimer + 1⟩ [⟨0, .returned⟩] none
      longestTimer).script.starts[1]? = some longestTimer := by
    decide +kernel
  obtain ⟨-, hsum, -⟩ := (h ⟨"idle", longestTimer + 1⟩ [⟨0, .returned⟩] longestTimer 1 longestTimer
    (Nat.succ_pos _)).1 hstarts
  revert hsum
  decide

end Timeline

end RefCache
