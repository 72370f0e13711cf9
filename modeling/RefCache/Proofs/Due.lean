import RefCache.Proofs.Share

/-! The steps of a refresh: when each of them is due, what it leads to, and what it leaves alone. A
run takes steps one after the other, each of which must be due when its turn comes. -/

namespace RefCache

/-- What every step keeps, a run keeps. -/
theorem kept_by_run {σ α : Type} {step : σ → α → Option σ} {I : σ → Prop} {acts : List α}
    {s s' : σ} (kept : ∀ a ∈ acts, ∀ s s', step s a = some s' → I s → I s')
    (h : acts.foldlM step s = some s') (hs : I s) : I s' := by
  induction acts generalizing s with
  | nil =>
    obtain rfl := Option.some.inj h
    exact hs
  | cons a acts ih =>
    rw [List.foldlM_cons] at h
    obtain ⟨mid, hmid, hrest⟩ := Option.bind_eq_some_iff.1 h
    exact ih (fun b hb => kept b (List.mem_cons_of_mem a hb)) hrest
      (kept a (List.mem_cons_self ..) s mid hmid hs)

namespace Refresh

/-- A step of the puller of some category, or of the collector on it. -/
abbrev Act := (c : Category) × PullStep c

def act (photos : Uuid → Photo) (s : State) (a : Act) : Option State := step photos a.1 s a.2

variable {photos : Uuid → Photo} {cache : Cache} {c d : Category} {s s' : State}

/-- When a step is due and what it leads to, case by case. -/
inductive Due (photos : Uuid → Photo) (c : Category) (s : State) : PullStep c → State → Prop where
  | readMark : s.refresh.puller c = .ready →
    Due photos c s .readMark
      { s with refresh := s.refresh.setPuller c (.reading (s.cache.mark c)) }
  | fetch {since : Timestamp} {what : Fetched c} : s.refresh.puller c = .reading since →
    Due photos c s (.fetch what) { s with refresh := s.refresh.setPuller c (.fetched since what) }
  | absorb {since : Timestamp} {what : Fetched c} : s.refresh.puller c = .fetched since what →
    Due photos c s .absorb
      ⟨(s.cache.absorb photos c what).cache,
        s.refresh.setPuller c (.finished (s.cache.absorb photos c what).result),
        s.events ++ (s.cache.absorb photos c what).events⟩
  | join {result : PullResult} : s.refresh.puller c = .finished result →
    Due photos c s .join
      ⟨(noteResult c s.cache result).1,
        { s.refresh.setPuller c .joined with
          outcomes := s.refresh.outcomes ++ [resultOutcome c result] },
        s.events ++ (noteResult c s.cache result).2⟩

theorem step_eq_some {p : PullStep c} : step photos c s p = some s' ↔ Due photos c s p s' := by
  constructor
  · intro h
    cases p with
    | readMark =>
      simp only [step] at h
      split at h
      · cases h; exact .readMark ‹_›
      · cases h
    | fetch what =>
      simp only [step] at h
      split at h
      · cases h; exact .fetch ‹_›
      · cases h
    | absorb =>
      simp only [step] at h
      split at h
      · cases h; exact .absorb ‹_›
      · cases h
    | join =>
      simp only [step] at h
      split at h
      · cases h; exact .join ‹_›
      · cases h
  · intro h
    cases h with
    | readMark hp => simp only [step, hp]
    | fetch hp => simp only [step, hp]
    | absorb hp => simp only [step, hp]
    | join hp => simp only [step, hp]; rfl

/-- A step of one puller leaves the others where they are. -/
theorem Due.puller_of_ne {p : PullStep c} (h : Due photos c s p s') (hd : c ≠ d) :
    s'.refresh.puller d = s.refresh.puller d := by
  cases h with
  | readMark => exact puller_setPuller_of_ne _ _ hd
  | fetch => exact puller_setPuller_of_ne _ _ hd
  | absorb => exact puller_setPuller_of_ne _ _ hd
  | join => exact puller_setPuller_of_ne _ _ hd

@[simp] theorem category_resultOutcome (result : PullResult) :
    (resultOutcome c result).category = c := by
  cases result <;> rfl

@[simp] theorem coldStart_noteResult (result : PullResult) :
    (noteResult c cache result).1.coldStart = cache.coldStart := by
  cases result <;> rfl

@[simp] theorem shouldUpdate_noteResult (result : PullResult) :
    (noteResult c cache result).1.shouldUpdate = cache.shouldUpdate := by
  cases result <;> rfl

theorem share_noteResult_of_ne (h : d ≠ c) (result : PullResult) :
    (noteResult c cache result).1.share d = cache.share d := by
  cases result with
  | panicked p => exact Cache.share_noteError_of_ne h _
  | merged o => rfl
  | failed e => rfl

theorem Due.coldStart_eq {p : PullStep c} (h : Due photos c s p s') :
    s'.cache.coldStart = s.cache.coldStart := by
  cases h with
  | readMark => rfl
  | fetch => rfl
  | absorb => exact Cache.coldStart_absorb _
  | join => exact coldStart_noteResult _

theorem Due.shouldUpdate_eq {p : PullStep c} (h : Due photos c s p s') :
    s'.cache.shouldUpdate = s.cache.shouldUpdate := by
  cases h with
  | readMark => rfl
  | fetch => rfl
  | absorb => exact Cache.shouldUpdate_absorb _
  | join => exact shouldUpdate_noteResult _

/-- A step of one puller leaves the shares of the other categories alone. -/
theorem Due.share_of_ne {p : PullStep c} (h : Due photos c s p s') (hd : c ≠ d) :
    s'.cache.share d = s.cache.share d := by
  cases h with
  | readMark => rfl
  | fetch => rfl
  | absorb => exact Cache.share_absorb_of_ne hd.symm _
  | join => exact share_noteResult_of_ne hd.symm _

theorem complete_iff {r : Refresh} : r.complete ↔ ∀ c, r.puller c = .joined := by
  have hjoined : ∀ c, (r.puller c).isJoined ↔ r.puller c = .joined := by
    intro c
    cases r.puller c <;> simp [Puller.isJoined]
  simp only [complete, List.all_eq_true, hjoined]
  exact ⟨fun h c => h c c.mem_all, fun h c _ => h c⟩

end Refresh

end RefCache
