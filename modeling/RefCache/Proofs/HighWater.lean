import RefCache.Proofs.Due
import RefCache.Proofs.Upkeep
import Mathlib.Logic.Function.Basic

/-! The marks under traffic: any number of refreshes at work on one cache, none waiting for
another. A pull on its own is a refresh of which only one puller moves. A mark is read in one step
and moved in another, so pulls that overlap merge out of order, and a reader may come back with any
rows at all. All the same the mark of a category is the greatest of the cold start and the stamps
of the rows applied, and the marks that pulls read never go back. -/

namespace RefCache

variable {photos : Uuid → Photo} {now : Timestamp} {c d : Category}

/-- The rows that absorbing what a read came back with applies. -/
def Cache.appliedRows (photos : Uuid → Photo) (cache : Cache) {c : Category} :
    Fetched c → List c.Row
  | .rows batch => Merge.appliedRows (Indexes.applyRow photos c) batch cache.indexes
  | .failed _ => []
  | .panicked _ => []

theorem Cache.mark_absorb (cache : Cache) (what : Fetched c) :
    (cache.absorb photos c what).cache.mark c =
      ((cache.appliedRows photos what).map c.updatedAt).foldl max (cache.mark c) := by
  cases what with
  | rows batch => exact cache.mark_absorb_rows photos batch
  | failed e => rfl
  | panicked p => rfl

/-! ### What a step of a puller does to the marks -/

namespace Refresh

variable {s s' : State}

/-- The rows that a step applies, by where its puller stood. -/
def rowsApplied (photos : Uuid → Photo) (cache : Cache) : PullStep c → Puller c → List c.Row
  | .absorb, .fetched _ what => cache.appliedRows photos what
  | _, _ => []

/-- The mark that a step reads, by where its puller stands afterwards. -/
def marksRead : PullStep c → Puller c → List Timestamp
  | .readMark, .reading since => [since]
  | _, _ => []

theorem Due.mark_eq {p : PullStep c} (h : Due photos c s p s') :
    s'.cache.mark c =
      ((rowsApplied photos s.cache p (s.refresh.puller c)).map c.updatedAt).foldl max
        (s.cache.mark c) := by
  cases h with
  | readMark hp => rfl
  | fetch hp => rfl
  | absorb hp =>
    rw [hp]
    exact Cache.mark_absorb ..
  | @join result hp => cases result <;> rfl

theorem Due.mark_of_ne {p : PullStep c} (h : Due photos c s p s') (hd : c ≠ d) :
    s'.cache.mark d = s.cache.mark d :=
  Cache.mark_eq_of_share h.coldStart_eq (h.share_of_ne hd)

theorem Due.marksRead_eq {p : PullStep c} (h : Due photos c s p s') :
    marksRead p (s'.refresh.puller c) = [] ∨
      marksRead p (s'.refresh.puller c) = [s.cache.mark c] := by
  cases h with
  | readMark hp => exact Or.inr (by rw [puller_setPuller_self]; rfl)
  | fetch hp => exact Or.inl rfl
  | absorb hp => exact Or.inl rfl
  | join hp => exact Or.inl rfl

/-- Only rows that a read came back with are applied, when they are absorbed. -/
theorem exists_of_mem_rowsApplied {cache : Cache} {p : PullStep c} {q : Puller c} {row : c.Row}
    (h : row ∈ rowsApplied photos cache p q) :
    p = .absorb ∧ ∃ since batch, q = .fetched since (.rows batch) ∧
      row ∈ Merge.appliedRows (Indexes.applyRow photos c) batch cache.indexes := by
  cases p with
  | absorb =>
    cases q with
    | fetched since what =>
      cases what with
      | rows batch => exact ⟨rfl, since, batch, rfl, h⟩
      | failed e => cases h
      | panicked p => cases h
    | ready => cases h
    | reading since => cases h
    | finished result => cases h
    | joined => cases h
  | readMark => cases h
  | fetch what => cases h
  | join => cases h

end Refresh

/-! ### Traffic -/

structure Traffic where
  cache : Cache
  refreshes : Nat → Refresh
  /-- All rows of each category applied so far, in the order in which they were. -/
  applied : (c : Category) → List c.Row
  /-- The marks of each category that pulls have read, in the order in which they did. -/
  sinces : Category → List Timestamp

namespace Traffic

def start (now : Timestamp) : Traffic := ⟨.start now, fun _ => .start, fun _ => [], fun _ => []⟩

/-- A step of one puller of one of the refreshes, if it is due. -/
def step (photos : Uuid → Photo) (m : Traffic) (i : Nat) (c : Category) (p : PullStep c) :
    Option Traffic :=
  (Refresh.step photos c ⟨m.cache, m.refreshes i, []⟩ p).map fun s =>
    { cache := s.cache
      refreshes := Function.update m.refreshes i s.refresh
      applied := Function.update m.applied c
        (m.applied c ++ Refresh.rowsApplied photos m.cache p ((m.refreshes i).puller c))
      sinces := Function.update m.sinces c
        (m.sinces c ++ Refresh.marksRead p (s.refresh.puller c)) }

/-- A step of any of the refreshes. -/
def act (photos : Uuid → Photo) (m : Traffic) (a : Nat × Refresh.Act) : Option Traffic :=
  m.step photos a.1 a.2.1 a.2.2

variable {m m' : Traffic} {i : Nat}

/-- What a step of a puller of one category does, by the rows it applies and the mark it reads. -/
theorem mark_step {p : PullStep c} (h : m.step photos i c p = some m') :
    m'.cache.mark c =
      ((Refresh.rowsApplied photos m.cache p ((m.refreshes i).puller c)).map c.updatedAt).foldl max
        (m.cache.mark c) := by
  obtain ⟨s, hs, rfl⟩ := Option.map_eq_some_iff.1 h
  exact (Refresh.step_eq_some.1 hs).mark_eq

theorem applied_step {p : PullStep c} (h : m.step photos i c p = some m') :
    m'.applied c =
      m.applied c ++ Refresh.rowsApplied photos m.cache p ((m.refreshes i).puller c) := by
  obtain ⟨s, hs, rfl⟩ := Option.map_eq_some_iff.1 h
  exact Function.update_self ..

theorem sinces_step {p : PullStep c} (h : m.step photos i c p = some m') :
    m'.sinces c = m.sinces c ∨ m'.sinces c = m.sinces c ++ [m.cache.mark c] := by
  obtain ⟨s, hs, rfl⟩ := Option.map_eq_some_iff.1 h
  rcases (Refresh.step_eq_some.1 hs).marksRead_eq with hread | hread
  · left
    simp only [Function.update_self, hread, List.append_nil]
  · right
    simp only [Function.update_self, hread]

/-- Steps of other categories do nothing to the mark of one, nor to what was applied or read. -/
theorem step_of_ne {p : PullStep c} (h : m.step photos i c p = some m') (hd : c ≠ d) :
    m'.cache.mark d = m.cache.mark d ∧ m'.applied d = m.applied d ∧ m'.sinces d = m.sinces d := by
  obtain ⟨s, hs, rfl⟩ := Option.map_eq_some_iff.1 h
  exact ⟨(Refresh.step_eq_some.1 hs).mark_of_ne hd, Function.update_of_ne hd.symm ..,
    Function.update_of_ne hd.symm ..⟩

/-- What holds of one category under any traffic. -/
structure Exact (now : Timestamp) (m : Traffic) (c : Category) : Prop where
  mark : m.cache.mark c = ((m.applied c).map c.updatedAt).foldl max (coldStartMark now)
  reached : ∀ since ∈ m.sinces c, since ≤ m.cache.mark c
  ordered : (m.sinces c).Pairwise (· ≤ ·)

theorem exact_start : Exact now (start now) c where
  mark := rfl
  reached := by simp [start]
  ordered := .nil

theorem mark_le_step {p : PullStep c} (h : m.step photos i c p = some m') :
    m.cache.mark c ≤ m'.cache.mark c := by
  rw [mark_step h, List.foldl_max]
  exact Std.left_le_max

theorem Exact.step {p : PullStep d} (hm : Exact now m c) (h : m.step photos i d p = some m') :
    Exact now m' c := by
  by_cases hd : d = c
  · subst hd
    -- a mark read earlier stays below, since the mark has only moved forward
    have hle := mark_le_step h
    have hreached : ∀ since ∈ m.sinces d, since ≤ m'.cache.mark d :=
      fun since hs => Std.le_trans (hm.reached since hs) hle
    refine ⟨?_, ?_, ?_⟩
    · rw [mark_step h, applied_step h, List.map_append, List.foldl_append, hm.mark]
    · rcases sinces_step h with hs | hs
      · exact hs ▸ hreached
      · rw [hs]
        intro since hmem
        rcases List.mem_append.1 hmem with hmem | hmem
        · exact hreached since hmem
        · exact List.mem_singleton.1 hmem ▸ hle
    · rcases sinces_step h with hs | hs
      · exact hs ▸ hm.ordered
      · rw [hs, List.pairwise_append]
        refine ⟨hm.ordered, List.pairwise_singleton .., fun a ha b hb => ?_⟩
        exact List.mem_singleton.1 hb ▸ hm.reached a ha
  · obtain ⟨hmark, happlied, hsinces⟩ := step_of_ne h hd
    exact ⟨by rw [hmark, happlied, hm.mark], by rw [hmark, hsinces]; exact hm.reached,
      hsinces ▸ hm.ordered⟩

/-- Under any traffic the mark of a category is the greatest of the cold start and the stamps of
the rows applied; the marks that pulls read never go back; and a step moves the mark only forward,
and only to the stamp of a row that it applies. -/
theorem high_water_exact {acts : List (Nat × Refresh.Act)}
    (h : acts.foldlM (act photos) (start now) = some m) (c : Category) :
    (coldStartMark now :: (m.applied c).map c.updatedAt).max? = some (m.cache.mark c) ∧
      (∀ row ∈ m.applied c, c.updatedAt row ≤ m.cache.mark c) ∧
      (m.sinces c).Pairwise (· ≤ ·) ∧
      (∀ i d p m', d ≠ c → m.step photos i d p = some m' → m'.cache.mark c = m.cache.mark c) ∧
      ∀ i p m', m.step photos i c p = some m' →
        m.cache.mark c ≤ m'.cache.mark c ∧
        (m'.cache.mark c ≠ m.cache.mark c →
          p = .absorb ∧ ∃ since batch, (m.refreshes i).puller c = .fetched since (.rows batch) ∧
            ∃ row ∈ Merge.appliedRows (Indexes.applyRow photos c) batch m.cache.indexes,
              m'.cache.mark c = c.updatedAt row) := by
  have hm : Exact now m c :=
    kept_by_run (I := (Exact now · c)) (fun a _ m m' hstep hm => hm.step hstep) h exact_start
  have hmax : (coldStartMark now :: (m.applied c).map c.updatedAt).max? = some (m.cache.mark c) :=
    List.max?_cons'.trans (congrArg some hm.mark.symm)
  refine ⟨hmax, fun row hrow => ?_, hm.ordered, fun i d p m' hd hstep => (step_of_ne hstep hd).1,
    fun i p m' hstep => ⟨mark_le_step hstep, fun hmoved => ?_⟩⟩
  · refine (List.max?_eq_some_iff.1 hmax).2 _ (List.mem_cons_of_mem _ ?_)
    exact List.mem_map_of_mem hrow
  · rw [mark_step hstep] at hmoved ⊢
    have hmem := (List.mem_cons.1 (Timestamp.foldl_max_mem _ _)).resolve_left hmoved
    obtain ⟨row, hrow, hstamp⟩ := List.mem_map.1 hmem
    obtain ⟨hp, since, batch, hpuller, happlied⟩ := Refresh.exists_of_mem_rowsApplied hrow
    exact ⟨hp, since, batch, hpuller, row, happlied, hstamp.symm⟩

/-- Three pulls of federations: the second merges before the first, whose row is older, and the
third panics. -/
def overtaking : List (Nat × Refresh.Act) :=
  [(0, ⟨.federations, .readMark⟩),
    (1, ⟨.federations, .readMark⟩),
    (1, ⟨.federations, .fetch (.rows [{ (default : FederationRow) with updatedAt := ⟨5, 0⟩ }])⟩),
    (1, ⟨.federations, .absorb⟩),
    (2, ⟨.federations, .readMark⟩),
    (0, ⟨.federations, .fetch (.rows [{ (default : FederationRow) with updatedAt := ⟨3, 0⟩ }])⟩),
    (0, ⟨.federations, .absorb⟩),
    (2, ⟨.federations, .fetch (.panicked .other)⟩),
    (2, ⟨.federations, .absorb⟩)]

theorem high_water_exact_overtaking :
    ∃ m, overtaking.foldlM (act fun _ => default) (start ⟨0, 0⟩) = some m ∧
      (m.applied .federations).map Category.federations.updatedAt = [⟨5, 0⟩, ⟨3, 0⟩] ∧
      m.sinces .federations = [coldStartMark ⟨0, 0⟩, coldStartMark ⟨0, 0⟩, ⟨5, 0⟩] ∧
      m.cache.mark .federations = ⟨5, 0⟩ := by
  obtain ⟨m, hm, happlied, hsinces⟩ : ∃ m,
      overtaking.foldlM (act fun _ => default) (start ⟨0, 0⟩) = some m ∧
      (m.applied .federations).map Category.federations.updatedAt = [⟨5, 0⟩, ⟨3, 0⟩] ∧
      m.sinces .federations = [coldStartMark ⟨0, 0⟩, coldStartMark ⟨0, 0⟩, ⟨5, 0⟩] :=
    ⟨_, rfl, rfl, rfl⟩
  have hmark := (high_water_exact hm .federations).1
  rw [happlied] at hmark
  have hmax : [coldStartMark ⟨0, 0⟩, ⟨5, 0⟩, ⟨3, 0⟩].max? = some ⟨5, 0⟩ := by decide
  exact ⟨m, hm, happlied, hsinces, Option.some.inj (hmark.symm.trans hmax)⟩

end Traffic

end RefCache
