import RefCache.Proofs.Answers
import RefCache.Proofs.Decoding
import RefCache.Proofs.Place

/-! Projects keep the last good version. A row of a project is good if it is deleted or both its
payloads can be decoded. A good row sets what is found under its identifier and counts; any other
row is passed over, and a batch does to the cache what its good rows do alone. So after any batches
a project is what its last good row says. -/

namespace RefCache

/-! ### Batches without the rows passed over -/

namespace Merge

variable {σ ρ : Type} {stamp : ρ → Stamped} {apply : ρ → σ → Except Error σ}

theorem state_foldl_appliedRows (batch : List ρ) (m : Merge σ) :
    ((appliedRows apply batch m.state).foldl (step stamp apply) m).state =
      (batch.foldl (step stamp apply) m).state := by
  induction batch generalizing m with
  | nil => rfl
  | cons row batch ih =>
    rw [appliedRows, List.foldl_cons]
    cases hr : apply row m.state with
    | ok s =>
      rw [List.foldl_cons, step_ok hr]
      exact ih _
    | error e =>
      rw [step_error hr]
      exact (ih m).trans (state_foldl batch rfl)

theorem applied_add_skipped_foldl (batch : List ρ) (m : Merge σ) :
    (batch.foldl (step stamp apply) m).applied + (batch.foldl (step stamp apply) m).skipped.length =
      m.applied + m.skipped.length + batch.length := by
  induction batch generalizing m with
  | nil => rfl
  | cons row batch ih =>
    rw [List.foldl_cons, ih, List.length_cons]
    cases hr : apply row m.state with
    | ok s => simp only [step_ok hr]; omega
    | error e => simp only [step_error hr, List.length_append, List.length_singleton]; omega

/-- Every row of a batch is applied or passed over. -/
theorem applied_add_skipped (batch : List ρ) (s : σ) :
    (rows stamp apply batch s).applied + (rows stamp apply batch s).skipped.length =
      batch.length := by
  rw [rows, applied_add_skipped_foldl, start]
  exact Nat.zero_add _

end Merge

/-! ### Places after batches of all categories -/

/-- What is found at a place is due to the rows of its own category. -/
theorem Place.find_afterBatches {c : Category} {α : Type} {p : Place c α} {photos : Uuid → Photo}
    (hp : ∀ ix : Indexes, p.find (ix.only c) = p.find ix) (batches : List Batch) :
    p.find (Indexes.afterBatches photos batches) =
      (lastSaid p.tells (rowsOf c batches)).getD none := by
  induction batches using List.reverseRecOn with
  | nil => exact p.find_empty
  | append_singleton batches b ih =>
    obtain ⟨d, rows⟩ := b
    rw [Indexes.afterBatches_concat]
    by_cases hd : d = c
    · subst hd
      rw [p.find_merge, ih, rowsOf_concat_self, lastSaid_append]
      cases lastSaid p.tells rows <;> rfl
    · rw [rowsOf_concat_of_ne hd, ← ih, ← hp, Indexes.only_merge (Ne.symm hd), hp]

/-! ### Rows of projects -/

namespace ProjectRow

/-- The project of a row, if both its payloads can be decoded. -/
def decoded? (row : ProjectRow) : Option Project :=
  match StatusGraph.ofPayload row.statusGraph, ProjectOptions.ofPayload row.options with
  | .ok graph, .ok options => some ⟨row.uuid, row.name, row.company, row.federation, graph, options⟩
  | _, _ => none

/-- The payloads of a deleted row do not matter. -/
def isGood (row : ProjectRow) : Bool := row.isDeleted || row.decoded?.isSome

/-- What is found under the identifier of a good row from then on. -/
def shows (row : ProjectRow) : Option Project := if row.isDeleted then none else row.decoded?

/-- The last good row for a project. -/
def lastGood (p : Uuid) (rows : List ProjectRow) : Option ProjectRow :=
  (rows.filter fun row => row.uuid == p && row.isGood).getLast?

theorem decoded?_eq_some {row : ProjectRow} {project : Project} :
    row.decoded? = some project ↔ project.DecodedFrom row := by
  unfold decoded?
  constructor
  · intro h
    split at h
    · rename_i hgraph hoptions
      obtain rfl := Option.some.inj h
      exact ⟨rfl, rfl, rfl, rfl, StatusGraph.ofPayload_eq_ok.1 hgraph,
        ProjectOptions.ofPayload_eq_ok.1 hoptions⟩
    · cases h
  · rintro ⟨huuid, hname, hcompany, hfederation, hgraph, hoptions⟩
    rw [StatusGraph.ofPayload_eq_ok.2 hgraph, ProjectOptions.ofPayload_eq_ok.2 hoptions, ← huuid,
      ← hname, ← hcompany, ← hfederation]

theorem closed_of_shows {row : ProjectRow} {project : Project} (h : row.shows = some project) :
    project.statusGraph.Closed := by
  unfold shows decoded? at h
  split at h
  · cases h
  split at h
  · rename_i graph options hgraph _
    obtain rfl := Option.some.inj h
    exact StatusGraph.closed_ofPayload hgraph
  · cases h

end ProjectRow

namespace Indexes

variable {row : ProjectRow}

theorem applyProject_of_good (h : row.isGood) (ix : Indexes) :
    ∃ ix', applyProject row ix = .ok ix' ∧
      ∀ p : Uuid, ix'.projects[p]? = if row.uuid = p then row.shows else ix.projects[p]? := by
  unfold applyProject ProjectRow.shows
  by_cases hd : row.isDeleted
  · refine ⟨{ ix with projects := ix.projects.erase row.uuid }, if_pos hd, fun p => ?_⟩
    simp [hd, Std.ExtTreeMap.getElem?_erase]
  · simp only [ProjectRow.isGood, hd, Bool.false_or] at h
    simp only [hd, Bool.false_eq_true, if_false]
    unfold ProjectRow.decoded? at h ⊢
    cases hgraph : StatusGraph.ofPayload row.statusGraph with
    | error fault => simp [hgraph] at h
    | ok graph =>
      cases hoptions : ProjectOptions.ofPayload row.options with
      | error fault => simp [hgraph, hoptions] at h
      | ok options => exact ⟨_, rfl, fun p => by simp [Std.ExtTreeMap.getElem?_insert]⟩

/-- The graph of such a row cannot be decoded, or its options cannot. -/
theorem applyProject_of_not_good (h : row.isGood = false) (ix : Indexes) :
    ∃ e, applyProject row ix = .error e := by
  obtain ⟨hd, hnone⟩ := Bool.or_eq_false_iff.1 h
  unfold applyProject
  unfold ProjectRow.decoded? at hnone
  rw [if_neg (by simp [hd])]
  cases hgraph : StatusGraph.ofPayload row.statusGraph with
  | error fault => exact ⟨_, rfl⟩
  | ok graph =>
    cases hoptions : ProjectOptions.ofPayload row.options with
    | error fault => exact ⟨_, rfl⟩
    | ok options => simp [hgraph, hoptions] at hnone

theorem appliedRows_projects (photos : Uuid → Photo) (rows : List ProjectRow) (ix : Indexes) :
    Merge.appliedRows (applyRow photos .projects) rows ix = rows.filter ProjectRow.isGood := by
  induction rows generalizing ix with
  | nil => rfl
  | cons row rows ih =>
    rw [Merge.appliedRows, List.filter_cons]
    cases hgood : row.isGood with
    | true =>
      obtain ⟨ix', hok, -⟩ := applyProject_of_good hgood ix
      have hrow : applyRow photos .projects row ix = .ok ix' := hok
      simp only [hrow, ih, if_true]
    | false =>
      obtain ⟨e, herror⟩ := applyProject_of_not_good hgood ix
      have hrow : applyRow photos .projects row ix = .error e := herror
      simp only [hrow, ih, Bool.false_eq_true, if_false]

theorem applied_merge_projects (photos : Uuid → Photo) (rows : List ProjectRow) (ix : Indexes) :
    (ix.merge photos .projects rows).applied = (rows.filter ProjectRow.isGood).length := by
  refine (Merge.applied_rows rows ix).trans ?_
  rw [appliedRows_projects]

theorem latest_merge_projects (photos : Uuid → Photo) (rows : List ProjectRow) (ix : Indexes) :
    (ix.merge photos .projects rows).latest =
      ((rows.filter ProjectRow.isGood).map fun row => row.updatedAt).max? := by
  refine (Merge.latest_rows rows ix).trans ?_
  rw [appliedRows_projects]
  rfl

end Indexes

/-- The place of a project. -/
def projectPlace (p : Uuid) : Place .projects Project where
  find ix := ix.projects[p]?
  tells row := if row.uuid == p && row.isGood then some row.shows else none
  find_empty := by simp [Indexes.empty]
  applied photos row ix ix' h := by
    cases hgood : row.isGood with
    | true =>
      obtain ⟨ix₁, hok, hfind⟩ := Indexes.applyProject_of_good hgood ix
      obtain rfl := Except.ok.inj (h.symm.trans hok)
      rw [hfind]
      by_cases hp : row.uuid = p <;> simp [hp]
    | false =>
      obtain ⟨e, herror⟩ := Indexes.applyProject_of_not_good hgood ix
      cases h.symm.trans herror
  skipped photos row ix e h := by
    cases hgood : row.isGood with
    | true =>
      obtain ⟨ix₁, hok, -⟩ := Indexes.applyProject_of_good hgood ix
      cases h.symm.trans hok
    | false => simp
  settled batch ix := rfl

theorem lastSaid_projectPlace (p : Uuid) (rows : List ProjectRow) :
    (lastSaid (projectPlace p).tells rows).getD none =
      (ProjectRow.lastGood p rows).bind ProjectRow.shows := by
  have hsaid : rows.filterMap (projectPlace p).tells =
      (rows.filter fun row => row.uuid == p && row.isGood).map ProjectRow.shows := by
    induction rows with
    | nil => rfl
    | cons row rows ih =>
      rw [List.filterMap_cons, List.filter_cons, ih]
      simp only [projectPlace]
      cases row.uuid == p && row.isGood <;> rfl
  rw [lastSaid, hsaid, List.getLast?_map, ProjectRow.lastGood]
  cases (rows.filter fun row => row.uuid == p && row.isGood).getLast? <;> rfl

namespace Cache

variable {photos : Uuid → Photo} {now : Timestamp}

theorem findProject_ofBatches (batches : List Batch) (p : Uuid) :
    ((ofBatches photos now batches).findProject p).value =
      (ProjectRow.lastGood p (rowsOf .projects batches)).bind ProjectRow.shows := by
  rw [findProject_value, indexes_ofBatches, ← lastSaid_projectPlace]
  exact Place.find_afterBatches (p := projectPlace p) (fun _ => rfl) batches

/-- A batch of projects does to a cache what its good rows do alone. -/
theorem absorb_good_rows (cache : Cache) (rows : List ProjectRow) :
    (cache.absorb photos .projects (.rows (rows.filter ProjectRow.isGood))).cache =
      (cache.absorb photos .projects (.rows rows)).cache := by
  have hstate : (cache.indexes.merge photos .projects (rows.filter ProjectRow.isGood)).state =
      (cache.indexes.merge photos .projects rows).state := by
    rw [← Indexes.appliedRows_projects photos rows cache.indexes]
    exact Merge.state_foldl_appliedRows rows (.start cache.indexes)
  have hlatest : (cache.indexes.merge photos .projects (rows.filter ProjectRow.isGood)).latest =
      (cache.indexes.merge photos .projects rows).latest := by
    rw [Indexes.latest_merge_projects, Indexes.latest_merge_projects, List.filter_filter]
    simp only [Bool.and_self]
  simp only [absorb, mergeRows, hstate, hlatest]

/-- What a pull of projects leaves in a cache and reports: the good rows count, the others are
passed over and do nothing else. -/
structure GoodRowsCount (photos : Uuid → Photo) (cache : Cache) (rows : List ProjectRow)
    (outcome : MergeOutcome) : Prop where
  result : (cache.absorb photos .projects (.rows rows)).result = .merged outcome
  same : (cache.absorb photos .projects (.rows rows)).cache =
    (cache.absorb photos .projects (.rows (rows.filter ProjectRow.isGood))).cache
  mark : (cache.absorb photos .projects (.rows rows)).cache.mark .projects =
    ((rows.filter ProjectRow.isGood).map fun row => row.updatedAt).foldl max (cache.mark .projects)
  applied : outcome.applied = (rows.filter ProjectRow.isGood).length
  total : outcome.applied + outcome.skipped = rows.length
  latest : outcome.latest = ((rows.filter ProjectRow.isGood).map fun row => row.updatedAt).max?

theorem goodRowsCount (cache : Cache) (rows : List ProjectRow) :
    cache.GoodRowsCount photos rows (cache.indexes.merge photos .projects rows).outcome where
  result := rfl
  same := (cache.absorb_good_rows rows).symm
  mark := by
    rw [mark_absorb_rows, Indexes.appliedRows_projects]
    rfl
  applied := Indexes.applied_merge_projects photos rows cache.indexes
  total := Merge.applied_add_skipped rows cache.indexes
  latest := Indexes.latest_merge_projects photos rows cache.indexes

end Cache

/-- After any batches a project is what its last good row says, with a graph that can be walked;
and a pull of any rows counts the good ones, to which alone everything but its counters is due. What
a row says is what its columns and payloads hold. -/
theorem projects_keep_last_good (photos : Uuid → Photo) (now : Timestamp) (batches : List Batch) :
    (∀ (row : ProjectRow) (project : Project),
      row.decoded? = some project ↔ project.DecodedFrom row) ∧
    (∀ p : Uuid, ((Cache.ofBatches photos now batches).findProject p).value =
      (ProjectRow.lastGood p (rowsOf .projects batches)).bind ProjectRow.shows) ∧
    (∀ (p : Uuid) (project : Project),
      ((Cache.ofBatches photos now batches).findProject p).value = some project →
        project.statusGraph.Closed) ∧
    ∀ rows : List ProjectRow, ∃ outcome,
      (Cache.ofBatches photos now batches).GoodRowsCount photos rows outcome := by
  refine ⟨fun _ _ => ProjectRow.decoded?_eq_some, fun p => Cache.findProject_ofBatches batches p,
    fun p project h => ?_, fun rows => ⟨_, Cache.goodRowsCount _ rows⟩⟩
  rw [Cache.findProject_ofBatches] at h
  obtain ⟨row, -, hshows⟩ := Option.bind_eq_some_iff.1 h
  exact ProjectRow.closed_of_shows hshows

/-- A row of a project with the name, the graph and the stamp. -/
def road (name graph : String) (seconds : Int) : ProjectRow :=
  { (default : ProjectRow) with
    updatedAt := ⟨seconds, 0⟩, name := name, company := ⟨1⟩, federation := ⟨2⟩
    statusGraph := graph, options := "\x7b\x7d" }

/-- The same with options, one of them null, and with a member that is none of them. -/
def optedRoad : ProjectRow :=
  { road "Road" oneMember 1 with
    options := "\x7b\"require_cancelation_comment\":false,\"require_done_comment\":null," ++
      "\"lanes\":[2],\"color\":\"#fff\",\"status_enable\":true\x7d" }

/-- A good version, then one with a graph that cannot be decoded and one with such options. -/
def roadVersions : List Batch :=
  [⟨.projects, [optedRoad]⟩,
    ⟨.projects, [road "Street" "[1, 2, 3]" 2, { road "Lane" oneMember 3 with options := "" }]⟩]

/-- Another good version, a deletion with options that cannot be decoded, and a version with such a
graph. -/
def roadRemoval : List ProjectRow :=
  [road "Road" oneMember 5, { road "" "" 7 with deletedAt := some ⟨7, 0⟩, options := "" },
    road "Street" "[1, 2, 3]" 9]

/-- The first version stands, with its target as a status and with its options; of the pull that
removes it two rows count, one is passed over, and the stamp of the deletion is the latest. -/
theorem projects_keep_last_good_first_version :
    ∃ (project : Project) (outcome : MergeOutcome),
      ((Cache.ofBatches (fun _ => default) ⟨0, 0⟩ roadVersions).findProject default).value =
        some project ∧
      project.DecodedFrom optedRoad ∧
      project.name = "Road" ∧ project.company = ⟨1⟩ ∧ project.federation = ⟨2⟩ ∧
      project.options = ⟨some false, none, some true, some "#fff"⟩ ∧ project.statusGraph.Closed ∧
      project.statusGraph.next "0" = some ["1"] ∧ project.statusGraph.next "1" = some [] ∧
      (Cache.ofBatches (fun _ => default) ⟨0, 0⟩ roadVersions).GoodRowsCount (fun _ => default)
        roadRemoval outcome ∧
      outcome = ⟨2, 1, some ⟨7, 0⟩⟩ := by
  obtain ⟨hdecoded, hfind, hclosed, hcount⟩ :=
    projects_keep_last_good (fun _ => default) ⟨0, 0⟩ roadVersions
  let project : Project := ⟨default, "Road", ⟨1⟩, ⟨2⟩,
    .ofEdges (StatusGraph.edgesOf [("0", ["1"])]), ⟨some false, none, some true, some "#fff"⟩⟩
  have hrow : optedRoad.decoded? = some project := by decide +kernel
  have hlast : ProjectRow.lastGood default (rowsOf .projects roadVersions) = some optedRoad := by
    decide +kernel
  have hshows : optedRoad.shows = some project := (if_neg (by decide)).trans hrow
  have hfound := (hfind default).trans (by rw [hlast, Option.bind_some, hshows])
  obtain ⟨outcome, hgood⟩ := hcount roadRemoval
  have happlied : outcome.applied = 2 := hgood.applied.trans (by decide +kernel)
  have htotal : outcome.applied + outcome.skipped = 3 := hgood.total
  have hskipped : outcome.skipped = 1 := by omega
  have hlatest : outcome.latest = some ⟨7, 0⟩ := hgood.latest.trans (by decide +kernel)
  refine ⟨project, outcome, hfound, (hdecoded _ _).1 hrow, rfl, rfl, rfl, rfl,
    hclosed _ _ hfound, by decide +kernel, by decide +kernel, hgood, ?_⟩
  calc outcome = ⟨outcome.applied, outcome.skipped, outcome.latest⟩ := rfl
    _ = ⟨2, 1, some ⟨7, 0⟩⟩ := by rw [happlied, hskipped, hlatest]

end RefCache
