import RefCache.Proofs.Schedule

/-! What failed reads leave behind. At the end of a refresh the indexes and marks are those of
merging the categories whose reads came back with rows, as if the others had not been pulled at
all, and the errors are those of the report, whatever errors there were before. -/

namespace RefCache.Refresh

variable {photos : Uuid → Photo} {reads : (c : Category) → Fetched c} {cache x y : Cache}
  {c d : Category} {s : State}

/-- What is noted as the error of a category. -/
def errorOf : Fetched c → Option String
  | .rows _ => none
  | .failed e => some e.message
  | .panicked p => some (panicText p)

/-- Merges what a read came back with, if that is rows. -/
def mergeRead (photos : Uuid → Photo) (reads : (c : Category) → Fetched c) (cache : Cache)
    (c : Category) : Cache :=
  match reads c with
  | .rows batch => (cache.mergeRows photos c batch).1
  | _ => cache

theorem coldStart_mergeRead : (mergeRead photos reads cache c).coldStart = cache.coldStart := by
  unfold mergeRead
  split <;> simp [Cache.mergeRows, Cache.clearError]

theorem share_mergeRead_of_ne (h : d ≠ c) :
    (mergeRead photos reads cache c).share d = cache.share d := by
  unfold mergeRead
  split
  · exact Cache.share_mergeRows_of_ne h _
  · rfl

theorem mergeRead_congr (hcold : x.coldStart = y.coldStart) (h : x.share c = y.share c) :
    (mergeRead photos reads x c).share c = (mergeRead photos reads y c).share c := by
  unfold mergeRead
  split
  · exact (Cache.mergeRows_congr photos hcold h _).1
  · exact h

/-- Categories merged one after the other: each finds its share as it was at first. -/
theorem share_foldl_mergeRead {cs : List Category} (hcs : cs.Nodup) (hc : c ∈ cs) :
    (cs.foldl (mergeRead photos reads) cache).share c =
      (mergeRead photos reads cache c).share c := by
  have hother : ∀ {cs : List Category} {x : Cache}, c ∉ cs →
      (cs.foldl (mergeRead photos reads) x).share c = x.share c := by
    intro cs
    induction cs with
    | nil => exact fun _ => rfl
    | cons d cs ih =>
      intro x hd
      rw [List.mem_cons, not_or] at hd
      rw [List.foldl_cons, ih hd.2, share_mergeRead_of_ne hd.1]
  induction cs generalizing cache with
  | nil => cases hc
  | cons d cs ih =>
    rw [List.nodup_cons] at hcs
    rw [List.foldl_cons]
    rcases List.mem_cons.1 hc with rfl | hc
    · exact hother hcs.1
    · have hne : c ≠ d := fun h => hcs.1 (h ▸ hc)
      rw [ih hcs.2 hc]
      exact mergeRead_congr coldStart_mergeRead (share_mergeRead_of_ne hne)

/-- A pull alone leaves what the merge of its rows leaves, but for the error, which is its own. -/
theorem share_alone : (alone photos reads cache c).share c =
    { (mergeRead photos reads cache c).share c with error := errorOf (reads c) } := by
  unfold alone pulled mergeRead
  cases reads c with
  | rows batch =>
    change (cache.mergeRows photos c batch).1.share c = _
    rw [Cache.share_mergeRows_self]
    rfl
  | failed e => exact Cache.share_noteError_self e.message
  | panicked p => exact Cache.share_noteError_self (panicText p)

/-- A category whose read did not come back with rows is passed over. -/
theorem mergeRead_eq_self (h : errorOf (reads c) ≠ none) :
    mergeRead photos reads cache c = cache := by
  unfold mergeRead
  split
  · rename_i batch hrows
    rw [hrows] at h
    exact absurd rfl h
  · rfl

/-- At the end a category's share is as if it alone had been pulled. -/
theorem Underway.share_eq (hu : Underway photos reads cache s) (h : s.refresh.complete)
    (c : Category) : s.cache.share c =
      { (mergeRead photos reads cache c).share c with error := errorOf (reads c) } :=
  (hu.share_of_complete h c).trans share_alone

theorem outcomeOf_eq_error {text : String} :
    outcomeOf photos reads cache c = ⟨c, .error text⟩ ↔ errorOf (reads c) = some text := by
  unfold outcomeOf pulled errorOf
  cases reads c with
  | rows batch => simp [Cache.absorb, resultOutcome]
  | failed e => simp [Cache.absorb, resultOutcome]
  | panicked p => simp [Cache.absorb, resultOutcome]

/-- The failures of a report are the categories whose reads failed or panicked. -/
theorem mem_failures {text : String} :
    ⟨c, .error text⟩ ∈
        Report.failures ⟨Category.all.map (outcomeOf photos reads cache)⟩ ↔
      errorOf (reads c) = some text := by
  have herror : outcomeOf photos reads cache c = ⟨c, .error text⟩ ↔ errorOf (reads c) = some text :=
    outcomeOf_eq_error
  rw [← herror, Report.failures, List.mem_filter, List.mem_map]
  constructor
  · rintro ⟨⟨d, -, hd⟩, -⟩
    have hcategory : (outcomeOf photos reads cache d).category = c :=
      congrArg CategoryOutcome.category hd
    rw [outcomeOf, category_resultOutcome] at hcategory
    exact hcategory ▸ hd
  · exact fun h => ⟨⟨c, c.mem_all, h⟩, rfl⟩

/-- At the end of a refresh the indexes and marks are those of merging the reads that succeeded,
the other categories have kept theirs, and the errors are those of the report. -/
theorem failures_isolated {acts : List Act} (ha : Answered reads acts)
    (h : acts.foldlM (act photos) (begin cache) = some s) (hend : AtEnd photos reads s) :
    s.cache.indexes = (Category.all.foldl (mergeRead photos reads) cache).indexes ∧
      s.cache.marks = (Category.all.foldl (mergeRead photos reads) cache).marks ∧
      s.cache.shouldUpdate = cache.shouldUpdate ∧
      (∀ c, errorOf (reads c) ≠ none →
        s.cache.indexes.only c = cache.indexes.only c ∧ s.cache.mark c = cache.mark c) ∧
      (∀ c, s.cache.lastErrors[c]? = errorOf (reads c)) ∧
      ∀ c text, s.cache.lastErrors[c]? = some text ↔
        ⟨c, .error text⟩ ∈ s.refresh.report.failures := by
  have hcomplete : s.refresh.complete := atEnd_iff.1 hend
  have hu : Underway photos reads cache s := underway_of_schedule ha h
  have hfold : ∀ c, (Category.all.foldl (mergeRead photos reads) cache).share c =
      (mergeRead photos reads cache c).share c :=
    fun c => share_foldl_mergeRead (by decide) c.mem_all
  have hindexes : ∀ c,
      s.cache.indexes.only c = ((mergeRead photos reads cache c).share c).indexes :=
    fun c => congrArg Cache.Share.indexes (hu.share_eq hcomplete c)
  have hmarks : ∀ c, s.cache.marks[c]? = ((mergeRead photos reads cache c).share c).mark :=
    fun c => congrArg Cache.Share.mark (hu.share_eq hcomplete c)
  have herrors : ∀ c, s.cache.lastErrors[c]? = errorOf (reads c) :=
    fun c => congrArg Cache.Share.error (hu.share_eq hcomplete c)
  refine ⟨?_, ?_, hu.shouldUpdate, fun c hc => ?_, herrors, fun c text => ?_⟩
  · refine Indexes.eq_of_only fun c => (hindexes c).trans ?_
    exact (congrArg Cache.Share.indexes (hfold c)).symm
  · refine Std.ExtTreeMap.ext_getElem? fun c => (hmarks c).trans ?_
    exact (congrArg Cache.Share.mark (hfold c)).symm
  · have hmark : s.cache.marks[c]? = cache.marks[c]? := by
      rw [hmarks c, mergeRead_eq_self hc]
      rfl
    constructor
    · rw [hindexes c, mergeRead_eq_self hc]
      rfl
    · unfold Cache.mark
      rw [hmark, hu.coldStart]
  · rw [herrors c, hu.report_eq hcomplete, mem_failures]

/-- Companies, which failed before, have come back with a row; tags and users have not come back,
and only their errors are left. -/
theorem failures_isolated_abreast :
    ∃ s, (abreast mixedReads).foldlM (act fun _ => default)
        (begin ((Cache.start ⟨0, 0⟩).noteError .companies "gone")) = some s ∧
      s.cache.lastErrors[Category.companies]? = none ∧
      s.cache.lastErrors[Category.users]? = some "puller panicked: unknown panic" ∧
      s.cache.lastErrors[Category.tags]? = some "Internal error: boom" ∧
      ⟨.tags, .error "Internal error: boom"⟩ ∈ s.refresh.report.failures := by
  obtain ⟨s, hs, hcomplete⟩ : ∃ s, (abreast mixedReads).foldlM (act fun _ => default)
      (begin ((Cache.start ⟨0, 0⟩).noteError .companies "gone")) = some s ∧ s.refresh.complete :=
    ⟨_, rfl, rfl⟩
  obtain ⟨-, -, -, -, herrors, hfailures⟩ :=
    failures_isolated (answered_abreast mixedReads) hs (atEnd_iff.2 hcomplete)
  have htags : s.cache.lastErrors[Category.tags]? = some "Internal error: boom" := herrors .tags
  exact ⟨s, hs, herrors .companies, herrors .users, htags, (hfailures .tags _).1 htags⟩

end RefCache.Refresh
