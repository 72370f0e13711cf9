import RefCache.Refresh
import RefCache.Proofs.Slot

/-! A category's share of the cache: the indexes that it fills, its mark and its error. What a
read of a category comes back with changes this share alone and in a way that depends on nothing
else, except on the cold start. Caches with equal shares, flag and cold start are equal, so the
reads of different categories may be absorbed in any order. -/

namespace RefCache

/-! ### Merging through a view -/

namespace Merge

variable {σ τ ρ : Type} {stamp : ρ → Stamped} {apply : ρ → σ → Except Error σ}
  {apply' : ρ → τ → Except Error τ} {f : σ → τ}

theorem mapState_step (h : ∀ row s, apply' row (f s) = (apply row s).map f) (m : Merge σ)
    (row : ρ) : (step stamp apply m row).mapState f = step stamp apply' (m.mapState f) row := by
  have hrow := h row m.state
  cases hr : apply row m.state with
  | ok s =>
    rw [hr] at hrow
    rw [step_ok hr, step_ok (m := m.mapState f) hrow]
    rfl
  | error e =>
    rw [hr] at hrow
    rw [step_error hr, step_error (m := m.mapState f) hrow]
    rfl

theorem mapState_foldl (h : ∀ row s, apply' row (f s) = (apply row s).map f) (batch : List ρ)
    (m : Merge σ) : (batch.foldl (step stamp apply) m).mapState f =
      batch.foldl (step stamp apply') (m.mapState f) := by
  induction batch generalizing m with
  | nil => rfl
  | cons row batch ih => rw [List.foldl_cons, List.foldl_cons, ih, mapState_step h]

/-- Where every row can be applied to the view alone, so can a batch. -/
theorem mapState_rows (h : ∀ row s, apply' row (f s) = (apply row s).map f) (batch : List ρ)
    (s : σ) : (rows stamp apply batch s).mapState f = rows stamp apply' batch (f s) :=
  mapState_foldl h batch (start s)

end Merge

/-! ### The indexes of one category -/

namespace Indexes

variable {photos : Uuid → Photo} {ix ix' : Indexes} {c d : Category}

/-- The indexes that a category fills; all others are empty. -/
def only (ix : Indexes) : Category → Indexes
  | .users => { empty with
    usersByEmail := ix.usersByEmail
    usersByUuid := ix.usersByUuid
    federationUsers := ix.federationUsers }
  | .federations => { empty with federations := ix.federations }
  | .companies => { empty with companies := ix.companies }
  | .projects => { empty with projects := ix.projects }
  | .tags => { empty with tags := ix.tags }
  | .companyFields => { empty with companyFields := ix.companyFields }
  | .projectFields => { empty with projectFields := ix.projectFields }
  | .catalogFields => { empty with catalogFields := ix.catalogFields }
  | .userFederation => { empty with userFederations := ix.userFederations }
  | .userCompany => { empty with userCompanies := ix.userCompanies }
  | .companyPriorities => { empty with companyPriorities := ix.companyPriorities }

theorem eq_of_only (h : ∀ c, ix.only c = ix'.only c) : ix = ix' := by
  cases ix
  cases ix'
  simp only [mk.injEq]
  have hu := mk.inj (h .users)
  refine ⟨hu.1, hu.2.1, hu.2.2.1, ?_⟩
  refine ⟨congrArg federations (h .federations), congrArg companies (h .companies),
    congrArg projects (h .projects), congrArg tags (h .tags),
    congrArg companyFields (h .companyFields), congrArg projectFields (h .projectFields),
    congrArg catalogFields (h .catalogFields), congrArg userFederations (h .userFederation),
    congrArg userCompanies (h .userCompany), congrArg companyPriorities (h .companyPriorities)⟩

@[simp] theorem usersByUuid_only : (ix.only .users).usersByUuid = ix.usersByUuid := rfl

@[simp] theorem usersByEmail_only : (ix.only .users).usersByEmail = ix.usersByEmail := rfl

/-! ### What a row of a user reads and changes -/

theorem forgetEmail_only (u : Uuid) (e : String) :
    (ix.only .users).forgetEmail u e = (ix.forgetEmail u e).only .users := by
  unfold forgetEmail
  rw [usersByEmail_only]
  split <;> rfl

theorem only_forgetEmail (h : c ≠ .users) (u : Uuid) (e : String) :
    (ix.forgetEmail u e).only c = ix.only c := by
  unfold forgetEmail
  split
  · cases c <;> first | rfl | exact absurd rfl h
  · rfl

theorem forgetStaleEmail_only (row : UserRow) :
    (ix.only .users).forgetStaleEmail row = (ix.forgetStaleEmail row).only .users := by
  unfold forgetStaleEmail
  rw [usersByUuid_only]
  cases ix.usersByUuid[row.uuid]? with
  | none => rfl
  | some u =>
    by_cases hu : u.email = row.email
    · simp only [hu, if_true]
    · simp only [hu, if_false, forgetEmail_only]

theorem only_forgetStaleEmail (h : c ≠ .users) (row : UserRow) :
    (ix.forgetStaleEmail row).only c = ix.only c := by
  unfold forgetStaleEmail
  split
  · split
    · rfl
    · exact only_forgetEmail h ..
  · rfl

theorem removeUser_only (u : Uuid) (e : String) :
    (ix.only .users).removeUser u e = (ix.removeUser u e).only .users := by
  unfold removeUser
  rw [usersByUuid_only]
  cases ix.usersByUuid[u]? with
  | none =>
    simp only [forgetEmail_only]
    rfl
  | some x =>
    have herase : { ix.only .users with usersByUuid := ix.usersByUuid.erase u } =
        { ix with usersByUuid := ix.usersByUuid.erase u }.only .users := rfl
    simp only [herase, forgetEmail_only]
    rfl

theorem only_removeUser (h : c ≠ .users) (u : Uuid) (e : String) :
    (ix.removeUser u e).only c = ix.only c := by
  have hlists : ∀ (ix : Indexes) lists,
      { ix with federationUsers := lists }.only c = ix.only c := by
    intro ix lists
    cases c <;> first | rfl | exact absurd rfl h
  have herase : ∀ records, { ix with usersByUuid := records }.only c = ix.only c := by
    intro records
    cases c <;> first | rfl | exact absurd rfl h
  unfold removeUser
  simp only [hlists, only_forgetEmail h]
  cases ix.usersByUuid[u]? with
  | none => rfl
  | some x => simp only [only_forgetEmail h, herase]

theorem applyUser_only (row : UserRow) :
    applyUser photos row (ix.only .users) = (applyUser photos row ix).only .users := by
  unfold applyUser
  split
  · exact removeUser_only ..
  · simp only [forgetStaleEmail_only]
    rfl

theorem only_applyUser (h : c ≠ .users) (row : UserRow) :
    (applyUser photos row ix).only c = ix.only c := by
  have hstore : ∀ (ix : Indexes) lists u,
      (storeUser u { ix with federationUsers := lists }).only c = ix.only c := by
    intro ix lists u
    cases c <;> first | rfl | exact absurd rfl h
  unfold applyUser
  split
  · exact only_removeUser h ..
  · simp only [hstore, only_forgetStaleEmail h]

/-! ### What a batch reads and changes -/

theorem applyProject_only (row : ProjectRow) :
    applyProject row (ix.only .projects) = (applyProject row ix).map (·.only .projects) := by
  unfold applyProject
  split
  · rfl
  · split
    · rfl
    · split <;> rfl

/-- A row finds and leaves what the indexes of its own category show. -/
theorem applyRow_only (row : c.Row) :
    applyRow photos c row (ix.only c) = (applyRow photos c row ix).map (·.only c) := by
  cases c with
  | users => exact congrArg Except.ok (applyUser_only row)
  | projects => exact applyProject_only row
  | _ => rfl

theorem only_applyProject {row : ProjectRow} (h : c ≠ .projects)
    (ha : applyProject row ix = .ok ix') : ix'.only c = ix.only c := by
  have hput : ∀ projects, { ix with projects }.only c = ix.only c := by
    intro projects
    cases c <;> first | rfl | exact absurd rfl h
  unfold applyProject at ha
  split at ha
  · cases ha
    exact hput _
  · split at ha
    · cases ha
    · split at ha
      · cases ha
      · cases ha
        exact hput _

theorem only_applyRow {row : c.Row} (h : d ≠ c) (ha : applyRow photos c row ix = .ok ix') :
    ix'.only d = ix.only d := by
  cases c with
  | users => cases ha; exact only_applyUser h row
  | projects => exact only_applyProject h ha
  | _ => cases ha; cases d <;> first | rfl | exact absurd rfl h

theorem settle_only (batch : List c.Row) :
    settle c batch (ix.only c) = (settle c batch ix).only c := by
  cases c <;> rfl

theorem only_settle (h : d ≠ c) (batch : List c.Row) : (settle c batch ix).only d = ix.only d := by
  cases c with
  | users => cases d <;> first | rfl | exact absurd rfl h
  | _ => rfl

theorem merge_only (batch : List c.Row) :
    (ix.only c).merge photos c batch = (ix.merge photos c batch).mapState (·.only c) := by
  have hrows : (Merge.rows c.stamp (applyRow photos c) batch ix).mapState (·.only c) =
      Merge.rows c.stamp (applyRow photos c) batch (ix.only c) :=
    Merge.mapState_rows (fun row ix => applyRow_only row) batch ix
  unfold merge
  rw [← hrows]
  simp only [Merge.mapState, settle_only]

theorem only_merge (h : d ≠ c) (batch : List c.Row) :
    (ix.merge photos c batch).state.only d = ix.only d := by
  have hrows : (Merge.rows c.stamp (applyRow photos c) batch ix).state.only d = ix.only d :=
    Merge.inv_rows (I := fun s => s.only d = ix.only d) batch
      (fun _ _ _ _ ha hs => (only_applyRow h ha).trans hs) ix rfl
  exact (only_settle h batch).trans hrows

end Indexes

/-! ### The share of one category -/

namespace Cache

/-- What belongs to one category: its indexes, its own mark if it has one, and its last error. -/
structure Share where
  indexes : Indexes
  mark : Option Timestamp
  error : Option String

def share (cache : Cache) (c : Category) : Share :=
  ⟨cache.indexes.only c, cache.marks[c]?, cache.lastErrors[c]?⟩

variable {photos : Uuid → Photo} {cache x y : Cache} {c d : Category}

theorem eq_of_share (hcold : x.coldStart = y.coldStart) (hflag : x.shouldUpdate = y.shouldUpdate)
    (h : ∀ c, x.share c = y.share c) : x = y := by
  obtain ⟨coldStart, indexes, marks, flag, errors⟩ := x
  obtain ⟨coldStart', indexes', marks', flag', errors'⟩ := y
  obtain rfl : indexes = indexes' := Indexes.eq_of_only fun c => congrArg Share.indexes (h c)
  obtain rfl : marks = marks' := Std.ExtTreeMap.ext_getElem? fun c => congrArg Share.mark (h c)
  obtain rfl : errors = errors' := Std.ExtTreeMap.ext_getElem? fun c => congrArg Share.error (h c)
  obtain rfl : coldStart = coldStart' := hcold
  obtain rfl : flag = flag' := hflag
  rfl

theorem mark_eq_of_share (hcold : x.coldStart = y.coldStart) (h : x.share c = y.share c) :
    x.mark c = y.mark c := by
  have hmark : x.marks[c]? = y.marks[c]? := congrArg Share.mark h
  unfold mark
  rw [hmark, hcold]

theorem share_noteError_self (message : String) :
    (cache.noteError c message).share c = { cache.share c with error := some message } := by
  simp [share, noteError]

theorem share_noteError_of_ne (h : d ≠ c) (message : String) :
    (cache.noteError c message).share d = cache.share d := by
  simp [share, noteError, Std.ExtTreeMap.getElem?_insert, h.symm]

@[simp] theorem coldStart_advance (latest : Option Timestamp) :
    (cache.advance c latest).coldStart = cache.coldStart := by
  cases latest <;> rfl

@[simp] theorem shouldUpdate_advance (latest : Option Timestamp) :
    (cache.advance c latest).shouldUpdate = cache.shouldUpdate := by
  cases latest <;> rfl

@[simp] theorem indexes_advance (latest : Option Timestamp) :
    (cache.advance c latest).indexes = cache.indexes := by
  cases latest <;> rfl

@[simp] theorem lastErrors_advance (latest : Option Timestamp) :
    (cache.advance c latest).lastErrors = cache.lastErrors := by
  cases latest <;> rfl

theorem marks_advance_self (latest : Option Timestamp) :
    (cache.advance c latest).marks[c]? = (latest.map (max (cache.mark c))).or cache.marks[c]? := by
  cases latest <;> simp [advance]

theorem marks_advance_of_ne (h : d ≠ c) (latest : Option Timestamp) :
    (cache.advance c latest).marks[d]? = cache.marks[d]? := by
  cases latest <;> simp [advance, Std.ExtTreeMap.getElem?_insert, h.symm]

/-- What a batch makes of its category's share. -/
theorem share_mergeRows_self (batch : List c.Row) :
    (cache.mergeRows photos c batch).1.share c =
      ⟨(cache.indexes.merge photos c batch).state.only c,
        ((cache.indexes.merge photos c batch).latest.map (max (cache.mark c))).or cache.marks[c]?,
        none⟩ := by
  simp only [mergeRows, clearError, share, indexes_advance, marks_advance_self, mark,
    Std.ExtTreeMap.getElem?_erase_self]

theorem share_mergeRows_of_ne (h : d ≠ c) (batch : List c.Row) :
    (cache.mergeRows photos c batch).1.share d = cache.share d := by
  simp only [mergeRows, clearError, share, indexes_advance, lastErrors_advance,
    marks_advance_of_ne h, Indexes.only_merge h, Std.ExtTreeMap.getElem?_erase]
  simp [h.symm]

/-- What a batch makes of its category's share depends on the share alone. -/
theorem mergeRows_congr (photos : Uuid → Photo) (hcold : x.coldStart = y.coldStart)
    (h : x.share c = y.share c) (batch : List c.Row) :
    (x.mergeRows photos c batch).1.share c = (y.mergeRows photos c batch).1.share c ∧
      (x.mergeRows photos c batch).2.outcome = (y.mergeRows photos c batch).2.outcome := by
  have hmark := mark_eq_of_share hcold h
  have hmarks : x.marks[c]? = y.marks[c]? := congrArg Share.mark h
  have hindexes : x.indexes.only c = y.indexes.only c := congrArg Share.indexes h
  have hmerge : (x.indexes.merge photos c batch).mapState (·.only c) =
      (y.indexes.merge photos c batch).mapState (·.only c) := by
    rw [← Indexes.merge_only, ← Indexes.merge_only, hindexes]
  simp only [Merge.mapState, Merge.mk.injEq] at hmerge
  obtain ⟨hstate, happlied, hlatest, hskipped⟩ := hmerge
  constructor
  · rw [share_mergeRows_self, share_mergeRows_self, hstate, hlatest, hmark, hmarks]
  · simp only [mergeRows, Merge.outcome, happlied, hlatest, hskipped]

/-! ### Absorbing -/

theorem coldStart_absorb (what : Fetched c) :
    (cache.absorb photos c what).cache.coldStart = cache.coldStart := by
  cases what with
  | rows batch => simp [absorb, mergeRows, clearError]
  | failed e => rfl
  | panicked p => rfl

theorem shouldUpdate_absorb (what : Fetched c) :
    (cache.absorb photos c what).cache.shouldUpdate = cache.shouldUpdate := by
  cases what with
  | rows batch => simp [absorb, mergeRows, clearError]
  | failed e => rfl
  | panicked p => rfl

theorem share_absorb_of_ne (h : d ≠ c) (what : Fetched c) :
    (cache.absorb photos c what).cache.share d = cache.share d := by
  cases what with
  | rows batch => exact share_mergeRows_of_ne h batch
  | failed e => exact share_noteError_of_ne h e.message
  | panicked p => rfl

theorem absorb_congr (photos : Uuid → Photo) (hcold : x.coldStart = y.coldStart)
    (h : x.share c = y.share c) (what : Fetched c) :
    (x.absorb photos c what).cache.share c = (y.absorb photos c what).cache.share c ∧
      (x.absorb photos c what).result = (y.absorb photos c what).result := by
  cases what with
  | rows batch =>
    obtain ⟨hshare, houtcome⟩ := mergeRows_congr photos hcold h batch
    exact ⟨hshare, congrArg PullResult.merged houtcome⟩
  | failed e =>
    refine ⟨?_, rfl⟩
    change (x.noteError c e.message).share c = (y.noteError c e.message).share c
    rw [share_noteError_self, share_noteError_self, h]
  | panicked p => exact ⟨h, rfl⟩

end Cache

end RefCache
