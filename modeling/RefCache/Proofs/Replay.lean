import RefCache.Proofs.HighWater
import RefCache.Proofs.KeyOrder
import RefCache.Proofs.Place
import RefCache.Proofs.Schedule

/-! Two refreshes of a store in which nothing happens between them. The second one reads once more
the rows stamped with the mark, and no others. It leaves the marks and the entries of all lists as
they are, but not always their order: an entry that one of these rows clears and another one sets
again ends up behind the others. -/

namespace RefCache

open Indexes

/-! ### What is read once more -/

namespace Storage

variable {c : Category} {since last : Timestamp} {table : List c.Row}

/-- What is read from the last stamp on is the end of what is read from an earlier mark on. -/
theorem changedSince_suffix (hle : since ≤ last) (h : ∀ row ∈ table, c.updatedAt row ≤ last) :
    ∃ before, changedSince c since table = before ++ changedSince c last table := by
  have hsorted : (changedSince c since table).Pairwise fun a b => c.updatedAt a ≤ c.updatedAt b :=
    (List.pairwise_mergeSort stampOrder_trans stampOrder_total _).imp stampOrder_iff.1
  have hsplit := filter_append_filter_eq_self.2
    (hsorted.imp fun {a b} hab (ha : decide (last ≤ c.updatedAt a)) =>
      decide_eq_true (Std.le_trans (of_decide_eq_true ha) hab))
  refine ⟨_, hsplit.symm.trans (congrArg _ ?_)⟩
  -- the rows of the last stamp are a part of either list, in one order and equally many
  have hrows : (table.filter fun row => decide (since ≤ c.updatedAt row)).filter
      (fun row => decide (last ≤ c.updatedAt row)) = changedSince c last table := by
    rw [changedSince_of_last h, List.filter_filter]
    refine List.filter_congr fun row _ => ?_
    by_cases hrow : last ≤ c.updatedAt row
    · simp [hrow, Std.le_trans hle hrow]
    · simp [hrow]
  have hlength : (changedSince c last table).length =
      ((changedSince c since table).filter fun row => decide (last ≤ c.updatedAt row)).length := by
    rw [← hrows]
    exact ((List.mergeSort_perm _ _).filter _).length_eq.symm
  refine (List.Sublist.eq_of_length ?_ hlength).symm
  have hpart : (changedSince c last table).Sublist (changedSince c since table) := by
    refine List.sublist_mergeSort stampOrder_trans stampOrder_total
      (List.pairwise_mergeSort stampOrder_trans stampOrder_total _) ?_
    exact hrows ▸ List.filter_sublist
  have hall : (changedSince c last table).filter (fun row => decide (last ≤ c.updatedAt row)) =
      changedSince c last table :=
    List.filter_eq_self.2 fun row hrow => decide_eq_true (mem_changedSince.1 hrow).2
  exact hall ▸ hpart.filter _

end Storage

/-! ### Refreshes that find their tables as they are -/

namespace Refresh

/-- The next step of the puller of a category. A read answers from the tables, as of the mark that
the puller has read. -/
def advance (photos : Uuid → Photo) (tables : (c : Category) → List c.Row) (s : State)
    (c : Category) : Option State :=
  match s.refresh.puller c with
  | .ready => step photos c s .readMark
  | .reading since => step photos c s (.fetch (.rows (Storage.changedSince c since (tables c))))
  | .fetched _ _ => step photos c s .absorb
  | .finished _ => step photos c s .join
  | .joined => none

/-- A refresh of the tables, all reads of which succeed, can lead from one cache to the other. The
schedule names the puller that moves next. -/
def Succeeds (photos : Uuid → Photo) (tables : (c : Category) → List c.Row)
    (cache cache' : Cache) : Prop :=
  ∃ (schedule : List Category) (s : State),
    schedule.foldlM (advance photos tables) (begin cache) = some s ∧ s.refresh.complete ∧
      s.cache = cache'

/-- What the reads come back with if nothing is absorbed before they are made. -/
def tableReads (tables : (c : Category) → List c.Row) (cache : Cache) (c : Category) : Fetched c :=
  .rows (Storage.changedSince c (cache.mark c) (tables c))

variable {photos : Uuid → Photo} {tables : (c : Category) → List c.Row} {cache cache' : Cache}
  {c : Category} {s s' : State}

theorem exists_of_advance (h : advance photos tables s c = some s') :
    ∃ p, Due photos c s p s' ∧ ∀ what, p = .fetch what → ∃ since,
      s.refresh.puller c = .reading since ∧
        what = .rows (Storage.changedSince c since (tables c)) := by
  unfold advance at h
  split at h
  · exact ⟨_, step_eq_some.1 h, by simp⟩
  · rename_i since hp
    refine ⟨_, step_eq_some.1 h, ?_⟩
    rintro what ⟨⟩
    exact ⟨since, hp, rfl⟩
  · exact ⟨_, step_eq_some.1 h, by simp⟩
  · exact ⟨_, step_eq_some.1 h, by simp⟩
  · cases h

theorem exists_advance (photos : Uuid → Photo) (tables : (c : Category) → List c.Row)
    (h : s.refresh.puller c ≠ .joined) : ∃ s', advance photos tables s c = some s' := by
  unfold advance
  cases hp : s.refresh.puller c with
  | joined => exact absurd hp h
  | ready => exact ⟨_, step_eq_some.2 (.readMark hp)⟩
  | reading since => exact ⟨_, step_eq_some.2 (.fetch hp)⟩
  | fetched since what => exact ⟨_, step_eq_some.2 (.absorb hp)⟩
  | finished result => exact ⟨_, step_eq_some.2 (.join hp)⟩

/-- A refresh of tables comes to its end, since every step uses up one of forty-four. -/
theorem exists_complete (photos : Uuid → Photo) (tables : (c : Category) → List c.Row) (s : State) :
    ∃ (schedule : List Category) (s' : State),
      schedule.foldlM (advance photos tables) s = some s' ∧ s'.refresh.complete := by
  by_cases hcomplete : s.refresh.complete
  · exact ⟨[], s, rfl, hcomplete⟩
  · rw [complete_iff, not_forall] at hcomplete
    obtain ⟨c, hc⟩ := hcomplete
    obtain ⟨mid, hmid⟩ := exists_advance photos tables hc
    obtain ⟨p, hdue, -⟩ := exists_of_advance hmid
    have hleft := hdue.left_eq
    obtain ⟨schedule, s', hs', hend⟩ := exists_complete photos tables mid
    refine ⟨c :: schedule, s', ?_, hend⟩
    rw [List.foldlM_cons, hmid]
    exact hs'
termination_by s.refresh.left

theorem exists_succeeds (photos : Uuid → Photo) (tables : (c : Category) → List c.Row)
    (cache : Cache) : ∃ cache', Succeeds photos tables cache cache' := by
  obtain ⟨schedule, s, hs, hend⟩ := exists_complete photos tables (begin cache)
  exact ⟨s.cache, schedule, s, hs, hend, rfl⟩

/-- What holds in the middle of a refresh of tables: nobody else moves a puller's mark, so it reads
from the mark at the beginning on. -/
structure FromTables (photos : Uuid → Photo) (tables : (c : Category) → List c.Row) (cache : Cache)
    (s : State) : Prop where
  underway : Underway photos (tableReads tables cache) cache s
  since_eq : ∀ c since, s.refresh.puller c = .reading since → since = cache.mark c

theorem FromTables.advance (hs : FromTables photos tables cache s)
    (h : advance photos tables s c = some s') : FromTables photos tables cache s' := by
  obtain ⟨p, hdue, hfetch⟩ := exists_of_advance h
  refine ⟨hs.underway.step (fun what hwhat => ?_) hdue, fun d since hd => ?_⟩
  · obtain ⟨since, hreading, rfl⟩ := hfetch what hwhat
    rw [hs.since_eq c since hreading]
    rfl
  · by_cases hcd : c = d
    · subst hcd
      cases hdue with
      | readMark hready =>
        rw [puller_setPuller_self] at hd
        obtain rfl := Puller.reading.inj hd
        have hshare := hs.underway.stands c
        rw [hready] at hshare
        exact Cache.mark_eq_of_share hs.underway.coldStart hshare
      | fetch => rw [puller_setPuller_self] at hd; cases hd
      | absorb => rw [puller_setPuller_self] at hd; cases hd
      | join =>
        change (s.refresh.setPuller c .joined).puller c = _ at hd
        rw [puller_setPuller_self] at hd
        cases hd
    · exact hs.since_eq d since ((hdue.puller_of_ne hcd).symm.trans hd)

theorem fromTables_begin : FromTables photos tables cache (begin cache) where
  underway := underway_begin
  since_eq _ _ h := nomatch h

theorem Succeeds.coldStart_eq (h : Succeeds photos tables cache cache') :
    cache'.coldStart = cache.coldStart := by
  obtain ⟨schedule, s, hs, -, rfl⟩ := h
  have hend : FromTables photos tables cache s :=
    kept_by_run (fun _ _ _ _ hstep hs => hs.advance hstep) hs fromTables_begin
  exact hend.underway.coldStart

/-- A refresh of tables leaves of each category what absorbing its rows leaves. -/
theorem Succeeds.share_eq (h : Succeeds photos tables cache cache') (c : Category) :
    cache'.share c = (cache.absorb photos c (tableReads tables cache c)).cache.share c := by
  obtain ⟨schedule, s, hs, hcomplete, rfl⟩ := h
  have hend : FromTables photos tables cache s :=
    kept_by_run (fun _ _ _ _ hstep hs => hs.advance hstep) hs fromTables_begin
  exact hend.underway.share_of_complete hcomplete c

end Refresh

/-! ### Lists merged once more -/

/-- Lists without repeated keys are equal if they have the same items and their keys stand in one
order. -/
theorem eq_of_map_key_eq {α κ : Type} {key : α → κ} {l l' : List α} (hkeys : l.map key = l'.map key)
    (hnodup : (l'.map key).Nodup) (hmem : ∀ a ∈ l, a ∈ l') : l = l' := by
  have hlength : l.length = l'.length := by simpa using congrArg List.length hkeys
  refine List.ext_getElem hlength fun i hi hi' => ?_
  have hkey : key l[i] = key l'[i] := by
    have hat := List.getElem_of_eq hkeys (by simpa using hi)
    simpa using hat
  exact List.inj_on_of_nodup_map hnodup (hmem _ (List.getElem_mem hi)) (List.getElem_mem hi') hkey

namespace Listed

variable {c : Category} {κ α : Type} [DecidableEq κ] {v : Listed c κ α} {photos : Uuid → Photo}
  {ix : Indexes} {o : Uuid}

/-- What a row does to the keys of an owner's list. -/
def edit (v : Listed c κ α) (o : Uuid) (row : c.Row) : Option (KeyEdit κ) :=
  if v.owner row = o then
    some (if (c.stamp row).isDeleted then .drop (v.key (v.item row))
      else .put (v.key (v.item row)))
  else none

theorem map_key_setItem (v : Listed c κ α) (row : c.Row) (index : Index (List α)) (o : Uuid) :
    (listAt (setItem (c.stamp row) v.key (v.owner row) (v.item row) index) o).map v.key =
      (v.edit o row).elim ((listAt index o).map v.key)
        (KeyEdit.apply ((listAt index o).map v.key)) := by
  unfold setItem edit
  by_cases ho : v.owner row = o
  · subst ho
    by_cases hd : (c.stamp row).isDeleted
    · simp only [hd, if_true, listAt_dropFrom, Option.elim_some, KeyEdit.apply, List.filter_map]
      refine congrArg _ (List.filter_congr fun a _ => ?_)
      by_cases ha : v.key a = v.key (v.item row) <;> simp [ha]
    · simp only [hd, Bool.false_eq_true, if_false, if_true, listAt_putIn, Option.elim_some,
        KeyEdit.apply, map_upsertBy]
  · by_cases hd : (c.stamp row).isDeleted <;> simp [hd, ho, listAt_dropFrom, listAt_putIn]

/-- The keys of an owner's list after a batch follow from its keys before. -/
theorem map_key_list_merge (v : Listed c κ α) (photos : Uuid → Photo) (batch : List c.Row)
    (ix : Indexes) (o : Uuid) :
    (v.list (ix.merge photos c batch).state o).map v.key =
      KeyEdit.play (batch.filterMap (v.edit o)) ((v.list ix o).map v.key) := by
  rw [list, list, lists_merge, KeyEdit.play_filterMap]
  generalize v.lists ix = index
  induction batch generalizing index with
  | nil => rfl
  | cons row batch ih => rw [List.foldl_cons, List.foldl_cons, ih, write, map_key_setItem]

/-- Merging the end of a batch once more leaves every entry as it is. -/
theorem find_merge_again (v : Listed c κ α) (photos : Uuid → Photo) (before again : List c.Row)
    (ix : Indexes) (s : Uuid × κ) :
    (v.place s).find ((ix.merge photos c (before ++ again)).state.merge photos c again).state =
      (v.place s).find (ix.merge photos c (before ++ again)).state := by
  simp only [Place.find_merge, lastSaid_append]
  cases lastSaid (v.place s).tells again <;> rfl

/-- Merging the end of a batch once more moves the entries that it clears at some time behind the
others. -/
theorem list_merge_again (photos : Uuid → Photo) (before again : List c.Row)
    (h : Tidy v.key (v.lists ix)) (o : Uuid) :
    v.list ((ix.merge photos c (before ++ again)).state.merge photos c again).state o =
      ((v.list (ix.merge photos c (before ++ again)).state o).filter fun x =>
          v.key x ∉ KeyEdit.dropped (again.filterMap (v.edit o))) ++
        (v.list (ix.merge photos c (before ++ again)).state o).filter fun x =>
          v.key x ∈ KeyEdit.dropped (again.filterMap (v.edit o)) := by
  have hfirst := v.tidy_merge photos (before ++ again) h
  have hsecond := v.tidy_merge photos again hfirst
  have hentries := v.find_merge_again photos before again ix
  have hplayed := v.map_key_list_merge photos (before ++ again) ix o
  have hkeys := v.map_key_list_merge photos again (ix.merge photos c (before ++ again)).state o
  rw [List.filterMap_append, KeyEdit.play_append] at hplayed
  rw [hplayed, KeyEdit.play_play, ← hplayed, List.filter_map, List.filter_map,
    ← List.map_append] at hkeys
  have hmem : ∀ x ∈ v.list
      ((ix.merge photos c (before ++ again)).state.merge photos c again).state o,
      x ∈ v.list (ix.merge photos c (before ++ again)).state o := by
    intro x hx
    exact hfirst.mem_listAt.2 ((hentries (o, v.key x)).symm.trans (hsecond.mem_listAt.1 hx))
  refine eq_of_map_key_eq hkeys (hkeys ▸ hsecond.nodup o) fun x hx => ?_
  rw [List.mem_append, List.mem_filter, List.mem_filter]
  by_cases hgone : v.key x ∈ KeyEdit.dropped (again.filterMap (v.edit o))
  · exact Or.inr ⟨hmem x hx, by simpa using hgone⟩
  · exact Or.inl ⟨hmem x hx, by simpa using hgone⟩

end Listed

/-! ### Two refreshes, one after the other -/

namespace Refresh.Succeeds

variable {photos : Uuid → Photo} {tables : (c : Category) → List c.Row} {cache first second : Cache}

theorem only_eq (h : Succeeds photos tables cache first) (c : Category) :
    first.indexes.only c = (cache.indexes.merge photos c
      (Storage.changedSince c (cache.mark c) (tables c))).state.only c := by
  have hshare := congrArg Cache.Share.indexes (h.share_eq c)
  exact hshare.trans (congrArg (Indexes.only · c) (cache.indexes_absorb_rows photos _))

theorem mark_eq (h : Succeeds photos tables cache first) (c : Category) :
    first.mark c = (cache.absorb photos c (tableReads tables cache c)).cache.mark c :=
  Cache.mark_eq_of_share (h.coldStart_eq.trans (Cache.coldStart_absorb _).symm) (h.share_eq c)

/-- What two refreshes leave is what the merges of their rows leave. -/
theorem only_eq_twice (h : Succeeds photos tables cache first)
    (h' : Succeeds photos tables first second) (c : Category) :
    second.indexes.only c = ((cache.indexes.merge photos c
      (Storage.changedSince c (cache.mark c) (tables c))).state.merge photos c
      (Storage.changedSince c (first.mark c) (tables c))).state.only c := by
  have hmerge : ∀ (ix : Indexes) batch,
      (ix.merge photos c batch).state.only c = ((ix.only c).merge photos c batch).state := by
    intro ix batch
    rw [merge_only]
    rfl
  rw [h'.only_eq c, hmerge first.indexes, h.only_eq c, ← hmerge]

end Refresh.Succeeds

namespace Listed

open Refresh

variable {c : Category} {κ α : Type} [DecidableEq κ] {v : Listed c κ α} {photos : Uuid → Photo}
  {tables : (c : Category) → List c.Row} {cache first second : Cache}

/-- Whether some row of the table that is stamped with the mark, or later, clears an entry. -/
def cleared (v : Listed c κ α) (table : List c.Row) (mark : Timestamp) (o : Uuid) (k : κ) : Bool :=
  table.any fun row =>
    decide (mark ≤ c.updatedAt row) && (c.stamp row).isDeleted && decide (v.slot row = (o, k))

/-- What a second refresh does to the lists of a category. -/
structure Replayed (v : Listed c κ α) (table : List c.Row) (first second : Cache) : Prop where
  mark_eq : second.mark c = first.mark c
  list_eq : ∀ o, v.list second.indexes o =
    ((v.list first.indexes o).filter fun x => !v.cleared table (first.mark c) o (v.key x)) ++
      (v.list first.indexes o).filter fun x => v.cleared table (first.mark c) o (v.key x)
  unchanged_iff : ∀ o, v.list second.indexes o = v.list first.indexes o ↔
    (v.list first.indexes o).Pairwise fun x y =>
      v.cleared table (first.mark c) o (v.key x) → v.cleared table (first.mark c) o (v.key y)

theorem mem_dropped_changedSince {table : List c.Row} {mark : Timestamp} {o : Uuid} {k : κ} :
    k ∈ KeyEdit.dropped ((Storage.changedSince c mark table).filterMap (v.edit o)) ↔
      v.cleared table mark o k := by
  have hedit : ∀ row, v.edit o row = some (.drop k) ↔
      (c.stamp row).isDeleted ∧ v.slot row = (o, k) := by
    intro row
    unfold edit slot
    by_cases ho : v.owner row = o <;> by_cases hd : (c.stamp row).isDeleted <;> simp [ho, hd]
  simp only [KeyEdit.mem_dropped, List.mem_filterMap, Storage.mem_changedSince, hedit, cleared,
    List.any_eq_true, Bool.and_eq_true, decide_eq_true_eq, and_assoc]

theorem mark_of_succeeds (v : Listed c κ α) (h : Succeeds photos tables cache first) :
    first.mark c =
      ((Storage.changedSince c (cache.mark c) (tables c)).map c.updatedAt).foldl max
        (cache.mark c) := by
  have happlied : ∀ row ix, ∃ ix', applyRow photos c row ix = .ok ix' := fun row ix =>
    (v.applied photos row ix).imp fun _ h => h.1
  rw [h.mark_eq c, tableReads, Cache.mark_absorb_rows, Merge.appliedRows_eq_self happlied]

/-- A refresh leaves no row of a table above the mark. -/
theorem le_mark_of_succeeds (v : Listed c κ α) (h : Succeeds photos tables cache first) :
    cache.mark c ≤ first.mark c ∧ ∀ row ∈ tables c, c.updatedAt row ≤ first.mark c := by
  have hreached : ∀ t ∈ cache.mark c ::
      (Storage.changedSince c (cache.mark c) (tables c)).map c.updatedAt, t ≤ first.mark c :=
    fun t ht => v.mark_of_succeeds h ▸ Timestamp.le_foldl_max ht
  have hle : cache.mark c ≤ first.mark c := hreached _ (List.mem_cons_self ..)
  refine ⟨hle, fun row hrow => ?_⟩
  by_cases hread : cache.mark c ≤ c.updatedAt row
  · have hmem := Storage.mem_changedSince.2 ⟨hrow, hread⟩
    exact hreached _ (List.mem_cons_of_mem _ (List.mem_map_of_mem hmem))
  · exact Std.le_trans (Std.le_of_not_ge hread) hle

/-- Of two refreshes the second one leaves the mark as it is, and moves the entries that a row of
the mark clears behind the others. -/
theorem replayed (hv : ∀ ix : Indexes, v.lists (ix.only c) = v.lists ix)
    (ht : Tidy v.key (v.lists cache.indexes)) (h : Succeeds photos tables cache first)
    (h' : Succeeds photos tables first second) : v.Replayed (tables c) first second := by
  obtain ⟨hle, hlast⟩ := v.le_mark_of_succeeds h
  obtain ⟨before, hbefore⟩ := Storage.changedSince_suffix hle hlast
  have hlist : ∀ o, v.list second.indexes o =
      ((v.list first.indexes o).filter fun x =>
          !v.cleared (tables c) (first.mark c) o (v.key x)) ++
        (v.list first.indexes o).filter fun x =>
          v.cleared (tables c) (first.mark c) o (v.key x) := by
    intro o
    have hfirst := congrArg v.lists (h.only_eq c)
    have hsecond := congrArg v.lists (h.only_eq_twice h' c)
    rw [hv, hv, hbefore] at hfirst hsecond
    have hagain := list_merge_again photos before
      (Storage.changedSince c (first.mark c) (tables c)) ht o
    unfold list at hagain ⊢
    rw [hfirst, hsecond, hagain]
    simp only [mem_dropped_changedSince, Bool.decide_eq_true, decide_not]
  refine ⟨?_, hlist, fun o => ?_⟩
  · rw [v.mark_of_succeeds h']
    refine Timestamp.foldl_max_of_le fun t hmem => ?_
    obtain ⟨row, hrow, rfl⟩ := List.mem_map.1 hmem
    exact hlast row (Storage.mem_changedSince.1 hrow).1
  · rw [hlist o]
    exact filter_append_filter_eq_self

/-- The entries of a list are the same after a second refresh. -/
theorem Replayed.perm {table : List c.Row} (h : v.Replayed table first second) (o : Uuid) :
    (v.list second.indexes o).Perm (v.list first.indexes o) := by
  rw [h.list_eq o]
  exact List.perm_append_comm.trans (List.filter_append_perm _ _)

theorem keys_of_succeeds (hv : ∀ ix : Indexes, v.lists (ix.only c) = v.lists ix)
    (h : Succeeds photos tables cache first) (o : Uuid) :
    (v.list first.indexes o).map v.key = KeyEdit.play
      ((Storage.changedSince c (cache.mark c) (tables c)).filterMap (v.edit o))
      ((v.list cache.indexes o).map v.key) := by
  rw [← v.map_key_list_merge photos]
  have hlists := congrArg v.lists (h.only_eq c)
  rw [hv, hv] at hlists
  unfold list
  rw [hlists]

/-- A step of a puller keeps the lists of every category tidy. -/
theorem tidy_of_due (hv : ∀ ix : Indexes, v.lists (ix.only c) = v.lists ix) {d : Category}
    {p : PullStep d} {s s' : State} (h : Due photos d s p s')
    (ht : Tidy v.key (v.lists s.cache.indexes)) : Tidy v.key (v.lists s'.cache.indexes) := by
  by_cases hd : d = c
  · subst hd
    cases h with
    | readMark => exact ht
    | fetch => exact ht
    | @absorb since what =>
      cases what with
      | rows batch =>
        change Tidy v.key (v.lists (s.cache.absorb photos d (.rows batch)).cache.indexes)
        rw [Cache.indexes_absorb_rows]
        exact v.tidy_merge photos batch ht
      | failed e => exact ht
      | panicked p => exact ht
    | @join result => cases result <;> exact ht
  · have hsame := congrArg (fun share => v.lists share.indexes) (h.share_of_ne hd)
    have hlists : v.lists s'.cache.indexes = v.lists s.cache.indexes :=
      (hv _).symm.trans (hsame.trans (hv _))
    exact hlists ▸ ht

theorem tidy_of_traffic (hv : ∀ ix : Indexes, v.lists (ix.only c) = v.lists ix) {now : Timestamp}
    {acts : List (Nat × Act)} {m : Traffic}
    (h : acts.foldlM (Traffic.act photos) (Traffic.start now) = some m) :
    Tidy v.key (v.lists m.cache.indexes) := by
  refine kept_by_run (I := fun m => Tidy v.key (v.lists m.cache.indexes)) ?_ h ?_
  · intro a _ m m' hstep hm
    obtain ⟨s, hs, rfl⟩ := Option.map_eq_some_iff.1 hstep
    exact tidy_of_due hv (step_eq_some.1 hs) hm
  · change Tidy v.key (v.lists .empty)
    rw [v.lists_empty]
    exact tidy_empty _

end Listed

open Refresh Listed

/-- After any earlier traffic, a second refresh of the same tables leaves the marks and the entries
of the list categories as they are. It leaves a list as it is if and only if no other entry stands
behind one that a deleted row of the mark is about; else it moves those entries to the end. -/
theorem lists_after_second_refresh {photos : Uuid → Photo} {now : Timestamp}
    {acts : List (Nat × Act)} {m : Traffic} {tables : (c : Category) → List c.Row}
    {first second : Cache} (h : acts.foldlM (Traffic.act photos) (Traffic.start now) = some m)
    (hfirst : Succeeds photos tables m.cache first) (hsecond : Succeeds photos tables first second) :
    companyFieldLists.Replayed (tables .companyFields) first second ∧
      projectFieldLists.Replayed (tables .projectFields) first second ∧
      catalogFieldLists.Replayed (tables .catalogFields) first second ∧
      companyPriorityLists.Replayed (tables .companyPriorities) first second ∧
      userFederationLinks.Replayed (tables .userFederation) first second ∧
      userCompanyLinks.Replayed (tables .userCompany) first second := by
  have hall : ∀ {c : Category} {κ α : Type} [DecidableEq κ] (v : Listed c κ α),
      (∀ ix : Indexes, v.lists (ix.only c) = v.lists ix) → v.Replayed (tables c) first second :=
    fun v hv => v.replayed hv (tidy_of_traffic hv h) hfirst hsecond
  exact ⟨hall _ fun _ => rfl, hall _ fun _ => rfl, hall _ fun _ => rfl, hall _ fun _ => rfl,
    hall _ fun _ => rfl, hall _ fun _ => rfl⟩

/-- A user works for two companies, and has left the second one and joined it again at once. -/
def rejoinedCompany : (c : Category) → List c.Row
  | .userCompany =>
    let row : UserCompanyRow := { (default : UserCompanyRow) with updatedAt := ⟨0, 0⟩ }
    [{ row with company := ⟨1⟩ }, { row with deletedAt := some ⟨0, 0⟩, company := ⟨2⟩ },
      { row with company := ⟨2⟩ }]
  | _ => []

/-- The link that is dropped and made again stands last already. -/
theorem lists_after_second_refresh_rejoined :
    ∃ first second, Succeeds (fun _ => default) rejoinedCompany (.start ⟨0, 0⟩) first ∧
      Succeeds (fun _ => default) rejoinedCompany first second ∧
      userCompanyLinks.list first.indexes Uuid.zero = [⟨1⟩, ⟨2⟩] ∧
      userCompanyLinks.list second.indexes Uuid.zero = [⟨1⟩, ⟨2⟩] := by
  obtain ⟨first, hfirst⟩ := exists_succeeds (fun _ => default) rejoinedCompany (.start ⟨0, 0⟩)
  obtain ⟨second, hsecond⟩ := exists_succeeds (fun _ => default) rejoinedCompany first
  have hrun : [].foldlM (Traffic.act fun _ => default) (Traffic.start ⟨0, 0⟩) =
      some (Traffic.start ⟨0, 0⟩) := rfl
  have hreplayed := (lists_after_second_refresh hrun hfirst hsecond).2.2.2.2.2
  have hmark : first.mark .userCompany = ⟨0, 0⟩ := by
    rw [userCompanyLinks.mark_of_succeeds hfirst, Storage.changedSince_of_sorted (by decide)]
    decide
  have hkeys := userCompanyLinks.keys_of_succeeds (fun _ => rfl) hfirst Uuid.zero
  rw [Storage.changedSince_of_sorted (by decide)] at hkeys
  have hlist : userCompanyLinks.list first.indexes Uuid.zero = [⟨1⟩, ⟨2⟩] :=
    (List.map_id _).symm.trans (hkeys.trans rfl)
  refine ⟨first, second, hfirst, hsecond, hlist, ?_⟩
  rw [(hreplayed.unchanged_iff Uuid.zero).2 ?_, hlist]
  rw [hlist, hmark]
  decide

/-- The field "color" was deleted and made again, and the field "size" was made, all at once. -/
def recreatedField : (c : Category) → List c.Row
  | .companyFields =>
    let row : CompanyFieldRow := { (default : CompanyFieldRow) with updatedAt := ⟨0, 0⟩ }
    [{ row with deletedAt := some ⟨0, 0⟩, hash := "color" }, { row with hash := "color" },
      { row with hash := "size" }]
  | _ => []

theorem recreated_field_moved :
    ∃ first second, Succeeds (fun _ => default) recreatedField (.start ⟨0, 0⟩) first ∧
      Succeeds (fun _ => default) recreatedField first second ∧
      (companyFieldLists.list first.indexes Uuid.zero).map CompanyField.hash = ["color", "size"] ∧
      (companyFieldLists.list second.indexes Uuid.zero).map CompanyField.hash =
        ["size", "color"] := by
  obtain ⟨first, hfirst⟩ := exists_succeeds (fun _ => default) recreatedField (.start ⟨0, 0⟩)
  obtain ⟨second, hsecond⟩ := exists_succeeds (fun _ => default) recreatedField first
  have hmark : first.mark .companyFields = ⟨0, 0⟩ := by
    rw [companyFieldLists.mark_of_succeeds hfirst, Storage.changedSince_of_sorted (by decide)]
    decide
  have hkeys := companyFieldLists.keys_of_succeeds (fun _ => rfl) hfirst Uuid.zero
  have hagain := companyFieldLists.keys_of_succeeds (fun _ => rfl) hsecond Uuid.zero
  rw [Storage.changedSince_of_sorted (by decide)] at hkeys
  rw [hmark, hkeys, Storage.changedSince_of_sorted (by decide)] at hagain
  exact ⟨first, second, hfirst, hsecond, hkeys.trans rfl, hagain.trans rfl⟩

end RefCache
