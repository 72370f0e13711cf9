import RefCache.Proofs.Answers
import RefCache.Proofs.Rebuild
import RefCache.Proofs.Replay
import Mathlib.Data.Nat.Find
import Mathlib.Order.Bounds.Basic

/-! The lists after any batches from empty indexes on, told by the rows alone. Under an owner and a
key stands what the last row for the two says, and nothing if that row is deleted. A list is in the
order of the rows that began its entries: an entry that is altered keeps its place, and one that is
dropped and put again stands behind the others. -/

namespace RefCache

open Indexes

namespace Listed

variable {c : Category} {κ α : Type} [DecidableEq κ] (v : Listed c κ α) {photos : Uuid → Photo}

/-! ### Row by row -/

/-- The lists after some rows, the first of them into no lists at all. -/
def written (rows : List c.Row) : Index (List α) := rows.foldl v.write ∅

variable {v}

theorem written_concat (rows : List c.Row) (row : c.Row) :
    v.written (rows ++ [row]) = v.write (v.written rows) row :=
  List.foldl_concat ..

/-- The lists of a category are what its own rows make of them, whatever else arrives. -/
theorem lists_afterBatches (hv : ∀ ix : Indexes, v.lists (ix.only c) = v.lists ix)
    (batches : List Batch) :
    v.lists (afterBatches photos batches) = v.written (rowsOf c batches) := by
  induction batches using List.reverseRecOn with
  | nil => exact v.lists_empty
  | append_singleton batches b ih =>
    obtain ⟨d, rows⟩ := b
    rw [afterBatches_concat]
    by_cases hd : d = c
    · subst hd
      rw [lists_merge, ih, rowsOf_concat_self, written, written, List.foldl_append]
    · rw [rowsOf_concat_of_ne hd, ← ih, ← hv, only_merge (Ne.symm hd), hv]

theorem tidy_written (rows : List c.Row) : Tidy v.key (v.written rows) :=
  v.tidy_writes rows (tidy_empty v.key)

theorem shown_concat (rows : List c.Row) (row : c.Row) (s : Uuid × κ) :
    v.shown (rows ++ [row]) s = if v.slot row = s then v.shows row else v.shown rows s := by
  have hone : latestFor v.slot s [row] = if v.slot row = s then some row else none :=
    lastSaid_singleton _ row
  rw [shown, latestFor_append, hone]
  by_cases hs : v.slot row = s <;> simp [hs, shown]

theorem itemAt_written (rows : List c.Row) (o : Uuid) (k : κ) :
    itemAt v.key (v.written rows) o k = v.shown rows (o, k) := by
  induction rows using List.reverseRecOn with
  | nil => exact itemAt_empty v.key o k
  | append_singleton rows row ih =>
    rw [written_concat, shown_concat, write, itemAt_setItem, ih]
    change ((c.stamp row).tells (v.slot row) (o, k) (v.item row)).getD _ = _
    by_cases hs : v.slot row = (o, k) <;> simp [Stamped.tells, shows, hs]

theorem shown_eq_some {rows : List c.Row} {s : Uuid × κ} {x : α} :
    v.shown rows s = some x ↔ ∃ row, latestFor v.slot s rows = some row ∧
      (c.stamp row).isDeleted = false ∧ x = v.item row := by
  simp only [shown, shows, Option.bind_eq_some_iff]
  refine exists_congr fun row => and_congr_right fun _ => ?_
  by_cases hd : (c.stamp row).isDeleted <;> simp [hd, eq_comm]

theorem mem_listAt_written {rows : List c.Row} {o : Uuid} {x : α} :
    x ∈ listAt (v.written rows) o ↔ v.shown rows (o, v.key x) = some x := by
  rw [(tidy_written rows).mem_listAt, itemAt_written]

/-! ### Where an entry began -/

variable (v)

/-- The row at a position is for the slot, and from there on no row for the slot is deleted. -/
structure PresentFrom (rows : List c.Row) (s : Uuid × κ) (i : Nat) : Prop where
  forSlot : ∃ row, rows[i]? = some row ∧ v.slot row = s
  live : ∀ row ∈ rows.drop i, v.slot row = s → (c.stamp row).isDeleted = false

/-- The first live row for a slot after its last deletion stands at the position. -/
def BegunAt (rows : List c.Row) (s : Uuid × κ) (i : Nat) : Prop :=
  IsLeast {i | v.PresentFrom rows s i} i

variable {v} {rows : List c.Row} {row : c.Row} {s : Uuid × κ} {i j : Nat}

theorem PresentFrom.lt_length (h : v.PresentFrom rows s i) : i < rows.length := by
  obtain ⟨row, hrow, -⟩ := h.forSlot
  exact (List.getElem?_eq_some_iff.1 hrow).1

theorem presentFrom_concat : v.PresentFrom (rows ++ [row]) s i ↔
    (v.slot row = s → (c.stamp row).isDeleted = false) ∧
      (v.PresentFrom rows s i ∨ i = rows.length ∧ v.slot row = s) := by
  constructor
  · intro h
    have hlt := h.lt_length
    rw [List.length_append, List.length_singleton] at hlt
    have hle : i ≤ rows.length := Nat.le_of_lt_succ hlt
    have hlive := h.live
    rw [List.drop_append_of_le_length hle] at hlive
    refine ⟨hlive row (by simp), ?_⟩
    obtain ⟨r, hr, hs⟩ := h.forSlot
    rcases hle.lt_or_eq with hlt | rfl
    · rw [List.getElem?_append_left hlt] at hr
      exact Or.inl ⟨⟨r, hr, hs⟩, fun r hr => hlive r (List.mem_append_left _ hr)⟩
    · rw [List.getElem?_concat_length] at hr
      exact Or.inr ⟨rfl, Option.some.inj hr ▸ hs⟩
  · rintro ⟨hlast, h | ⟨rfl, hs⟩⟩
    · obtain ⟨r, hr, hs⟩ := h.forSlot
      refine ⟨⟨r, by rw [List.getElem?_append_left h.lt_length, hr], hs⟩, fun r hr => ?_⟩
      rw [List.drop_append_of_le_length h.lt_length.le, List.mem_append, List.mem_singleton] at hr
      rcases hr with hr | rfl
      · exact h.live r hr
      · exact hlast
    · refine ⟨⟨row, List.getElem?_concat_length, hs⟩, fun r hr => ?_⟩
      rw [List.drop_left, List.mem_singleton] at hr
      exact hr ▸ hlast

/-- A slot is present exactly when its last row is live. -/
theorem exists_presentFrom_iff :
    (∃ i, v.PresentFrom rows s i) ↔ (v.shown rows s).isSome := by
  induction rows using List.reverseRecOn with
  | nil =>
    have hnowhere : ¬ ∃ i, v.PresentFrom [] s i := fun ⟨i, h⟩ => Nat.not_lt_zero i h.lt_length
    simpa [shown, latestFor] using hnowhere
  | append_singleton rows row ih =>
    simp only [presentFrom_concat, exists_and_left, exists_or, ih, shown_concat, shows]
    by_cases hs : v.slot row = s <;> by_cases hd : (c.stamp row).isDeleted <;> simp [hs, hd]

theorem exists_begunAt (h : (v.shown rows s).isSome) : ∃ i, v.BegunAt rows s i := by
  classical
  have hpresent := exists_presentFrom_iff.2 h
  exact ⟨Nat.find hpresent, Nat.find_spec hpresent, fun _ hi => Nat.find_min' hpresent hi⟩

theorem BegunAt.lt_length (h : v.BegunAt rows s i) : i < rows.length := PresentFrom.lt_length h.1

/-- One more row leaves the beginning of what goes on being present where it is. -/
theorem BegunAt.of_concat (h : v.BegunAt (rows ++ [row]) s i) (hs : (v.shown rows s).isSome) :
    v.BegunAt rows s i := by
  obtain ⟨j, hj⟩ := exists_begunAt hs
  obtain ⟨hlive, hi⟩ := presentFrom_concat.1 h.1
  have hle : i ≤ j := h.2 (presentFrom_concat.2 ⟨hlive, Or.inl hj.1⟩)
  have hlt := hj.lt_length
  rcases hi with hi | ⟨rfl, -⟩
  · exact ⟨hi, fun k hk => h.2 (presentFrom_concat.2 ⟨hlive, Or.inl hk⟩)⟩
  · exact absurd hle (Nat.not_le.2 hlt)

/-- What was not present before the last row begins there. -/
theorem BegunAt.eq_length (h : v.BegunAt (rows ++ [row]) s i) (hs : ¬ (v.shown rows s).isSome) :
    i = rows.length := by
  rcases (presentFrom_concat.1 h.1).2 with hi | ⟨hi, -⟩
  · exact absurd (exists_presentFrom_iff.1 ⟨i, hi⟩) hs
  · exact hi

/-! ### The order of a list -/

theorem mem_map_key_written {o : Uuid} {k : κ} :
    k ∈ (listAt (v.written rows) o).map v.key ↔ (v.shown rows (o, k)).isSome := by
  rw [← itemAt_written, itemAt, List.find?_isSome, List.mem_map]
  simp

/-- The keys of a list stand in the order in which they began to be present. -/
theorem pairwise_map_key_written (rows : List c.Row) (o : Uuid) :
    ((listAt (v.written rows) o).map v.key).Pairwise fun k k' =>
      ∀ i j, v.BegunAt rows (o, k) i → v.BegunAt rows (o, k') j → i < j := by
  induction rows using List.reverseRecOn with
  | nil => simp [written]
  | append_singleton rows row ih =>
    -- the keys that were there before stand as they did
    have hbefore : ((listAt (v.written rows) o).map v.key).Pairwise fun k k' => ∀ i j,
        v.BegunAt (rows ++ [row]) (o, k) i → v.BegunAt (rows ++ [row]) (o, k') j → i < j := by
      refine ih.imp_of_mem fun {k k'} hk hk' hlt i j hi hj => ?_
      exact hlt i j (hi.of_concat (mem_map_key_written.1 hk))
        (hj.of_concat (mem_map_key_written.1 hk'))
    rw [written_concat, write, map_key_setItem]
    cases hedit : v.edit o row with
    | none => exact hbefore
    | some e =>
      cases e with
      | drop k => exact hbefore.sublist List.filter_sublist
      | put k =>
        simp only [Option.elim_some, KeyEdit.apply]
        split
        · exact hbefore
        · rename_i hnew
          refine List.pairwise_append.2 ⟨hbefore, List.pairwise_singleton .., ?_⟩
          intro k₀ hk₀ k₁ hk₁ i j hi hj
          obtain rfl := List.mem_singleton.1 hk₁
          rw [hj.eq_length fun hs => hnew (mem_map_key_written.2 hs)]
          exact (hi.of_concat (mem_map_key_written.1 hk₀)).lt_length

/-! ### The lists as a whole -/

variable (v)

/-- How the lists follow from the rows that were merged. -/
structure LastWriterWins (rows : List c.Row) (ix : Indexes) : Prop where
  mem_keys_iff : ∀ o k, k ∈ (v.list ix o).map v.key ↔
    ∃ row, latestFor v.slot (o, k) rows = some row ∧ (c.stamp row).isDeleted = false
  item_of_mem : ∀ o, ∀ x ∈ v.list ix o,
    ∃ row, latestFor v.slot (o, v.key x) rows = some row ∧ x = v.item row
  nodup : ∀ o, ((v.list ix o).map v.key).Nodup
  begun : ∀ o, ∀ x ∈ v.list ix o, ∃ i, v.BegunAt rows (o, v.key x) i
  ordered : ∀ o, (v.list ix o).Pairwise fun x y =>
    ∀ i j, v.BegunAt rows (o, v.key x) i → v.BegunAt rows (o, v.key y) j → i < j
  absent_iff : ∀ o : Uuid, (v.lists ix)[o]? = none ↔
    ∀ k row, latestFor v.slot (o, k) rows = some row → (c.stamp row).isDeleted
  never_empty : ∀ o : Uuid, (v.lists ix)[o]? ≠ some []

variable {v}

theorem isSome_shown_iff : (v.shown rows s).isSome ↔
    ∃ row, latestFor v.slot s rows = some row ∧ (c.stamp row).isDeleted = false := by
  simp only [Option.isSome_iff_exists, shown_eq_some]
  constructor
  · rintro ⟨x, row, hrow, hlive, -⟩
    exact ⟨row, hrow, hlive⟩
  · rintro ⟨row, hrow, hlive⟩
    exact ⟨v.item row, row, hrow, hlive, rfl⟩

theorem lastWriterWins_of_lists_eq {rows : List c.Row} {ix : Indexes}
    (h : v.lists ix = v.written rows) : v.LastWriterWins rows ix := by
  have htidy := v.tidy_written rows
  have hlist : ∀ o, v.list ix o = listAt (v.written rows) o := fun o => by rw [list, h]
  have hkept : ∀ o : Uuid, (v.written rows)[o]? ≠ some [] := fun o hempty =>
    htidy.nonempty o [] hempty rfl
  refine ⟨fun o k => ?_, fun o x hx => ?_, fun o => ?_, fun o x hx => ?_, fun o => ?_,
    fun o => ?_, fun o hempty => ?_⟩
  · rw [hlist, mem_map_key_written, isSome_shown_iff]
  · rw [hlist, mem_listAt_written, shown_eq_some] at hx
    obtain ⟨row, hrow, -, hitem⟩ := hx
    exact ⟨row, hrow, hitem⟩
  · rw [hlist]
    exact htidy.nodup o
  · rw [hlist, mem_listAt_written] at hx
    exact exists_begunAt (Option.isSome_of_eq_some hx)
  · rw [hlist]
    exact List.pairwise_map.1 (pairwise_map_key_written rows o)
  · rw [h, ← listAt_eq_nil_iff (hkept o), ← List.map_eq_nil_iff (f := v.key),
      List.eq_nil_iff_forall_not_mem]
    simp only [mem_map_key_written, isSome_shown_iff, not_exists, not_and, Bool.not_eq_false]
  · exact hkept o (h ▸ hempty)

end Listed

/-! ### Answers -/

namespace Cache

theorem consult_list_ne {α : Type} {index : Index (List α)} (name op : String) {o : Uuid}
    (h : index[o]? ≠ some []) : (consult name op index none (·[o]?)).value ≠ some [] := by
  rw [consult_value name op fun hempty => by simp [hempty]]
  exact h

theorem consult_links_eq_nil_iff {index : Index (List Uuid)} (name op : String) {u : Uuid}
    (h : index[u]? ≠ some []) :
    (consult name op index [] fun index => index[u]?.getD []).value = [] ↔ index[u]? = none := by
  rw [consult_value name op fun hempty => by simp [hempty]]
  exact listAt_eq_nil_iff h

/-- No list that is answered is there and empty. -/
structure ListsAnswered (cache : Cache) : Prop where
  companyFields : ∀ o : Uuid, (cache.findCompanyFields o).value ≠ some []
  projectFields : ∀ o : Uuid, (cache.findProjectFields o).value ≠ some []
  catalogFields : ∀ o : Uuid, (cache.findCatalogFields o).value ≠ some []
  userFederations : ∀ u : Uuid, (cache.userFederations u).value = [] ↔
    cache.indexes.userFederations[u]? = none
  userCompanies : ∀ u : Uuid, (cache.userCompanies u).value = [] ↔
    cache.indexes.userCompanies[u]? = none

end Cache

/-- After any batches of any categories, the lists of fields and priorities and the links of users
are what the last rows for their entries say, in the order in which the entries began. -/
theorem lists_last_writer_wins (photos : Uuid → Photo) (now : Timestamp) (batches : List Batch) :
    companyFieldLists.LastWriterWins (rowsOf .companyFields batches)
        (Cache.ofBatches photos now batches).indexes ∧
      projectFieldLists.LastWriterWins (rowsOf .projectFields batches)
        (Cache.ofBatches photos now batches).indexes ∧
      catalogFieldLists.LastWriterWins (rowsOf .catalogFields batches)
        (Cache.ofBatches photos now batches).indexes ∧
      companyPriorityLists.LastWriterWins (rowsOf .companyPriorities batches)
        (Cache.ofBatches photos now batches).indexes ∧
      userFederationLinks.LastWriterWins (rowsOf .userFederation batches)
        (Cache.ofBatches photos now batches).indexes ∧
      userCompanyLinks.LastWriterWins (rowsOf .userCompany batches)
        (Cache.ofBatches photos now batches).indexes ∧
      (Cache.ofBatches photos now batches).ListsAnswered := by
  have hall : ∀ {c : Category} {κ α : Type} [DecidableEq κ] (v : Listed c κ α),
      (∀ ix : Indexes, v.lists (ix.only c) = v.lists ix) →
        v.LastWriterWins (rowsOf c batches) (Cache.ofBatches photos now batches).indexes := by
    intro c κ α _ v hv
    rw [Cache.indexes_ofBatches]
    exact Listed.lastWriterWins_of_lists_eq (Listed.lists_afterBatches hv batches)
  have hcompany := hall companyFieldLists fun _ => rfl
  have hproject := hall projectFieldLists fun _ => rfl
  have hcatalog := hall catalogFieldLists fun _ => rfl
  have hpriority := hall companyPriorityLists fun _ => rfl
  have hfederation := hall userFederationLinks fun _ => rfl
  have hworks := hall userCompanyLinks fun _ => rfl
  refine ⟨hcompany, hproject, hcatalog, hpriority, hfederation, hworks, ?_, ?_, ?_, ?_, ?_⟩
  · exact fun o => Cache.consult_list_ne _ _ (hcompany.never_empty o)
  · exact fun o => Cache.consult_list_ne _ _ (hproject.never_empty o)
  · exact fun o => Cache.consult_list_ne _ _ (hcatalog.never_empty o)
  · exact fun u => Cache.consult_links_eq_nil_iff _ _ (hfederation.never_empty u)
  · exact fun u => Cache.consult_links_eq_nil_iff _ _ (hworks.never_empty u)

/-- A field that is dropped and put again stands behind the one that was put between. -/
example :
    let row : CompanyFieldRow := { (default : CompanyFieldRow) with updatedAt := ⟨0, 0⟩ }
    let first : Batch :=
      ⟨.companyFields, [{ row with hash := "color" }, { row with hash := "size" }]⟩
    let second : Batch := ⟨.companyFields,
      [{ row with deletedAt := some ⟨0, 0⟩, hash := "color" }, { row with hash := "color" }]⟩
    (companyFieldLists.list (afterBatches (fun _ => default) [first, second]) Uuid.zero).map
      CompanyField.hash = ["size", "color"] := by
  decide +kernel

end RefCache
