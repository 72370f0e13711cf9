import RefCache.Proofs.Items
import RefCache.Proofs.Slot

/-! The places of the categories that are merged row by row: an entry under an identifier, an item
of an owner's list under a key, a link. In each of them a live row sets what is found and a deleted
row clears it. -/

namespace RefCache

/-- What a row says of a place: nothing of another one than its own. -/
def Stamped.tells {κ α : Type} [DecidableEq κ] (row : Stamped) (own place : κ) (entry : α) :
    Option (Option α) :=
  if own = place then some (if row.isDeleted then none else some entry) else none

theorem Stamped.tells_eq_some {κ α : Type} [DecidableEq κ] {row : Stamped} {own place : κ}
    {entry : α} {x : Option α} :
    row.tells own place entry = some x ↔
      own = place ∧ x = if row.isDeleted then none else some entry := by
  by_cases h : own = place <;> simp [tells, h, eq_comm (b := x)]

namespace Indexes

variable {α κ : Type} [DecidableEq κ]

theorem getElem?_setEntry (row : Stamped) (own : Uuid) (entry : α) (index : Index α) (u : Uuid) :
    (setEntry row own entry index)[u]? = (row.tells own u entry).getD index[u]? := by
  unfold setEntry Stamped.tells
  by_cases hd : row.isDeleted <;> by_cases hu : own = u <;>
    simp [hd, hu, Std.ExtTreeMap.getElem?_erase, Std.ExtTreeMap.getElem?_insert]

theorem itemAt_setItem (row : Stamped) (key : α → κ) (owner : Uuid) (item : α)
    (index : Index (List α)) (o : Uuid) (k : κ) :
    itemAt key (setItem row key owner item index) o k =
      (row.tells (owner, key item) (o, k) item).getD (itemAt key index o k) := by
  unfold setItem Stamped.tells
  by_cases hd : row.isDeleted
  · simp only [hd, if_true, itemAt_dropFrom, Prod.mk.injEq]
    split <;> rfl
  · simp only [hd, Bool.false_eq_true, if_false, itemAt_putIn, Prod.mk.injEq]
    split <;> rfl

theorem Tidy.setItem {key : α → κ} {index : Index (List α)} (h : Tidy key index) (row : Stamped)
    (owner : Uuid) (item : α) : Tidy key (setItem row key owner item index) := by
  unfold Indexes.setItem
  split
  · exact h.dropFrom owner _
  · exact h.putIn owner item

theorem setLink_eq_setItem (row : Stamped) (owner target : Uuid) (index : Index (List Uuid)) :
    setLink row owner target index = setItem row id owner target index := by
  simp [setLink, setItem, link_eq_putIn]

end Indexes

open Indexes

/-- A place of one category's index. -/
structure Place (c : Category) (α : Type) where
  find : Indexes → Option α
  tells : c.Row → Option (Option α)
  find_empty : find .empty = none
  applied : ∀ photos row ix ix', applyRow photos c row ix = .ok ix' →
    find ix' = (tells row).getD (find ix)
  skipped : ∀ photos row ix e, applyRow photos c row ix = .error e → tells row = none
  settled : ∀ batch ix, find (settle c batch ix) = find ix

theorem Place.find_merge {c : Category} {α : Type} (p : Place c α) (photos : Uuid → Photo)
    (batch : List c.Row) (ix : Indexes) :
    p.find (ix.merge photos c batch).state = (lastSaid p.tells batch).getD (p.find ix) := by
  have h : p.find (Merge.rows c.stamp (applyRow photos c) batch ix).state =
      (lastSaid p.tells batch).getD (p.find ix) :=
    Merge.find_rows (p.applied photos) (p.skipped photos) batch ix
  exact (p.settled batch _).trans h

/-- A category whose index holds one record under each identifier. -/
structure Keyed (c : Category) (α : Type) where
  index : Indexes → Index α
  own : c.Row → Uuid
  entry : c.Row → α
  index_empty : index .empty = ∅
  applied : ∀ photos row ix, ∃ ix', applyRow photos c row ix = .ok ix' ∧
    index ix' = setEntry (c.stamp row) (own row) (entry row) (index ix)
  settled : ∀ batch ix, settle c batch ix = ix

/-- A category whose index holds a list for each owner, with one item under each key. -/
structure Listed (c : Category) (κ α : Type) [DecidableEq κ] where
  lists : Indexes → Index (List α)
  key : α → κ
  owner : c.Row → Uuid
  item : c.Row → α
  lists_empty : lists .empty = ∅
  applied : ∀ photos row ix, ∃ ix', applyRow photos c row ix = .ok ix' ∧
    lists ix' = setItem (c.stamp row) key (owner row) (item row) (lists ix)
  settled : ∀ batch ix, settle c batch ix = ix

namespace Keyed

variable {c : Category} {α : Type}

def place (v : Keyed c α) (u : Uuid) : Place c α where
  find ix := (v.index ix)[u]?
  tells row := (c.stamp row).tells (v.own row) u (v.entry row)
  find_empty := by simp [v.index_empty]
  applied photos row ix ix' h := by
    obtain ⟨ix₁, h₁, hi⟩ := v.applied photos row ix
    obtain rfl := Except.ok.inj (h.symm.trans h₁)
    rw [hi, getElem?_setEntry]
  skipped photos row ix e h := by
    obtain ⟨ix₁, h₁, -⟩ := v.applied photos row ix
    cases h.symm.trans h₁
  settled batch ix := by rw [v.settled]

end Keyed

namespace Listed

variable {c : Category} {κ α : Type} [DecidableEq κ]

/-- The list that an owner has. -/
def list (v : Listed c κ α) (ix : Indexes) (o : Uuid) : List α := listAt (v.lists ix) o

/-- The owner and the key that a row is for. -/
def slot (v : Listed c κ α) (row : c.Row) : Uuid × κ := (v.owner row, v.key (v.item row))

def place (v : Listed c κ α) (s : Uuid × κ) : Place c α where
  find ix := itemAt v.key (v.lists ix) s.1 s.2
  tells row := (c.stamp row).tells (v.slot row) s (v.item row)
  find_empty := by simp [v.lists_empty]
  applied photos row ix ix' h := by
    obtain ⟨ix₁, h₁, hi⟩ := v.applied photos row ix
    obtain rfl := Except.ok.inj (h.symm.trans h₁)
    rw [hi, itemAt_setItem]
    rfl
  skipped photos row ix e h := by
    obtain ⟨ix₁, h₁, -⟩ := v.applied photos row ix
    cases h.symm.trans h₁
  settled batch ix := by rw [v.settled]

/-- The lists after a row. -/
def write (v : Listed c κ α) (index : Index (List α)) (row : c.Row) : Index (List α) :=
  setItem (c.stamp row) v.key (v.owner row) (v.item row) index

/-- A batch changes the lists row by row. -/
theorem lists_merge (v : Listed c κ α) (photos : Uuid → Photo) (batch : List c.Row)
    (ix : Indexes) :
    v.lists (ix.merge photos c batch).state = batch.foldl v.write (v.lists ix) := by
  have hrows : v.lists (Merge.rows c.stamp (applyRow photos c) batch ix).state =
      batch.foldl v.write (v.lists ix) := by
    refine Merge.view_rows (fun row ix ix' h => ?_) (fun row ix e h => ?_) batch ix
    · obtain ⟨ix₁, h₁, hlists⟩ := v.applied photos row ix
      obtain rfl := Except.ok.inj (h.symm.trans h₁)
      exact hlists
    · obtain ⟨ix₁, h₁, -⟩ := v.applied photos row ix
      cases h.symm.trans h₁
  exact (congrArg v.lists (v.settled batch _)).trans hrows

theorem tidy_writes (v : Listed c κ α) (batch : List c.Row) {index : Index (List α)}
    (h : Tidy v.key index) : Tidy v.key (batch.foldl v.write index) := by
  induction batch generalizing index with
  | nil => exact h
  | cons row batch ih => exact ih (h.setItem ..)

theorem tidy_merge (v : Listed c κ α) (photos : Uuid → Photo) (batch : List c.Row) {ix : Indexes}
    (h : Tidy v.key (v.lists ix)) : Tidy v.key (v.lists (ix.merge photos c batch).state) := by
  rw [lists_merge]
  exact v.tidy_writes batch h

end Listed

/-! ### The categories -/

def federationEntries : Keyed .federations Federation where
  index := Indexes.federations
  own := FederationRow.uuid
  entry row := ⟨row.uuid, row.name⟩
  index_empty := rfl
  applied _ _ _ := ⟨_, rfl, rfl⟩
  settled _ _ := rfl

def companyEntries : Keyed .companies Company where
  index := Indexes.companies
  own := CompanyRow.uuid
  entry row := ⟨row.uuid, row.name, row.federation⟩
  index_empty := rfl
  applied _ _ _ := ⟨_, rfl, rfl⟩
  settled _ _ := rfl

def tagEntries : Keyed .tags Tag where
  index := Indexes.tags
  own := TagRow.uuid
  entry row := ⟨row.uuid, row.name, row.color⟩
  index_empty := rfl
  applied _ _ _ := ⟨_, rfl, rfl⟩
  settled _ _ := rfl

def companyFieldLists : Listed .companyFields String CompanyField where
  lists := Indexes.companyFields
  key := CompanyField.hash
  owner := CompanyFieldRow.company
  item row := ⟨row.hash, row.name, row.dataType, row.projects⟩
  lists_empty := rfl
  applied _ _ _ := ⟨_, rfl, rfl⟩
  settled _ _ := rfl

def projectFieldLists : Listed .projectFields String ProjectField where
  lists := Indexes.projectFields
  key := ProjectField.hash
  owner := ProjectFieldRow.project
  item row := ⟨row.hash, row.name, row.dataType, row.requiredOnStatuses, row.style, row.project⟩
  lists_empty := rfl
  applied _ _ _ := ⟨_, rfl, rfl⟩
  settled _ _ := rfl

def catalogFieldLists : Listed .catalogFields String CatalogField where
  lists := Indexes.catalogFields
  key := CatalogField.hash
  owner := CatalogFieldRow.catalog
  item row := ⟨row.hash, row.name, row.dataType⟩
  lists_empty := rfl
  applied _ _ _ := ⟨_, rfl, rfl⟩
  settled _ _ := rfl

def companyPriorityLists : Listed .companyPriorities Uuid CompanyPriority where
  lists := Indexes.companyPriorities
  key := CompanyPriority.uuid
  owner := CompanyPriorityRow.company
  item row := ⟨row.uuid, row.name, row.number, row.color⟩
  lists_empty := rfl
  applied _ _ _ := ⟨_, rfl, rfl⟩
  settled _ _ := rfl

def userFederationLinks : Listed .userFederation Uuid Uuid where
  lists := Indexes.userFederations
  key := id
  owner := UserFederationRow.user
  item := UserFederationRow.federation
  lists_empty := rfl
  applied _ _ _ := ⟨_, rfl, setLink_eq_setItem _ _ _ _⟩
  settled _ _ := rfl

def userCompanyLinks : Listed .userCompany Uuid Uuid where
  lists := Indexes.userCompanies
  key := id
  owner := UserCompanyRow.user
  item := UserCompanyRow.company
  lists_empty := rfl
  applied _ _ _ := ⟨_, rfl, setLink_eq_setItem _ _ _ _⟩
  settled _ _ := rfl

end RefCache
