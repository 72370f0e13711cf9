import RefCache.Indexes.Users

/-! Merging a batch of rows, one after the other. A row whose payload cannot be decoded is passed
over: it changes nothing, and its stamp does not count. -/

namespace RefCache

structure MergeOutcome where
  applied : Nat
  skipped : Nat
  /-- The latest stamp among the rows applied. -/
  latest : Option Timestamp
  deriving DecidableEq, Repr

/-- A merge under way: the state so far, what was applied, and why rows were passed over. -/
structure Merge (σ : Type) where
  state : σ
  applied : Nat
  latest : Option Timestamp
  skipped : List Error

namespace Merge

variable {σ ρ : Type}

def start (s : σ) : Merge σ := ⟨s, 0, none, []⟩

def later (latest : Option Timestamp) (t : Timestamp) : Option Timestamp :=
  match latest with
  | none => some t
  | some l => some (max l t)

def step (stamp : ρ → Stamped) (apply : ρ → σ → Except Error σ) (m : Merge σ) (row : ρ) : Merge σ :=
  match apply row m.state with
  | .ok s => ⟨s, m.applied + 1, later m.latest (stamp row).updatedAt, m.skipped⟩
  | .error e => { m with skipped := m.skipped ++ [e] }

def rows (stamp : ρ → Stamped) (apply : ρ → σ → Except Error σ) (batch : List ρ) (s : σ) :
    Merge σ :=
  batch.foldl (step stamp apply) (start s)

def outcome (m : Merge σ) : MergeOutcome := ⟨m.applied, m.skipped.length, m.latest⟩

def mapState {τ : Type} (f : σ → τ) (m : Merge σ) : Merge τ :=
  ⟨f m.state, m.applied, m.latest, m.skipped⟩

end Merge

namespace Indexes

/-- What a row sets an entry to: nothing if it is deleted. -/
def setEntry {α : Type} (row : Stamped) (key : Uuid) (entry : α) (index : Index α) : Index α :=
  if row.isDeleted then index.erase key else index.insert key entry

def setItem {α κ : Type} [DecidableEq κ] (row : Stamped) (key : α → κ) (owner : Uuid) (item : α)
    (index : Index (List α)) : Index (List α) :=
  if row.isDeleted then dropFrom owner (fun a => key a == key item) index
  else putIn key owner item index

def setLink (row : Stamped) (owner target : Uuid) (index : Index (List Uuid)) :
    Index (List Uuid) :=
  if row.isDeleted then dropFrom owner (· == target) index else link owner target index

/-- Names the row, the payload and the reason that the decoder gives. -/
def undecodable (row : ProjectRow) (payload : String) (fault : Fault) : Error :=
  .decode .projects ("project " ++ row.uuid.text ++ " " ++ payload ++ ": " ++ fault.name)

/-- Deletion comes first: a deleted project's payloads are not looked at. -/
def applyProject (row : ProjectRow) (ix : Indexes) : Except Error Indexes :=
  if row.isDeleted then .ok { ix with projects := ix.projects.erase row.uuid }
  else
    match StatusGraph.ofPayload row.statusGraph with
    | .error fault => .error (undecodable row "status_graph" fault)
    | .ok graph =>
      match ProjectOptions.ofPayload row.options with
      | .error fault => .error (undecodable row "options" fault)
      | .ok options =>
        let project : Project := ⟨row.uuid, row.name, row.company, row.federation, graph, options⟩
        .ok { ix with projects := ix.projects.insert row.uuid project }

/-- One row of any category but users, which are merged with the lists they touch. -/
def applyRow (photos : Uuid → Photo) : (c : Category) → c.Row → Indexes → Except Error Indexes
  | .users, row, ix => .ok (applyUser photos row ix)
  | .federations, row, ix =>
    .ok { ix with
      federations := setEntry row.toStamped row.uuid ⟨row.uuid, row.name⟩ ix.federations }
  | .companies, row, ix =>
    .ok { ix with
      companies :=
        setEntry row.toStamped row.uuid ⟨row.uuid, row.name, row.federation⟩ ix.companies }
  | .projects, row, ix => applyProject row ix
  | .tags, row, ix =>
    .ok { ix with tags := setEntry row.toStamped row.uuid ⟨row.uuid, row.name, row.color⟩ ix.tags }
  | .companyFields, row, ix =>
    .ok { ix with
      companyFields := setItem row.toStamped CompanyField.hash row.company
        ⟨row.hash, row.name, row.dataType, row.projects⟩ ix.companyFields }
  | .projectFields, row, ix =>
    .ok { ix with
      projectFields := setItem row.toStamped ProjectField.hash row.project
        ⟨row.hash, row.name, row.dataType, row.requiredOnStatuses, row.style, row.project⟩
        ix.projectFields }
  | .catalogFields, row, ix =>
    .ok { ix with
      catalogFields := setItem row.toStamped CatalogField.hash row.catalog
        ⟨row.hash, row.name, row.dataType⟩ ix.catalogFields }
  | .userFederation, row, ix =>
    .ok { ix with
      userFederations := setLink row.toStamped row.user row.federation ix.userFederations }
  | .userCompany, row, ix =>
    .ok { ix with userCompanies := setLink row.toStamped row.user row.company ix.userCompanies }
  | .companyPriorities, row, ix =>
    .ok { ix with
      companyPriorities := setItem row.toStamped CompanyPriority.uuid row.company
        ⟨row.uuid, row.name, row.number, row.color⟩ ix.companyPriorities }

def touched (rows : List UserRow) : Std.ExtTreeSet Uuid :=
  rows.foldl (fun fs row => match touchedBy row with
    | some f => fs.insert f
    | none => fs) ∅

/-- After a batch of users the lists it touched are put in order. -/
def settle : (c : Category) → List c.Row → Indexes → Indexes
  | .users, batch, ix => ix.sortLists (touched batch)
  | _, _, ix => ix

def merge (photos : Uuid → Photo) (c : Category) (batch : List c.Row) (ix : Indexes) :
    Merge Indexes :=
  (Merge.rows c.stamp (applyRow photos c) batch ix).mapState (settle c batch)

end Indexes

end RefCache
