import RefCache.Error
import RefCache.Record
import RefCache.Row

/-! The indexes that answer queries, and the three shapes of change they know: a keyed entry, a
list of entries kept under an owner, and a set of links. A list is changed in place, grows at its
end, and is gone once it is empty. -/

namespace RefCache

abbrev Index (α : Type) := Std.ExtTreeMap Uuid α

structure Indexes where
  usersByEmail : Std.ExtTreeMap String User
  usersByUuid : Index User
  /-- The users of each federation, by last name from the highest down. -/
  federationUsers : Index (List User)
  federations : Index Federation
  companies : Index Company
  projects : Index Project
  tags : Index Tag
  companyFields : Index (List CompanyField)
  projectFields : Index (List ProjectField)
  catalogFields : Index (List CatalogField)
  userFederations : Index (List Uuid)
  userCompanies : Index (List Uuid)
  companyPriorities : Index (List CompanyPriority)
  deriving DecidableEq

namespace Indexes

def empty : Indexes := ⟨∅, ∅, ∅, ∅, ∅, ∅, ∅, ∅, ∅, ∅, ∅, ∅, ∅⟩

/-- Replaces the first entry with the item's key, or appends the item. -/
def upsertBy {α κ : Type} [DecidableEq κ] (key : α → κ) (item : α) : List α → List α
  | [] => [item]
  | a :: rest => if key a = key item then item :: rest else a :: upsertBy key item rest

theorem find?_upsertBy {α κ : Type} [DecidableEq κ] (key : α → κ) (item : α) (list : List α)
    (k : κ) :
    (upsertBy key item list).find? (key · == k) =
      if key item = k then some item else list.find? (key · == k) := by
  induction list with
  | nil => by_cases h : key item = k <;> simp [upsertBy, h]
  | cons a rest ih =>
    by_cases ha : key a = key item <;> by_cases hk : key item = k <;>
      simp_all [upsertBy, List.find?_cons]

theorem map_upsertBy {α κ : Type} [DecidableEq κ] (key : α → κ) (item : α) (list : List α) :
    (upsertBy key item list).map key =
      if key item ∈ list.map key then list.map key else list.map key ++ [key item] := by
  induction list with
  | nil => simp [upsertBy]
  | cons a rest ih =>
    by_cases ha : key a = key item
    · simp [upsertBy, ha]
    · have hb : ¬ key item = key a := fun h => ha h.symm
      by_cases hm : key item ∈ rest.map key <;> simp_all [upsertBy]

/-- A list as an owner has it: none if it is empty. -/
def kept {α : Type} (list : List α) : Option (List α) := if list.isEmpty then none else some list

def putIn {α κ : Type} [DecidableEq κ] (key : α → κ) (owner : Uuid) (item : α) (index : Index (List α)) :
    Index (List α) :=
  index.alter owner fun list => some (upsertBy key item (list.getD []))

def dropFrom {α : Type} (owner : Uuid) (gone : α → Bool) (index : Index (List α)) :
    Index (List α) :=
  index.alter owner fun list => list.bind fun l => kept (l.filter (!gone ·))

/-- Adds a link unless it is there. -/
def link (owner target : Uuid) (index : Index (List Uuid)) : Index (List Uuid) :=
  index.alter owner fun list =>
    let l := list.getD []
    some (if l.contains target then l else l ++ [target])

end Indexes

end RefCache
