import RefCache.Indexes.Basic
import Std.Data.ExtTreeSet

/-! Users come as one row per membership and live in three indexes at once: by e-mail address, by
identifier, and in the list of each federation they belong to. A row of a dropped membership takes
the user off that federation's list alone; a row of a deleted user takes it out of everything. -/

namespace RefCache.Indexes

/-- The federation with the lowest identifier, other than `except`, that lists the user. -/
def remainingFederation (ix : Indexes) (user : Uuid) (except : Option Uuid) : Option Uuid :=
  (ix.federationUsers.toList.find? fun entry =>
    some entry.1 != except && entry.2.any (·.uuid == user)).map (·.1)

/-- The federation that the user's own record shows after the row: that of a live membership, else
the one it showed before unless that one is dropped, else another one that lists the user. -/
def shownFederation (ix : Indexes) (row : UserRow) : Option Uuid :=
  match row.liveFederation with
  | some f => some f
  | none =>
    match (ix.usersByUuid[row.uuid]?.bind (·.federation)).filter (some · != row.federation) with
    | some f => some f
    | none => ix.remainingFederation row.uuid row.federation

/-- Forgets an address if it leads to this user. -/
def forgetEmail (ix : Indexes) (user : Uuid) (email : String) : Indexes :=
  if ix.usersByEmail[email]?.map (·.uuid) = some user then
    { ix with usersByEmail := ix.usersByEmail.erase email }
  else ix

/-- Forgets the address the user had before the row, if it is another one. -/
def forgetStaleEmail (ix : Indexes) (row : UserRow) : Indexes :=
  match ix.usersByUuid[row.uuid]? with
  | some u => if u.email = row.email then ix else ix.forgetEmail row.uuid u.email
  | none => ix

def userRecord (photos : Uuid → Photo) (row : UserRow) (federation : Option Uuid) : User where
  uuid := row.uuid
  name := row.name
  lastName := row.lastName
  patronymic := row.patronymic
  email := row.email
  phone := row.phone
  hasPhoto := row.hasPhoto
  federation := federation
  photo := photos row.uuid

/-- Puts the user on the list of a live membership, or takes it off that of a dropped one. -/
def placeUser (photos : Uuid → Photo) (row : UserRow) (lists : Index (List User)) :
    Index (List User) :=
  match row.liveFederation, row.federation with
  | some f, _ => putIn (·.uuid) f (userRecord photos row (some f)) lists
  | none, some dropped => dropFrom dropped (fun u : User => u.uuid == row.uuid) lists
  | none, none => lists

def storeUser (u : User) (ix : Indexes) : Indexes :=
  { ix with
    usersByEmail := ix.usersByEmail.insert u.email u
    usersByUuid := ix.usersByUuid.insert u.uuid u }

def removeUser (user : Uuid) (email : String) (ix : Indexes) : Indexes :=
  let known := match ix.usersByUuid[user]? with
    | some u => { ix with usersByUuid := ix.usersByUuid.erase user }.forgetEmail user u.email
    | none => ix
  let bare := known.forgetEmail user email
  { bare with
    federationUsers := bare.federationUsers.filterMap fun _ list =>
      kept (list.filter fun u => u.uuid != user) }

def applyUser (photos : Uuid → Photo) (row : UserRow) (ix : Indexes) : Indexes :=
  if row.isDeleted then ix.removeUser row.uuid row.email
  else
    let u := userRecord photos row (ix.shownFederation row)
    let bare := ix.forgetStaleEmail row
    storeUser u { bare with federationUsers := placeUser photos row bare.federationUsers }

/-- The federation whose list the row adds to or changes. -/
def touchedBy (row : UserRow) : Option Uuid := if row.isDeleted then none else row.liveFederation

def lastNameDown (a b : User) : Bool := decide (b.lastName ≤ a.lastName)

/-- Sorts the lists of the federations named; users with one last name keep their order. -/
def sortLists (touched : Std.ExtTreeSet Uuid) (ix : Indexes) : Indexes :=
  { ix with
    federationUsers := ix.federationUsers.map fun f list =>
      if f ∈ touched then list.mergeSort lastNameDown else list }

end RefCache.Indexes
