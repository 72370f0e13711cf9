import RefCache.Category
import RefCache.Timestamp
import RefCache.Uuid

/-! Rows of the authoritative store, one type per category. A row tells when it changed last and
whether it is deleted; deleted rows stay in the store. -/

namespace RefCache

structure Stamped where
  updatedAt : Timestamp
  deletedAt : Option Timestamp
  deriving DecidableEq, Repr, Inhabited

def Stamped.isDeleted (s : Stamped) : Bool := s.deletedAt.isSome

/-- A user joined with one of its federation memberships, or with none. -/
structure UserRow extends Stamped where
  uuid : Uuid
  name : String
  lastName : String
  patronymic : String
  email : String
  phone : Int64
  hasPhoto : Bool
  federation : Option Uuid
  membershipDeletedAt : Option Timestamp
  deriving DecidableEq, Repr, Inhabited

/-- The federation the row places the user in, if the membership is live. -/
def UserRow.liveFederation (row : UserRow) : Option Uuid :=
  if row.membershipDeletedAt.isSome then none else row.federation

structure FederationRow extends Stamped where
  uuid : Uuid
  name : String
  deriving DecidableEq, Repr, Inhabited

structure CompanyRow extends Stamped where
  uuid : Uuid
  name : String
  federation : Uuid
  deriving DecidableEq, Repr, Inhabited

/-- A project; its graph and options are payloads that are decoded when the row is merged. -/
structure ProjectRow extends Stamped where
  uuid : Uuid
  name : String
  company : Uuid
  federation : Uuid
  statusGraph : String
  options : String
  deriving DecidableEq, Repr, Inhabited

structure TagRow extends Stamped where
  uuid : Uuid
  name : String
  color : String
  deriving DecidableEq, Repr, Inhabited

structure CompanyFieldRow extends Stamped where
  uuid : Uuid
  company : Uuid
  hash : String
  name : String
  dataType : Int32
  projects : List Uuid
  deriving DecidableEq, Repr, Inhabited

structure ProjectFieldRow extends Stamped where
  uuid : Uuid
  project : Uuid
  company : Uuid
  hash : String
  name : String
  dataType : Int32
  style : String
  requiredOnStatuses : List Int32
  deriving DecidableEq, Repr, Inhabited

structure CatalogFieldRow extends Stamped where
  uuid : Uuid
  catalog : Uuid
  hash : String
  name : String
  dataType : Int32
  deriving DecidableEq, Repr, Inhabited

structure UserFederationRow extends Stamped where
  user : Uuid
  federation : Uuid
  deriving DecidableEq, Repr, Inhabited

structure UserCompanyRow extends Stamped where
  user : Uuid
  company : Uuid
  deriving DecidableEq, Repr, Inhabited

structure CompanyPriorityRow extends Stamped where
  uuid : Uuid
  company : Uuid
  name : String
  number : Int32
  color : String
  deriving DecidableEq, Repr, Inhabited

namespace Category

abbrev Row : Category → Type
  | .users => UserRow
  | .federations => FederationRow
  | .companies => CompanyRow
  | .projects => ProjectRow
  | .tags => TagRow
  | .companyFields => CompanyFieldRow
  | .projectFields => ProjectFieldRow
  | .catalogFields => CatalogFieldRow
  | .userFederation => UserFederationRow
  | .userCompany => UserCompanyRow
  | .companyPriorities => CompanyPriorityRow

def stamp : (c : Category) → c.Row → Stamped
  | .users, row => row.toStamped
  | .federations, row => row.toStamped
  | .companies, row => row.toStamped
  | .projects, row => row.toStamped
  | .tags, row => row.toStamped
  | .companyFields, row => row.toStamped
  | .projectFields, row => row.toStamped
  | .catalogFields, row => row.toStamped
  | .userFederation, row => row.toStamped
  | .userCompany, row => row.toStamped
  | .companyPriorities, row => row.toStamped

end Category

end RefCache
