import RefCache.Cache
import RefCache.Search

/-! Queries. Each answers from one index and changes nothing. An index that holds nothing at all
has not been filled yet: that is logged, and nothing is found. -/

namespace RefCache

/-- An answer, and the events of giving it. -/
structure Answer (α : Type) where
  value : α
  events : List Event

namespace Cache

def notSynced (index op : String) : Event :=
  ⟨.error, index ++ " not synced", [("op", .text op), ("index", .text index)]⟩

/-- Answers from an index unless it is empty. -/
def consult {κ α β : Type} [Ord κ] (name op : String) (index : Std.ExtTreeMap κ α) (missing : β)
    (answer : Std.ExtTreeMap κ α → β) : Answer β :=
  if index.isEmpty then ⟨missing, [notSynced name op]⟩ else ⟨answer index, []⟩

def findUser (cache : Cache) (email : String) : Answer (Option User) :=
  consult "users" "find_user" cache.indexes.usersByEmail none (·[email]?)

def findUserByUuid (cache : Cache) (uuid : Uuid) : Answer (Option User) :=
  consult "users by uuid" "find_user_by_uuid" cache.indexes.usersByUuid none (·[uuid]?)

def findFederation (cache : Cache) (uuid : Uuid) : Answer (Option Federation) :=
  consult "federations" "find_federation" cache.indexes.federations none (·[uuid]?)

def findCompany (cache : Cache) (uuid : Uuid) : Answer (Option Company) :=
  consult "companies" "find_company" cache.indexes.companies none (·[uuid]?)

def findProject (cache : Cache) (uuid : Uuid) : Answer (Option Project) :=
  consult "projects" "find_project" cache.indexes.projects none (·[uuid]?)

def findTag (cache : Cache) (uuid : Uuid) : Answer (Option Tag) :=
  consult "tags" "find_tag" cache.indexes.tags none (·[uuid]?)

/-- Some user of the cache; `pick` chooses a place among them. -/
def someUser (cache : Cache) (pick : Nat) : Answer (Option User) :=
  consult "users" "get_random_user" cache.indexes.usersByEmail none fun users =>
    users.values[pick % users.size]?

def someCompany (cache : Cache) (pick : Nat) : Answer (Option Company) :=
  consult "companies" "get_random_company" cache.indexes.companies none fun companies =>
    companies.values[pick % companies.size]?

def findCompanyFields (cache : Cache) (company : Uuid) : Answer (Option (List CompanyField)) :=
  consult "company fields" "find_company_fields" cache.indexes.companyFields none (·[company]?)

def findProjectFields (cache : Cache) (project : Uuid) : Answer (Option (List ProjectField)) :=
  consult "project fields" "find_project_fields" cache.indexes.projectFields none (·[project]?)

def findCatalogFields (cache : Cache) (catalog : Uuid) : Answer (Option (List CatalogField)) :=
  consult "catalog fields" "find_catalog_fields" cache.indexes.catalogFields none (·[catalog]?)

/-- The first priority of the company with the number. -/
def findCompanyPriority (cache : Cache) (company : Uuid) (number : Int32) :
    Answer (Option CompanyPriority) :=
  consult "company priorities" "find_company_priority" cache.indexes.companyPriorities none
    fun index => index[company]?.bind fun list => list.find? (·.number == number)

def userCompanies (cache : Cache) (user : Uuid) : Answer (List Uuid) :=
  consult "user companies" "get_user_companies" cache.indexes.userCompanies [] fun index =>
    index[user]?.getD []

def userFederations (cache : Cache) (user : Uuid) : Answer (List Uuid) :=
  consult "user federations" "get_user_federations" cache.indexes.userFederations [] fun index =>
    index[user]?.getD []

def userMissing (email : String) : Event :=
  ⟨.warn, "User not found", [("op", .text "find_users"), ("email", .text email)]⟩

/-- Looks addresses up in order; empty ones and those in `seen` are passed over. -/
def lookUp (users : Std.ExtTreeMap String User) (seen : List String) :
    List String → Answer (List User)
  | [] => ⟨[], []⟩
  | email :: rest =>
    if email.isEmpty || seen.contains email then lookUp users seen rest
    else
      let later := lookUp users (email :: seen) rest
      match users[email]? with
      | some u => ⟨u :: later.value, later.events⟩
      | none => ⟨later.value, userMissing email :: later.events⟩

/-- The users found and their addresses, each once, in the order of the request. -/
def findUsers (cache : Cache) (emails : List String) : Answer (List User × List String) :=
  if cache.indexes.usersByEmail.isEmpty then ⟨([], []), [notSynced "users" "find_users"]⟩
  else
    let found := lookUp cache.indexes.usersByEmail [] emails
    ⟨(found.value, found.value.map (·.email)), found.events⟩

def searchLimit : Nat := 50

/-- The users of a federation that a text finds, best first. -/
def searchUsers (cache : Cache) (search : UserSearch) : List User :=
  match cache.indexes.federationUsers[search.federation]? with
  | some users => Search.rank users search.text searchLimit
  | none => []

end Cache

end RefCache
