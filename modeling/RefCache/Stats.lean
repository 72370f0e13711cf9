import RefCache.Cache

/-! Sizes of the indexes, for logs and exporters, with the marks and errors of the categories. -/

namespace RefCache

structure Stats where
  users : Nat
  usersByUuid : Nat
  federationUserLists : Nat
  federations : Nat
  companies : Nat
  projects : Nat
  tags : Nat
  /-- Companies with at least one field. -/
  companyFieldLists : Nat
  /-- Fields of all companies. -/
  companyFields : Nat
  projectFieldLists : Nat
  projectFields : Nat
  catalogFields : Nat
  /-- Users with at least one federation. -/
  userFederations : Nat
  /-- Users with at least one company. -/
  userCompanies : Nat
  companyPriorities : Nat
  marks : List (Category × Timestamp)
  lastErrors : List (Category × String)
  deriving DecidableEq, Repr

namespace Stats

def blank : Stats := ⟨0, 0, 0, 0, 0, 0, 0, 0, 0, 0, 0, 0, 0, 0, 0, [], []⟩

def total {α : Type} (index : Index (List α)) : Nat :=
  (index.toList.map fun entry => entry.2.length).foldr (· + ·) 0

def ofCache (cache : Cache) : Stats :=
  let ix := cache.indexes
  { users := ix.usersByEmail.size
    usersByUuid := ix.usersByUuid.size
    federationUserLists := ix.federationUsers.size
    federations := ix.federations.size
    companies := ix.companies.size
    projects := ix.projects.size
    tags := ix.tags.size
    companyFieldLists := ix.companyFields.size
    companyFields := total ix.companyFields
    projectFieldLists := ix.projectFields.size
    projectFields := total ix.projectFields
    catalogFields := total ix.catalogFields
    userFederations := ix.userFederations.size
    userCompanies := ix.userCompanies.size
    companyPriorities := total ix.companyPriorities
    marks := Category.all.map fun c => (c, cache.mark c)
    lastErrors := cache.lastErrors.toList }

/-- Sizes under stable labels, in a stable order. -/
def gauges (s : Stats) : List (String × Nat) :=
  [("users", s.users),
   ("users_by_uuid", s.usersByUuid),
   ("federation_user_lists", s.federationUserLists),
   ("federations", s.federations),
   ("companies", s.companies),
   ("projects", s.projects),
   ("tags", s.tags),
   ("company_field_lists", s.companyFieldLists),
   ("company_fields", s.companyFields),
   ("project_field_lists", s.projectFieldLists),
   ("project_fields", s.projectFields),
   ("catalog_fields", s.catalogFields),
   ("user_federations", s.userFederations),
   ("user_companies", s.userCompanies),
   ("company_priorities", s.companyPriorities)]

/-- The statistics as an object; `showMark` writes a mark. -/
def json (showMark : Timestamp → String) (s : Stats) : Json :=
  .object (s.gauges.map (fun g => (g.1, .count g.2)) ++ [
    ("high_water", .object (s.marks.map fun m => (m.1.name, .text (showMark m.2)))),
    ("last_errors", .object (s.lastErrors.map fun e => (e.1.name, .text e.2)))])

def gaugeEvent (s : Stats) : Event :=
  ⟨.debug, "Dictionary gauges",
    [("users", .count s.users), ("federations", .count s.federations),
     ("companies", .count s.companies), ("projects", .count s.projects), ("tags", .count s.tags),
     ("failing_categories", .count s.lastErrors.length)]⟩

/-- All sizes but that of the users' federation lists. -/
def itemsEvent (s : Stats) : Event :=
  ⟨.info, "Dictionary items",
    ("op", .text "info") ::
      ((s.gauges.filter (·.1 != "federation_user_lists")).map fun g => (g.1, .count g.2))⟩

def marksText (showMark : Timestamp → String) (s : Stats) : String :=
  ",".intercalate (s.marks.map fun m => m.1.name ++ "=" ++ showMark m.2)

def marksEvent (showMark : Timestamp → String) (s : Stats) : Event :=
  ⟨.info, "Last updated_at per category",
    [("op", .text "info"), ("high_water", .text (s.marksText showMark))]⟩

end Stats

namespace Cache

def stats (cache : Cache) : Stats := .ofCache cache

/-- How a mark is shown: the one that a category starts with has a name instead of a date. -/
def showMark (cache : Cache) (write : Timestamp → String) (t : Timestamp) : String :=
  if t = cache.coldStart then "cold_start" else write t

/-- The marks and the sizes of the indexes, as events. -/
def info (cache : Cache) : List Event :=
  [cache.stats.marksEvent (cache.showMark Timestamp.offsetText), cache.stats.itemsEvent]

end Cache

end RefCache
