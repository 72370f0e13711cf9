import RefCache.Database.RawRow
import RefCache.Row

/-! For every category, the query that selects the rows changed at or after a moment, and how its
rows are read. Deleted rows are selected too. Fields are read in a fixed order, so that the first
one that cannot be read is the one reported. -/

namespace RefCache

namespace Category

/-- The table that the query reads first. -/
def table : Category → String
  | .users => "users"
  | .federations => "federations"
  | .companies => "companies"
  | .projects => "projects"
  | .tags => "company_tags"
  | .companyFields => "company_fields"
  | .projectFields => "project_fields"
  | .catalogFields => "catalog_fields"
  | .userFederation => "federation_users"
  | .userCompany => "company_users"
  | .companyPriorities => "company_priorities"

/-- A query of one table for some columns and the two stamps. -/
def select (columns : List String) (table : String) : String :=
  "SELECT " ++ ", ".intercalate (columns ++ ["updated_at", "deleted_at"]) ++ " FROM " ++ table
    ++ " WHERE updated_at >= $1 ORDER BY updated_at"

/-- Users with one row for each membership; a change of the membership alone counts as well. -/
def usersStatement : String :=
  " ".intercalate [
    "SELECT u.uuid, u.name, u.lname, u.pname, u.email, u.phone::BIGINT AS phone, u.has_photo,",
    "fu.federation_uuid AS federation_uuid,",
    "GREATEST(u.updated_at, COALESCE(fu.updated_at, u.updated_at)) AS updated_at,",
    "u.deleted_at, fu.deleted_at AS membership_deleted_at",
    "FROM users u LEFT JOIN federation_users fu ON fu.user_uuid = u.uuid",
    "WHERE u.updated_at >= $1 OR fu.updated_at >= $1 ORDER BY updated_at"]

/-- Company fields with the projects they are attached to; a change of an attachment counts. -/
def companyFieldsStatement : String :=
  " ".intercalate [
    "SELECT cf.uuid, cf.company_uuid, cf.hash, cf.name, cf.data_type,",
    "COALESCE( json_agg(pf.project_uuid)",
    "FILTER (WHERE pf.project_uuid IS NOT NULL AND pf.deleted_at IS NULL), '[]'::JSON )",
    "AS projects_uuid,",
    "GREATEST(cf.updated_at, COALESCE(MAX(pf.updated_at), cf.updated_at)) AS updated_at,",
    "cf.deleted_at",
    "FROM company_fields cf LEFT JOIN project_fields pf ON pf.company_field_uuid = cf.uuid",
    "WHERE cf.updated_at >= $1 OR EXISTS ( SELECT 1 FROM project_fields changed",
    "WHERE changed.company_field_uuid = cf.uuid AND changed.updated_at >= $1 )",
    "GROUP BY cf.uuid ORDER BY updated_at"]

/-- Attachments of company fields to projects, which take most of their columns from the field. -/
def projectFieldsStatement : String :=
  " ".intercalate [
    "SELECT pf.uuid, pf.project_uuid, pf.company_uuid, cf.hash, cf.name, cf.data_type,",
    "COALESCE(cf.style, '') AS style,",
    "COALESCE(pf.required_on_statuses, '[]'::JSONB) AS required_on_statuses,",
    "GREATEST(pf.updated_at, cf.updated_at) AS updated_at,",
    "COALESCE(pf.deleted_at, cf.deleted_at) AS deleted_at",
    "FROM project_fields pf JOIN company_fields cf ON pf.company_field_uuid = cf.uuid",
    "WHERE pf.updated_at >= $1 OR cf.updated_at >= $1 ORDER BY updated_at"]

def statement (c : Category) : String :=
  match c with
  | .users => usersStatement
  | .federations => select ["uuid", "name"] c.table
  | .companies => select ["uuid", "name", "federation_uuid"] c.table
  | .projects =>
    select ["uuid", "name", "company_uuid", "federation_uuid",
      "COALESCE(status_graph::TEXT, '') AS status_graph",
      "COALESCE(options::TEXT, 'null') AS options"] c.table
  | .tags => select ["uuid", "name", "color"] c.table
  | .companyFields => companyFieldsStatement
  | .projectFields => projectFieldsStatement
  | .catalogFields => select ["uuid", "catalog_uuid", "hash", "name", "data_type"] c.table
  | .userFederation => select ["user_uuid", "federation_uuid"] c.table
  | .userCompany => select ["user_uuid", "company_uuid"] c.table
  | .companyPriorities => select ["uuid", "company_uuid", "name", "number", "color"] c.table

end Category

namespace RawRow

def stamped (row : RawRow) : Except DatabaseFault Stamped := do
  let updatedAt ← row.required "updated_at" .timestamp
  let deletedAt ← row.optional "deleted_at" .timestamp
  return { updatedAt, deletedAt }

def user (row : RawRow) : Except DatabaseFault UserRow := do
  let uuid ← row.uuid "uuid"
  let name ← row.text "name"
  let lastName ← row.text "lname"
  let patronymic ← row.text "pname"
  let email ← row.text "email"
  let phone ← row.required "phone" .int64
  let hasPhoto ← row.required "has_photo" .bool
  let federation ← row.optional "federation_uuid" .uuid
  let toStamped ← row.stamped
  let membershipDeletedAt ← row.optional "membership_deleted_at" .timestamp
  return {
    toStamped, uuid, name, lastName, patronymic, email, phone, hasPhoto, federation,
    membershipDeletedAt }

def federation (row : RawRow) : Except DatabaseFault FederationRow := do
  let uuid ← row.uuid "uuid"
  let name ← row.text "name"
  let toStamped ← row.stamped
  return { toStamped, uuid, name }

def company (row : RawRow) : Except DatabaseFault CompanyRow := do
  let uuid ← row.uuid "uuid"
  let name ← row.text "name"
  let federation ← row.uuid "federation_uuid"
  let toStamped ← row.stamped
  return { toStamped, uuid, name, federation }

def project (row : RawRow) : Except DatabaseFault ProjectRow := do
  let uuid ← row.uuid "uuid"
  let name ← row.text "name"
  let company ← row.uuid "company_uuid"
  let federation ← row.uuid "federation_uuid"
  let statusGraph ← row.text "status_graph"
  let options ← row.text "options"
  let toStamped ← row.stamped
  return { toStamped, uuid, name, company, federation, statusGraph, options }

def tag (row : RawRow) : Except DatabaseFault TagRow := do
  let uuid ← row.uuid "uuid"
  let name ← row.text "name"
  let color ← row.text "color"
  let toStamped ← row.stamped
  return { toStamped, uuid, name, color }

def companyField (row : RawRow) : Except DatabaseFault CompanyFieldRow := do
  let uuid ← row.uuid "uuid"
  let company ← row.uuid "company_uuid"
  let hash ← row.text "hash"
  let name ← row.text "name"
  let dataType ← row.int32 "data_type"
  let projects ← row.required "projects_uuid" (.list Uuid)
  let toStamped ← row.stamped
  return { toStamped, uuid, company, hash, name, dataType, projects }

def projectField (row : RawRow) : Except DatabaseFault ProjectFieldRow := do
  let uuid ← row.uuid "uuid"
  let project ← row.uuid "project_uuid"
  let company ← row.uuid "company_uuid"
  let hash ← row.text "hash"
  let name ← row.text "name"
  let dataType ← row.int32 "data_type"
  let style ← row.text "style"
  let requiredOnStatuses ← row.required "required_on_statuses" (.list Int32)
  let toStamped ← row.stamped
  return { toStamped, uuid, project, company, hash, name, dataType, style, requiredOnStatuses }

def catalogField (row : RawRow) : Except DatabaseFault CatalogFieldRow := do
  let uuid ← row.uuid "uuid"
  let catalog ← row.uuid "catalog_uuid"
  let hash ← row.text "hash"
  let name ← row.text "name"
  let dataType ← row.int32 "data_type"
  let toStamped ← row.stamped
  return { toStamped, uuid, catalog, hash, name, dataType }

def userFederation (row : RawRow) : Except DatabaseFault UserFederationRow := do
  let user ← row.uuid "user_uuid"
  let federation ← row.uuid "federation_uuid"
  let toStamped ← row.stamped
  return { toStamped, user, federation }

def userCompany (row : RawRow) : Except DatabaseFault UserCompanyRow := do
  let user ← row.uuid "user_uuid"
  let company ← row.uuid "company_uuid"
  let toStamped ← row.stamped
  return { toStamped, user, company }

def companyPriority (row : RawRow) : Except DatabaseFault CompanyPriorityRow := do
  let uuid ← row.uuid "uuid"
  let company ← row.uuid "company_uuid"
  let name ← row.text "name"
  let number ← row.int32 "number"
  let color ← row.text "color"
  let toStamped ← row.stamped
  return { toStamped, uuid, company, name, number, color }

/-- The row as one of a category. -/
def decode (row : RawRow) : (c : Category) → Except DatabaseFault c.Row
  | .users => row.user
  | .federations => row.federation
  | .companies => row.company
  | .projects => row.project
  | .tags => row.tag
  | .companyFields => row.companyField
  | .projectFields => row.projectField
  | .catalogFields => row.catalogField
  | .userFederation => row.userFederation
  | .userCompany => row.userCompany
  | .companyPriorities => row.companyPriority

end RawRow

end RefCache
