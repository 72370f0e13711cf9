import RefCache.Category
import RefCache.StatusGraph

/-! The records that queries hand out, and their JSON form. -/

namespace RefCache

structure Photo where
  small : String
  medium : String
  large : String
  deriving DecidableEq, Repr, Inhabited

/-- A user; `federation` is that of the membership the record was taken from. -/
structure User where
  uuid : Uuid
  name : String
  lastName : String
  patronymic : String
  email : String
  phone : Int64
  hasPhoto : Bool
  federation : Option Uuid
  photo : Photo
  deriving DecidableEq, Repr, Inhabited

structure Federation where
  uuid : Uuid
  name : String
  deriving DecidableEq, Repr

structure Company where
  uuid : Uuid
  name : String
  federation : Uuid
  deriving DecidableEq, Repr

structure Project where
  uuid : Uuid
  name : String
  company : Uuid
  federation : Uuid
  statusGraph : StatusGraph
  options : ProjectOptions
  deriving DecidableEq

structure Tag where
  uuid : Uuid
  name : String
  color : String
  deriving DecidableEq, Repr

structure CompanyField where
  hash : String
  name : String
  dataType : Int32
  projects : List Uuid
  deriving DecidableEq, Repr

structure ProjectField where
  hash : String
  name : String
  dataType : Int32
  requiredOnStatuses : List Int32
  style : String
  project : Uuid
  deriving DecidableEq, Repr

structure CatalogField where
  hash : String
  name : String
  dataType : Int32
  deriving DecidableEq, Repr

structure CompanyPriority where
  uuid : Uuid
  name : String
  number : Int32
  color : String
  deriving DecidableEq, Repr

/-- A search for users of one federation. -/
structure UserSearch where
  federation : Uuid
  text : String
  deriving DecidableEq, Repr

open Json (readSlots fieldOf optionalField)

instance : Wire Category where
  encode c := .text c.name
  reader := Json.readVariant Category.ofName?

instance : Wire Photo where
  encode p := .object [
    ("small", .text p.small), ("medium", .text p.medium), ("large", .text p.large)]
  reader t := do
    let found ← readSlots
      [Wire.field "small" String, Wire.field "medium" String, Wire.field "large" String] t
    .ok {
      small := ← fieldOf found "small" Wire.reader
      medium := ← fieldOf found "medium" Wire.reader
      large := ← fieldOf found "large" Wire.reader }

namespace User

def slots : List Json.Slot :=
  [Wire.field "uuid" Uuid, Wire.field "name" String, Wire.field "lname" String,
   Wire.field "pname" String, Wire.field "email" String, Wire.field "phone" Int64,
   Wire.field "has_photo" Bool,
   { Wire.field "federation_uuid" (Option Uuid) with need := .inArray },
   Wire.field "photo" Photo]

/-- The members without the photo. -/
def plainMembers (u : User) : List (String × Json) :=
  [("uuid", Wire.encode u.uuid), ("name", .text u.name), ("lname", .text u.lastName),
   ("pname", .text u.patronymic), ("email", .text u.email), ("phone", Wire.encode u.phone),
   ("has_photo", .bool u.hasPhoto)]
  ++ u.federation.toList.map fun f => ("federation_uuid", Wire.encode f)

instance : Wire User where
  encode u := .object (u.plainMembers ++ [("photo", Wire.encode u.photo)])
  reader t := do
    let found ← readSlots slots t
    .ok {
      uuid := ← fieldOf found "uuid" Wire.reader
      name := ← fieldOf found "name" Wire.reader
      lastName := ← fieldOf found "lname" Wire.reader
      patronymic := ← fieldOf found "pname" Wire.reader
      email := ← fieldOf found "email" Wire.reader
      phone := ← fieldOf found "phone" Wire.reader
      hasPhoto := ← fieldOf found "has_photo" Wire.reader
      federation := ← optionalField found "federation_uuid" Wire.reader
      photo := ← fieldOf found "photo" Wire.reader }

end User

instance : Wire Federation where
  encode f := .object [("uuid", Wire.encode f.uuid), ("name", .text f.name)]
  reader t := do
    let found ← readSlots [Wire.field "uuid" Uuid, Wire.field "name" String] t
    .ok { uuid := ← fieldOf found "uuid" Wire.reader, name := ← fieldOf found "name" Wire.reader }

instance : Wire Company where
  encode c := .object [
    ("uuid", Wire.encode c.uuid), ("name", .text c.name),
    ("federation_uuid", Wire.encode c.federation)]
  reader t := do
    let found ← readSlots
      [Wire.field "uuid" Uuid, Wire.field "name" String, Wire.field "federation_uuid" Uuid] t
    .ok {
      uuid := ← fieldOf found "uuid" Wire.reader
      name := ← fieldOf found "name" Wire.reader
      federation := ← fieldOf found "federation_uuid" Wire.reader }

def Project.slots : List Json.Slot :=
  [Wire.field "uuid" Uuid, Wire.field "name" String, Wire.field "company_uuid" Uuid,
   Wire.field "federation_uuid" Uuid, Wire.field "status_graph" StatusGraph,
   Wire.field "options" ProjectOptions]

instance : Wire Project where
  encode p := .object [
    ("uuid", Wire.encode p.uuid), ("name", .text p.name), ("company_uuid", Wire.encode p.company),
    ("federation_uuid", Wire.encode p.federation), ("status_graph", Wire.encode p.statusGraph),
    ("options", Wire.encode p.options)]
  reader t := do
    let found ← readSlots Project.slots t
    .ok {
      uuid := ← fieldOf found "uuid" Wire.reader
      name := ← fieldOf found "name" Wire.reader
      company := ← fieldOf found "company_uuid" Wire.reader
      federation := ← fieldOf found "federation_uuid" Wire.reader
      statusGraph := ← fieldOf found "status_graph" Wire.reader
      options := ← fieldOf found "options" Wire.reader }

instance : Wire Tag where
  encode t := .object [
    ("uuid", Wire.encode t.uuid), ("name", .text t.name), ("color", .text t.color)]
  reader t := do
    let found ← readSlots
      [Wire.field "uuid" Uuid, Wire.field "name" String, Wire.field "color" String] t
    .ok {
      uuid := ← fieldOf found "uuid" Wire.reader
      name := ← fieldOf found "name" Wire.reader
      color := ← fieldOf found "color" Wire.reader }

instance : Wire CompanyField where
  encode f := .object [
    ("hash", .text f.hash), ("name", .text f.name), ("data_type", Wire.encode f.dataType),
    ("project_uuids", Wire.encode f.projects)]
  reader t := do
    let found ← readSlots
      [Wire.field "hash" String, Wire.field "name" String, Wire.field "data_type" Int32,
       Wire.field "project_uuids" (List Uuid)] t
    .ok {
      hash := ← fieldOf found "hash" Wire.reader
      name := ← fieldOf found "name" Wire.reader
      dataType := ← fieldOf found "data_type" Wire.reader
      projects := ← fieldOf found "project_uuids" Wire.reader }

instance : Wire ProjectField where
  encode f := .object [
    ("hash", .text f.hash), ("name", .text f.name), ("data_type", Wire.encode f.dataType),
    ("required_on_statuses", Wire.encode f.requiredOnStatuses), ("style", .text f.style),
    ("project_uuid", Wire.encode f.project)]
  reader t := do
    let found ← readSlots
      [Wire.field "hash" String, Wire.field "name" String, Wire.field "data_type" Int32,
       Wire.field "required_on_statuses" (List Int32), Wire.field "style" String,
       Wire.field "project_uuid" Uuid] t
    .ok {
      hash := ← fieldOf found "hash" Wire.reader
      name := ← fieldOf found "name" Wire.reader
      dataType := ← fieldOf found "data_type" Wire.reader
      requiredOnStatuses := ← fieldOf found "required_on_statuses" Wire.reader
      style := ← fieldOf found "style" Wire.reader
      project := ← fieldOf found "project_uuid" Wire.reader }

instance : Wire CatalogField where
  encode f := .object [
    ("hash", .text f.hash), ("name", .text f.name), ("data_type", Wire.encode f.dataType)]
  reader t := do
    let found ← readSlots
      [Wire.field "hash" String, Wire.field "name" String, Wire.field "data_type" Int32] t
    .ok {
      hash := ← fieldOf found "hash" Wire.reader
      name := ← fieldOf found "name" Wire.reader
      dataType := ← fieldOf found "data_type" Wire.reader }

instance : Wire CompanyPriority where
  encode p := .object [
    ("uuid", Wire.encode p.uuid), ("name", .text p.name), ("priority", Wire.encode p.number),
    ("color", .text p.color)]
  reader t := do
    let found ← readSlots
      [Wire.field "uuid" Uuid, Wire.field "name" String, Wire.field "priority" Int32,
       Wire.field "color" String] t
    .ok {
      uuid := ← fieldOf found "uuid" Wire.reader
      name := ← fieldOf found "name" Wire.reader
      number := ← fieldOf found "priority" Wire.reader
      color := ← fieldOf found "color" Wire.reader }

instance : Wire UserSearch where
  encode s := .object [("federation_uuid", Wire.encode s.federation), ("search", .text s.text)]
  reader t := do
    let found ← readSlots [Wire.field "federation_uuid" Uuid, Wire.field "search" String] t
    .ok {
      federation := ← fieldOf found "federation_uuid" Wire.reader
      text := ← fieldOf found "search" Wire.reader }

end RefCache
