import RefCache.Database.Fault
import RefCache.Json.Wire
import RefCache.Timestamp

/-! Rows as a database server sends them: cells under named and typed columns. A field is found by
its name; the type of the column has to fit it, and the cell has to hold a value of it. An instant
outside the years that timestamps reach is a panic, not an error. -/

namespace RefCache

inductive ColumnType where
  | uuid
  | text
  | varchar
  | json
  | jsonb
  | int8
  | int4
  | bool
  | timestamptz
  | timestamp
  | other
  deriving DecidableEq, Repr

structure Column where
  name : String
  type : ColumnType
  deriving DecidableEq, Repr

/-- A cell; instants are numbers of microseconds, and payloads are texts. -/
inductive Cell where
  | null
  | text (value : String)
  | int (value : Int)
  | bool (value : Bool)
  deriving DecidableEq, Repr

structure RawRow where
  fields : List (Column × Cell)
  deriving DecidableEq, Repr

structure ResultSet where
  columns : List Column
  cells : List (List Cell)
  deriving DecidableEq, Repr

def ResultSet.empty : ResultSet := ⟨[], []⟩

def ResultSet.rows (r : ResultSet) : List RawRow := r.cells.map fun cells => ⟨r.columns.zip cells⟩

/-- What a cell holds for a field: a value of its type, none, or one that is beyond all bounds. -/
inductive CellReading (α : Type) where
  | value (a : α)
  | misfit
  | panicked (payload : Payload)
  deriving DecidableEq, Repr

def CellReading.ofOption {α : Type} : Option α → CellReading α
  | some a => .value a
  | none => .misfit

/-- The types of column that fit a field, and how their cells are read. -/
structure FieldType (α : Type) where
  columns : List ColumnType
  read : Cell → CellReading α

namespace FieldType

def uuid : FieldType Uuid := ⟨[.uuid], fun | .text t => .ofOption (Uuid.ofText? t) | _ => .misfit⟩

def text : FieldType String := ⟨[.text, .varchar], fun | .text t => .value t | _ => .misfit⟩

def int64 : FieldType Int64 := ⟨[.int8], fun | .int i => .value (Int64.ofInt i) | _ => .misfit⟩

def int32 : FieldType Int32 := ⟨[.int4], fun | .int i => .value (Int32.ofInt i) | _ => .misfit⟩

def bool : FieldType Bool := ⟨[.bool], fun | .bool b => .value b | _ => .misfit⟩

def beyondCalendar : Payload := .text "`NaiveDateTime + TimeDelta` overflowed"

def instant (micros : Int) : CellReading Timestamp :=
  let t := Timestamp.ofMicros micros
  if t.Representable then .value t else .panicked beyondCalendar

def timestamp : FieldType Timestamp :=
  ⟨[.timestamptz], fun | .int i => instant i | _ => .misfit⟩

/-- A list as a JSON text. -/
def list (α : Type) [Wire α] : FieldType (List α) :=
  ⟨[.json, .jsonb], fun | .text t => .ofOption (Wire.ofText t).toOption | _ => .misfit⟩

end FieldType

namespace RawRow

/-- The field of a name. Of several columns with one name the last counts. -/
def field? (row : RawRow) (name : String) : Option (Column × Cell) :=
  row.fields.reverse.find? fun f => f.1.name == name

def required {α : Type} (row : RawRow) (name : String) (type : FieldType α) :
    Except DatabaseFault α :=
  match row.field? name with
  | none => .error (.failed (.columnNotFound name))
  | some (column, cell) =>
    match if column.type ∈ type.columns then type.read cell else .misfit with
    | .value a => .ok a
    | .misfit => .error (.failed (.columnUnreadable name))
    | .panicked p => .error (.panicked p)

/-- A field that may be null, whatever the type of its column. -/
def optional {α : Type} (row : RawRow) (name : String) (type : FieldType α) :
    Except DatabaseFault (Option α) :=
  match row.field? name with
  | some (_, .null) => .ok none
  | _ => (row.required name type).map some

def uuid (row : RawRow) (name : String) : Except DatabaseFault Uuid := row.required name .uuid

def text (row : RawRow) (name : String) : Except DatabaseFault String := row.required name .text

def int32 (row : RawRow) (name : String) : Except DatabaseFault Int32 := row.required name .int32

end RawRow

end RefCache
