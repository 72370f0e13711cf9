import RefCache.Database.Pool
import RefCache.Database.Statement
import RefCache.Store

/-! A store behind a pool of connections. The server holds a result set for every table and may
refuse the queries of a table; it keeps note of the queries it is sent. -/

namespace RefCache

structure Query where
  category : Category
  since : Timestamp
  deriving DecidableEq, Repr

/-- By table, then by moment. -/
def Query.order (a b : Query) : Bool :=
  decide (a.category.table < b.category.table
    ∨ (a.category.table = b.category.table ∧ a.since.toMicros ≤ b.since.toMicros))

structure Database where
  pool : Pool
  results : Std.ExtTreeMap String ResultSet
  refusals : Std.ExtTreeMap String String
  /-- The queries since somebody last looked, the latest first. -/
  queries : List Query

namespace Database

def start (pool : Pool) : Database := ⟨pool, ∅, ∅, []⟩

def result (db : Database) (table : String) : ResultSet := db.results[table]?.getD .empty

/-- Gives a table its columns, and no rows. -/
def setColumns (db : Database) (table : String) (columns : List Column) : Database :=
  { db with results := db.results.insert table ⟨columns, []⟩ }

def setRows (db : Database) (table : String) (cells : List (List Cell)) : Database :=
  { db with results := db.results.insert table { db.result table with cells } }

/-- Makes queries of a table fail with a message, or work again. -/
def setRefusal (db : Database) (table : String) : Option String → Database
  | some message => { db with refusals := db.refusals.insert table message }
  | none => { db with refusals := db.refusals.erase table }

def setPool (db : Database) (pool : Pool) : Database := { db with pool }

def forgetQueries (db : Database) : Database := { db with queries := [] }

/-- The queries since the last look, in order. -/
def sortedQueries (db : Database) : List Query := db.queries.reverse.mergeSort Query.order

/-- All rows, or what is wrong with the first that cannot be read. -/
def decodeRows (c : Category) (rows : List RawRow) : Except DatabaseFault (List c.Row) :=
  rows.mapM (·.decode c)

def fetchedEvent (c : Category) (rowCount : Nat) : Event :=
  ⟨.debug, "Fetched category rows",
    [("op", .text "fetch_since"), ("category", .text c.name), ("row_count", .count rowCount)]⟩

/-- The query of a category. -/
def query (db : Database) (c : Category) (since : Timestamp) :
    Except DatabaseFault (List c.Row) × Database :=
  if db.pool.closed then (.error (.failed .poolClosed), db)
  else
    let asked := { db with queries := ⟨c, since⟩ :: db.queries }
    match db.refusals[c.table]? with
    | some message => (.error (.failed (.refused message)), asked)
    | none => (decodeRows c (db.result c.table).rows, asked)

def read (c : Category) (since : Timestamp) (db : Database) : ReadTurn Database c :=
  match db.query c since with
  | (.ok rows, db) => ⟨.rows rows, db, [fetchedEvent c rows.length]⟩
  | (.error (.failed e), db) => ⟨.failed (.database e), db, []⟩
  | (.error (.panicked p), db) => ⟨.panicked p, db, []⟩

instance : Store Database := ⟨read, fun _ _ => false⟩

end Database

end RefCache
