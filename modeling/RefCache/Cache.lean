import RefCache.Event
import RefCache.Indexes.Merge

/-! The cache: the indexes, how far each category has been read, the request for an update, and
what went wrong last. A batch of rows is absorbed in one go; a failed read only leaves its error
behind, and a read that panics leaves nothing here but the event of its panic. -/

namespace RefCache

abbrev PerCategory (α : Type) := Std.ExtTreeMap Category α

structure Cache where
  /-- The mark of a category of which no row was ever applied. -/
  coldStart : Timestamp
  indexes : Indexes
  marks : PerCategory Timestamp
  shouldUpdate : Bool
  lastErrors : PerCategory String

/-- What a read of a category came back with. -/
inductive Fetched (c : Category) where
  | rows (batch : List c.Row)
  | failed (error : Error)
  | panicked (payload : Payload)

/-- How the pull of a category ended. -/
inductive PullResult where
  | merged (outcome : MergeOutcome)
  | failed (error : Error)
  | panicked (payload : Payload)
  deriving DecidableEq, Repr

namespace Cache

def start (now : Timestamp) : Cache := ⟨coldStartMark now, .empty, ∅, false, ∅⟩

/-- The high-water mark of a category: the next read asks for rows from here on. -/
def mark (cache : Cache) (c : Category) : Timestamp := cache.marks[c]?.getD cache.coldStart

/-- A mark only moves forward. -/
def advance (cache : Cache) (c : Category) : Option Timestamp → Cache
  | some latest => { cache with marks := cache.marks.insert c (max (cache.mark c) latest) }
  | none => cache

theorem mark_advance_self (cache : Cache) (c : Category) (t : Timestamp) :
    (cache.advance c (some t)).mark c = max (cache.mark c) t := by
  simp [advance, mark]

def noteError (cache : Cache) (c : Category) (message : String) : Cache :=
  { cache with lastErrors := cache.lastErrors.insert c message }

def clearError (cache : Cache) (c : Category) : Cache :=
  { cache with lastErrors := cache.lastErrors.erase c }

def setUpdate (cache : Cache) (value : Bool) : Cache := { cache with shouldUpdate := value }

def mergeRows (photos : Uuid → Photo) (c : Category) (batch : List c.Row) (cache : Cache) :
    Cache × Merge Indexes :=
  let m := cache.indexes.merge photos c batch
  (({ cache with indexes := m.state }.advance c m.latest).clearError c, m)

def skipEvent (c : Category) (e : Error) : Event :=
  ⟨.error, "Skipping row that failed to decode",
    [("category", .text c.name), ("error", .text e.message)]⟩

def mergedEvent (c : Category) (rowCount : Nat) (o : MergeOutcome) : Event :=
  ⟨.debug, "Merged category",
    [("op", .text "pull"), ("category", .text c.name), ("row_count", .count rowCount),
     ("applied", .count o.applied), ("skipped_count", .count o.skipped)]⟩

def failedEvent (c : Category) (e : Error) : Event :=
  ⟨.error, "Storage read failed, high-water mark kept",
    [("op", .text "pull"), ("category", .text c.name), ("error", .text e.message)]⟩

structure Absorbed where
  cache : Cache
  result : PullResult
  events : List Event

/-- Takes in what a read came back with. -/
def absorb (photos : Uuid → Photo) (c : Category) (cache : Cache) : Fetched c → Absorbed
  | .rows batch =>
    let (cache, m) := cache.mergeRows photos c batch
    ⟨cache, .merged m.outcome,
      m.skipped.map (skipEvent c) ++ [mergedEvent c batch.length m.outcome]⟩
  | .failed e => ⟨cache.noteError c e.message, .failed e, [failedEvent c e]⟩
  | .panicked p => ⟨cache, .panicked p, [p.captured]⟩

end Cache

end RefCache
