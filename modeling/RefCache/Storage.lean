import RefCache.Cache
import Std.Data.ExtTreeSet

/-! A store in memory. A read answers the rows changed at or after a mark, in the order of their
stamps. Reads can be made to fail, to panic, or to wait. -/

namespace RefCache

/-- What a read does before the store is looked at. -/
inductive Injection where
  | fails (error : Error)
  | panics (payload : Payload)
  deriving DecidableEq, Repr

structure Storage where
  table : (c : Category) → List c.Row
  /-- Reads answer whole tables in the order of insertion, and are not counted. -/
  unordered : Bool
  calls : PerCategory Nat
  failing : PerCategory String
  panicking : Std.ExtTreeSet Category
  injected : PerCategory Injection
  /-- Categories whose reads wait. -/
  parked : Std.ExtTreeSet Category

namespace Storage

def start (unordered : Bool) : Storage := ⟨fun _ => [], unordered, ∅, ∅, ∅, ∅, ∅⟩

def setTable (s : Storage) (c : Category) (rows : List c.Row) : Storage :=
  { s with table := fun d => if h : c = d then h ▸ rows else s.table d }

def push (s : Storage) (c : Category) (rows : List c.Row) : Storage :=
  s.setTable c (s.table c ++ rows)

def fail (s : Storage) (c : Category) (message : String) : Storage :=
  { s with failing := s.failing.insert c message }

def panic (s : Storage) (c : Category) : Storage := { s with panicking := s.panicking.insert c }

def inject (s : Storage) (c : Category) (i : Injection) : Storage :=
  { s with injected := s.injected.insert c i }

def heal (s : Storage) : Storage := { s with failing := ∅, panicking := ∅, injected := ∅ }

def park (s : Storage) (c : Category) : Storage := { s with parked := s.parked.insert c }

def release (s : Storage) : Storage := { s with parked := ∅ }

def isParked (s : Storage) (c : Category) : Bool := s.parked.contains c

def callCount (s : Storage) (c : Category) : Nat := s.calls[c]?.getD 0

def stampOrder (c : Category) (a b : c.Row) : Bool :=
  decide ((c.stamp a).updatedAt ≤ (c.stamp b).updatedAt)

/-- The rows of a table changed at or after a mark, by their stamps; equal ones keep table order. -/
def changedSince (c : Category) (since : Timestamp) (rows : List c.Row) : List c.Row :=
  (rows.filter fun row => decide (since ≤ (c.stamp row).updatedAt)).mergeSort (stampOrder c)

/-- A read that reaches the store is counted, also one that then fails or panics. -/
def readTable (s : Storage) (c : Category) (since : Timestamp) : Fetched c × Storage :=
  if s.unordered then (.rows (s.table c), s)
  else
    let counted := { s with calls := s.calls.insert c (s.callCount c + 1) }
    match s.failing[c]? with
    | some message => (.failed (.internal message), counted)
    | none =>
      if s.panicking.contains c then
        (.panicked (.text ("injected panic reading " ++ c.name)), counted)
      else (.rows (changedSince c since (s.table c)), counted)

def read (s : Storage) (c : Category) (since : Timestamp) : Fetched c × Storage :=
  match s.injected[c]? with
  | some (.fails e) => (.failed e, s)
  | some (.panics p) => (.panicked p, s)
  | none => s.readTable c since

end Storage

end RefCache
