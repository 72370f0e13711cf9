import RefCache.Cache

/-! The report of a full refresh: one outcome per category, in category order. -/

namespace RefCache

/-- Rows applied, or the text of what went wrong. -/
structure CategoryOutcome where
  category : Category
  result : Except String Nat

namespace CategoryOutcome

def failed (o : CategoryOutcome) : Bool :=
  match o.result with
  | .ok _ => false
  | .error _ => true

def applied (o : CategoryOutcome) : Nat :=
  match o.result with
  | .ok n => n
  | .error _ => 0

def json (o : CategoryOutcome) : Json :=
  .object [("category", .text o.category.name),
    match o.result with
    | .ok n => ("applied", .count n)
    | .error message => ("error", .text message)]

end CategoryOutcome

structure Report where
  outcomes : List CategoryOutcome

namespace Report

def inOrder (a b : CategoryOutcome) : Bool := decide (a.category.rank ≤ b.category.rank)

/-- The report of outcomes that came in any order. -/
def ofOutcomes (outcomes : List CategoryOutcome) : Report := ⟨outcomes.mergeSort inOrder⟩

def failures (r : Report) : List CategoryOutcome := r.outcomes.filter (·.failed)

def success (r : Report) : Bool := r.outcomes.all (!·.failed)

def rowsApplied (r : Report) : Nat := (r.outcomes.map (·.applied)).foldr (· + ·) 0

def outcome? (r : Report) (c : Category) : Option CategoryOutcome :=
  r.outcomes.find? (·.category == c)

def json (r : Report) : Json :=
  .object [
    ("success", .bool r.success),
    ("rows_applied", .count r.rowsApplied),
    ("failures", .array (r.failures.map fun o => .text o.category.name)),
    ("outcomes", .array (r.outcomes.map (·.json)))]

def event (r : Report) : Event :=
  if r.failures.isEmpty then
    ⟨.info, "Full refresh complete",
      [("op", .text "sync_all"), ("row_count", .count r.rowsApplied)]⟩
  else
    ⟨.warn, "Full refresh finished with failures",
      [("op", .text "sync_all"), ("failed", .count r.failures.length),
       ("row_count", .count r.rowsApplied)]⟩

end Report

end RefCache
