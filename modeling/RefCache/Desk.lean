import RefCache.Refresh

/-! The desk at which refreshes are asked for. Every request draws a ticket; one refresh is under
way at a time, and the next begins when it has handed in its report. Tickets are served in the
order in which they were drawn. -/

namespace RefCache

structure Desk where
  /-- The next ticket. -/
  next : Nat
  waiting : List Nat
  active : Option (Nat × Refresh)
  /-- Reports that nobody has fetched yet. -/
  reports : List (Nat × Report)

namespace Desk

def start : Desk := ⟨0, [], none, []⟩

def request (d : Desk) : Desk × Nat :=
  ({ d with next := d.next + 1, waiting := d.waiting ++ [d.next] }, d.next)

/-- Begins the refresh of the first ticket if none is under way. -/
def grant? (d : Desk) : Option Desk :=
  match d.active, d.waiting with
  | none, ticket :: rest => some { d with waiting := rest, active := some (ticket, .start) }
  | _, _ => none

/-- Hands in the report of a refresh whose pullers have all been joined. -/
def finish? (d : Desk) : Option (Desk × Event) :=
  match d.active with
  | some (ticket, r) =>
    if r.complete then
      some ({ d with active := none, reports := d.reports ++ [(ticket, r.report)] }, r.report.event)
    else none
  | none => none

/-- Gives up a ticket, and the refresh of it if that is under way. -/
def cancel (d : Desk) (ticket : Nat) : Desk :=
  { d with
    waiting := d.waiting.filter (· != ticket)
    active := d.active.filter fun a => a.1 != ticket }

def report? (d : Desk) (ticket : Nat) : Option Report := d.reports.lookup ticket

def collect (d : Desk) (ticket : Nat) : Desk :=
  { d with reports := d.reports.filter fun r => r.1 != ticket }

end Desk

end RefCache
