import RefCache.Report

/-! A full refresh: eleven pullers at work side by side, and a collector that joins them as they
finish. A puller reads its category's mark, then the store, then absorbs what came back. The steps
of different pullers may come in any order. -/

namespace RefCache

/-- How far the puller of a category has come. -/
inductive Puller (c : Category) where
  | ready
  | reading (since : Timestamp)
  | fetched (since : Timestamp) (what : Fetched c)
  | finished (result : PullResult)
  | joined

def Puller.isJoined {c : Category} : Puller c → Bool
  | .joined => true
  | _ => false

inductive PullStep (c : Category) where
  | readMark
  | fetch (what : Fetched c)
  | absorb
  | join

/-- A refresh under way; the outcomes are in the order in which the pullers were joined. -/
structure Refresh where
  puller : (c : Category) → Puller c
  outcomes : List CategoryOutcome

namespace Refresh

def start : Refresh := ⟨fun _ => .ready, []⟩

def setPuller (r : Refresh) (c : Category) (p : Puller c) : Refresh :=
  { r with puller := fun d => if h : c = d then h ▸ p else r.puller d }

@[simp] theorem puller_setPuller_self (r : Refresh) (c : Category) (p : Puller c) :
    (r.setPuller c p).puller c = p := by
  simp [setPuller]

theorem puller_setPuller_of_ne (r : Refresh) {c d : Category} (p : Puller c) (h : c ≠ d) :
    (r.setPuller c p).puller d = r.puller d := by
  simp [setPuller, h]

def panicText (p : Payload) : String := "puller panicked: " ++ p.message

def resultOutcome (c : Category) : PullResult → CategoryOutcome
  | .merged o => ⟨c, .ok o.applied⟩
  | .failed e => ⟨c, .error e.message⟩
  | .panicked p => ⟨c, .error (panicText p)⟩

def panicEvent (c : Category) (p : Payload) : Event :=
  ⟨.error, "Puller panicked",
    [("op", .text "sync_all"), ("category", .text c.name), ("error", .text (panicText p))]⟩

/-- The collector notes a panic, which the puller could not. -/
def noteResult (c : Category) (cache : Cache) : PullResult → Cache × List Event
  | .panicked p => (cache.noteError c (panicText p), [panicEvent c p])
  | _ => (cache, [])

/-- The cache, a refresh of it, and the events so far, oldest first. -/
structure State where
  cache : Cache
  refresh : Refresh
  events : List Event

/-- One step of one puller, or of the collector on it, if it is due. -/
def step (photos : Uuid → Photo) (c : Category) (s : State) : PullStep c → Option State
  | .readMark =>
    match s.refresh.puller c with
    | .ready => some { s with refresh := s.refresh.setPuller c (.reading (s.cache.mark c)) }
    | _ => none
  | .fetch what =>
    match s.refresh.puller c with
    | .reading since => some { s with refresh := s.refresh.setPuller c (.fetched since what) }
    | _ => none
  | .absorb =>
    match s.refresh.puller c with
    | .fetched _ what =>
      let a := s.cache.absorb photos c what
      some ⟨a.cache, s.refresh.setPuller c (.finished a.result), s.events ++ a.events⟩
    | _ => none
  | .join =>
    match s.refresh.puller c with
    | .finished result =>
      let noted := noteResult c s.cache result
      let r := s.refresh.setPuller c .joined
      some ⟨noted.1, { r with outcomes := r.outcomes ++ [resultOutcome c result] },
        s.events ++ noted.2⟩
    | _ => none

/-- Whether every puller has been joined. -/
def complete (r : Refresh) : Bool := Category.all.all fun c => (r.puller c).isJoined

def report (r : Refresh) : Report := .ofOutcomes r.outcomes

end Refresh

end RefCache
