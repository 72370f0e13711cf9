import RefCache.Json.Wire
import Std.Data.ExtTreeMap

/-! The workflow of a project: which statuses can follow a status, and its options. A graph that is
built from edges or read from a stored payload has every target as a status of its own, so it can
be walked without a check; the plain JSON form is taken as it stands. -/

namespace RefCache

abbrev EdgeMap := Std.ExtTreeMap String (List String)

structure StatusGraph where
  edges : EdgeMap
  deriving DecidableEq

namespace StatusGraph

def empty : StatusGraph := ⟨∅⟩

instance : Inhabited StatusGraph := ⟨empty⟩

/-- Of members with one key the last one counts. -/
def edgesOf (members : List (String × List String)) : EdgeMap :=
  members.foldl (fun g m => g.insert m.1 m.2) ∅

def addStatus (g : EdgeMap) (status : String) : EdgeMap := g.insertIfNew status []

def addEdges (g : EdgeMap) (edges : String × List String) : EdgeMap :=
  (edges.2.foldl addStatus g).alter edges.1 fun known => some (known.getD [] ++ edges.2)

/-- The graph of some edges, taken in key order. -/
def ofEdges (edges : EdgeMap) : StatusGraph := ⟨edges.toList.foldl addEdges ∅⟩

/-- A payload of at most this many bytes holds no graph. -/
def noGraphBytes : Nat := 5

def readMembers : Json.Read (List (String × List String)) :=
  Json.readMembers (Json.readList Json.readText)

/-- The graph of a stored payload. -/
def ofPayload (raw : String) : Except Fault StatusGraph :=
  if byteLength (trim raw.toList) ≤ noGraphBytes then .ok empty
  else (Json.read readMembers raw).map fun members => ofEdges (edgesOf members)

/-- The statuses that can follow a status of the graph. -/
def next (g : StatusGraph) (status : String) : Option (List String) := g.edges[status]?

def size (g : StatusGraph) : Nat := g.edges.size

/-- Every target is a status. -/
def Closed (g : StatusGraph) : Prop :=
  ∀ status targets, g.next status = some targets → ∀ t ∈ targets, (g.next t).isSome

end StatusGraph

instance : Wire StatusGraph where
  encode g := .object (g.edges.toList.map fun e => (e.1, Wire.encode e.2))
  reader t := (StatusGraph.readMembers t).map fun members => ⟨StatusGraph.edgesOf members⟩

structure ProjectOptions where
  cancelationComment : Option Bool
  doneComment : Option Bool
  statusEnable : Option Bool
  color : Option String
  deriving DecidableEq, Repr

namespace ProjectOptions

def unset : ProjectOptions := ⟨none, none, none, none⟩

instance : Inhabited ProjectOptions := ⟨unset⟩

def slots : List Json.Slot :=
  [{ Wire.field "require_cancelation_comment" (Option Bool) with need := .never },
   { Wire.field "require_done_comment" (Option Bool) with need := .never },
   { Wire.field "status_enable" (Option Bool) with need := .never },
   { Wire.field "color" (Option String) with need := .never }]

instance : Wire ProjectOptions where
  encode o := .object [
    ("require_cancelation_comment", Wire.encode o.cancelationComment),
    ("require_done_comment", Wire.encode o.doneComment),
    ("status_enable", Wire.encode o.statusEnable),
    ("color", Wire.encode o.color)]
  reader t := do
    let found ← Json.readSlots slots t
    .ok {
      cancelationComment := ← Json.optionalField found "require_cancelation_comment" Wire.reader
      doneComment := ← Json.optionalField found "require_done_comment" Wire.reader
      statusEnable := ← Json.optionalField found "status_enable" Wire.reader
      color := ← Json.optionalField found "color" Wire.reader }

/-- The options of a stored payload, where null stands for none. -/
def ofPayload (raw : String) : Except Fault ProjectOptions :=
  (Wire.ofText (α := Option ProjectOptions) raw).map (·.getD unset)

end ProjectOptions

end RefCache
