import RefCache.Proofs.Contents
import RefCache.Proofs.RoundTrip

/-! Walks through a graph of statuses. A graph can be walked if each of its targets is a status, so
the empty graph, a graph of edges and a graph of a stored payload can. A graph that is read from its
own JSON form, alone or in a project, is the map that stands in the text, and can be walked exactly
if that map has all its targets as keys. -/

namespace RefCache

open Json

namespace StatusGraph

/-! ### Walks -/

/-- From a status a walk leads to the status itself, and on to all that can follow. -/
inductive Leads (g : StatusGraph) (start : String) : String → Prop
  | here : Leads g start start
  | on {status target : String} {targets : List String} (walk : Leads g start status)
      (following : g.next status = some targets) (listed : target ∈ targets) : Leads g start target

/-- From a status of the graph no walk comes to one that the graph does not have. -/
def Walkable (g : StatusGraph) : Prop :=
  ∀ start status, (g.next start).isSome → g.Leads start status → (g.next status).isSome

theorem Closed.isSome_next {g : StatusGraph} {start status : String} (h : g.Closed)
    (hstart : (g.next start).isSome) (hwalk : g.Leads start status) : (g.next status).isSome := by
  induction hwalk with
  | here => exact hstart
  | on _ following listed _ => exact h _ _ following _ listed

theorem walkable_iff_closed {g : StatusGraph} : g.Walkable ↔ g.Closed := by
  constructor
  · intro h status targets hnext t ht
    have hstart : (g.next status).isSome := by rw [hnext]; rfl
    exact h status t hstart (.on .here hnext ht)
  · intro h start status hstart hwalk
    exact h.isSome_next hstart hwalk

/-! ### Graphs that are built -/

theorem closed_empty : empty.Closed := by
  intro status targets hnext
  simp [next, empty] at hnext

theorem closed_ofPayload {raw : String} {g : StatusGraph} (h : ofPayload raw = .ok g) :
    g.Closed := by
  unfold ofPayload at h
  split at h
  · obtain rfl := Except.ok.inj h
    exact closed_empty
  · obtain ⟨_, -, rfl⟩ := map_eq_ok.1 h
    exact closed_ofEdges _

/-! ### Graphs that are read -/

/-- Of some members, in which the last one with a key counts, each target is a key. -/
def KeysCoverTargets (members : List (String × List String)) : Prop :=
  ∀ m ∈ members, ∀ t ∈ (members.reverse.lookup m.1).getD [], t ∈ members.map Prod.fst

instance (members : List (String × List String)) : Decidable (KeysCoverTargets members) :=
  inferInstanceAs (Decidable (∀ m ∈ members, _))

theorem closed_edgesOf_iff {members : List (String × List String)} :
    (StatusGraph.mk (edgesOf members)).Closed ↔ KeysCoverTargets members := by
  have hkeys : ∀ t, (members.reverse.lookup t).isSome ↔ t ∈ members.map Prod.fst := by
    intro t
    rw [lookup_isSome_iff, List.map_reverse, List.mem_reverse]
  simp only [Closed, KeysCoverTargets, next, getElem?_edgesOf, hkeys]
  constructor
  · intro h m _ t ht
    obtain ⟨targets, htargets⟩ : ∃ targets, members.reverse.lookup m.1 = some targets :=
      Option.isSome_iff_exists.1 ((hkeys m.1).2 (List.mem_map_of_mem ‹_›))
    rw [htargets] at ht
    exact h m.1 targets htargets t ht
  · intro h status targets htargets t ht
    have hkey : status ∈ members.map Prod.fst := (hkeys status).1 (by rw [htargets]; rfl)
    obtain ⟨m, hm, rfl⟩ := List.mem_map.1 hkey
    exact h m hm t (by rwa [htargets])

/-- A graph is the map of the members in a tree. -/
structure ReadFrom (g : StatusGraph) (t : Tree) (members : List (String × List String)) : Prop where
  read : readMembers t = .ok members
  edges : g.edges = edgesOf members

theorem ReadFrom.walkable_iff {g : StatusGraph} {t : Tree} {members : List (String × List String)}
    (h : g.ReadFrom t members) : g.Walkable ↔ KeysCoverTargets members := by
  rw [walkable_iff_closed, ← closed_edgesOf_iff, ← h.edges]

theorem exists_readFrom {g : StatusGraph} {t : Tree} (h : Wire.reader t = .ok g) :
    ∃ members, g.ReadFrom t members := by
  obtain ⟨members, hread, rfl⟩ := map_eq_ok.1 h
  exact ⟨members, hread, rfl⟩

end StatusGraph

theorem Wire.reader_of_ofText {α : Type} [Wire α] {text : String} {a : α}
    (h : Wire.ofText text = .ok a) : Wire.reader (document text.toList).root = .ok a :=
  (read_eq_ok.1 h).2

/-- The graph of a project is read from the tree that was found under its name. -/
theorem Project.exists_statusGraph {t : Tree} {p : Project} (h : Wire.reader t = .ok p) :
    ∃ found tree, readSlots Project.slots t = .ok found ∧
      found.lookup "status_graph" = some tree ∧ Wire.reader tree = .ok p.statusGraph := by
  obtain ⟨found, hfound, h⟩ := bind_eq_ok.1 h
  -- four fields are read before the graph, and the options after it
  obtain ⟨_, _, h⟩ := bind_eq_ok.1 h
  obtain ⟨_, _, h⟩ := bind_eq_ok.1 h
  obtain ⟨_, _, h⟩ := bind_eq_ok.1 h
  obtain ⟨_, _, h⟩ := bind_eq_ok.1 h
  obtain ⟨statusGraph, hgraph, h⟩ := bind_eq_ok.1 h
  obtain ⟨_, _, h⟩ := bind_eq_ok.1 h
  obtain rfl := Except.ok.inj h
  unfold fieldOf at hgraph
  split at hgraph
  · next tree htree => exact ⟨found, tree, hfound, htree, hgraph⟩
  · cases hgraph

/-- The empty graph, a graph of edges and a graph of a stored payload can be walked, which is to say
that every target is a status of them. A graph in a text of its own, or in that of a project, is the
map that stands there, and can be walked exactly if all targets of the map are keys of it. -/
theorem walkable_graphs (edges : EdgeMap) (text : String) :
    (∀ g : StatusGraph, g.Walkable ↔ g.Closed) ∧
    StatusGraph.empty.Walkable ∧
    (StatusGraph.ofEdges edges).Walkable ∧
    (∀ g, StatusGraph.ofPayload text = .ok g → g.Walkable) ∧
    (∀ g : StatusGraph, Wire.ofText text = .ok g → ∃ members,
      g.ReadFrom (document text.toList).root members ∧
      (g.Walkable ↔ StatusGraph.KeysCoverTargets members)) ∧
    (∀ p : Project, Wire.ofText text = .ok p → ∃ found tree members,
      readSlots Project.slots (document text.toList).root = .ok found ∧
      found.lookup "status_graph" = some tree ∧ p.statusGraph.ReadFrom tree members ∧
      (p.statusGraph.Walkable ↔ StatusGraph.KeysCoverTargets members)) := by
  refine ⟨fun g => StatusGraph.walkable_iff_closed,
    StatusGraph.walkable_iff_closed.2 StatusGraph.closed_empty,
    StatusGraph.walkable_iff_closed.2 (StatusGraph.closed_ofEdges edges), ?payload, ?alone,
    ?inProject⟩
  case payload =>
    intro g h
    exact StatusGraph.walkable_iff_closed.2 (StatusGraph.closed_ofPayload h)
  case alone =>
    intro g h
    obtain ⟨members, hfrom⟩ := StatusGraph.exists_readFrom (Wire.reader_of_ofText h)
    exact ⟨members, hfrom, hfrom.walkable_iff⟩
  case inProject =>
    intro p h
    obtain ⟨found, tree, hfound, htree, hread⟩ :=
      Project.exists_statusGraph (Wire.reader_of_ofText h)
    obtain ⟨members, hfrom⟩ := StatusGraph.exists_readFrom hread
    exact ⟨found, tree, members, hfound, htree, hfrom, hfrom.walkable_iff⟩

/-- One status with one target, which has no member of its own. -/
def oneMember : String := "\x7b\"0\":[\"1\"]\x7d"

/-- The same with a member for the target. -/
def twoMembers : String := "\x7b\"0\":[\"1\"],\"1\":[]\x7d"

/-- As a payload one member is enough for a walk; in a text of the graph, or of a project with it,
both are there. -/
theorem walkable_graphs_two_statuses :
    ∃ (stored read : StatusGraph) (p : Project),
      StatusGraph.ofPayload oneMember = .ok stored ∧ stored.Walkable ∧
      Wire.ofText twoMembers = .ok read ∧ read.Walkable ∧
      Wire.ofText (Wire.toText p) = .ok p ∧ p.statusGraph = read ∧
      ∃ tree members, p.statusGraph.ReadFrom tree members ∧
        StatusGraph.KeysCoverTargets members := by
  let stored := StatusGraph.ofEdges (StatusGraph.edgesOf [("0", ["1"])])
  let read : StatusGraph := ⟨StatusGraph.edgesOf [("0", ["1"]), ("1", [])]⟩
  let p : Project := ⟨default, "Road", default, default, read, .unset⟩
  have hstored : StatusGraph.ofPayload oneMember = .ok stored := by decide +kernel
  have hread : Wire.ofText twoMembers = .ok read := by decide +kernel
  have hproject : Wire.ofText (Wire.toText p) = .ok p := Wire.readsBack Project p
  have hmembers : StatusGraph.readMembers (document twoMembers.toList).root =
      .ok [("0", ["1"]), ("1", [])] := by decide +kernel
  obtain ⟨-, -, -, hpayload, -, -⟩ := walkable_graphs ∅ oneMember
  obtain ⟨-, -, -, -, halone, -⟩ := walkable_graphs ∅ twoMembers
  obtain ⟨-, -, -, -, -, hinProject⟩ := walkable_graphs ∅ (Wire.toText p)
  obtain ⟨members, hfrom, hiff⟩ := halone read hread
  obtain rfl := Except.ok.inj (hfrom.read.symm.trans hmembers)
  have hwalk : read.Walkable := hiff.2 (by decide)
  obtain ⟨_, tree, inProject, -, -, hfrom', hiff'⟩ := hinProject p hproject
  exact ⟨stored, read, p, hstored, hpayload _ hstored, hread, hwalk, hproject, rfl, tree,
    inProject, hfrom', hiff'.1 hwalk⟩

/-- A target without a member is no status of the graph that is read, and a walk to it ends in
nothing, where the payload with the same text makes it a status. -/
theorem target_without_member :
    ∃ read : StatusGraph, Wire.ofText oneMember = .ok read ∧ read.next "0" = some ["1"] ∧
      read.next "1" = none ∧ ¬ read.Walkable ∧
      (StatusGraph.ofPayload oneMember).map (·.next "1") = .ok (some []) := by
  let read : StatusGraph := ⟨StatusGraph.edgesOf [("0", ["1"])]⟩
  have hnext : read.next "0" = some ["1"] := by decide +kernel
  have hunknown : read.next "1" = none := by decide +kernel
  refine ⟨read, by decide +kernel, hnext, hunknown, fun hwalk => ?_, by decide +kernel⟩
  have hone : (read.next "1").isSome :=
    hwalk "0" "1" (by rw [hnext]; rfl) (.on .here hnext (by decide))
  rw [hunknown] at hone
  cases hone

end RefCache
