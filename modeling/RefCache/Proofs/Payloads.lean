import RefCache.Proofs.Contents
import RefCache.Proofs.Delimiters
import RefCache.Proofs.Walks

/-! Stored payloads of graphs of statuses. A payload is the text of a map, of which the targets are
made statuses; a text too short for a graph is not looked at, and since a map with one member needs
six brackets and quotes, nothing is lost by that. Making targets statuses adds what is missing and
nothing else, so it leaves alone a graph that can be walked, and such a graph is the same after it
was written and stored. -/

namespace RefCache

open Json

/-! ### Readers that succeed -/

namespace Json

theorem read_map {α β : Type} (reader : Read α) (f : α → β) (text : String) :
    Json.read (fun t => (reader t).map f) text = (Json.read reader text).map f := by
  simp only [Json.read]
  cases reader (document text.toList).root with
  | error fault => rfl
  | ok a => cases (document text.toList).trailing <;> rfl

theorem delimiters_of_keyText {key : Token} {s : String} (h : keyText key = .ok s) :
    key.delimiters = 2 := by
  cases key with
  | text pieces flaw =>
    obtain ⟨rfl, -⟩ := pieceChars_eq_ok.1 h
    rfl
  | _ => cases h

theorem two_le_delimiters_of_readList {α : Type} {read : Read α} {t : Tree} {as : List α}
    (h : readList read t = .ok as) : 2 ≤ t.delimiters := by
  cases t with
  | array items flaw =>
    obtain ⟨rfl, -⟩ := (itemsOf_eq_ok fun _ _ => Iff.rfl).1 h
    exact Nat.le_add_left _ _
  | _ => cases h

end Json

namespace StatusGraph

/-- A member takes the braces, the quotes of its key and the brackets of its targets. -/
theorem six_le_delimiters {t : Tree} {members : List (String × List String)}
    (h : readMembers t = .ok members) (hsome : members ≠ []) : 6 ≤ t.delimiters := by
  cases t with
  | object trees flaw =>
    have hread : membersOf (readList readText) flaw trees = .ok members := h
    obtain ⟨rfl, -⟩ := (membersOf_eq_ok fun _ _ => Iff.rfl).1 hread
    cases trees with
    | nil => exact absurd (Except.ok.inj hread).symm hsome
    | cons m trees =>
      obtain ⟨_, hkey, hread⟩ := bind_eq_ok.1 hread
      obtain ⟨_, htargets, _⟩ := bind_eq_ok.1 hread
      have htwo := two_le_delimiters_of_readList htargets
      simp only [Tree.delimiters, memberDelimiters, delimiters_of_keyText hkey]
      omega
  | _ => cases h

theorem eq_nil_of_short {text : String} {members : List (String × List String)}
    (h : Json.read readMembers text = .ok members)
    (hshort : byteLength (trim text.toList) ≤ noGraphBytes) : members = [] := by
  by_contra hsome
  have hsix := six_le_delimiters (read_eq_ok.1 h).2 hsome
  have hbytes := delimiters_root_le text.toList
  have hfive : noGraphBytes = 5 := rfl
  omega

/-- The plain form of a graph is the map of the members that a text has. -/
theorem ofText_eq (text : String) :
    (Wire.ofText text : Except Fault StatusGraph) =
      (Json.read readMembers text).map fun members => ⟨edgesOf members⟩ :=
  read_map readMembers _ text

theorem ofPayload_of_ofText {text : String} {plain : StatusGraph}
    (h : Wire.ofText text = .ok plain) : ofPayload text = .ok (ofEdges plain.edges) := by
  rw [ofText_eq] at h
  obtain ⟨members, hread, rfl⟩ := map_eq_ok.1 h
  unfold ofPayload
  split
  · rename_i hshort
    rw [eq_nil_of_short hread hshort]
    rfl
  · rw [hread]
    rfl

/-! ### Graphs that can be walked -/

/-- Nothing is added to a graph that can be walked. -/
theorem Closed.ofEdges_eq {g : StatusGraph} (h : g.Closed) : ofEdges g.edges = g := by
  have hedges : (ofEdges g.edges).edges = g.edges := by
    refine Std.ExtTreeMap.ext_getElem? fun status => Option.ext fun targets => ?_
    rw [getElem?_eq_some_iff, getElem?_eq_some_iff, getD_ofEdges, mem_ofEdges]
    refine and_congr_left fun _ => or_iff_left_of_imp ?_
    rintro ⟨source, targets, hedge, htarget⟩
    exact Std.ExtTreeMap.isSome_getElem?_iff_mem.1 (h source targets hedge status htarget)
  calc ofEdges g.edges = ⟨(ofEdges g.edges).edges⟩ := rfl
    _ = g := by rw [hedges]

theorem Closed.ofPayload_toText {g : StatusGraph} (h : g.Closed) :
    ofPayload (Wire.toText g) = .ok g := by
  rw [ofPayload_of_ofText (Wire.readsBack StatusGraph g), h.ofEdges_eq]

end StatusGraph

/-- A payload that is the text of a map stands for the graph of that map, the empty graph if it is
too short for another one; a longer payload that is no such text is refused, with its fault. -/
theorem payload_as_text (text : String) :
    (∀ plain : StatusGraph, Wire.ofText text = .ok plain →
      StatusGraph.ofPayload text = .ok (.ofEdges plain.edges)) ∧
    (∀ plain : StatusGraph, Wire.ofText text = .ok plain →
      byteLength (trim text.toList) ≤ StatusGraph.noGraphBytes → plain = .empty) ∧
    (∀ fault, (Wire.ofText text : Except Fault StatusGraph) = .error fault →
      StatusGraph.noGraphBytes < byteLength (trim text.toList) →
      StatusGraph.ofPayload text = .error fault) := by
  refine ⟨fun plain h => StatusGraph.ofPayload_of_ofText h, ?short, ?refused⟩
  case short =>
    intro plain h hshort
    rw [StatusGraph.ofText_eq] at h
    obtain ⟨members, hread, rfl⟩ := map_eq_ok.1 h
    rw [StatusGraph.eq_nil_of_short hread hshort]
    rfl
  case refused =>
    intro fault h hlong
    rw [StatusGraph.ofText_eq] at h
    rw [StatusGraph.ofPayload, if_neg (Nat.not_le.2 hlong)]
    cases hread : Json.read StatusGraph.readMembers text with
    | error fault' =>
      rw [hread] at h
      obtain rfl := Except.error.inj h
      rfl
    | ok members =>
      rw [hread] at h
      cases h

/-- A map with blanks around everything, and with one key twice, once as an escape. -/
def keyTwice : String := " \x7b \"a\" : [ \"b\" ],\n\t\"\\u0061\":[\"c\", \"a\"] \x7d "

/-- A text that can be read stands for the graph of its last members, one of no members for the
empty graph, and a list is refused. -/
theorem payload_as_text_key_twice :
    ∃ plain none : StatusGraph,
      Wire.ofText keyTwice = .ok plain ∧
      StatusGraph.ofPayload keyTwice = .ok (.ofEdges plain.edges) ∧
      (StatusGraph.ofEdges plain.edges).edges.toList = [("a", ["c", "a"]), ("c", [])] ∧
      Wire.ofText " \x7b\n\x7d " = .ok none ∧
      byteLength (trim " \x7b\n\x7d ".toList) ≤ StatusGraph.noGraphBytes ∧
      none = .empty ∧
      (Wire.ofText "[1, 2, 3]" : Except Fault StatusGraph) = .error .mismatch ∧
      StatusGraph.noGraphBytes < byteLength (trim "[1, 2, 3]".toList) ∧
      StatusGraph.ofPayload "[1, 2, 3]" = .error .mismatch := by
  let plain : StatusGraph := ⟨StatusGraph.edgesOf [("a", ["c", "a"])]⟩
  have hplain : Wire.ofText keyTwice = .ok plain := by decide +kernel
  have hnone : Wire.ofText " \x7b\n\x7d " = .ok StatusGraph.empty := by decide +kernel
  have hshort : byteLength (trim " \x7b\n\x7d ".toList) ≤ StatusGraph.noGraphBytes := by
    decide +kernel
  have hlist : (Wire.ofText "[1, 2, 3]" : Except Fault StatusGraph) = .error .mismatch := by
    decide +kernel
  have hlong : StatusGraph.noGraphBytes < byteLength (trim "[1, 2, 3]".toList) := by
    decide +kernel
  exact ⟨plain, .empty, hplain, (payload_as_text keyTwice).1 plain hplain, by decide +kernel,
    hnone, hshort, (payload_as_text _).2.1 .empty hnone hshort, hlist, hlong,
    (payload_as_text _).2.2 .mismatch hlist hlong⟩

/-- The graph of some edges has their statuses and targets as statuses, those that edges start from
with their targets as they are and the others without any; it is its own graph, and the one that
its stored text stands for. -/
theorem graph_of_edges (edges : EdgeMap) :
    (∀ status, ((StatusGraph.ofEdges edges).next status).isSome ↔
      status ∈ edges ∨ StatusGraph.Targeted edges status) ∧
    (∀ status targets, (StatusGraph.ofEdges edges).next status = some targets ↔
      edges[status]? = some targets ∨
        edges[status]? = none ∧ StatusGraph.Targeted edges status ∧ targets = []) ∧
    StatusGraph.ofEdges (StatusGraph.ofEdges edges).edges = StatusGraph.ofEdges edges ∧
    StatusGraph.ofPayload (Wire.toText (StatusGraph.ofEdges edges)) =
      .ok (StatusGraph.ofEdges edges) := by
  have hclosed := StatusGraph.closed_ofEdges edges
  refine ⟨fun status => ?_, fun status targets => StatusGraph.next_ofEdges_eq_some,
    hclosed.ofEdges_eq, hclosed.ofPayload_toText⟩
  rw [StatusGraph.next, Std.ExtTreeMap.isSome_getElem?_iff_mem, StatusGraph.mem_ofEdges]

/-- A status that leads to itself, and one that is mentioned before its own edges. -/
example :
    (StatusGraph.ofEdges (StatusGraph.edgesOf [("0", ["1", "2", "1", "0"]), ("1", ["0"])])).edges =
      StatusGraph.edgesOf [("0", ["1", "2", "1", "0"]), ("1", ["0"]), ("2", [])] := by
  decide +kernel

end RefCache
