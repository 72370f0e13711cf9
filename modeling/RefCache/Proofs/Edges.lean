import RefCache.StatusGraph
import Mathlib.Data.List.Induction

/-! Graphs of statuses as maps. The members of a text make a map in which the last member with a
key counts, and a map is made again from its own members. Adding edges to a graph adds the status
that they start from and their targets, and lengthens the targets of that status only; so the graph
of some edges has as statuses all that the edges mention. -/

namespace RefCache

namespace StatusGraph

/-! ### Maps from members -/

/-- Of the members with one key the last one counts. -/
theorem getElem?_edgesOf (members : List (String × List String)) (status : String) :
    (edgesOf members)[status]? = members.reverse.lookup status := by
  induction members using List.reverseRecOn with
  | nil => simp [edgesOf]
  | append_singleton members m ih =>
    obtain ⟨key, value⟩ := m
    have hlast : edgesOf (members ++ [(key, value)]) = (edgesOf members).insert key value := by
      rw [edgesOf, List.foldl_append]
      rfl
    rw [hlast, Std.ExtTreeMap.getElem?_insert, ih, List.reverse_append, List.reverse_singleton,
      List.singleton_append, List.lookup_cons]
    by_cases hkey : key = status
    · simp [hkey]
    · have hne : (status == key) = false := by simpa using fun h => hkey h.symm
      simp [hkey, hne]

theorem lookup_eq_some_iff {entries : List (String × List String)}
    (h : entries.Pairwise fun a b => a.1 ≠ b.1) {status : String} {targets : List String} :
    entries.lookup status = some targets ↔ (status, targets) ∈ entries := by
  induction entries with
  | nil => simp
  | cons e entries ih =>
    obtain ⟨key, value⟩ := e
    rw [List.pairwise_cons] at h
    rw [List.lookup_cons, List.mem_cons, Prod.mk.injEq]
    by_cases hkey : status = key
    · subst hkey
      have hout : (status, targets) ∉ entries := fun hmem => h.1 _ hmem rfl
      simp [hout, eq_comm]
    · have hne : (status == key) = false := by simpa using hkey
      simp [hne, hkey, ih h.2]

theorem pairwise_toList (edges : EdgeMap) : edges.toList.Pairwise fun a b => a.1 ≠ b.1 :=
  Std.ExtTreeMap.distinct_keys_toList.imp fun hne heq =>
    hne (by rw [heq]; exact Std.ReflCmp.compare_self)

/-- A graph is made again from the members that it is written as. -/
theorem edgesOf_toList (edges : EdgeMap) : edgesOf edges.toList = edges := by
  have hdistinct : edges.toList.reverse.Pairwise fun a b => a.1 ≠ b.1 :=
    List.pairwise_reverse.2 ((pairwise_toList edges).imp Ne.symm)
  refine Std.ExtTreeMap.ext_getElem? fun status => Option.ext fun targets => ?_
  rw [getElem?_edgesOf, lookup_eq_some_iff hdistinct, List.mem_reverse,
    Std.ExtTreeMap.mem_toList_iff_getElem?_eq_some]

/-! ### Adding edges -/

variable {g : EdgeMap} {edge : String × List String} {status : String}

theorem mem_foldl_addStatus {targets : List String} :
    status ∈ targets.foldl addStatus g ↔ status ∈ g ∨ status ∈ targets := by
  induction targets generalizing g with
  | nil => simp
  | cons t targets ih =>
    rw [List.foldl_cons, ih, addStatus, Std.ExtTreeMap.mem_insertIfNew,
      Std.LawfulEqCmp.compare_eq_iff_eq, List.mem_cons]
    grind

/-- Statuses are added without targets. -/
theorem getD_foldl_addStatus {targets : List String} :
    (targets.foldl addStatus g).getD status [] = g.getD status [] := by
  induction targets generalizing g with
  | nil => rfl
  | cons t targets ih =>
    rw [List.foldl_cons, ih, addStatus, Std.ExtTreeMap.getD_insertIfNew]
    split
    · next h =>
      obtain ⟨rfl, hout⟩ := by simpa using h
      rw [Std.ExtTreeMap.getD_eq_fallback hout]
    · rfl

theorem mem_addEdges :
    status ∈ addEdges g edge ↔ status ∈ g ∨ status = edge.1 ∨ status ∈ edge.2 := by
  rw [addEdges, Std.ExtTreeMap.mem_alter, mem_foldl_addStatus]
  split
  · next h => simp [Std.LawfulEqCmp.compare_eq_iff_eq.1 h]
  · next h =>
    have hne : status ≠ edge.1 := fun heq => h (by simp [heq])
    simp [hne]

theorem getD_addEdges :
    (addEdges g edge).getD status [] =
      g.getD status [] ++ if edge.1 = status then edge.2 else [] := by
  rw [addEdges, Std.ExtTreeMap.getD_alter]
  split
  · next h =>
    obtain rfl := Std.LawfulEqCmp.compare_eq_iff_eq.1 h
    rw [← Std.ExtTreeMap.getD_eq_getD_getElem?, getD_foldl_addStatus]
    simp
  · next h =>
    have hne : edge.1 ≠ status := fun heq => h (by simp [heq])
    rw [getD_foldl_addStatus, if_neg hne, List.append_nil]

variable {edges : List (String × List String)}

theorem mem_foldl_addEdges :
    status ∈ edges.foldl addEdges g ↔
      status ∈ g ∨ ∃ e ∈ edges, status = e.1 ∨ status ∈ e.2 := by
  induction edges generalizing g with
  | nil => simp
  | cons e edges ih =>
    simp only [List.foldl_cons, ih, mem_addEdges, List.mem_cons, exists_eq_or_imp, or_assoc]

theorem getD_foldl_addEdges :
    (edges.foldl addEdges g).getD status [] =
      g.getD status [] ++ (edges.filter (·.1 = status)).flatMap Prod.snd := by
  induction edges generalizing g with
  | nil => simp
  | cons e edges ih =>
    rw [List.foldl_cons, ih, getD_addEdges, List.append_assoc]
    by_cases he : e.1 = status <;> simp [he]

/-! ### The graph of some edges -/

theorem flatMap_filter_eq_lookup {entries : List (String × List String)}
    (h : entries.Pairwise fun a b => a.1 ≠ b.1) (status : String) :
    (entries.filter (·.1 = status)).flatMap Prod.snd = (entries.lookup status).getD [] := by
  induction entries with
  | nil => rfl
  | cons e entries ih =>
    obtain ⟨key, targets⟩ := e
    rw [List.pairwise_cons] at h
    rw [List.lookup_cons]
    by_cases hkey : key = status
    · subst hkey
      have hrest : entries.filter (·.1 = key) = [] := by
        refine List.filter_eq_nil_iff.2 fun e he heq => ?_
        exact h.1 e he (of_decide_eq_true heq).symm
      simp [hrest]
    · have hne : (status == key) = false := by simpa using fun heq => hkey heq.symm
      simp [hkey, hne, ih h.2]

/-- The status follows on one of the edges. -/
def Targeted (edges : EdgeMap) (status : String) : Prop :=
  ∃ (source : String) (targets : List String), edges[source]? = some targets ∧ status ∈ targets

theorem mem_ofEdges {edges : EdgeMap} :
    status ∈ (ofEdges edges).edges ↔ status ∈ edges ∨ Targeted edges status := by
  have hentry : ∀ (source : String) (targets : List String),
      (source, targets) ∈ edges.toList ↔ edges[source]? = some targets := fun _ _ =>
    Std.ExtTreeMap.mem_toList_iff_getElem?_eq_some
  rw [ofEdges, mem_foldl_addEdges]
  simp only [Std.ExtTreeMap.not_mem_empty, false_or, Prod.exists, hentry, Targeted]
  constructor
  · rintro ⟨source, targets, hedge, rfl | htarget⟩
    · exact .inl (Std.ExtTreeMap.isSome_getElem?_iff_mem.1 (by rw [hedge]; rfl))
    · exact .inr ⟨source, targets, hedge, htarget⟩
  · rintro (hmem | ⟨source, targets, hedge, htarget⟩)
    · obtain ⟨targets, hedge⟩ :=
        Option.isSome_iff_exists.1 (Std.ExtTreeMap.isSome_getElem?_iff_mem.2 hmem)
      exact ⟨status, targets, hedge, .inl rfl⟩
    · exact ⟨source, targets, hedge, .inr htarget⟩

theorem getD_ofEdges {edges : EdgeMap} :
    (ofEdges edges).edges.getD status [] = edges.getD status [] := by
  have hlookup : edges.toList.lookup status = edges[status]? := by
    refine Option.ext fun targets => ?_
    rw [lookup_eq_some_iff (pairwise_toList edges),
      Std.ExtTreeMap.mem_toList_iff_getElem?_eq_some]
  rw [ofEdges, getD_foldl_addEdges, flatMap_filter_eq_lookup (pairwise_toList edges), hlookup,
    Std.ExtTreeMap.getD_empty, List.nil_append, Std.ExtTreeMap.getD_eq_getD_getElem?]

/-- A map is told by its statuses and by what follows them. -/
theorem getElem?_eq_some_iff {targets : List String} :
    g[status]? = some targets ↔ status ∈ g ∧ g.getD status [] = targets := by
  rw [← Std.ExtTreeMap.isSome_getElem?_iff_mem, Std.ExtTreeMap.getD_eq_getD_getElem?]
  cases g[status]? <;> simp

/-- What edges start from keeps its targets, and any other status has none. -/
theorem next_ofEdges_eq_some {edges : EdgeMap} {targets : List String} :
    (ofEdges edges).next status = some targets ↔
      edges[status]? = some targets ∨
        edges[status]? = none ∧ Targeted edges status ∧ targets = [] := by
  rw [next, getElem?_eq_some_iff, mem_ofEdges, getD_ofEdges, getElem?_eq_some_iff]
  by_cases hmem : status ∈ edges
  · simp [hmem]
  · simp [hmem, Std.ExtTreeMap.getD_eq_fallback hmem, eq_comm]

/-- What follows in a graph of edges was the target of one of them, and so is a status of it. -/
theorem closed_ofEdges (edges : EdgeMap) : (ofEdges edges).Closed := by
  intro status targets hnext t ht
  rw [next, Std.ExtTreeMap.isSome_getElem?_iff_mem, mem_ofEdges]
  rcases next_ofEdges_eq_some.1 hnext with hedge | ⟨-, -, rfl⟩
  · exact .inr ⟨status, targets, hedge, ht⟩
  · cases ht

end StatusGraph

end RefCache
