import RefCache.Proofs.Payloads

/-! What stored payloads hold. Options are the members of an object, or the first four places of an
array. In a graph the last member with a key counts, and every target is a status. The project of a
row has the columns of the row and what its two payloads hold. -/

namespace RefCache

open Json

namespace ProjectOptions

/-! ### Options -/

def fieldNames : List String :=
  ["require_cancelation_comment", "require_done_comment", "status_enable", "color"]

/-- The options of the fields of a record. What stands under other names is at least sound. -/
structure Given (fields : List (String × Tree)) (o : ProjectOptions) : Prop where
  cancelationComment :
    HoldsField HoldsBool o.cancelationComment (valuesOf fields "require_cancelation_comment")
  doneComment : HoldsField HoldsBool o.doneComment (valuesOf fields "require_done_comment")
  statusEnable : HoldsField HoldsBool o.statusEnable (valuesOf fields "status_enable")
  color : HoldsField HoldsText o.color (valuesOf fields "color")
  others : ∀ m ∈ fields, m.1 ∉ fieldNames → skip m.2 = .ok ()

def HeldBy (t : Tree) (o : ProjectOptions) : Prop :=
  ∃ fields, HoldsFields fieldNames fields t ∧ o.Given fields

theorem readBool_option_eq_ok (o : Option Bool) (t : Tree) :
    Wire.reader t = .ok o ↔ HoldsOption HoldsBool o t :=
  readOption_eq_ok (fun _ _ => readBool_eq_ok) (by intro b flaw h; cases h)

theorem readText_option_eq_ok (o : Option String) (t : Tree) :
    Wire.reader t = .ok o ↔ HoldsOption HoldsText o t :=
  readOption_eq_ok (fun _ _ => readText_eq_ok) (by intro s flaw h; exact h)

theorem need_never : ∀ s ∈ slots, s.need = .never := by simp [slots]

theorem nodup_names : (slots.map Slot.name).Nodup := by decide

/-- Fields that give options are found by the slots of the options. -/
theorem Given.exists_found {fields : List (String × Tree)} {o : ProjectOptions} {t : Tree}
    (h : o.Given fields) (hfields : HoldsFields fieldNames fields t) :
    ∃ found, readSlots slots t = .ok found ∧
      ∀ s ∈ slots, valuesOf fields s.name = (found.lookup s.name).toList := by
  obtain ⟨honce₁, haccepts₁⟩ := h.cancelationComment.accepted readBool_option_eq_ok
  obtain ⟨honce₂, haccepts₂⟩ := h.doneComment.accepted readBool_option_eq_ok
  obtain ⟨honce₃, haccepts₃⟩ := h.statusEnable.accepted readBool_option_eq_ok
  obtain ⟨honce₄, haccepts₄⟩ := h.color.accepted readText_option_eq_ok
  have honce : ∀ s ∈ slots, (valuesOf fields s.name).length ≤ 1 := by
    simp only [slots, List.forall_mem_cons]
    exact ⟨honce₁, honce₂, honce₃, honce₄, by simp⟩
  have haccepts : ∀ s ∈ slots, ∀ t ∈ valuesOf fields s.name, s.check t = .ok () := by
    simp only [slots, List.forall_mem_cons]
    exact ⟨haccepts₁, haccepts₂, haccepts₃, haccepts₄, by simp⟩
  obtain ⟨found, hfound⟩ := exists_readSlots need_never hfields h.others honce haccepts
  exact ⟨found, hfound, (lookup_of_readSlots need_never nodup_names hfields hfound).2⟩

theorem reader_eq_ok {o : ProjectOptions} {t : Tree} : Wire.reader t = .ok o ↔ o.HeldBy t := by
  constructor
  · intro h
    obtain ⟨found, hfound, h⟩ := bind_eq_ok.1 h
    obtain ⟨cancelation, hcancelation, h⟩ := bind_eq_ok.1 h
    obtain ⟨done, hdone, h⟩ := bind_eq_ok.1 h
    obtain ⟨enable, henable, h⟩ := bind_eq_ok.1 h
    obtain ⟨color, hcolor, h⟩ := bind_eq_ok.1 h
    obtain rfl := Except.ok.inj h
    obtain ⟨fields, hfields⟩ := exists_fields_of_readSlots need_never hfound
    obtain ⟨hothers, hvalues⟩ := lookup_of_readSlots need_never nodup_names hfields hfound
    simp only [slots, List.forall_mem_cons] at hvalues
    obtain ⟨hvalues₁, hvalues₂, hvalues₃, hvalues₄, -⟩ := hvalues
    exact ⟨fields, hfields, (optionalField_eq_ok readBool_option_eq_ok hvalues₁).1 hcancelation,
      (optionalField_eq_ok readBool_option_eq_ok hvalues₂).1 hdone,
      (optionalField_eq_ok readBool_option_eq_ok hvalues₃).1 henable,
      (optionalField_eq_ok readText_option_eq_ok hvalues₄).1 hcolor, hothers⟩
  · rintro ⟨fields, hfields, hgiven⟩
    obtain ⟨found, hfound, hvalues⟩ := hgiven.exists_found hfields
    simp only [slots, List.forall_mem_cons] at hvalues
    obtain ⟨hvalues₁, hvalues₂, hvalues₃, hvalues₄, -⟩ := hvalues
    refine bind_eq_ok.2 ⟨found, hfound, bind_eq_ok.2 ⟨_, ?_, bind_eq_ok.2 ⟨_, ?_, bind_eq_ok.2
      ⟨_, ?_, bind_eq_ok.2 ⟨_, ?_, rfl⟩⟩⟩⟩⟩
    · exact (optionalField_eq_ok readBool_option_eq_ok hvalues₁).2 hgiven.cancelationComment
    · exact (optionalField_eq_ok readBool_option_eq_ok hvalues₂).2 hgiven.doneComment
    · exact (optionalField_eq_ok readBool_option_eq_ok hvalues₃).2 hgiven.statusEnable
    · exact (optionalField_eq_ok readText_option_eq_ok hvalues₄).2 hgiven.color

/-- A payload is null, which leaves all options unset, or has a record of them. -/
def StoredIn (raw : String) (o : ProjectOptions) : Prop :=
  (document raw.toList).trailing = false ∧
    ((document raw.toList).root = .word .null none ∧ o = ⟨none, none, none, none⟩ ∨
      o.HeldBy (document raw.toList).root)

theorem ofPayload_eq_ok {raw : String} {o : ProjectOptions} :
    ofPayload raw = .ok o ↔ o.StoredIn raw := by
  have hread : ∀ (x : Option ProjectOptions) (t : Tree), Wire.reader t = .ok x ↔
      HoldsOption (fun o t => o.HeldBy t) x t := fun x t =>
    readOption_eq_ok (fun _ _ => reader_eq_ok) (fun o flaw h => by cases reader_eq_ok.2 h)
  rw [ofPayload, map_eq_ok]
  simp only [Wire.ofText, read_eq_ok, hread, StoredIn]
  constructor
  · rintro ⟨x, ⟨hend, hx⟩, rfl⟩
    refine ⟨hend, ?_⟩
    generalize (document raw.toList).root = t at hx ⊢
    cases hx with
    | null => exact .inl ⟨rfl, rfl⟩
    | value h => exact .inr h
  · rintro ⟨hend, ⟨hnull, rfl⟩ | hheld⟩
    · exact ⟨none, ⟨hend, by rw [hnull]; exact .null⟩, rfl⟩
    · exact ⟨some o, ⟨hend, .value hheld⟩, rfl⟩

/-- The options in order, of which the last two are missing. -/
example : ofPayload "[true, null]" = .ok ⟨some true, none, none, none⟩ := by decide +kernel

end ProjectOptions

namespace StatusGraph

/-! ### Graphs -/

variable {members : List (String × List String)} {g : StatusGraph}

/-- Of the members with one key the last one counts, and a target without a member is a status that
nothing follows. -/
def MadeOf (members : List (String × List String)) (g : StatusGraph) : Prop :=
  ∀ status targets, g.next status = some targets ↔
    members.reverse.lookup status = some targets ∨
      members.reverse.lookup status = none ∧
        (∃ source others, members.reverse.lookup source = some others ∧ status ∈ others) ∧
        targets = []

theorem madeOf_iff : g.MadeOf members ↔ g = ofEdges (edgesOf members) := by
  have hnext : (ofEdges (edgesOf members)).MadeOf members := by
    intro status targets
    simp only [next_ofEdges_eq_some, Targeted, getElem?_edgesOf]
  constructor
  · intro h
    have hedges : g.edges = (ofEdges (edgesOf members)).edges :=
      Std.ExtTreeMap.ext_getElem? fun status => Option.ext fun targets =>
        (h status targets).trans (hnext status targets).symm
    calc g = ⟨g.edges⟩ := rfl
      _ = ofEdges (edgesOf members) := by rw [hedges]
  · rintro rfl
    exact hnext

/-- A payload of at most five bytes has no statuses, a longer one is an object of lists of
strings. -/
def StoredIn (raw : String) (g : StatusGraph) : Prop :=
  if byteLength (trim raw.toList) ≤ 5 then ∀ status, g.next status = none
  else (document raw.toList).trailing = false ∧
    ∃ members, HoldsMembers (HoldsList HoldsText) members (document raw.toList).root ∧
      g.MadeOf members

theorem ofPayload_eq_ok {raw : String} : ofPayload raw = .ok g ↔ g.StoredIn raw := by
  have hread : ∀ members t, readMembers t = .ok members ↔
      HoldsMembers (HoldsList HoldsText) members t := fun _ _ =>
    readMembers_eq_ok fun _ _ => readList_eq_ok fun _ _ => readText_eq_ok
  unfold ofPayload StoredIn noGraphBytes
  split
  · constructor
    · intro h status
      obtain rfl := Except.ok.inj h
      simp [next, empty]
    · intro hnone
      have hedges : g.edges = ∅ := Std.ExtTreeMap.ext_getElem? fun status =>
        (hnone status).trans (by simp)
      calc Except.ok empty = .ok ⟨∅⟩ := rfl
        _ = .ok g := by rw [← hedges]
  · simp only [map_eq_ok, read_eq_ok, hread, madeOf_iff]
    constructor
    · rintro ⟨members, ⟨hend, hmembers⟩, rfl⟩
      exact ⟨hend, members, hmembers, rfl⟩
    · rintro ⟨hend, members, hmembers, rfl⟩
      exact ⟨members, ⟨hend, hmembers⟩, rfl⟩

end StatusGraph

/-! ### Projects -/

/-- A project has the columns of a row and what the payloads of the row hold. -/
structure Project.DecodedFrom (row : ProjectRow) (project : Project) : Prop where
  uuid : project.uuid = row.uuid
  name : project.name = row.name
  company : project.company = row.company
  federation : project.federation = row.federation
  statusGraph : project.statusGraph.StoredIn row.statusGraph
  options : project.options.StoredIn row.options

end RefCache
