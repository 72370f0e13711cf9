import RefCache.Proofs.Edges
import RefCache.Proofs.Members
import RefCache.Record

/-! Every value of every record type is read back from its text. The members of a record fit its
slots in order, a user without a federation has no member for it, and a graph of statuses is read
member by member into the map that it was written from. -/

namespace RefCache

open Json

/-! ### Graphs of statuses -/

theorem Json.membersOf_memberTrees {α : Type} [Wire α] [Faithful α]
    (entries : List (String × α)) :
    membersOf Wire.reader none (memberTrees (entries.map fun e => (e.1, Wire.encode e.2))) =
      .ok entries := by
  induction entries with
  | nil => rfl
  | cons e entries ih =>
    rw [List.map_cons, memberTrees, membersOf, keyText_textToken, Faithful.reads, ih]
    rfl

instance : Faithful StatusGraph where
  reads g := by
    have hmembers : StatusGraph.readMembers (treeOf (Wire.encode g)) = .ok g.edges.toList :=
      membersOf_memberTrees g.edges.toList
    change (StatusGraph.readMembers (treeOf (Wire.encode g))).map _ = _
    rw [hmembers]
    exact congrArg (fun edges => Except.ok (StatusGraph.mk edges))
      (StatusGraph.edgesOf_toList g.edges)

/-! ### Records -/

instance : Faithful Category where
  reads c := by
    change readVariant Category.ofName? (treeOf (.text c.name)) = .ok c
    have hname : (pieceChars none (c.name.toList.map pieceOf)).map String.ofList = .ok c.name :=
      readText_treeOf c.name
    simp [treeOf, readVariant, hname, Category.ofName?_name]

instance : Faithful ProjectOptions where
  reads o := Fits.reads
    (.member (check_needing "require_cancelation_comment" .never o.cancelationComment) <|
      .member (check_needing "require_done_comment" .never o.doneComment) <|
      .member (check_needing "status_enable" .never o.statusEnable) <|
      .member (check_needing "color" .never o.color) .nil)
    (by decide)
    (by simp [optionalField, slotTrees, List.lookup_cons])

instance : Faithful Photo where
  reads p := Fits.reads
    (.member (check_field _ p.small) <| .member (check_field _ p.medium) <|
      .member (check_field _ p.large) .nil)
    (by decide)
    (by simp [fieldOf, slotTrees, List.lookup_cons])

/-- The federation of a user is written only if there is one, and is read as one that is there. -/
theorem reader_federation (f : Uuid) :
    Wire.reader (treeOf (Wire.encode f)) = .ok (some f) :=
  Faithful.reads (some f)

theorem User.fits (u : User) :
    Fits User.slots (u.plainMembers ++ [("photo", Wire.encode u.photo)]) := by
  have hphoto : Fits [Wire.field "photo" Photo] [("photo", Wire.encode u.photo)] :=
    .member (check_field _ u.photo) .nil
  have hfederation : Fits (User.slots.drop 7)
      (u.federation.toList.map (fun f => ("federation_uuid", Wire.encode f)) ++
        [("photo", Wire.encode u.photo)]) := by
    cases u.federation with
    | none => exact .without (by decide) hphoto
    | some f =>
      have hwritten : Wire.encode f = Wire.encode (some f) := rfl
      rw [Option.toList_some, List.map_singleton, hwritten]
      exact .member (check_needing "federation_uuid" .inArray (some f)) hphoto
  exact .member (check_field _ u.uuid) <| .member (check_field _ u.name) <|
    .member (check_field _ u.lastName) <| .member (check_field _ u.patronymic) <|
    .member (check_field _ u.email) <| .member (check_field _ u.phone) <|
    .member (check_field _ u.hasPhoto) hfederation

instance : Faithful User where
  reads u := Fits.reads u.fits (by decide) (by
    obtain ⟨_, _, _, _, _, _, _, federation, _⟩ := u
    cases federation <;>
      simp [fieldOf, optionalField, slotTrees, List.lookup_cons,
        User.plainMembers, reader_federation])

instance : Faithful Federation where
  reads f := Fits.reads
    (.member (check_field _ f.uuid) <| .member (check_field _ f.name) .nil)
    (by decide)
    (by simp [fieldOf, slotTrees, List.lookup_cons])

instance : Faithful Company where
  reads c := Fits.reads
    (.member (check_field _ c.uuid) <| .member (check_field _ c.name) <|
      .member (check_field _ c.federation) .nil)
    (by decide)
    (by simp [fieldOf, slotTrees, List.lookup_cons])

instance : Faithful Project where
  reads p := Fits.reads
    (.member (check_field _ p.uuid) <| .member (check_field _ p.name) <|
      .member (check_field _ p.company) <| .member (check_field _ p.federation) <|
      .member (check_field _ p.statusGraph) <| .member (check_field _ p.options) .nil)
    (by decide)
    (by simp [fieldOf, slotTrees, List.lookup_cons])

instance : Faithful Tag where
  reads t := Fits.reads
    (.member (check_field _ t.uuid) <| .member (check_field _ t.name) <|
      .member (check_field _ t.color) .nil)
    (by decide)
    (by simp [fieldOf, slotTrees, List.lookup_cons])

instance : Faithful CompanyField where
  reads f := Fits.reads
    (.member (check_field _ f.hash) <| .member (check_field _ f.name) <|
      .member (check_field _ f.dataType) <| .member (check_field _ f.projects) .nil)
    (by decide)
    (by simp [fieldOf, slotTrees, List.lookup_cons])

instance : Faithful ProjectField where
  reads f := Fits.reads
    (.member (check_field _ f.hash) <| .member (check_field _ f.name) <|
      .member (check_field _ f.dataType) <| .member (check_field _ f.requiredOnStatuses) <|
      .member (check_field _ f.style) <| .member (check_field _ f.project) .nil)
    (by decide)
    (by simp [fieldOf, slotTrees, List.lookup_cons])

instance : Faithful CatalogField where
  reads f := Fits.reads
    (.member (check_field _ f.hash) <| .member (check_field _ f.name) <|
      .member (check_field _ f.dataType) .nil)
    (by decide)
    (by simp [fieldOf, slotTrees, List.lookup_cons])

instance : Faithful CompanyPriority where
  reads p := Fits.reads
    (.member (check_field _ p.uuid) <| .member (check_field _ p.name) <|
      .member (check_field _ p.number) <| .member (check_field _ p.color) .nil)
    (by decide)
    (by simp [fieldOf, slotTrees, List.lookup_cons])

instance : Faithful UserSearch where
  reads s := Fits.reads
    (.member (check_field _ s.federation) <| .member (check_field _ s.text) .nil)
    (by decide)
    (by simp [fieldOf, slotTrees, List.lookup_cons])

/-- Whatever strings, numbers, identifiers, lists and statuses a record holds, it is read back from
its text as it was, with what it leaves out and what it writes as null. -/
theorem records_read_back :
    Wire.ReadsBack Photo ∧ Wire.ReadsBack User ∧ Wire.ReadsBack Federation ∧
    Wire.ReadsBack Company ∧ Wire.ReadsBack Project ∧ Wire.ReadsBack Tag ∧
    Wire.ReadsBack CompanyField ∧ Wire.ReadsBack ProjectField ∧ Wire.ReadsBack CatalogField ∧
    Wire.ReadsBack CompanyPriority ∧ Wire.ReadsBack UserSearch ∧ Wire.ReadsBack ProjectOptions ∧
    Wire.ReadsBack StatusGraph ∧ Wire.ReadsBack Category :=
  ⟨Wire.readsBack Photo, Wire.readsBack User, Wire.readsBack Federation,
    Wire.readsBack Company, Wire.readsBack Project, Wire.readsBack Tag,
    Wire.readsBack CompanyField, Wire.readsBack ProjectField, Wire.readsBack CatalogField,
    Wire.readsBack CompanyPriority, Wire.readsBack UserSearch, Wire.readsBack ProjectOptions,
    Wire.readsBack StatusGraph, Wire.readsBack Category⟩

end RefCache
