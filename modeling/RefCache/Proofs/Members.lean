import RefCache.Proofs.Items
import RefCache.Proofs.Scalars

/-! Types whose written values are read back. Strings, integers, identifiers, and lists and options
of them are such types, and so is a record if each of its fields is: the members that are written
fit the slots of the record one by one, and those that are not written may be missing. -/

namespace RefCache

/-- Every value is read back from the tree of its written form. -/
class Faithful (α : Type) [Wire α] : Prop where
  reads : ∀ a : α, Wire.reader (Json.treeOf (Wire.encode a)) = .ok a

attribute [simp] Faithful.reads

/-- The text of every value is read, and as that value. -/
def Wire.ReadsBack (α : Type) [Wire α] : Prop := ∀ a : α, Wire.ofText (Wire.toText a) = .ok a

theorem Wire.readsBack (α : Type) [Wire α] [Faithful α] : Wire.ReadsBack α := by
  intro a
  rw [ofText, toText, Json.read_render, Faithful.reads]

namespace Json

@[simp] theorem ok_bind {α β : Type} (a : α) (f : α → Except Fault β) :
    ((.ok a : Except Fault α) >>= f) = f a := rfl

theorem bind_eq_ok {α β : Type} {x : Except Fault α} {f : α → Except Fault β} {b : β} :
    (x >>= f) = .ok b ↔ ∃ a, x = .ok a ∧ f a = .ok b := by
  cases x <;> simp [bind, Except.bind]

theorem map_eq_ok {α β : Type} {x : Except Fault α} {f : α → β} {b : β} :
    x.map f = .ok b ↔ ∃ a, x = .ok a ∧ f a = b := by
  cases x <;> simp [Except.map]

/-! ### Plain values, lists and options -/

instance : Faithful String := ⟨readText_treeOf⟩

instance : Faithful Bool := ⟨fun b => by cases b <;> rfl⟩

instance : Faithful Int32 where
  reads i := by
    have hbounds : (-2147483648 : Int) ≤ i.toInt ∧ i.toInt ≤ 2147483647 :=
      ⟨i.minValue_le_toInt, i.toInt_le⟩
    change (readInt32 (treeOf (.int i.toInt))).map Int32.ofInt = .ok i
    rw [readInt32, readInt_treeOf (by decide) (by decide) hbounds]
    exact congrArg Except.ok (Int32.ofInt_toInt i)

instance : Faithful Int64 where
  reads i := by
    have hbounds : (-9223372036854775808 : Int) ≤ i.toInt ∧ i.toInt ≤ 9223372036854775807 :=
      ⟨i.minValue_le_toInt, i.toInt_le⟩
    change (readInt64 (treeOf (.int i.toInt))).map Int64.ofInt = .ok i
    rw [readInt64, readInt_treeOf (Int.le_refl _) (Int.le_refl _) hbounds]
    exact congrArg Except.ok (Int64.ofInt_toInt i)

instance : Faithful Uuid where
  reads u := by
    change readUuid (treeOf (.text u.text)) = .ok u
    simp [readUuid, Uuid.ofText?_text]

variable {α : Type} [Wire α] [Faithful α]

theorem itemsOf_treesOf (as : List α) :
    itemsOf Wire.reader none (treesOf (as.map Wire.encode)) = .ok as := by
  induction as with
  | nil => rfl
  | cons a as ih =>
    rw [List.map_cons, treesOf, itemsOf, Faithful.reads, ih]
    rfl

instance : Faithful (List α) := ⟨itemsOf_treesOf⟩

theorem readOption_treeOf {a : α} (h : Wire.encode a ≠ .null) :
    readOption Wire.reader (treeOf (Wire.encode a)) = .ok (some a) := by
  have hread : ∀ t : Tree, (∀ flaw, t ≠ .word .null flaw) →
      readOption (Wire.reader (α := α)) t = (Wire.reader t).map some := by
    intro t ht
    unfold readOption
    split
    · exact absurd rfl (ht none)
    · exact absurd rfl (ht _)
    · rfl
  rw [hread, Faithful.reads]
  · rfl
  · intro flaw hnull
    revert h hnull
    cases Wire.encode a with
    | null => simp
    | bool b => cases b <;> simp [treeOf]
    | _ => simp [treeOf]

theorem faithful_option (h : ∀ a : α, Wire.encode a ≠ .null) : Faithful (Option α) where
  reads o := by
    cases o with
    | none => rfl
    | some a => exact readOption_treeOf (h a)

instance : Faithful (Option Bool) := faithful_option fun _ h => by cases h

instance : Faithful (Option String) := faithful_option fun _ h => by cases h

instance : Faithful (Option Uuid) := faithful_option fun _ h => by cases h

/-! ### Records -/

/-- The members of a record fit its slots: in their order, with values that the slots accept, and
without those only that need not be there. -/
inductive Fits : List Slot → List (String × Json) → Prop
  | nil : Fits [] []
  | member {s : Slot} {slots : List Slot} {value : Json} {members : List (String × Json)}
      (accepts : s.check (treeOf value) = .ok ()) (later : Fits slots members) :
      Fits (s :: slots) ((s.name, value) :: members)
  | without {s : Slot} {slots : List Slot} {members : List (String × Json)}
      (needless : s.need ≠ .always) (later : Fits slots members) : Fits (s :: slots) members

/-- What a reader has of a record once it has gone through its members. -/
def slotTrees (members : List (String × Json)) : Slots :=
  (members.map fun m => (m.1, treeOf m.2)).reverse

variable {slots : List Slot} {members : List (String × Json)}

namespace Fits

theorem names_sublist (h : Fits slots members) :
    (members.map Prod.fst).Sublist (slots.map Slot.name) := by
  induction h with
  | nil => exact List.Sublist.refl _
  | member _ _ ih => exact ih.cons_cons _
  | without _ _ ih => exact ih.cons _

theorem exists_slot (h : Fits slots members) :
    ∀ m ∈ members, ∃ s ∈ slots, s.name = m.1 ∧ s.check (treeOf m.2) = .ok () := by
  induction h with
  | nil => simp
  | @member s _ _ _ accepts _ ih =>
    rw [List.forall_mem_cons]
    refine ⟨⟨s, by simp, rfl, accepts⟩, fun m hm => ?_⟩
    obtain ⟨s', hs', hname⟩ := ih m hm
    exact ⟨s', List.mem_cons_of_mem _ hs', hname⟩
  | without _ _ ih =>
    intro m hm
    obtain ⟨s', hs', hname⟩ := ih m hm
    exact ⟨s', List.mem_cons_of_mem _ hs', hname⟩

theorem name_mem (h : Fits slots members) :
    ∀ s ∈ slots, s.need = .always → s.name ∈ members.map Prod.fst := by
  induction h with
  | nil => simp
  | member _ _ ih =>
    rw [List.forall_mem_cons]
    exact ⟨fun _ => by simp, fun s hs hneed => by simp [ih s hs hneed]⟩
  | without needless _ ih =>
    rw [List.forall_mem_cons]
    exact ⟨fun hneed => absurd hneed needless, ih⟩

end Fits

theorem lookup_isSome_iff {β : Type} {name : String} {found : List (String × β)} :
    (found.lookup name).isSome ↔ name ∈ found.map Prod.fst := by
  simp only [List.lookup_isSome_iff, beq_iff_eq, List.mem_map]
  exact exists_congr fun _ => and_congr_right fun _ => eq_comm

theorem slotTrees_cons (m : String × Json) (found : Slots) :
    slotTrees (m :: members) ++ found = slotTrees members ++ (m.1, treeOf m.2) :: found := by
  simp [slotTrees]

/-- Members that slots accept, none of them twice, are all found. -/
theorem named_memberTrees {found : Slots}
    (haccepts : ∀ m ∈ members, ∃ s, slots.find? (·.name == m.1) = some s ∧
      s.check (treeOf m.2) = .ok ())
    (hnodup : (members.map Prod.fst ++ found.map Prod.fst).Nodup)
    (hneed : ∀ s ∈ slots, s.need = .always →
      s.name ∈ members.map Prod.fst ++ found.map Prod.fst) :
    named slots none found (memberTrees members) = .ok (slotTrees members ++ found) := by
  induction members generalizing found with
  | nil =>
    have hall : (slots.all fun s => s.need != .always || (found.lookup s.name).isSome) = true := by
      simp only [List.all_eq_true, Bool.or_eq_true, bne_iff_ne, lookup_isSome_iff]
      intro s hs
      by_cases halways : s.need = .always
      · exact Or.inr (hneed s hs halways)
      · exact Or.inl halways
    rw [memberTrees, named, if_pos hall]
    rfl
  | cons m rest ih =>
    rw [List.forall_mem_cons] at haccepts
    obtain ⟨⟨s, hs, hcheck⟩, hrest⟩ := haccepts
    have hperm : (m.1 :: (rest.map Prod.fst ++ found.map Prod.fst)).Perm
        (rest.map Prod.fst ++ ((m.1, treeOf m.2) :: found).map Prod.fst) :=
      List.perm_middle.symm
    have hnew : (found.lookup m.1).isSome = false := by
      rw [List.map_cons, List.cons_append, List.nodup_cons, List.mem_append, not_or] at hnodup
      rw [Bool.eq_false_iff, ne_eq, lookup_isSome_iff]
      exact hnodup.1.2
    have hlater := ih hrest (hperm.nodup_iff.1 hnodup)
      fun s' hs' halways => hperm.mem_iff.1 (hneed s' hs' halways)
    rw [memberTrees, named, slotTrees_cons, ← hlater]
    simp [hs, hcheck, hnew]

/-- A record whose members fit its slots is read from them. -/
theorem Fits.read_object (h : Fits slots members) (hnodup : (slots.map Slot.name).Nodup) :
    readSlots slots (treeOf (.object members)) = .ok (slotTrees members) := by
  have haccepts : ∀ m ∈ members, ∃ s, slots.find? (·.name == m.1) = some s ∧
      s.check (treeOf m.2) = .ok () := by
    intro m hm
    obtain ⟨s, hs, hname, hcheck⟩ := h.exists_slot m hm
    exact ⟨s, (Indexes.find?_key_eq_some hnodup).2 ⟨hs, hname⟩, hcheck⟩
  have hnames := hnodup.sublist h.names_sublist
  have hnodup' : (members.map Prod.fst ++ ([] : Slots).map Prod.fst).Nodup := by simpa using hnames
  have hread := named_memberTrees haccepts hnodup'
    fun s hs halways => List.mem_append_left _ (h.name_mem s hs halways)
  rw [treeOf, readSlots, hread, List.append_nil]

theorem check_field (name : String) (a : α) :
    (Wire.field name α).check (treeOf (Wire.encode a)) = .ok () := by
  change (Wire.reader (treeOf (Wire.encode a))).map _ = _
  rw [Faithful.reads]
  rfl

/-- The same slot, whether it has to be found or not. -/
theorem check_needing (name : String) (need : Need) (a : α) :
    { Wire.field name α with need := need }.check (treeOf (Wire.encode a)) = .ok () :=
  check_field name a

/-- A record is read back if its fields are read back from what its slots found. -/
theorem Fits.reads {β : Type} {build : Slots → Except Fault β} {b : β} (h : Fits slots members)
    (hnodup : (slots.map Slot.name).Nodup) (hbuild : build (slotTrees members) = .ok b) :
    (readSlots slots (treeOf (.object members)) >>= build) = .ok b := by
  rw [h.read_object hnodup]
  exact hbuild

@[simp] theorem reader_text (s : String) : Wire.reader (treeOf (.text s)) = .ok s :=
  Faithful.reads s

@[simp] theorem reader_bool (b : Bool) : Wire.reader (treeOf (.bool b)) = .ok b :=
  Faithful.reads b

end Json

end RefCache
