import RefCache.Proofs.Members

/-! What a tree holds. A string, a truth value, a list, a map or a record of optional fields is told
here by the parts of its tree, apart from the readers; a reader succeeds on such trees and on no
others, with what they hold. Of the fields of a record none may be there twice, and what stands
under other names only has to be sound. -/

namespace RefCache

namespace Json

/-! ### What a tree holds -/

/-- The characters of a string, one that ends properly. -/
def HoldsChars (s : String) (pieces : List Piece) (flaw : Option Fault) : Prop :=
  flaw = none ∧ pieceChars none pieces = .ok s.toList

def HoldsKey (s : String) : Token → Prop
  | .text pieces flaw => HoldsChars s pieces flaw
  | _ => False

def HoldsText (s : String) : Tree → Prop
  | .text pieces flaw => HoldsChars s pieces flaw
  | _ => False

inductive HoldsBool : Bool → Tree → Prop
  | yes : HoldsBool true (.word .yes none)
  | no : HoldsBool false (.word .no none)

/-- Null holds nothing. -/
inductive HoldsOption {α : Type} (holds : α → Tree → Prop) : Option α → Tree → Prop
  | null : HoldsOption holds none (.word .null none)
  | value {a : α} {t : Tree} (h : holds a t) : HoldsOption holds (some a) t

def HoldsList {α : Type} (holds : α → Tree → Prop) (as : List α) (t : Tree) : Prop :=
  ∃ items, t = .array items none ∧ List.Forall₂ holds as items

structure HoldsMember {α : Type} (holds : α → Tree → Prop) (m : String × α) (e : Token × Tree) :
    Prop where
  key : HoldsKey m.1 e.1
  value : holds m.2 e.2

/-- The members of an object, in the order of the text, repetitions included. -/
def HoldsMembers {α : Type} (holds : α → Tree → Prop) (members : List (String × α)) (t : Tree) :
    Prop :=
  ∃ trees, t = .object trees none ∧ List.Forall₂ (HoldsMember holds) members trees

theorem flaw_of_pieceChars {flaw : Option Fault} {pieces : List Piece} {cs : List Char}
    (h : pieceChars flaw pieces = .ok cs) : flaw = none := by
  fun_induction pieceChars flaw pieces generalizing cs with
  | case1 fault => cases h
  | case2 => assumption
  | case3 c rest ih =>
    obtain ⟨_, hrest, _⟩ := map_eq_ok.1 h
    exact ih hrest
  | case4 => cases h
  | case5 high _ _ low later _ ih =>
    -- a pair of surrogates, the only place where two pieces are read at once
    obtain ⟨_, hlater, _⟩ := map_eq_ok.1 h
    exact ih hlater
  | case6 => cases h
  | case7 => cases h
  | case8 => cases h
  | case9 high rest _ _ ih =>
    obtain ⟨_, hrest, _⟩ := map_eq_ok.1 h
    exact ih hrest

theorem pieceChars_eq_ok {pieces : List Piece} {flaw : Option Fault} {s : String} :
    (pieceChars flaw pieces).map String.ofList = .ok s ↔ HoldsChars s pieces flaw := by
  rw [map_eq_ok]
  constructor
  · rintro ⟨cs, hcs, rfl⟩
    obtain rfl := flaw_of_pieceChars hcs
    exact ⟨rfl, by rwa [String.toList_ofList]⟩
  · rintro ⟨rfl, hcs⟩
    exact ⟨_, hcs, String.ofList_toList⟩

theorem keyText_eq_ok {key : Token} {s : String} : keyText key = .ok s ↔ HoldsKey s key := by
  cases key with
  | text pieces flaw => exact pieceChars_eq_ok
  | _ => simp [keyText, HoldsKey]

theorem readText_eq_ok {s : String} {t : Tree} : readText t = .ok s ↔ HoldsText s t := by
  cases t with
  | text pieces flaw => exact pieceChars_eq_ok
  | _ => simp [readText, HoldsText]

theorem readBool_eq_ok {b : Bool} {t : Tree} : readBool t = .ok b ↔ HoldsBool b t := by
  constructor
  · intro h
    unfold readBool at h
    split at h
    · obtain rfl := Except.ok.inj h
      exact .yes
    · obtain rfl := Except.ok.inj h
      exact .no
    · cases h
  · rintro (_ | _) <;> rfl

section Containers

variable {α : Type} {read : Read α} {holds : α → Tree → Prop} {flaw : Option Fault}

theorem readOption_eq_ok (h : ∀ a t, read t = .ok a ↔ holds a t)
    (hnull : ∀ a flaw, ¬ holds a (.word .null flaw)) {o : Option α} {t : Tree} :
    readOption read t = .ok o ↔ HoldsOption holds o t := by
  constructor
  · intro hread
    unfold readOption at hread
    split at hread
    · obtain rfl := Except.ok.inj hread
      exact .null
    · cases hread
    · obtain ⟨a, ha, rfl⟩ := map_eq_ok.1 hread
      exact .value ((h a _).1 ha)
  · rintro (_ | @⟨a, t, hholds⟩)
    · rfl
    · have hread := (h a t).2 hholds
      unfold readOption
      split
      · exact absurd hholds (hnull a none)
      · exact absurd hholds (hnull a _)
      · exact map_eq_ok.2 ⟨a, hread, rfl⟩

theorem itemsOf_eq_ok (h : ∀ a t, read t = .ok a ↔ holds a t) {items : List Tree} {as : List α} :
    itemsOf read flaw items = .ok as ↔ flaw = none ∧ List.Forall₂ holds as items := by
  induction items generalizing as with
  | nil => cases flaw <;> simp [itemsOf, eq_comm]
  | cons t items ih =>
    simp only [itemsOf, bind_eq_ok, h, ih, Except.ok.injEq]
    constructor
    · rintro ⟨a, ha, later, ⟨hflaw, hlater⟩, rfl⟩
      exact ⟨hflaw, .cons ha hlater⟩
    · rintro ⟨hflaw, hall⟩
      cases hall with
      | cons ha hlater => exact ⟨_, ha, _, ⟨hflaw, hlater⟩, rfl⟩

theorem readList_eq_ok (h : ∀ a t, read t = .ok a ↔ holds a t) {as : List α} {t : Tree} :
    readList read t = .ok as ↔ HoldsList holds as t := by
  cases t with
  | array items flaw =>
    refine (itemsOf_eq_ok h).trans ⟨?_, ?_⟩
    · rintro ⟨rfl, hitems⟩
      exact ⟨items, rfl, hitems⟩
    · rintro ⟨_, heq, hitems⟩
      cases heq
      exact ⟨rfl, hitems⟩
  | _ => simp [readList, HoldsList]

theorem membersOf_eq_ok (h : ∀ a t, read t = .ok a ↔ holds a t) {trees : List (Token × Tree)}
    {members : List (String × α)} :
    membersOf read flaw trees = .ok members ↔
      flaw = none ∧ List.Forall₂ (HoldsMember holds) members trees := by
  induction trees generalizing members with
  | nil => cases flaw <;> simp [membersOf, eq_comm]
  | cons e trees ih =>
    simp only [membersOf, bind_eq_ok, keyText_eq_ok, h, ih, Except.ok.injEq]
    constructor
    · rintro ⟨name, hname, a, ha, later, ⟨hflaw, hlater⟩, rfl⟩
      exact ⟨hflaw, .cons ⟨hname, ha⟩ hlater⟩
    · rintro ⟨hflaw, hall⟩
      cases hall with
      | cons hm hlater => exact ⟨_, hm.key, _, hm.value, _, ⟨hflaw, hlater⟩, rfl⟩

theorem readMembers_eq_ok (h : ∀ a t, read t = .ok a ↔ holds a t) {members : List (String × α)}
    {t : Tree} : readMembers read t = .ok members ↔ HoldsMembers holds members t := by
  cases t with
  | object trees flaw =>
    refine (membersOf_eq_ok h).trans ⟨?_, ?_⟩
    · rintro ⟨rfl, htrees⟩
      exact ⟨trees, rfl, htrees⟩
    · rintro ⟨_, heq, htrees⟩
      cases heq
      exact ⟨rfl, htrees⟩
  | _ => simp [readMembers, HoldsMembers]

theorem read_eq_ok {a : α} {text : String} :
    Json.read read text = .ok a ↔
      (document text.toList).trailing = false ∧ read (document text.toList).root = .ok a := by
  simp only [Json.read, bind_eq_ok]
  cases (document text.toList).trailing <;> simp

end Containers

/-! ### Optional fields of a record -/

/-- The trees that stand under a name. -/
def valuesOf (fields : List (String × Tree)) (name : String) : List Tree :=
  (fields.filter (·.1 = name)).map Prod.snd

/-- The fields of a record: the members of an object, or the items of an array, which take the
names of the record in order. -/
inductive HoldsFields (names : List String) : List (String × Tree) → Tree → Prop
  | object {fields : List (String × Tree)} {t : Tree} (h : HoldsMembers (· = ·) fields t) :
    HoldsFields names fields t
  | array {items : List Tree} (h : items.length ≤ names.length) :
    HoldsFields names (names.zip items) (.array items none)

/-- A field that need not be there, and is there once at most. -/
inductive HoldsField {α : Type} (holds : α → Tree → Prop) : Option α → List Tree → Prop
  | missing : HoldsField holds none []
  | given {o : Option α} {t : Tree} (h : HoldsOption holds o t) : HoldsField holds o [t]

section Records

variable {slots : List Slot} {found found' : Slots} {fields : List (String × Tree)}
  {flaw : Option Fault} {name : String}

theorem valuesOf_cons (m : String × Tree) (fields : List (String × Tree)) (name : String) :
    valuesOf (m :: fields) name =
      if m.1 = name then m.2 :: valuesOf fields name else valuesOf fields name := by
  rw [valuesOf, List.filter_cons]
  by_cases h : m.1 = name <;> simp [h, valuesOf]

theorem valuesOf_eq_lookup (h : (fields.map Prod.fst).Nodup) :
    valuesOf fields name = (fields.lookup name).toList := by
  induction fields with
  | nil => rfl
  | cons m fields ih =>
    rw [List.map_cons, List.nodup_cons] at h
    rw [valuesOf_cons, ih h.2, List.lookup_cons]
    by_cases hm : m.1 = name
    · subst hm
      have hnone : fields.lookup m.1 = none := by
        rw [← Option.not_isSome_iff_eq_none, lookup_isSome_iff]
        exact h.1
      simp [hnone]
    · have hne : (name == m.1) = false := by simpa using Ne.symm hm
      simp [hm, hne]

theorem then_eq_ok {α : Type} {x : Except Fault Unit} {y : Except Fault α} {a : α} :
    (x >>= fun _ => y) = .ok a ↔ x = .ok () ∧ y = .ok a := by
  cases x <;> simp [bind, Except.bind]

theorem named_cons_eq_ok {key : Token} {t : Tree} {rest : List (Token × Tree)}
    (hkey : keyText key = .ok name) :
    named slots flaw found ((key, t) :: rest) = .ok found' ↔
      (slots.find? (·.name == name) = none ∧ skip t = .ok () ∧
        named slots flaw found rest = .ok found') ∨
      ∃ s, slots.find? (·.name == name) = some s ∧ found.lookup name = none ∧
        s.check t = .ok () ∧ named slots flaw ((name, t) :: found) rest = .ok found' := by
  rw [named, hkey, ok_bind]
  cases slots.find? (·.name == name) with
  | none => simp [then_eq_ok]
  | some s => cases found.lookup name <;> simp [then_eq_ok]

/-- An object that is read as a record has strings for keys. -/
theorem exists_fields_of_named {trees : List (Token × Tree)}
    (h : named slots flaw found trees = .ok found') :
    flaw = none ∧ ∃ fields, List.Forall₂ (HoldsMember (· = ·)) fields trees := by
  induction trees generalizing found with
  | nil =>
    refine ⟨?_, [], .nil⟩
    cases flaw with
    | none => rfl
    | some fault => cases h
  | cons e trees ih =>
    obtain ⟨name, hkey, -⟩ := bind_eq_ok.1 h
    obtain ⟨found₁, hlater⟩ : ∃ found₁, named slots flaw found₁ trees = .ok found' := by
      rcases (named_cons_eq_ok hkey).1 h with ⟨-, -, hlater⟩ | ⟨_, -, -, -, hlater⟩
      · exact ⟨_, hlater⟩
      · exact ⟨_, hlater⟩
    obtain ⟨hflaw, fields, hfields⟩ := ih hlater
    exact ⟨hflaw, (name, e.2) :: fields, .cons ⟨keyText_eq_ok.1 hkey, rfl⟩ hfields⟩

/-- What such an object has under the name of a slot is found there, and what no slot wants is at
least sound. -/
theorem lookup_of_named {trees : List (Token × Tree)}
    (hfields : List.Forall₂ (HoldsMember (· = ·)) fields trees)
    (h : named slots flaw found trees = .ok found') :
    (∀ m ∈ fields, m.1 ∉ slots.map Slot.name → skip m.2 = .ok ()) ∧
      ∀ s ∈ slots, (found.lookup s.name).toList ++ valuesOf fields s.name =
        (found'.lookup s.name).toList := by
  induction hfields generalizing found with
  | nil =>
    refine ⟨by simp, fun s _ => ?_⟩
    have hsame : found = found' := by
      unfold named at h
      split at h
      · cases h
      split at h
      · exact Except.ok.inj h
      · cases h
    rw [hsame]
    exact List.append_nil _
  | @cons m e fields trees hm _ ih =>
    obtain ⟨name, t⟩ := m
    obtain ⟨key, t'⟩ := e
    obtain ⟨hkey, rfl : t = t'⟩ := hm
    rw [List.forall_mem_cons]
    rcases (named_cons_eq_ok (keyText_eq_ok.2 hkey)).1 h with
      ⟨hnone, hskip, hlater⟩ | ⟨s₀, hs₀, hnew, -, hlater⟩
    · obtain ⟨hskips, hvalues⟩ := ih hlater
      refine ⟨⟨fun _ => hskip, hskips⟩, fun s hs => ?_⟩
      have hne : ¬name = s.name := fun heq => by
        simpa [heq] using List.find?_eq_none.1 hnone s hs
      rw [valuesOf_cons, if_neg hne]
      exact hvalues s hs
    · obtain ⟨hskips, hvalues⟩ := ih hlater
      have hslot : name ∈ slots.map Slot.name :=
        List.mem_map.2 ⟨s₀, List.mem_of_find?_eq_some hs₀, by simpa using List.find?_some hs₀⟩
      refine ⟨⟨fun hout => absurd hslot hout, hskips⟩, fun s hs => ?_⟩
      have hlast := hvalues s hs
      rw [List.lookup_cons] at hlast
      rw [valuesOf_cons]
      by_cases heq : name = s.name
      · subst heq
        simpa [hnew] using hlast
      · have hne : (s.name == name) = false := by simpa using Ne.symm heq
        rw [if_neg heq]
        simpa [hne] using hlast

/-- An object is read as a record if no field is there twice and every value is accepted. -/
theorem exists_named {trees : List (Token × Tree)} (hneed : ∀ s ∈ slots, s.need = .never)
    (hfields : List.Forall₂ (HoldsMember (· = ·)) fields trees)
    (hskip : ∀ m ∈ fields, m.1 ∉ slots.map Slot.name → skip m.2 = .ok ())
    (honce : ∀ s ∈ slots, ((found.lookup s.name).toList ++ valuesOf fields s.name).length ≤ 1)
    (haccepts : ∀ s ∈ slots, ∀ t ∈ valuesOf fields s.name, s.check t = .ok ()) :
    ∃ found', named slots none found trees = .ok found' := by
  induction hfields generalizing found with
  | nil =>
    have hall : (slots.all fun s => s.need != .always || (found.lookup s.name).isSome) = true := by
      simp +contextual [hneed]
    exact ⟨found, by rw [named, if_pos hall]⟩
  | @cons m e fields trees hm _ ih =>
    obtain ⟨name, t⟩ := m
    obtain ⟨key, t'⟩ := e
    obtain ⟨hkey, rfl : t = t'⟩ := hm
    rw [List.forall_mem_cons] at hskip
    simp only [valuesOf_cons] at honce haccepts
    cases hs₀ : slots.find? (·.name == name) with
    | none =>
      have hne : ∀ s ∈ slots, ¬name = s.name := fun s hs heq => by
        simpa [heq] using List.find?_eq_none.1 hs₀ s hs
      have hout : name ∉ slots.map Slot.name := by simpa [eq_comm] using hne
      have honce' : ∀ s ∈ slots,
          ((found.lookup s.name).toList ++ valuesOf fields s.name).length ≤ 1 :=
        fun s hs => by simpa [hne s hs] using honce s hs
      have haccepts' : ∀ s ∈ slots, ∀ t ∈ valuesOf fields s.name, s.check t = .ok () :=
        fun s hs => by simpa [hne s hs] using haccepts s hs
      obtain ⟨found', hlater⟩ := ih hskip.2 honce' haccepts'
      exact ⟨found', (named_cons_eq_ok (keyText_eq_ok.2 hkey)).2
        (.inl ⟨hs₀, hskip.1 hout, hlater⟩)⟩
    | some s₀ =>
      have hmem := List.mem_of_find?_eq_some hs₀
      obtain rfl : s₀.name = name := by simpa using List.find?_some hs₀
      have hnew : found.lookup s₀.name = none := by
        have hlength := honce s₀ hmem
        cases hfound : found.lookup s₀.name with
        | none => rfl
        | some t' => simp [hfound] at hlength
      have haccept : s₀.check t = .ok () := haccepts s₀ hmem t (by simp)
      have honce' : ∀ s ∈ slots, ((((s₀.name, t) :: found).lookup s.name).toList ++
          valuesOf fields s.name).length ≤ 1 := by
        intro s hs
        have hlength := honce s hs
        rw [List.lookup_cons]
        by_cases heq : s₀.name = s.name
        · rw [← heq, hnew] at hlength
          simpa [heq] using hlength
        · have hne : (s.name == s₀.name) = false := by simpa using Ne.symm heq
          simpa [hne, heq] using hlength
      have haccepts' : ∀ s ∈ slots, ∀ t ∈ valuesOf fields s.name, s.check t = .ok () := by
        intro s hs t' ht
        refine haccepts s hs t' ?_
        by_cases heq : s₀.name = s.name <;> simp [heq, ht]
      obtain ⟨found', hlater⟩ := ih hskip.2 honce' haccepts'
      exact ⟨found', (named_cons_eq_ok (keyText_eq_ok.2 hkey)).2
        (.inr ⟨s₀, hs₀, hnew, haccept, hlater⟩)⟩

/-- An array is read as a record if it has no more items than the record has fields, and every item
is accepted. -/
theorem positional_eq_ok {items : List Tree} (hneed : ∀ s ∈ slots, s.need = .never) :
    positional flaw slots items = .ok found ↔ flaw = none ∧ items.length ≤ slots.length ∧
      (∀ p ∈ slots.zip items, p.1.check p.2 = .ok ()) ∧
      found = (slots.map Slot.name).zip items := by
  induction slots generalizing flaw items found with
  | nil =>
    cases items with
    | nil => cases flaw <;> simp [positional, eq_comm]
    | cons t items => simp [positional]
  | cons s slots ih =>
    rw [List.forall_mem_cons] at hneed
    cases items with
    | nil =>
      cases flaw with
      | none => simp [positional, hneed.1, ih hneed.2]
      | some fault => simp [positional]
    | cons t items =>
      rw [positional, then_eq_ok, bind_eq_ok]
      simp only [ih hneed.2, Except.ok.injEq, List.length_cons, Nat.add_le_add_iff_right,
        List.zip_cons_cons, List.map_cons, List.forall_mem_cons]
      constructor
      · rintro ⟨hcheck, later, ⟨hflaw, hlength, hchecks, rfl⟩, rfl⟩
        exact ⟨hflaw, hlength, ⟨hcheck, hchecks⟩, rfl⟩
      · rintro ⟨hflaw, hlength, ⟨hcheck, hchecks⟩, rfl⟩
        exact ⟨hcheck, _, ⟨hflaw, hlength, hchecks, rfl⟩, rfl⟩

theorem map_fst_zip_sublist (names : List String) (items : List Tree) :
    ((names.zip items).map Prod.fst).Sublist names := by
  induction names generalizing items with
  | nil => simp
  | cons name names ih =>
    cases items with
    | nil => simp
    | cons t items => simpa using ih items

theorem exists_fields_of_readSlots {t : Tree} (hneed : ∀ s ∈ slots, s.need = .never)
    (h : readSlots slots t = .ok found) :
    ∃ fields, HoldsFields (slots.map Slot.name) fields t := by
  cases t with
  | array items flaw =>
    obtain ⟨rfl, hlength, -, -⟩ := (positional_eq_ok hneed).1 h
    exact ⟨_, .array (by simpa using hlength)⟩
  | object trees flaw =>
    obtain ⟨rfl, fields, hfields⟩ := exists_fields_of_named h
    exact ⟨fields, .object ⟨trees, rfl, hfields⟩⟩
  | _ => cases h

/-- What is found for a slot is what the fields have under its name. -/
theorem lookup_of_readSlots {t : Tree} (hneed : ∀ s ∈ slots, s.need = .never)
    (hnames : (slots.map Slot.name).Nodup) (hfields : HoldsFields (slots.map Slot.name) fields t)
    (h : readSlots slots t = .ok found) :
    (∀ m ∈ fields, m.1 ∉ slots.map Slot.name → skip m.2 = .ok ()) ∧
      ∀ s ∈ slots, valuesOf fields s.name = (found.lookup s.name).toList := by
  cases hfields with
  | object hmembers =>
    obtain ⟨trees, rfl, htrees⟩ := hmembers
    exact lookup_of_named htrees h
  | array hlength =>
    obtain ⟨-, -, -, rfl⟩ := (positional_eq_ok hneed).1 h
    exact ⟨fun m hm hout => absurd (List.of_mem_zip hm).1 hout,
      fun s _ => valuesOf_eq_lookup (hnames.sublist (map_fst_zip_sublist ..))⟩

theorem exists_readSlots {t : Tree} (hneed : ∀ s ∈ slots, s.need = .never)
    (hfields : HoldsFields (slots.map Slot.name) fields t)
    (hskip : ∀ m ∈ fields, m.1 ∉ slots.map Slot.name → skip m.2 = .ok ())
    (honce : ∀ s ∈ slots, (valuesOf fields s.name).length ≤ 1)
    (haccepts : ∀ s ∈ slots, ∀ t ∈ valuesOf fields s.name, s.check t = .ok ()) :
    ∃ found, readSlots slots t = .ok found := by
  cases hfields with
  | object hmembers =>
    obtain ⟨trees, rfl, htrees⟩ := hmembers
    exact exists_named hneed htrees hskip honce haccepts
  | @array items hlength =>
    refine ⟨_, (positional_eq_ok hneed).2 ⟨rfl, by simpa using hlength, fun p hp => ?_, rfl⟩⟩
    obtain ⟨s, t⟩ := p
    refine haccepts s (List.of_mem_zip hp).1 t (List.mem_map.2 ⟨(s.name, t), ?_, rfl⟩)
    rw [List.zip_map_left, List.mem_filter, List.mem_map]
    exact ⟨⟨_, hp, rfl⟩, by simp⟩

theorem optionalField_eq_ok {α : Type} {read : Read (Option α)} {holds : α → Tree → Prop}
    (h : ∀ o t, read t = .ok o ↔ HoldsOption holds o t) {o : Option α}
    (hvalues : valuesOf fields name = (found.lookup name).toList) :
    optionalField found name read = .ok o ↔ HoldsField holds o (valuesOf fields name) := by
  rw [hvalues, optionalField]
  cases found.lookup name with
  | none =>
    constructor
    · intro hnone
      obtain rfl := Except.ok.inj hnone
      exact .missing
    · rintro ⟨⟩
      rfl
  | some t =>
    refine (h o t).trans ⟨.given, ?_⟩
    rintro (_ | hholds)
    exact hholds

theorem HoldsField.accepted {α : Type} {read : Read (Option α)} {holds : α → Tree → Prop}
    {values : List Tree} {o : Option α} (hfield : HoldsField holds o values)
    (h : ∀ o t, read t = .ok o ↔ HoldsOption holds o t) :
    values.length ≤ 1 ∧ ∀ t ∈ values, ((read t).map fun _ => ()) = .ok () := by
  cases hfield with
  | missing => simp
  | given hholds =>
    refine ⟨Nat.le_refl 1, fun t ht => ?_⟩
    obtain rfl := List.mem_singleton.1 ht
    exact map_eq_ok.2 ⟨o, (h o _).2 hholds, rfl⟩

end Records

end Json

end RefCache
