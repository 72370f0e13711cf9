import RefCache.Proofs.CatchUp

/-! Lists kept up to date against lists rebuilt from nothing. The tables here have one row for each
identifier, while the lists know a row by its owner and its key, which a write may change. The
entry, or the gap, that a row has left under an owner and a key it has since moved away from is
never looked at again: the lists are those of a rebuild exactly when the rebuild happens to show
the same in each of these places, and so always when no row has moved. -/

namespace RefCache

open Indexes Storage Upkeep Rules

/-! ### The last row for a slot -/

section Latest

variable {ρ τ β : Type} [DecidableEq τ] {slot : ρ → τ} {s : τ} {rows : List ρ} {row last : ρ}

/-- The last of the rows that are for a slot. -/
def latestFor (slot : ρ → τ) (s : τ) (rows : List ρ) : Option ρ :=
  lastSaid (fun row => if slot row = s then some row else none) rows

theorem latestFor_append (rows' : List ρ) :
    latestFor slot s (rows ++ rows') = (latestFor slot s rows').or (latestFor slot s rows) :=
  lastSaid_append _ _ _

theorem latestFor_eq_none : latestFor slot s rows = none ↔ ∀ row ∈ rows, slot row ≠ s := by
  simp [latestFor, lastSaid_eq_none]

theorem mem_of_latestFor (h : latestFor slot s rows = some last) : last ∈ rows ∧ slot last = s := by
  obtain ⟨row, hrow, ht⟩ := exists_of_lastSaid h
  rw [Option.ite_none_right_eq_some] at ht
  obtain ⟨hs, hlast⟩ := ht
  obtain rfl := Option.some.inj hlast
  exact ⟨hrow, hs⟩

theorem latestFor_append_eq_some {rows' : List ρ}
    (h : latestFor slot s (rows ++ rows') = some last) :
    latestFor slot s rows' = some last ∨
      latestFor slot s rows = some last ∧ ∀ row ∈ rows', slot row ≠ s := by
  rw [latestFor_append] at h
  cases h' : latestFor slot s rows' with
  | some w =>
    rw [h', Option.some_or] at h
    exact Or.inl h
  | none =>
    rw [h', Option.none_or] at h
    exact Or.inr ⟨h, latestFor_eq_none.1 h'⟩

/-- What is said of a slot last is what its last row says. -/
theorem lastSaid_eq_latestFor {tells : ρ → Option β} {shows : ρ → β}
    (h : ∀ row, tells row = if slot row = s then some (shows row) else none) :
    lastSaid tells rows = (latestFor slot s rows).map shows := by
  induction rows with
  | nil => rfl
  | cons row rows ih =>
    have hone : latestFor slot s [row] = if slot row = s then some row else none :=
      lastSaid_singleton _ row
    rw [← List.singleton_append, lastSaid_append, latestFor_append, ih, lastSaid_singleton, h, hone]
    cases latestFor slot s rows <;> by_cases hs : slot row = s <;> simp [hs]

/-- In an ordered list the other rows for a slot come before its last one. -/
theorem rel_latestFor {R : ρ → ρ → Prop} (hR : rows.Pairwise R)
    (hlast : latestFor slot s rows = some last) (hrow : row ∈ rows) (hs : slot row = s) :
    row = last ∨ R row last := by
  induction rows with
  | nil => cases hrow
  | cons r rows ih =>
    rw [List.pairwise_cons] at hR
    rw [← List.singleton_append, latestFor_append] at hlast
    cases hl : latestFor slot s rows with
    | none =>
      have hr := latestFor_eq_none.1 hl
      rw [hl, Option.none_or] at hlast
      obtain rfl := List.mem_singleton.1 (mem_of_latestFor hlast).1
      exact Or.inl ((List.mem_cons.1 hrow).resolve_right fun h => hr row h hs)
    | some w =>
      rw [hl, Option.some_or] at hlast
      obtain rfl := Option.some.inj hlast
      rcases List.mem_cons.1 hrow with rfl | h
      · exact Or.inr (hR.1 w (mem_of_latestFor hl).1)
      · exact ih hR.2 hl h

theorem latestFor_eq_some {R : ρ → ρ → Prop} (hR : rows.Pairwise R)
    (hasymm : ∀ a b, R a b → ¬ R b a) (hlast : last ∈ rows) (hs : slot last = s)
    (h : ∀ row ∈ rows, slot row = s → row = last ∨ R row last) :
    latestFor slot s rows = some last := by
  cases hl : latestFor slot s rows with
  | none => exact absurd hs (latestFor_eq_none.1 hl last hlast)
  | some w =>
    obtain ⟨hw, hws⟩ := mem_of_latestFor hl
    rcases rel_latestFor hR hl hlast hs with rfl | h1
    · rfl
    · rcases h w hw hws with rfl | h2
      · rfl
      · exact absurd h2 (hasymm last w h1)

end Latest

variable {c : Category} {κ α : Type} {photos : Uuid → Photo} {now : Timestamp}

/-! ### Tables whose rows stay in their places -/

namespace Rules

/-- One row for each identifier; a row that is altered keeps its place among the others. -/
def inPlace (key : c.Row → Uuid) (cold : Timestamp) : Rules c cold where
  Sound := (oneEach key cold).Sound
  Writes t t' := Write key cold t t' ∧ (t.map key).Sublist (t'.map key)
  Readable _ := True
  sound_nil := (oneEach key cold).sound_nil
  sound_of_writes h := (oneEach key cold).sound_of_writes h.1
  started := (oneEach key cold).started
  stamped h := (oneEach key cold).stamped h.1
  kept ht h := (oneEach key cold).kept ht h.1

variable {key : c.Row → Uuid} {cold : Timestamp} {t t' : List c.Row}

theorem inPlace_key_kept (h : (inPlace key cold).Later t t') :
    ∀ old ∈ t, ∃ row ∈ t', key row = key old :=
  key_kept (Relation.ReflTransGen.mono (fun _ _ hw => hw.1) _ _ h)

theorem places_kept (h : (inPlace key cold).Later t t') : (t.map key).Sublist (t'.map key) := by
  induction h with
  | refl => exact List.Sublist.refl _
  | tail _ hw ih => exact ih.trans hw.2

/-- Rows that are still there are read in the order in which they were read before. -/
theorem readBefore_kept (h : (inPlace key cold).Later t t') (ht : (inPlace key cold).Sound t)
    {a b : c.Row} (hab : ReadBefore t a b) (ha : a ∈ t') (hb : b ∈ t') : ReadBefore t' a b := by
  have ht' : (t'.map key).Nodup := (h.sound ht).1
  refine ⟨hab.1, fun hle => ?_⟩
  have hkeys : [key a, key b].Sublist (t'.map key) := ((hab.2 hle).map key).trans (places_kept h)
  have hne : a ≠ b := by
    rintro rfl
    have := ht'.sublist hkeys
    simp at this
  rcases pair_sublist_or ha hb hne with h' | h'
  · exact h'
  · exact absurd (h'.map key) (not_pair_sublist ht' hkeys)

end Rules

/-! ### What the last merged rows tell of the table -/

/-- A place holds what was said of it last, of all the rows merged. -/
theorem find_carried (p : Place c α) (rules : Rules c (coldStartMark now)) :
    Carried photos rules fun _ merged ix => p.find ix = (lastSaid p.tells merged).getD none where
  start := p.find_empty
  pull {last seen merged ix since} _ _ _ _ h := by
    rw [p.find_merge, h, lastSaid_append]
    cases lastSaid p.tells (changedSince c since seen) <;> rfl

/-- Every row of the table has been merged. The last row merged for a slot is also the last one
that a read of the whole table answers for it, or else it has moved to another slot. -/
structure Traced {τ : Type} [DecidableEq τ] (key : c.Row → Uuid) (slot : c.Row → τ)
    (table merged : List c.Row) : Prop where
  complete : ∀ row ∈ table, row ∈ merged
  current : ∀ s last, latestFor slot s merged = some last → last ∈ table →
    ∀ row ∈ table, slot row = s → row = last ∨ ReadBefore table row last
  moved : ∀ s last, latestFor slot s merged = some last → last ∉ table →
    ∃ row ∈ table, key row = key last ∧ slot row ≠ s

section

variable {τ : Type} [DecidableEq τ] {key : c.Row → Uuid} {slot : c.Row → τ} {cold since : Timestamp}
  {last seen merged : List c.Row}

omit [DecidableEq τ] in
/-- Where a pull reads nothing for a slot, the rows for it were all there before. -/
theorem mem_of_unread (hread : ∀ row ∈ seen, row ∈ last ∨ row ∈ changedSince c since seen) {s : τ}
    (hsilent : ∀ row ∈ changedSince c since seen, slot row ≠ s) :
    ∀ row ∈ seen, slot row = s → row ∈ last := fun row hrow hs =>
  (hread row hrow).resolve_right fun hb => hsilent row hb hs

/-- Rows that are not read again are below the mark, and so before those that are. -/
theorem readBefore_of_unread {row v : c.Row} (hrow : row ∈ seen)
    (hunread : row ∉ changedSince c since seen) (hv : v ∈ changedSince c since seen) :
    ReadBefore seen row v := by
  have hsince := (mem_changedSince.1 hv).2
  have hlow : ¬ since ≤ c.updatedAt row := fun hs => hunread (mem_changedSince.2 ⟨hrow, hs⟩)
  have hle := (Std.le_total (a := c.updatedAt row) (b := since)).resolve_right hlow
  exact ⟨Std.le_trans hle hsince, fun hge => absurd (Std.le_trans hsince hge) hlow⟩

theorem Traced.current_after (h : Traced key slot last merged)
    (hlast : (inPlace key cold).Sound last) (hlater : (inPlace key cold).Later last seen)
    (hread : ∀ row ∈ seen, row ∈ last ∨ row ∈ changedSince c since seen) {s : τ} {v : c.Row}
    (hv : latestFor slot s (merged ++ changedSince c since seen) = some v) (hin : v ∈ seen) :
    ∀ row ∈ seen, slot row = s → row = v ∨ ReadBefore seen row v := by
  intro row hrow hs
  rcases latestFor_append_eq_some hv with hbatch | ⟨hv, hsilent⟩
  · have hnodup : seen.Nodup := List.Nodup.of_map key (hlater.sound hlast).1
    by_cases hr : row ∈ changedSince c since seen
    · exact rel_latestFor pairwise_changedSince hbatch hr hs
    · exact Or.inr (readBefore_of_unread hrow hr (mem_of_latestFor hbatch).1)
  · have hold := mem_of_unread hread hsilent
    have hvl := hold v hin (mem_of_latestFor hv).2
    rcases h.current s v hv hvl row (hold row hrow hs) hs with rfl | hbefore
    · exact Or.inl rfl
    · exact Or.inr (readBefore_kept hlater hlast hbefore hrow hin)

theorem Traced.moved_after (h : Traced key slot last merged)
    (hlast : (inPlace key cold).Sound last) (hlater : (inPlace key cold).Later last seen)
    (hread : ∀ row ∈ seen, row ∈ last ∨ row ∈ changedSince c since seen) {s : τ} {v : c.Row}
    (hv : latestFor slot s (merged ++ changedSince c since seen) = some v) (hout : v ∉ seen) :
    ∃ row ∈ seen, key row = key v ∧ slot row ≠ s := by
  rcases latestFor_append_eq_some hv with hbatch | ⟨hv, hsilent⟩
  · exact absurd (mem_changedSince.1 (mem_of_latestFor hbatch).1).1 hout
  · have hold := mem_of_unread hread hsilent
    by_cases hvl : v ∈ last
    · obtain ⟨row, hrow, hk⟩ := inPlace_key_kept hlater v hvl
      refine ⟨row, hrow, hk, fun hs => hout ?_⟩
      rwa [← eq_of_key_eq hlast.1 (hold row hrow hs) hvl hk]
    · obtain ⟨r, hr, hkr, hsr⟩ := h.moved s v hv hvl
      obtain ⟨row, hrow, hk⟩ := inPlace_key_kept hlater r hr
      refine ⟨row, hrow, hk.trans hkr, fun hs => hsr ?_⟩
      rwa [← eq_of_key_eq hlast.1 (hold row hrow hs) hr hk]

theorem traced_carried (key : c.Row → Uuid) (slot : c.Row → τ) :
    Carried photos (inPlace key (coldStartMark now)) fun seen merged _ =>
      Traced key slot seen merged where
  start := ⟨by simp, by simp, by simp [latestFor]⟩
  pull {last seen merged ix since} hlast hlater _ hcov h := by
    have hread : ∀ row ∈ seen, row ∈ last ∨ row ∈ changedSince c since seen := fun row hrow =>
      (hcov row hrow).imp_right fun hs => mem_changedSince.2 ⟨hrow, hs⟩
    refine ⟨fun row hrow => ?_, fun s v hv hin => h.current_after hlast hlater hread hv hin,
      fun s v hv hout => h.moved_after hlast hlater hread hv hout⟩
    rw [List.mem_append]
    exact (hread row hrow).imp_left (h.complete row)

end

/-! ### Rebuilding -/

/-- The indexes of a new cache after one pull of the whole table. -/
def rebuilt (photos : Uuid → Photo) (now : Timestamp) (table : List c.Row) : Indexes :=
  ((Cache.start now).absorb photos c
    (.rows (changedSince c ((Cache.start now).mark c) table))).cache.indexes

theorem rebuilt_eq (table : List c.Row) :
    rebuilt photos now table =
      (Indexes.empty.merge photos c (changedSince c (coldStartMark now) table)).state := by
  have hmark : (Cache.start now).mark c = coldStartMark now := by simp [Cache.start, Cache.mark]
  rw [rebuilt, Cache.indexes_absorb_rows, hmark]
  rfl

/-- A row that was merged last for its slot and that the table no longer has. -/
structure Leftover {τ : Type} [DecidableEq τ] (slot : c.Row → τ) (table merged : List c.Row)
    (row : c.Row) : Prop where
  latest : latestFor slot (slot row) merged = some row
  gone : row ∉ table

namespace Listed

variable [DecidableEq κ] (v : Listed c κ α)

/-- What a row shows under its owner and its key. -/
def shows (row : c.Row) : Option α := if (c.stamp row).isDeleted then none else some (v.item row)

/-- What a batch shows under an owner and a key. -/
def shown (batch : List c.Row) (s : Uuid × κ) : Option α := (latestFor v.slot s batch).bind v.shows

/-- What a read of a whole table shows under an owner and a key. -/
def shownBy (now : Timestamp) (table : List c.Row) (s : Uuid × κ) : Option α :=
  v.shown (changedSince c (coldStartMark now) table) s

def SameEntries (ix ix' : Indexes) : Prop := ∀ o x, x ∈ v.list ix o ↔ x ∈ v.list ix' o

variable {v}

theorem lastSaid_place (batch : List c.Row) (s : Uuid × κ) :
    (lastSaid (v.place s).tells batch).getD none = v.shown batch s := by
  have h : lastSaid (v.place s).tells batch = (latestFor v.slot s batch).map v.shows :=
    lastSaid_eq_latestFor fun _ => rfl
  rw [h, shown]
  cases latestFor v.slot s batch <;> rfl

theorem find_rebuilt (table : List c.Row) (s : Uuid × κ) :
    (v.place s).find (rebuilt photos now table) = v.shownBy now table s := by
  rw [rebuilt_eq, (v.place s).find_merge, (v.place s).find_empty, lastSaid_place, shownBy]

theorem tidy_rebuilt (table : List c.Row) : Tidy v.key (v.lists (rebuilt photos now table)) := by
  rw [rebuilt_eq]
  refine v.tidy_merge photos _ ?_
  rw [v.lists_empty]
  exact tidy_empty _

/-- Tidy lists have the same entries if the same is found in each place. -/
theorem sameEntries_iff {ix ix' : Indexes} (h : Tidy v.key (v.lists ix))
    (h' : Tidy v.key (v.lists ix')) :
    v.SameEntries ix ix' ↔ ∀ s, (v.place s).find ix = (v.place s).find ix' := by
  constructor
  · rintro hs ⟨o, k⟩
    refine Option.ext fun x => ?_
    exact h.itemAt_eq_some.trans ((and_congr_left' (hs o x)).trans h'.itemAt_eq_some.symm)
  · intro hs o x
    refine h.mem_listAt.trans (Iff.trans ?_ h'.mem_listAt.symm)
    exact Eq.congr_left (hs (o, v.key x))

/-- How lists brought up to date compare with lists rebuilt from the same table. They have the same
entries exactly when every row that left its slot behind shows there what the rebuild shows there,
which they always have when no row has moved. -/
structure AgainstRebuild (v : Listed c κ α) (key : c.Row → Uuid) (photos : Uuid → Photo)
    (now : Timestamp) (seen merged : List c.Row) (ix : Indexes) : Prop where
  same_iff : v.SameEntries ix (rebuilt photos now seen) ↔
    ∀ row, Leftover v.slot seen merged row → v.shows row = v.shownBy now seen (v.slot row)
  moved : ∀ row, Leftover v.slot seen merged row →
    ∃ row' ∈ seen, key row' = key row ∧ v.slot row' ≠ v.slot row
  same_of_unmoved :
    (∀ old ∈ merged, ∀ row ∈ seen, key row = key old → v.slot row = v.slot old) →
      v.SameEntries ix (rebuilt photos now seen)

/-- The last row merged for a slot is what a read of the whole table shows there, if it is still
in the table. -/
theorem shownBy_eq_shows {key : c.Row → Uuid} {seen merged : List c.Row} {row : c.Row}
    (hsound : (inPlace key (coldStartMark now)).Sound seen) (ht : Traced key v.slot seen merged)
    (hrow : row ∈ seen) (hlatest : latestFor v.slot (v.slot row) merged = some row) :
    v.shownBy now seen (v.slot row) = v.shows row := by
  have hnodup : seen.Nodup := List.Nodup.of_map key hsound.1
  have hin : row ∈ changedSince c (coldStartMark now) seen :=
    mem_changedSince.2 ⟨hrow, hsound.2 row hrow⟩
  have hread : latestFor v.slot (v.slot row) (changedSince c (coldStartMark now) seen) = some row :=
    latestFor_eq_some pairwise_changedSince (fun _ _ h => h.asymm hnodup) hin rfl
      fun r hr hs => ht.current _ row hlatest hrow r (mem_changedSince.1 hr).1 hs
  rw [shownBy, shown, hread, Option.bind_some]

theorem shown_eq_shownBy_iff {key : c.Row → Uuid} {seen merged : List c.Row}
    (hsound : (inPlace key (coldStartMark now)).Sound seen) (ht : Traced key v.slot seen merged) :
    (∀ s, v.shown merged s = v.shownBy now seen s) ↔
      ∀ row, Leftover v.slot seen merged row → v.shows row = v.shownBy now seen (v.slot row) := by
  constructor
  · intro h row hleft
    rw [← h, shown, hleft.latest, Option.bind_some]
  · intro h s
    cases hl : latestFor v.slot s merged with
    | none =>
      have hsilent := latestFor_eq_none.1 hl
      have hread : latestFor v.slot s (changedSince c (coldStartMark now) seen) = none :=
        latestFor_eq_none.2 fun row hrow =>
          hsilent row (ht.complete row (mem_changedSince.1 hrow).1)
      rw [shownBy, shown, shown, hl, hread]
    | some row =>
      obtain rfl := (mem_of_latestFor hl).2
      rw [shown, hl, Option.bind_some]
      by_cases hrow : row ∈ seen
      · exact (shownBy_eq_shows hsound ht hrow hl).symm
      · exact h row ⟨hl, hrow⟩

theorem find_after_pull {rules : Rules c (coldStartMark now)} (v : Listed c κ α) :
    AfterPull photos rules fun _ merged ix => ∀ s, (v.place s).find ix = v.shown merged s := by
  intro m seen batch hrun hp s
  rw [(find_carried (v.place s) rules).after_pull m seen batch hrun hp, lastSaid_place]

theorem against_rebuild (v : Listed c κ α) (key : c.Row → Uuid) :
    AfterPull photos (inPlace key (coldStartMark now)) (v.AgainstRebuild key photos now) := by
  intro m seen batch hrun hp
  have hsound := (sound_carried _).after_pull m seen batch hrun hp
  have htidy := (v.tidy_carried _).after_pull m seen batch hrun hp
  have ht := (traced_carried key v.slot).after_pull m seen batch hrun hp
  have hfind := v.find_after_pull m seen batch hrun hp
  have hiff : v.SameEntries (m.absorbed photos (.rows batch)).cache.indexes
      (rebuilt photos now seen) ↔ ∀ row, Leftover v.slot seen (m.merged ++ batch) row →
        v.shows row = v.shownBy now seen (v.slot row) := by
    rw [sameEntries_iff htidy (tidy_rebuilt seen), ← shown_eq_shownBy_iff hsound ht]
    simp only [hfind, find_rebuilt]
  have hmoved : ∀ row, Leftover v.slot seen (m.merged ++ batch) row →
      ∃ row' ∈ seen, key row' = key row ∧ v.slot row' ≠ v.slot row := fun row hleft =>
    ht.moved _ row hleft.latest hleft.gone
  refine ⟨hiff, hmoved, fun hfixed => hiff.2 fun row hleft => ?_⟩
  obtain ⟨row', hrow', hk, hs⟩ := hmoved row hleft
  exact absurd (hfixed row (mem_of_latestFor hleft.latest).1 row' hrow' hk) hs

end Listed

/-! ### The lists of fields and priorities -/

/-- After every successful pull of every run the lists have the entries of a rebuild exactly when
each row that moved to another owner or key had left behind what the rebuild shows there. -/
theorem refresh_against_rebuild (photos : Uuid → Photo) (now : Timestamp) :
    AfterPull photos (c := .companyFields) (inPlace CompanyFieldRow.uuid (coldStartMark now))
      (companyFieldLists.AgainstRebuild CompanyFieldRow.uuid photos now) ∧
    AfterPull photos (c := .projectFields) (inPlace ProjectFieldRow.uuid (coldStartMark now))
      (projectFieldLists.AgainstRebuild ProjectFieldRow.uuid photos now) ∧
    AfterPull photos (c := .catalogFields) (inPlace CatalogFieldRow.uuid (coldStartMark now))
      (catalogFieldLists.AgainstRebuild CatalogFieldRow.uuid photos now) ∧
    AfterPull photos (c := .companyPriorities)
      (inPlace CompanyPriorityRow.uuid (coldStartMark now))
      (companyPriorityLists.AgainstRebuild CompanyPriorityRow.uuid photos now) := by
  refine ⟨?_, ?_, ?_, ?_⟩
  · exact companyFieldLists.against_rebuild CompanyFieldRow.uuid
  · exact projectFieldLists.against_rebuild ProjectFieldRow.uuid
  · exact catalogFieldLists.against_rebuild CatalogFieldRow.uuid
  · exact companyPriorityLists.against_rebuild CompanyPriorityRow.uuid

/-- A field of one catalog, as it stands at some second. -/
def fieldAt (second : Int) (hash name : String) : CatalogFieldRow :=
  ⟨⟨⟨second, 0⟩, none⟩, Uuid.zero, Uuid.zero, hash, name, 2⟩

/-- The field is added and pulled, and a second later altered and pulled again. -/
theorem run_altered_field (photos : Uuid → Photo) (hash hash' name name' : String) :
    ∃ (m : Upkeep .catalogFields) (batch : List CatalogFieldRow),
      Run photos (inPlace CatalogFieldRow.uuid (coldStartMark ⟨0, 0⟩)) m ∧
      m.pull = .fetched [fieldAt 1 hash' name'] (.rows batch) ∧
      m.merged = [fieldAt 0 hash name] ∧ ∀ row ∈ batch, row = fieldAt 1 hash' name' := by
  have hcold : coldStartMark ⟨0, 0⟩ ≤ ⟨0, 0⟩ := by decide
  have hlater : (⟨0, 0⟩ : Timestamp) ≤ ⟨1, 0⟩ := by decide
  let rules := inPlace (c := .catalogFields) CatalogFieldRow.uuid (coldStartMark ⟨0, 0⟩)
  have hadd : rules.Writes [] [fieldAt 0 hash name] :=
    ⟨Write.insert ⟨by simp, by simp⟩ (by simp) hcold (by simp), by simp⟩
  have halter : rules.Writes ([] ++ [fieldAt 0 hash name]) ([] ++ [fieldAt 1 hash' name']) := by
    refine ⟨Write.alter ⟨by simp, ?_⟩ rfl (Std.le_trans hcold hlater) ?_, List.Sublist.refl _⟩
    · rintro row (_ | ⟨_, ⟨⟩⟩)
      exact hcold
    · rintro row (_ | ⟨_, ⟨⟩⟩)
      exact hlater
  have hstart : Run photos rules (Upkeep.start ⟨0, 0⟩) := .start
  have hfirst := hstart.write_fetch hadd trivial
  have hsecond := (hfirst.step (.absorb rfl)).write_fetch halter trivial
  refine ⟨_, _, hsecond, rfl, ?_, fun row hrow => ?_⟩
  · have hmark : (Cache.start ⟨0, 0⟩).mark .catalogFields = coldStartMark ⟨0, 0⟩ := mark_start
    exact changedSince_singleton (hmark ▸ hcold)
  · exact List.mem_singleton.1 (mem_changedSince.1 hrow).1

/-- A field that changes its name alone is as a rebuild has it. -/
theorem refresh_against_rebuild_renamed :
    ∃ (m : Upkeep .catalogFields) (seen batch : List CatalogFieldRow),
      Run (fun _ => default) (inPlace CatalogFieldRow.uuid (coldStartMark ⟨0, 0⟩)) m ∧
      m.pull = .fetched seen (.rows batch) ∧ seen = [fieldAt 1 "sku" "Article"] ∧
      catalogFieldLists.SameEntries (m.absorbed (fun _ => default) (.rows batch)).cache.indexes
        (rebuilt (c := .catalogFields) (fun _ => default) ⟨0, 0⟩ seen) := by
  obtain ⟨m, batch, hrun, hp, hmerged, hbatch⟩ :=
    run_altered_field (fun _ => default) "sku" "sku" "SKU" "Article"
  have h := (refresh_against_rebuild (fun _ => default) ⟨0, 0⟩).2.2.1 m _ batch hrun hp
  refine ⟨m, _, batch, hrun, hp, rfl, h.same_of_unmoved fun old hold row hrow _ => ?_⟩
  obtain rfl := List.mem_singleton.1 hrow
  rcases List.mem_append.1 hold with hold | hold
  · rw [hmerged, List.mem_singleton] at hold
    rw [hold]
    rfl
  · rw [hbatch old hold]

/-- A field that changes its hash leaves an entry behind that no rebuild has. -/
theorem rehashed_field_left_behind :
    ∃ (m : Upkeep .catalogFields) (seen batch : List CatalogFieldRow),
      Run (fun _ => default) (inPlace CatalogFieldRow.uuid (coldStartMark ⟨0, 0⟩)) m ∧
      m.pull = .fetched seen (.rows batch) ∧ seen = [fieldAt 1 "article" "Article"] ∧
      ⟨"sku", "SKU", 2⟩ ∈ listAt
        (m.absorbed (fun _ => default) (.rows batch)).cache.indexes.catalogFields Uuid.zero ∧
      ⟨"sku", "SKU", 2⟩ ∉ listAt
        (rebuilt (c := .catalogFields) (fun _ => default) ⟨0, 0⟩ seen).catalogFields Uuid.zero := by
  obtain ⟨m, batch, hrun, hp, hmerged, hbatch⟩ :=
    run_altered_field (fun _ => default) "sku" "article" "SKU" "Article"
  have htidy := (catalogFieldLists.tidy_carried _).after_pull m _ batch hrun hp
  have hfind := catalogFieldLists.find_after_pull m _ batch hrun hp (Uuid.zero, "sku")
  refine ⟨m, _, batch, hrun, hp, rfl, htidy.mem_listAt.2 (hfind.trans ?_), fun hmem => ?_⟩
  · -- no row of the second pull is for the old hash
    have hnone : latestFor catalogFieldLists.slot (Uuid.zero, "sku") batch = none := by
      refine latestFor_eq_none.2 fun row hrow => ?_
      rw [hbatch row hrow]
      decide
    rw [hmerged, Listed.shown, latestFor_append, hnone]
    rfl
  · have hnone : (catalogFieldLists.place (Uuid.zero, "sku")).find
        (rebuilt (c := .catalogFields) (fun _ => default) ⟨0, 0⟩ [fieldAt 1 "article" "Article"]) =
          none := by
      rw [Listed.find_rebuilt, Listed.shownBy, Listed.shown, latestFor_eq_none.2]
      · rfl
      · intro row hrow
        obtain rfl := List.mem_singleton.1 (mem_changedSince.1 hrow).1
        decide
    have hsome := (Listed.tidy_rebuilt (v := catalogFieldLists) _).mem_listAt.1 hmem
    exact Option.some_ne_none _ (hsome.symm.trans hnone)

end RefCache
