import RefCache.Proofs.Place
import RefCache.Proofs.Upkeep

/-! No change is missed. Where a table has one row for each identity and the index is merged row by
row under that identity, every successful pull leaves the index equal to the live part of the table
as its read saw it, although only the rows at or above the mark were read. -/

namespace RefCache

open Indexes Upkeep

namespace Rules

variable {c : Category} {κ : Type}

/-- A write to a table with one row for each identity: rows are added, altered or marked deleted. -/
structure Write (key : c.Row → κ) (cold : Timestamp) (t t' : List c.Row) : Prop where
  unique : (t'.map key).Nodup
  started : ∀ row ∈ t', cold ≤ c.updatedAt row
  kept : ∀ old ∈ t, ∃ row ∈ t', key row = key old
  stamped : ∀ row ∈ t', row ∈ t ∨ ∀ old ∈ t, c.updatedAt old ≤ c.updatedAt row

theorem eq_of_key_eq {key : c.Row → κ} {t : List c.Row} (h : (t.map key).Nodup) {a b : c.Row}
    (ha : a ∈ t) (hb : b ∈ t) (hk : key a = key b) : a = b :=
  List.inj_on_of_nodup_map h ha hb hk

/-- One row for each identity, from the cold start on. -/
def oneEach (key : c.Row → κ) (cold : Timestamp) : Rules c cold where
  Sound t := (t.map key).Nodup ∧ ∀ row ∈ t, cold ≤ c.updatedAt row
  Writes := Write key cold
  Readable _ := True
  sound_nil := by simp
  sound_of_writes h := ⟨h.unique, h.started⟩
  started h := h.2
  stamped h := h.stamped
  kept := by
    intro t t' ht h old hold
    obtain ⟨row, hrow, hk⟩ := h.kept old hold
    rcases h.stamped row hrow with hin | hnew
    · obtain rfl := eq_of_key_eq ht.1 hin hold hk
      exact ⟨row, hrow, Std.le_refl _⟩
    · exact ⟨row, hrow, hnew old hold⟩

theorem key_kept {key : c.Row → κ} {cold : Timestamp} {t t' : List c.Row}
    (h : (oneEach key cold).Later t t') : ∀ old ∈ t, ∃ row ∈ t', key row = key old := by
  induction h with
  | refl => exact fun old hold => ⟨old, hold, rfl⟩
  | tail _ hw ih =>
    intro old hold
    obtain ⟨mid, hmid, h1⟩ := ih old hold
    obtain ⟨row, hrow, h2⟩ := hw.kept mid hmid
    exact ⟨row, hrow, h2.trans h1⟩

/-- Adding one row is a write. -/
theorem Write.insert {key : c.Row → κ} {cold : Timestamp} {t : List c.Row} {row : c.Row}
    (ht : (oneEach key cold).Sound t) (hk : key row ∉ t.map key)
    (hc : cold ≤ c.updatedAt row) (hs : ∀ old ∈ t, c.updatedAt old ≤ c.updatedAt row) :
    Write key cold t (t ++ [row]) where
  unique := by
    rw [List.map_append]
    exact List.nodup_append.2 ⟨ht.1, by simp, by
      rintro a ha b hb rfl
      rw [List.map_singleton, List.mem_singleton] at hb
      exact hk (hb ▸ ha)⟩
  started r hr := by
    rcases List.mem_append.1 hr with hr | hr
    · exact ht.2 r hr
    · rw [List.mem_singleton.1 hr]; exact hc
  kept old hold := ⟨old, List.mem_append_left _ hold, rfl⟩
  stamped r hr := by
    rcases List.mem_append.1 hr with hr | hr
    · exact Or.inl hr
    · rw [List.mem_singleton.1 hr]; exact Or.inr hs

/-- Altering one row, also to a deleted one, is a write. -/
theorem Write.alter {key : c.Row → κ} {cold : Timestamp} {before after : List c.Row}
    {old row : c.Row} (ht : (oneEach key cold).Sound (before ++ old :: after))
    (hk : key row = key old) (hc : cold ≤ c.updatedAt row)
    (hs : ∀ r ∈ before ++ old :: after, c.updatedAt r ≤ c.updatedAt row) :
    Write key cold (before ++ old :: after) (before ++ row :: after) where
  unique := by simpa [hk] using ht.1
  started r hr := by
    simp only [List.mem_append, List.mem_cons] at hr
    rcases hr with hr | rfl | hr
    · exact ht.2 r (by simp [hr])
    · exact hc
    · exact ht.2 r (by simp [hr])
  kept r hr := by
    simp only [List.mem_append, List.mem_cons] at hr
    rcases hr with hr | rfl | hr
    · exact ⟨r, by simp [hr], rfl⟩
    · exact ⟨row, by simp, hk⟩
    · exact ⟨r, by simp [hr], rfl⟩
  stamped r hr := by
    simp only [List.mem_append, List.mem_cons] at hr
    rcases hr with hr | rfl | hr
    · exact Or.inl (by simp [hr])
    · exact Or.inr hs
    · exact Or.inl (by simp [hr])

end Rules

open Rules

variable {c : Category} {κ α : Type} {photos : Uuid → Photo} {now : Timestamp}

/-- If each row tells of the one place under its identity, the places reflect the table. -/
theorem carried_of_own (key : c.Row → κ) (place : κ → Place c α)
    (own : ∀ k row x, (place k).tells row = some x → key row = k)
    (told : ∀ row, ∃ x, (place (key row)).tells row = some x) :
    Carried photos (oneEach key (coldStartMark now)) fun seen _ ix =>
      ∀ k, Reflects (place k).tells seen ((place k).find ix) where
  start k := by
    rw [(place k).find_empty]
    exact reflects_nil _
  pull {last seen merged ix since} hlast hlater _ hcov hix k := by
    have agree : ∀ t, (oneEach key (coldStartMark now)).Sound t → Agree (place k).tells t := by
      intro t ht a ha b hb x y hx hy
      obtain rfl := eq_of_key_eq ht.1 ha hb ((own k a x hx).trans (own k b y hy).symm)
      exact Option.some.inj (hx.symm.trans hy)
    rw [(place k).find_merge]
    refine (hix k).after_batch (agree last hlast) (agree seen (hlater.sound hlast))
      (fun row hrow => (Storage.mem_changedSince.1 hrow).1) (fun row hrow => ?_) ?_
    · exact (hcov row hrow).imp_right fun h => Storage.mem_changedSince.2 ⟨hrow, h⟩
    · intro old hold x hx
      obtain ⟨row, hrow, hk⟩ := key_kept hlater old hold
      obtain ⟨y, hy⟩ := told row
      rw [hk, own k old _ hx] at hy
      exact ⟨row, hrow, y, hy⟩

namespace Keyed

theorem own_of_tells (v : Keyed c α) {k : Uuid} {row : c.Row} {x : Option α}
    (h : (v.place k).tells row = some x) : v.own row = k :=
  (Stamped.tells_eq_some.1 h).1

theorem tells_own (v : Keyed c α) (row : c.Row) : ∃ x, (v.place (v.own row)).tells row = some x :=
  ⟨_, Stamped.tells_eq_some.2 ⟨rfl, rfl⟩⟩

theorem reflects_carried (v : Keyed c α) :
    Carried photos (oneEach v.own (coldStartMark now)) fun seen _ ix =>
      ∀ u, Reflects (v.place u).tells seen ((v.place u).find ix) :=
  carried_of_own v.own v.place (fun _ _ _ => v.own_of_tells) v.tells_own

/-- The index holds exactly the records of the live rows. -/
theorem after_pull (v : Keyed c α) :
    AfterPull photos (oneEach v.own (coldStartMark now)) fun seen _ ix =>
      ∀ u x, (v.index ix)[u]? = some x ↔
        ∃ row ∈ seen, (c.stamp row).isDeleted = false ∧ v.own row = u ∧ x = v.entry row := by
  intro m seen batch hrun hp u x
  have hr := v.reflects_carried.after_pull m seen batch hrun hp u x
  refine hr.trans (exists_congr fun row => and_congr_right fun _ => ?_)
  refine Stamped.tells_eq_some.trans ?_
  cases (c.stamp row).isDeleted <;> simp

end Keyed

namespace Listed

variable [DecidableEq κ]

theorem slot_of_tells (v : Listed c κ α) {s : Uuid × κ} {row : c.Row} {x : Option α}
    (h : (v.place s).tells row = some x) : v.slot row = s :=
  (Stamped.tells_eq_some.1 h).1

theorem tells_slot (v : Listed c κ α) (row : c.Row) :
    ∃ x, (v.place (v.slot row)).tells row = some x :=
  ⟨_, Stamped.tells_eq_some.2 ⟨rfl, rfl⟩⟩

theorem tidy_carried (v : Listed c κ α) (rules : Rules c (coldStartMark now)) :
    Carried photos rules fun _ _ ix => Tidy v.key (v.lists ix) where
  start := by rw [v.lists_empty]; exact tidy_empty _
  pull _ _ _ _ h := v.tidy_merge photos _ h

theorem reflects_carried (v : Listed c κ α) :
    Carried photos (oneEach v.slot (coldStartMark now)) fun seen _ ix =>
      ∀ s, Reflects (v.place s).tells seen ((v.place s).find ix) :=
  carried_of_own v.slot v.place (fun _ _ _ => v.slot_of_tells) v.tells_slot

/-- Where owner and key are the identity of a row, the lists hold exactly the items of the live
rows, each once. -/
theorem after_pull (v : Listed c κ α) :
    AfterPull photos (oneEach v.slot (coldStartMark now)) fun seen _ ix =>
      ∀ o, ((v.list ix o).map v.key).Nodup ∧ ∀ x, x ∈ v.list ix o ↔
        ∃ row ∈ seen, (c.stamp row).isDeleted = false ∧ v.owner row = o ∧ x = v.item row := by
  intro m seen batch hrun hp o
  obtain ⟨htidy, hr⟩ := ((v.tidy_carried _).and v.reflects_carried).after_pull m seen batch hrun hp
  refine ⟨htidy.nodup o, fun x => ?_⟩
  refine (htidy.mem_listAt.trans (hr (o, v.key x) x)).trans ?_
  refine exists_congr fun row => and_congr_right fun _ => ?_
  refine Stamped.tells_eq_some.trans ?_
  cases (c.stamp row).isDeleted
  · simp only [slot, Prod.mk.injEq, Bool.false_eq_true, if_false, Option.some.injEq, true_and]
    constructor
    · exact fun ⟨⟨ho, _⟩, hx⟩ => ⟨ho, hx⟩
    · rintro ⟨ho, rfl⟩
      exact ⟨⟨ho, rfl⟩, rfl⟩
  · simp

/-- Of links, which are their own keys, the lists hold exactly the targets. -/
theorem targets_after_pull (v : Listed c κ κ) (hv : v.key = id) :
    AfterPull photos (oneEach v.slot (coldStartMark now)) fun seen _ ix =>
      ∀ o, (v.list ix o).Nodup ∧ ∀ k, k ∈ v.list ix o ↔
        ∃ row ∈ seen, (c.stamp row).isDeleted = false ∧ v.owner row = o ∧ v.item row = k := by
  intro m seen batch hrun hp o
  obtain ⟨hnodup, hmem⟩ := v.after_pull m seen batch hrun hp o
  rw [hv, List.map_id] at hnodup
  refine ⟨hnodup, fun k => (hmem k).trans ?_⟩
  exact exists_congr fun row => and_congr_right fun _ => and_congr_right fun _ =>
    and_congr_right fun _ => eq_comm

end Listed

/-! ### The categories whose identity is the key of their index -/

/-- After every successful pull of every run the index equals the live part of the table as that
pull's fetch saw it: the records by identifier, or for every user the set of targets. -/
theorem no_change_missed (photos : Uuid → Photo) (now : Timestamp) :
    (AfterPull photos (c := .federations) (oneEach FederationRow.uuid (coldStartMark now))
      fun seen _ ix => ∀ u x, ix.federations[u]? = some x ↔
        ∃ row ∈ seen, row.isDeleted = false ∧ row.uuid = u ∧ x = ⟨row.uuid, row.name⟩) ∧
    (AfterPull photos (c := .companies) (oneEach CompanyRow.uuid (coldStartMark now))
      fun seen _ ix => ∀ u x, ix.companies[u]? = some x ↔
        ∃ row ∈ seen, row.isDeleted = false ∧ row.uuid = u ∧
          x = ⟨row.uuid, row.name, row.federation⟩) ∧
    (AfterPull photos (c := .tags) (oneEach TagRow.uuid (coldStartMark now))
      fun seen _ ix => ∀ u x, ix.tags[u]? = some x ↔
        ∃ row ∈ seen, row.isDeleted = false ∧ row.uuid = u ∧
          x = ⟨row.uuid, row.name, row.color⟩) ∧
    (AfterPull photos (c := .userFederation)
      (oneEach (fun row : UserFederationRow => (row.user, row.federation)) (coldStartMark now))
      fun seen _ ix => ∀ u, (listAt ix.userFederations u).Nodup ∧
        ∀ f, f ∈ listAt ix.userFederations u ↔
          ∃ row ∈ seen, row.isDeleted = false ∧ row.user = u ∧ row.federation = f) ∧
    (AfterPull photos (c := .userCompany)
      (oneEach (fun row : UserCompanyRow => (row.user, row.company)) (coldStartMark now))
      fun seen _ ix => ∀ u, (listAt ix.userCompanies u).Nodup ∧
        ∀ k, k ∈ listAt ix.userCompanies u ↔
          ∃ row ∈ seen, row.isDeleted = false ∧ row.user = u ∧ row.company = k) := by
  exact ⟨federationEntries.after_pull, companyEntries.after_pull, tagEntries.after_pull,
    userFederationLinks.targets_after_pull rfl, userCompanyLinks.targets_after_pull rfl⟩

/-- A federation is renamed with the stamp that it had, and the next pull still reads it. -/
theorem no_change_missed_renamed :
    ∃ (m : Upkeep .federations) (seen batch : List FederationRow),
      Run (fun _ => default) (oneEach FederationRow.uuid (coldStartMark ⟨0, 0⟩)) m ∧
      m.pull = .fetched seen (.rows batch) ∧
      m.cache.indexes.federations[Uuid.zero]? = some ⟨Uuid.zero, "old"⟩ ∧
      (m.absorbed (fun _ => default) (.rows batch)).cache.indexes.federations[Uuid.zero]? =
        some ⟨Uuid.zero, "new"⟩ := by
  let old : FederationRow := ⟨⟨⟨0, 0⟩, none⟩, Uuid.zero, "old"⟩
  let new : FederationRow := ⟨⟨⟨0, 0⟩, none⟩, Uuid.zero, "new"⟩
  have hcold : coldStartMark ⟨0, 0⟩ ≤ ⟨0, 0⟩ := by decide
  have hadd : Write (c := .federations) FederationRow.uuid (coldStartMark ⟨0, 0⟩) [] [old] :=
    Write.insert ⟨by simp, by simp⟩ (by simp) hcold (by simp)
  have hrename : Write (c := .federations) FederationRow.uuid (coldStartMark ⟨0, 0⟩)
      ([] ++ [old]) ([] ++ [new]) := by
    refine Write.alter ⟨by simp, ?_⟩ rfl hcold ?_
    · rintro row (_ | ⟨_, ⟨⟩⟩)
      exact hcold
    · rintro row (_ | ⟨_, ⟨⟩⟩)
      exact Std.le_refl _
  have hstart : Run (fun _ => default) (oneEach FederationRow.uuid (coldStartMark ⟨0, 0⟩))
      (start (c := .federations) ⟨0, 0⟩) := .start
  have hfirst := hstart.write_fetch hadd trivial
  have hsecond := (hfirst.step (.absorb rfl)).write_fetch hrename trivial
  have hold := (no_change_missed (fun _ => default) ⟨0, 0⟩).1 _ _ _ hfirst rfl Uuid.zero
  have hnew := (no_change_missed (fun _ => default) ⟨0, 0⟩).1 _ _ _ hsecond rfl Uuid.zero
  exact ⟨_, _, _, hsecond, rfl, (hold _).2 ⟨old, by simp, rfl, rfl, rfl⟩,
    (hnew _).2 ⟨new, by simp, rfl, rfl, rfl⟩⟩

end RefCache
