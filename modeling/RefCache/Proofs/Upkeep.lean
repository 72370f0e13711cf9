import RefCache.Proofs.Reading
import RefCache.Proofs.Slot
import RefCache.Session
import Mathlib.Logic.Relation
import Mathlib.Tactic.Set

/-! One category kept up to date. Its table is written to while pulls of it follow one another: a
pull reads the mark, then the table, then absorbs what came back, and there may be writes between
any two of these. Whatever one successful pull carries from the table that the last one saw to the
table that it saw itself holds after every successful pull of every run
(`Upkeep.Carried.after_pull`).
The reason is that a row not yet merged always has a stamp at or above the mark. -/

namespace RefCache

/-! ### What absorbing does to the indexes and the mark -/

namespace Cache

variable (photos : Uuid → Photo) {c : Category} (cache : Cache)

@[simp] theorem indexes_absorb_rows (batch : List c.Row) :
    (cache.absorb photos c (.rows batch)).cache.indexes =
      (cache.indexes.merge photos c batch).state := by
  simp only [absorb, mergeRows, clearError]
  cases (cache.indexes.merge photos c batch).latest <;> rfl

@[simp] theorem indexes_absorb_failed (e : Error) :
    (cache.absorb photos c (.failed e)).cache.indexes = cache.indexes := rfl

@[simp] theorem indexes_absorb_panicked (p : Payload) :
    (cache.absorb photos c (.panicked p)).cache.indexes = cache.indexes := rfl

/-- The mark after a batch is the greatest of the mark before it and the stamps of the rows that
are applied. -/
theorem mark_absorb_rows (batch : List c.Row) :
    (cache.absorb photos c (.rows batch)).cache.mark c =
      ((Merge.appliedRows (Indexes.applyRow photos c) batch cache.indexes).map c.updatedAt).foldl
        max (cache.mark c) := by
  generalize hstamps :
    (Merge.appliedRows (Indexes.applyRow photos c) batch cache.indexes).map c.updatedAt = stamps
  have hlatest : (cache.indexes.merge photos c batch).latest = stamps.max? :=
    hstamps ▸ Merge.latest_rows batch cache.indexes
  have hmark : (cache.absorb photos c (.rows batch)).cache.mark c =
      ({ cache with indexes := (cache.indexes.merge photos c batch).state }.advance c
        (cache.indexes.merge photos c batch).latest).mark c := rfl
  rw [hmark, hlatest, List.foldl_max]
  cases stamps.max? with
  | none => exact (Std.max_self).symm
  | some latest => exact mark_advance_self _ c latest

theorem mark_absorb_rows_or (batch : List c.Row) :
    (cache.absorb photos c (.rows batch)).cache.mark c = cache.mark c ∨
      ∃ row ∈ batch, (cache.absorb photos c (.rows batch)).cache.mark c = c.updatedAt row := by
  rw [mark_absorb_rows]
  rcases List.mem_cons.1 (Timestamp.foldl_max_mem _ _) with h | h
  · exact Or.inl h
  · obtain ⟨row, hrow, hstamp⟩ := List.mem_map.1 h
    exact Or.inr ⟨row, (Merge.appliedRows_sublist ..).subset hrow, hstamp.symm⟩

@[simp] theorem mark_absorb_failed (e : Error) :
    (cache.absorb photos c (.failed e)).cache.mark c = cache.mark c := rfl

@[simp] theorem mark_absorb_panicked (p : Payload) :
    (cache.absorb photos c (.panicked p)).cache.mark c = cache.mark c := rfl

end Cache

/-- The rows of a read that succeeded. -/
def Fetched.batch {c : Category} : Fetched c → List c.Row
  | .rows batch => batch
  | _ => []

/-- What a read of a table may come back with. -/
inductive Reads (c : Category) (since : Timestamp) (table : List c.Row) : Fetched c → Prop where
  | rows : Reads c since table (.rows (Storage.changedSince c since table))
  | failed (e : Error) : Reads c since table (.failed e)
  | panicked (p : Payload) : Reads c since table (.panicked p)

theorem Storage.reads_read (s : Storage) (c : Category) (since : Timestamp)
    (h : s.unordered = false) : Reads c since (s.table c) (s.read c since).1 := by
  unfold read
  split
  · exact .failed _
  · exact .panicked _
  · unfold readTable
    simp only [h, Bool.false_eq_true, if_false]
    split
    · exact .failed _
    · split
      · exact .panicked _
      · exact .rows

theorem Storage.table_read (s : Storage) (c : Category) (since : Timestamp) :
    (s.read c since).2.table = s.table := by
  unfold read
  split
  · rfl
  · rfl
  · unfold readTable
    split
    · rfl
    · split
      · rfl
      · split <;> rfl

@[simp] theorem Session.store_note {σ : Type} (s : Session σ) (events : List Event) :
    (s.note events).store = s.store := by
  unfold note
  split <;> rfl

@[simp] theorem Session.store_setCache {σ : Type} (s : Session σ) (cache : Cache) :
    (s.setCache cache).store = s.store := rfl

@[simp] theorem Session.cache_note {σ : Type} (s : Session σ) (events : List Event) :
    (s.note events).cache = s.cache := by
  unfold note
  split <;> rfl

theorem Session.pull_eq_some {s s' : Session Storage} {c : Category} {result : PullResult}
    (h : s.pull c = some (result, s')) :
    s'.store.table c = s.store.table c ∧
      s'.cache = (s.cache.absorb s.photos c (s.store.read c (s.cache.mark c)).1).cache := by
  unfold pull at h
  split at h
  · cases h
  · obtain ⟨-, rfl⟩ := Prod.mk.inj (Option.some.inj h)
    simp only [store_note, store_setCache, cache_note]
    exact ⟨congrFun (s.store.table_read c _) c, rfl⟩

/-- What tables there are, how they may be written to, and when they can be read. A write stamps
each row that it adds or changes no earlier than any row it finds, and no row is lost, unless to a
row that is stamped so. -/
structure Rules (c : Category) (cold : Timestamp) where
  Sound : List c.Row → Prop
  Writes : List c.Row → List c.Row → Prop
  Readable : List c.Row → Prop
  sound_nil : Sound []
  sound_of_writes : ∀ {t t'}, Writes t t' → Sound t'
  started : ∀ {t}, Sound t → ∀ row ∈ t, cold ≤ c.updatedAt row
  stamped : ∀ {t t'}, Writes t t' → ∀ row ∈ t',
    row ∈ t ∨ ∀ old ∈ t, c.updatedAt old ≤ c.updatedAt row
  kept : ∀ {t t'}, Sound t → Writes t t' → ∀ old ∈ t,
    ∃ row ∈ t', c.updatedAt old ≤ c.updatedAt row

/-- A mark that the rows of a table have come up to. -/
def Reached {c : Category} (cold mark : Timestamp) (t : List c.Row) : Prop :=
  mark = cold ∨ ∃ row ∈ t, mark ≤ c.updatedAt row

namespace Rules

variable {c : Category} {cold : Timestamp} (rules : Rules c cold)

/-- One table became the other by writes. -/
abbrev Later : List c.Row → List c.Row → Prop := Relation.ReflTransGen rules.Writes

variable {rules} {t t' : List c.Row}

theorem Later.sound (h : rules.Later t t') (ht : rules.Sound t) : rules.Sound t' := by
  induction h with
  | refl => exact ht
  | tail _ hw _ => exact rules.sound_of_writes hw

theorem Later.kept (h : rules.Later t t') (ht : rules.Sound t) :
    ∀ old ∈ t, ∃ row ∈ t', c.updatedAt old ≤ c.updatedAt row := by
  induction h with
  | refl => exact fun old hold => ⟨old, hold, Std.le_refl _⟩
  | tail h hw ih =>
    intro old hold
    obtain ⟨row, hrow, h1⟩ := ih old hold
    obtain ⟨row', hrow', h2⟩ := rules.kept (Later.sound h ht) hw row hrow
    exact ⟨row', hrow', Std.le_trans h1 h2⟩

theorem Later.stamped (h : rules.Later t t') (ht : rules.Sound t) :
    ∀ row ∈ t', row ∈ t ∨ ∀ old ∈ t, c.updatedAt old ≤ c.updatedAt row := by
  induction h with
  | refl => exact fun row hrow => Or.inl hrow
  | tail h hw ih =>
    intro row hrow
    rcases rules.stamped hw row hrow with hmid | hnew
    · exact ih row hmid
    · right
      intro old hold
      obtain ⟨mid, hmid, hle⟩ := Later.kept h ht old hold
      exact Std.le_trans hle (hnew mid hmid)

theorem Later.reached {mark : Timestamp} (h : rules.Later t t') (ht : rules.Sound t)
    (hb : Reached cold mark t) : Reached cold mark t' := by
  rcases hb with hb | ⟨row, hrow, hle⟩
  · exact Or.inl hb
  · obtain ⟨row', hrow', hle'⟩ := h.kept ht row hrow
    exact Or.inr ⟨row', hrow', Std.le_trans hle hle'⟩

/-- Rows below a mark that an earlier table reached were in that table already. -/
theorem Later.covers {mark : Timestamp} (h : rules.Later t t') (ht : rules.Sound t)
    (hb : Reached cold mark t) : ∀ row ∈ t', row ∈ t ∨ mark ≤ c.updatedAt row := by
  intro row hrow
  rcases hb with rfl | ⟨old, hold, hle⟩
  · exact Or.inr (rules.started (h.sound ht) row hrow)
  · rcases h.stamped ht row hrow with hin | hnew
    · exact Or.inl hin
    · exact Or.inr (Std.le_trans hle (hnew old hold))

end Rules

/-- The pull under way; what was read is kept with the table as the read saw it. -/
inductive Pull (c : Category) where
  | idle
  | reading (since : Timestamp)
  | fetched (seen : List c.Row) (what : Fetched c)

structure Upkeep (c : Category) where
  table : List c.Row
  cache : Cache
  /-- All rows merged so far, in the order in which they were merged. -/
  merged : List c.Row
  pull : Pull c

namespace Upkeep

variable {c : Category}

def start (now : Timestamp) : Upkeep c := ⟨[], .start now, [], .idle⟩

/-- The end of a pull: what it read is absorbed. -/
def absorbed (photos : Uuid → Photo) (m : Upkeep c) (what : Fetched c) : Upkeep c :=
  { m with
    cache := (m.cache.absorb photos c what).cache
    merged := m.merged ++ what.batch
    pull := .idle }

variable {now : Timestamp} (photos : Uuid → Photo) (rules : Rules c (coldStartMark now))

inductive Step : Upkeep c → Upkeep c → Prop where
  | write {m : Upkeep c} {table : List c.Row} :
    rules.Writes m.table table → Step m { m with table }
  | readMark {m : Upkeep c} :
    m.pull = .idle → Step m { m with pull := .reading (m.cache.mark c) }
  | fetch {m : Upkeep c} {since : Timestamp} {what : Fetched c} :
    m.pull = .reading since → rules.Readable m.table → Reads c since m.table what →
      Step m { m with pull := .fetched m.table what }
  | absorb {m : Upkeep c} {seen : List c.Row} {what : Fetched c} :
    m.pull = .fetched seen what → Step m (m.absorbed photos what)

/-- The states that are reached from an empty table and a cache that has just been started. -/
inductive Run : Upkeep c → Prop where
  | start : Run (start now)
  | step {m m' : Upkeep c} : Run m → Step photos rules m m' → Run m'

/-- A pull of a store in memory takes the steps of a pull. -/
theorem steps_of_session_pull {s s' : Session Storage} {result : PullResult}
    {rules : Rules c (coldStartMark now)} (h : s.pull c = some (result, s'))
    (hu : s.store.unordered = false) (hr : rules.Readable (s.store.table c)) (merged : List c.Row) :
    ∃ merged', Relation.ReflTransGen (Step s.photos rules)
      ⟨s.store.table c, s.cache, merged, .idle⟩ ⟨s'.store.table c, s'.cache, merged', .idle⟩ := by
  obtain ⟨htable, hcache⟩ := Session.pull_eq_some h
  set what := (s.store.read c (s.cache.mark c)).1
  have hmark : Step s.photos rules ⟨s.store.table c, s.cache, merged, .idle⟩
      ⟨s.store.table c, s.cache, merged, .reading (s.cache.mark c)⟩ := .readMark rfl
  have hfetch : Step s.photos rules ⟨s.store.table c, s.cache, merged, .reading (s.cache.mark c)⟩
      ⟨s.store.table c, s.cache, merged, .fetched (s.store.table c) what⟩ :=
    .fetch rfl hr (s.store.reads_read c (s.cache.mark c) hu)
  have habsorb : Step s.photos rules
      ⟨s.store.table c, s.cache, merged, .fetched (s.store.table c) what⟩
      (absorbed s.photos ⟨s.store.table c, s.cache, merged, .fetched _ what⟩ what) :=
    .absorb rfl
  refine ⟨merged ++ what.batch, ?_⟩
  rw [htable, hcache]
  exact ((Relation.ReflTransGen.single hmark).tail hfetch).tail habsorb

/-- How far a pull can have come, if the last successful one saw `last`. -/
inductive Fits (last table : List c.Row) (mark : Timestamp) : Pull c → Prop where
  | idle : Fits last table mark .idle
  | reading : Fits last table mark (.reading mark)
  | fetched {seen : List c.Row} {what : Fetched c} :
    rules.Later last seen → rules.Later seen table → rules.Readable seen →
      Reads c mark seen what → Fits last table mark (.fetched seen what)

structure Inv (last : List c.Row) (m : Upkeep c) : Prop where
  sound : rules.Sound last
  later : rules.Later last m.table
  reached : Reached (coldStartMark now) (m.cache.mark c) last
  fits : Fits rules last m.table (m.cache.mark c) m.pull

/-- A relation between the table that the last successful pull saw, the rows merged so far and the
indexes, that every successful pull moves on to the table that it saw itself. -/
structure Carried (P : List c.Row → List c.Row → Indexes → Prop) : Prop where
  start : P [] [] .empty
  pull : ∀ {last seen merged ix since}, rules.Sound last → rules.Later last seen →
    rules.Readable seen → (∀ row ∈ seen, row ∈ last ∨ since ≤ c.updatedAt row) →
    P last merged ix →
    P seen (merged ++ Storage.changedSince c since seen)
      (ix.merge photos c (Storage.changedSince c since seen)).state

/-- What holds after every successful pull of every run, of the table as its read saw it, all rows
merged and the indexes. -/
def AfterPull (Q : List c.Row → List c.Row → Indexes → Prop) : Prop :=
  ∀ (m : Upkeep c) (seen batch : List c.Row), Run photos rules m →
    m.pull = .fetched seen (.rows batch) →
      Q seen (m.merged ++ batch) (m.absorbed photos (.rows batch)).cache.indexes

variable {photos rules} {P Q : List c.Row → List c.Row → Indexes → Prop} {m m' : Upkeep c}

theorem Carried.and (hP : Carried photos rules P) (hQ : Carried photos rules Q) :
    Carried photos rules fun seen merged ix => P seen merged ix ∧ Q seen merged ix where
  start := ⟨hP.start, hQ.start⟩
  pull h1 h2 h3 h4 h5 := ⟨hP.pull h1 h2 h3 h4 h5.1, hQ.pull h1 h2 h3 h4 h5.2⟩

theorem sound_carried (rules : Rules c (coldStartMark now)) :
    Carried photos rules fun seen _ _ => rules.Sound seen where
  start := rules.sound_nil
  pull hlast hlater _ _ _ := hlater.sound hlast

theorem Fits.write {last table table' : List c.Row} {mark : Timestamp} {p : Pull c}
    (h : Fits rules last table mark p) (hw : rules.Writes table table') :
    Fits rules last table' mark p := by
  cases h with
  | idle => exact .idle
  | reading => exact .reading
  | fetched h1 h2 hr hreads => exact .fetched h1 (h2.tail hw) hr hreads

@[simp] theorem mark_start : (start now : Upkeep c).cache.mark c = coldStartMark now := by
  simp [start, Cache.start, Cache.mark]

theorem inv_start : Inv rules [] (start now) :=
  ⟨rules.sound_nil, .refl, Or.inl mark_start, .idle⟩

theorem Carried.absorbed (hP : Carried photos rules P) {last seen : List c.Row} {what : Fetched c}
    (hi : Inv rules last m) (hp : m.pull = .fetched seen what)
    (hl : P last m.merged m.cache.indexes) :
    ∃ last', Inv rules last' (m.absorbed photos what) ∧
      P last' (m.absorbed photos what).merged (m.absorbed photos what).cache.indexes ∧
      (∀ batch, what = .rows batch → last' = seen) := by
  obtain ⟨hsound, hlater, hreached, hfits⟩ := hi
  rw [hp] at hfits
  cases hfits with
  | fetched h1 h2 hr hreads =>
    cases hreads with
    | rows =>
      have hmark :=
        m.cache.mark_absorb_rows_or photos (Storage.changedSince c (m.cache.mark c) seen)
      refine ⟨seen, ⟨h1.sound hsound, h2, ?_, .idle⟩, ?_, fun _ _ => rfl⟩
      · rcases hmark with h | ⟨row, hrow, h⟩
        · simpa only [Upkeep.absorbed, h] using h1.reached hsound hreached
        · exact Or.inr ⟨row, (Storage.mem_changedSince.1 hrow).1, h ▸ Std.le_refl _⟩
      · simpa [Upkeep.absorbed, Fetched.batch] using
          hP.pull hsound h1 hr (h1.covers hsound hreached) hl
    | failed e =>
      exact ⟨last, ⟨hsound, hlater, hreached, .idle⟩,
        by simpa [Upkeep.absorbed, Fetched.batch] using hl, fun _ h => nomatch h⟩
    | panicked p =>
      exact ⟨last, ⟨hsound, hlater, hreached, .idle⟩,
        by simpa [Upkeep.absorbed, Fetched.batch] using hl, fun _ h => nomatch h⟩

theorem Carried.step (hP : Carried photos rules P) (hs : Step photos rules m m')
    (h : ∃ last, Inv rules last m ∧ P last m.merged m.cache.indexes) :
    ∃ last, Inv rules last m' ∧ P last m'.merged m'.cache.indexes := by
  obtain ⟨last, hi, hl⟩ := h
  cases hs with
  | write hw => exact ⟨last, ⟨hi.sound, hi.later.tail hw, hi.reached, hi.fits.write hw⟩, hl⟩
  | readMark hp => exact ⟨last, ⟨hi.sound, hi.later, hi.reached, .reading⟩, hl⟩
  | fetch hp hr hreads =>
    have hf := hi.fits
    rw [hp] at hf
    cases hf with
    | reading =>
      exact ⟨last, ⟨hi.sound, hi.later, hi.reached, .fetched hi.later .refl hr hreads⟩, hl⟩
  | absorb hp =>
    obtain ⟨last', hi', hl', -⟩ := hP.absorbed hi hp hl
    exact ⟨last', hi', hl'⟩

theorem Run.carried (hP : Carried photos rules P) (h : Run photos rules m) :
    ∃ last, Inv rules last m ∧ P last m.merged m.cache.indexes := by
  induction h with
  | start => exact ⟨[], inv_start, hP.start⟩
  | step _ hs ih => exact hP.step hs ih

/-- Between pulls: a write, and then a pull as far as its fetch. -/
theorem Run.write_fetch {t t' merged : List c.Row} {cache : Cache}
    (h : Run photos rules ⟨t, cache, merged, .idle⟩) (hw : rules.Writes t t')
    (hr : rules.Readable t') :
    Run photos rules ⟨t', cache, merged,
      .fetched t' (.rows (Storage.changedSince c (cache.mark c) t'))⟩ := by
  have hwritten := h.step (.write hw)
  have hreading := hwritten.step (.readMark rfl)
  exact hreading.step (.fetch rfl hr .rows)

theorem Carried.after_pull (hP : Carried photos rules P) : AfterPull photos rules P := by
  intro m seen batch hrun hp
  obtain ⟨last, hi, hl⟩ := hrun.carried hP
  obtain ⟨last', -, hl', hseen⟩ := hP.absorbed hi hp hl
  rw [hseen batch rfl] at hl'
  exact hl'

end Upkeep

end RefCache
