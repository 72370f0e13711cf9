import RefCache.Proofs.CatchUp
import RefCache.Proofs.HighWater

/-! Pulls of one category that overlap. A table with one row under each identifier is written to
while pulls of it read the mark, the table and then merge, and none of them waits for another. A
merge compares no stamps, so the index shows what was merged last, and of two pulls that is the
newest version fetched only if they merge in the order in which they fetched, or have nothing
different to say (`Keyed.leftByTwo`). -/

namespace RefCache

variable {photos : Uuid → Photo} {c d : Category} {α : Type}

/-! ### What a step of the traffic does to one category -/

namespace Traffic

variable {m m' : Traffic} {i : Nat}

def pullers (m : Traffic) (c : Category) (i : Nat) : Puller c := (m.refreshes i).puller c

theorem due_of_step {p : PullStep c} (h : m.step photos i c p = some m') :
    ∃ s, Refresh.Due photos c ⟨m.cache, m.refreshes i, []⟩ p s ∧ m'.cache = s.cache ∧
      m'.pullers c = Function.update (m.pullers c) i (s.refresh.puller c) := by
  obtain ⟨s, hs, rfl⟩ := Option.map_eq_some_iff.1 h
  refine ⟨s, Refresh.step_eq_some.1 hs, rfl, funext fun j => ?_⟩
  by_cases hj : j = i
  · subst hj
    simp only [pullers, Function.update_self]
  · simp only [pullers, Function.update_of_ne hj]

theorem step_of_due {p : PullStep c} {s : Refresh.State}
    (h : Refresh.Due photos c ⟨m.cache, m.refreshes i, []⟩ p s) :
    ∃ m', m.step photos i c p = some m' ∧ m'.cache = s.cache ∧
      m'.pullers c = Function.update (m.pullers c) i (s.refresh.puller c) := by
  have hs := Refresh.step_eq_some.2 h
  obtain ⟨m', hstep⟩ : ∃ m', m.step photos i c p = some m' := ⟨_, by rw [step, hs]; rfl⟩
  obtain ⟨s', hdue, hcache, hq⟩ := due_of_step hstep
  obtain rfl := Option.some.inj ((Refresh.step_eq_some.2 hdue).symm.trans hs)
  exact ⟨m', hstep, hcache, hq⟩

theorem elsewhere_of_step {p : PullStep d} (h : m.step photos i d p = some m') (hd : d ≠ c) :
    m'.cache.share c = m.cache.share c ∧ m'.pullers c = m.pullers c := by
  obtain ⟨s, hs, rfl⟩ := Option.map_eq_some_iff.1 h
  have hdue := Refresh.step_eq_some.1 hs
  refine ⟨hdue.share_of_ne hd, funext fun j => ?_⟩
  by_cases hj : j = i
  · subst hj
    simp only [pullers, Function.update_self, hdue.puller_of_ne hd]
  · simp only [pullers, Function.update_of_ne hj]

end Traffic

/-! ### The race -/

/-- The batch that a read came back with, under the number of its pull. -/
def Fetched.taken (i : Nat) : Fetched c → List (Nat × List c.Row)
  | .rows batch => [(i, batch)]
  | .failed _ => []
  | .panicked _ => []

/-- Whether a puller is past absorbing what it read. -/
def Puller.Past : Puller c → Prop
  | .finished _ => True
  | .joined => True
  | _ => False

structure Race (c : Category) where
  table : List c.Row
  traffic : Traffic
  /-- The batches that pulls came back with, in the order in which they read the table. -/
  fetched : List (Nat × List c.Row)
  /-- The batches that pulls merged, in the order in which they did. -/
  merged : List (Nat × List c.Row)

namespace Race

def start (table : List c.Row) (cache : Cache) : Race c :=
  ⟨table, ⟨cache, fun _ => .start, fun _ => [], fun _ => []⟩, [], []⟩

/-- Writes to the table, and steps of pulls of its category, whose reads answer from it, and of
pulls of all others. -/
inductive Step (photos : Uuid → Photo) {cold : Timestamp} (rules : Rules c cold) :
    Race c → Race c → Prop where
  | write {m : Race c} {table : List c.Row} :
    rules.Writes m.table table → Step photos rules m { m with table }
  | readMark {m : Race c} {i : Nat} {traffic : Traffic} :
    m.traffic.step photos i c .readMark = some traffic →
      Step photos rules m { m with traffic }
  | fetch {m : Race c} {i : Nat} {since : Timestamp} {what : Fetched c} {traffic : Traffic} :
    m.traffic.pullers c i = .reading since → Reads c since m.table what →
      m.traffic.step photos i c (.fetch what) = some traffic →
      Step photos rules m { m with traffic, fetched := m.fetched ++ what.taken i }
  | absorb {m : Race c} {i : Nat} {since : Timestamp} {what : Fetched c} {traffic : Traffic} :
    m.traffic.pullers c i = .fetched since what →
      m.traffic.step photos i c .absorb = some traffic →
      Step photos rules m { m with traffic, merged := m.merged ++ what.taken i }
  | join {m : Race c} {i : Nat} {traffic : Traffic} :
    m.traffic.step photos i c .join = some traffic →
      Step photos rules m { m with traffic }
  | elsewhere {m : Race c} {i : Nat} {d : Category} {p : PullStep d} {traffic : Traffic} :
    d ≠ c → m.traffic.step photos i d p = some traffic → Step photos rules m { m with traffic }

abbrev Run (photos : Uuid → Photo) {cold : Timestamp} (rules : Rules c cold) :
    Race c → Race c → Prop :=
  Relation.ReflTransGen (Step photos rules)

variable {cold : Timestamp} {rules : Rules c cold} {m m' : Race c}

/-- What every step keeps holds after every run. -/
theorem Run.keeps {I : Race c → Prop} (hrun : Run photos rules m m')
    (kept : ∀ {m m'}, Step photos rules m m' → I m → I m') (h : I m) : I m' := by
  induction hrun with
  | refl => exact h
  | tail _ hs ih => exact kept hs ih

/-- A pull that has not begun can read the mark and then the table. -/
theorem exists_read (photos : Uuid → Photo) (rules : Rules c cold) {i : Nat} {batch : List c.Row}
    (hp : m.traffic.pullers c i = .ready)
    (hbatch : Storage.changedSince c (m.traffic.cache.mark c) m.table = batch) :
    ∃ traffic, Run photos rules m { m with traffic, fetched := m.fetched ++ [(i, batch)] } ∧
      traffic.cache = m.traffic.cache ∧
      traffic.pullers c = Function.update (m.traffic.pullers c) i
        (.fetched (m.traffic.cache.mark c) (.rows batch)) := by
  have hready : Refresh.Due photos c ⟨m.traffic.cache, m.traffic.refreshes i, []⟩ .readMark _ :=
    .readMark hp
  obtain ⟨t, ht, hcache, hq⟩ := Traffic.step_of_due hready
  rw [Refresh.puller_setPuller_self] at hq
  have hreading : t.pullers c i = .reading (m.traffic.cache.mark c) := by
    rw [hq, Function.update_self]
  have hread : Refresh.Due photos c ⟨t.cache, t.refreshes i, []⟩ (.fetch (.rows batch)) _ :=
    .fetch hreading
  obtain ⟨t', ht', hcache', hq'⟩ := Traffic.step_of_due hread
  rw [Refresh.puller_setPuller_self, hq, Function.update_idem] at hq'
  have hreads : Reads c (m.traffic.cache.mark c) m.table (.rows batch) := hbatch ▸ .rows
  have hfetch : Step photos rules { m with traffic := t }
      { m with traffic := t', fetched := m.fetched ++ [(i, batch)] } :=
    .fetch (m := { m with traffic := t }) hreading hreads ht'
  exact ⟨t', .tail (.single (.readMark ht)) hfetch, hcache'.trans hcache, hq'⟩

/-- A pull that came back with rows can merge them. -/
theorem exists_merge (photos : Uuid → Photo) (rules : Rules c cold) {i : Nat}
    {since : Timestamp} {batch : List c.Row}
    (hp : m.traffic.pullers c i = .fetched since (.rows batch)) :
    ∃ traffic, Step photos rules m { m with traffic, merged := m.merged ++ [(i, batch)] } ∧
      ∀ j, j ≠ i → traffic.pullers c j = m.traffic.pullers c j := by
  have habsorb : Refresh.Due photos c ⟨m.traffic.cache, m.traffic.refreshes i, []⟩ .absorb _ :=
    .absorb hp
  obtain ⟨t, ht, -, hq⟩ := Traffic.step_of_due habsorb
  refine ⟨t, .absorb hp ht, fun j hj => ?_⟩
  rw [hq, Function.update_of_ne hj]

/-! ### The order of the fetches -/

/-- Of one identity, the rows of an earlier batch are stamped no later than those of a later. -/
def Precedes {κ : Type} (key : c.Row → κ) (p q : Nat × List c.Row) : Prop :=
  ∀ x ∈ p.2, ∀ y ∈ q.2, key x = key y → c.updatedAt x ≤ c.updatedAt y

structure Dated {κ : Type} (key : c.Row → κ) (cold : Timestamp) (m : Race c) : Prop where
  sound : (Rules.oneEach key cold).Sound m.table
  seen : ∀ p ∈ m.fetched, ∃ since seen, (Rules.oneEach key cold).Sound seen ∧
    (Rules.oneEach key cold).Later seen m.table ∧ p.2 = Storage.changedSince c since seen
  ordered : m.fetched.Pairwise (Precedes key)

namespace Dated

variable {κ : Type} {key : c.Row → κ}

/-- A read of the table comes after all reads before it. -/
theorem fetch_rows (hm : Dated key cold m) (i : Nat) (since : Timestamp) (traffic : Traffic) :
    Dated key cold { m with
      traffic, fetched := m.fetched ++ [(i, Storage.changedSince c since m.table)] } where
  sound := hm.sound
  seen p hp := by
    rcases List.mem_append.1 hp with hp | hp
    · exact hm.seen p hp
    · obtain rfl := List.mem_singleton.1 hp
      exact ⟨since, m.table, hm.sound, .refl, rfl⟩
  ordered := by
    refine List.pairwise_append.2 ⟨hm.ordered, List.pairwise_singleton .., ?_⟩
    intro p hp q hq x hx y hy hk
    obtain rfl := List.mem_singleton.1 hq
    obtain ⟨_, seen, hsound, hlater, hbatch⟩ := hm.seen p hp
    have hxs : x ∈ seen := (Storage.mem_changedSince.1 (hbatch ▸ hx)).1
    have hyt : y ∈ m.table := (Storage.mem_changedSince.1 hy).1
    -- a row that was there at the earlier read is the same row, any other is stamped after it
    rcases hlater.stamped hsound y hyt with hys | hnew
    · obtain rfl := Rules.eq_of_key_eq hsound.1 hxs hys hk
      exact Std.le_refl _
    · exact hnew x hxs

theorem step (hs : Step photos (Rules.oneEach key cold) m m') (hm : Dated key cold m) :
    Dated key cold m' := by
  cases hs with
  | write hw =>
    refine ⟨(Rules.oneEach key cold).sound_of_writes hw, fun p hp => ?_, hm.ordered⟩
    obtain ⟨since, seen, hsound, hlater, hbatch⟩ := hm.seen p hp
    exact ⟨since, seen, hsound, hlater.tail hw, hbatch⟩
  | @fetch i since what traffic _ hr _ =>
    cases hr with
    | rows => exact hm.fetch_rows i since traffic
    | failed e =>
      simp only [Fetched.taken, List.append_nil]
      exact ⟨hm.sound, hm.seen, hm.ordered⟩
    | panicked p =>
      simp only [Fetched.taken, List.append_nil]
      exact ⟨hm.sound, hm.seen, hm.ordered⟩
  | readMark _ => exact ⟨hm.sound, hm.seen, hm.ordered⟩
  | absorb _ _ => exact ⟨hm.sound, hm.seen, hm.ordered⟩
  | join _ => exact ⟨hm.sound, hm.seen, hm.ordered⟩
  | elsewhere _ _ => exact ⟨hm.sound, hm.seen, hm.ordered⟩

theorem of_run {table : List c.Row} {cache : Cache} (ht : (Rules.oneEach key cold).Sound table)
    (hrun : Run photos (Rules.oneEach key cold) (start table cache) m) : Dated key cold m :=
  hrun.keeps step ⟨ht, by simp [start], .nil⟩

/-- No batch has two rows of one identity. -/
theorem nodup (hm : Dated key cold m) {p : Nat × List c.Row} (hp : p ∈ m.fetched) :
    (p.2.map key).Nodup := by
  obtain ⟨since, seen, hsound, -, hbatch⟩ := hm.seen p hp
  have hperm : p.2.Perm (seen.filter fun row => decide (since ≤ c.updatedAt row)) :=
    hbatch ▸ List.mergeSort_perm ..
  rw [(hperm.map key).nodup_iff]
  exact hsound.1.sublist (List.filter_sublist.map key)

end Dated

/-! ### Each pull merges once, and only what it fetched -/

structure Tally (m : Race c) : Prop where
  held : ∀ i since batch, m.traffic.pullers c i = .fetched since (.rows batch) →
    (i, batch) ∈ m.fetched
  past : ∀ p ∈ m.merged, Puller.Past (m.traffic.pullers c p.1)
  once : (m.merged.map Prod.fst).Nodup
  among : ∀ p ∈ m.merged, p ∈ m.fetched

namespace Tally

variable {traffic : Traffic} {i : Nat} {q : Puller c}

theorem start (table : List c.Row) (cache : Cache) : Tally (Race.start table cache) where
  held i since batch h := nomatch (h : Puller.ready = _)
  past := by simp [Race.start]
  once := .nil
  among := by simp [Race.start]

/-- One puller moves on, and not back to before it absorbed. -/
theorem move (hm : Tally m) (hq : traffic.pullers c = Function.update (m.traffic.pullers c) i q)
    (held : ∀ since batch, q = .fetched since (.rows batch) → (i, batch) ∈ m.fetched)
    (past : Puller.Past (m.traffic.pullers c i) → Puller.Past q) :
    Tally { m with traffic } where
  held j since batch hj := by
    rw [hq] at hj
    by_cases hji : j = i
    · subst hji
      rw [Function.update_self] at hj
      exact held since batch hj
    · rw [Function.update_of_ne hji] at hj
      exact hm.held j since batch hj
  past p hp := by
    rw [hq]
    by_cases hpi : p.1 = i
    · subst hpi
      rw [Function.update_self]
      exact past (hm.past p hp)
    · rw [Function.update_of_ne hpi]
      exact hm.past p hp
  once := hm.once
  among := hm.among

theorem more (hm : Tally m) (more : List (Nat × List c.Row)) :
    Tally { m with fetched := m.fetched ++ more } where
  held i since batch h := List.mem_append_left _ (hm.held i since batch h)
  past := hm.past
  once := hm.once
  among p hp := List.mem_append_left _ (hm.among p hp)

/-- A pull that is past absorbing for the first time is new among those that have merged. -/
theorem merge (hm : Tally { m with traffic }) {batch : List c.Row}
    (hpast : Puller.Past (traffic.pullers c i)) (hnew : i ∉ m.merged.map Prod.fst)
    (hfetched : (i, batch) ∈ m.fetched) :
    Tally { m with traffic, merged := m.merged ++ [(i, batch)] } where
  held := hm.held
  past p hp := by
    rcases List.mem_append.1 hp with hp | hp
    · exact hm.past p hp
    · obtain rfl := List.mem_singleton.1 hp
      exact hpast
  once := by
    have hone : ([(i, batch)].map Prod.fst).Nodup := List.nodup_singleton i
    rw [List.map_append]
    refine List.nodup_append.2 ⟨hm.once, hone, fun a ha b hb hab => hnew ?_⟩
    obtain rfl : b = i := List.mem_singleton.1 hb
    exact hab ▸ ha
  among p hp := by
    rcases List.mem_append.1 hp with hp | hp
    · exact hm.among p hp
    · obtain rfl := List.mem_singleton.1 hp
      exact hfetched

theorem step (hs : Step photos rules m m') (hm : Tally m) : Tally m' := by
  cases hs with
  | write hw => exact ⟨hm.held, hm.past, hm.once, hm.among⟩
  | readMark h =>
    obtain ⟨s, hdue, -, hq⟩ := Traffic.due_of_step h
    cases hdue with
    | readMark hp =>
      rw [Refresh.puller_setPuller_self] at hq
      exact hm.move hq (fun _ _ h => nomatch h) fun h => by rwa [Traffic.pullers, hp] at h
  | @fetch i since what traffic hreading hr h =>
    obtain ⟨s, hdue, -, hq⟩ := Traffic.due_of_step h
    cases hdue with
    | fetch hp =>
      rw [Refresh.puller_setPuller_self] at hq
      refine (hm.more (what.taken i)).move hq ?_ fun h => by rwa [hreading] at h
      rintro _ batch ⟨⟩
      exact List.mem_append_right _ (List.mem_singleton_self _)
  | @absorb i since what traffic hfetched h =>
    have hnew : i ∉ m.merged.map Prod.fst := by
      intro hi
      obtain ⟨p, hp, rfl⟩ := List.mem_map.1 hi
      have hpast := hm.past p hp
      rwa [hfetched] at hpast
    obtain ⟨s, hdue, -, hq⟩ := Traffic.due_of_step h
    cases hdue with
    | absorb hp =>
      rw [Refresh.puller_setPuller_self] at hq
      have hmoved : Tally { m with traffic } :=
        hm.move hq (fun _ _ h => nomatch h) fun _ => trivial
      have hpast : (traffic.pullers c i).Past := by
        rw [hq, Function.update_self]
        trivial
      cases what with
      | rows batch => exact hmoved.merge hpast hnew (hm.held i since batch hfetched)
      | failed e => simpa only [Fetched.taken, List.append_nil] using hmoved
      | panicked p => simpa only [Fetched.taken, List.append_nil] using hmoved
  | join h =>
    obtain ⟨s, hdue, -, hq⟩ := Traffic.due_of_step h
    have hjoined : s.refresh.puller c = .joined := by
      cases hdue
      exact Refresh.puller_setPuller_self ..
    rw [hjoined] at hq
    exact hm.move hq (fun _ _ h => nomatch h) fun _ => trivial
  | elsewhere hd h =>
    obtain ⟨-, hq⟩ := Traffic.elsewhere_of_step h hd
    exact ⟨by simpa only [hq] using hm.held, by simpa only [hq] using hm.past, hm.once, hm.among⟩

theorem of_run {table : List c.Row} {cache : Cache}
    (hrun : Run photos rules (Race.start table cache) m) : Tally m :=
  hrun.keeps step (start table cache)

/-- Where two pulls fetched and two merged, they are the same two. -/
theorem merged_eq_or (hm : Tally m) {p q : Nat × List c.Row} (hf : m.fetched = [p, q])
    (hmerged : m.merged.length = 2) : m.merged = [p, q] ∨ m.merged = [q, p] := by
  obtain ⟨x, y, hxy⟩ := List.length_eq_two.1 hmerged
  have hne : x.1 ≠ y.1 := by simpa [hxy] using hm.once
  have hx : x = p ∨ x = q := by simpa [hxy, hf] using hm.among x
  have hy : y = p ∨ y = q := by simpa [hxy, hf] using hm.among y
  rw [hxy]
  rcases hx with rfl | rfl <;> rcases hy with rfl | rfl
  · exact absurd rfl hne
  · exact Or.inl rfl
  · exact Or.inr rfl
  · exact absurd rfl hne

end Tally

/-! ### What the index shows -/

/-- The index shows what was merged last, and the mark has come up to all of it. -/
structure Shows (v : Keyed c α) (before : Uuid → Option α) (m : Race c) : Prop where
  found : ∀ u, (v.index m.traffic.cache.indexes)[u]? =
    (lastSaid (v.place u).tells (m.merged.flatMap Prod.snd)).getD (before u)
  reached : ∀ p ∈ m.merged, ∀ row ∈ p.2, c.updatedAt row ≤ m.traffic.cache.mark c

namespace Shows

variable {v : Keyed c α} {before : Uuid → Option α} {traffic : Traffic}

theorem of_same (hm : Shows v before m)
    (hindex : v.index traffic.cache.indexes = v.index m.traffic.cache.indexes)
    (hmark : traffic.cache.mark c = m.traffic.cache.mark c) :
    Shows v before { m with traffic } where
  found u := (congrArg (·[u]?) hindex).trans (hm.found u)
  reached := by simpa only [hmark] using hm.reached

theorem merge (hm : Shows v before m) (i : Nat) (batch : List c.Row)
    (hcache : traffic.cache = (m.traffic.cache.absorb photos c (.rows batch)).cache) :
    Shows v before { m with traffic, merged := m.merged ++ [(i, batch)] } where
  found u := by
    have hbatch : (m.merged ++ [(i, batch)]).flatMap Prod.snd =
        m.merged.flatMap Prod.snd ++ batch := by simp
    have hfind := (v.place u).find_merge photos batch m.traffic.cache.indexes
    simp only [hbatch, hcache, Cache.indexes_absorb_rows, lastSaid_append]
    refine hfind.trans ?_
    cases lastSaid (v.place u).tells batch with
    | none => exact hm.found u
    | some x => rfl
  reached p hp row hrow := by
    have happlied : Merge.appliedRows (Indexes.applyRow photos c) batch m.traffic.cache.indexes =
        batch :=
      Merge.appliedRows_eq_self
        (fun row ix => (v.applied photos row ix).imp fun _ h => h.1) batch _
    simp only [hcache, Cache.mark_absorb_rows, happlied]
    rcases List.mem_append.1 hp with hp | hp
    · exact Std.le_trans (hm.reached p hp row hrow)
        (Timestamp.le_foldl_max (List.mem_cons_self ..))
    · obtain rfl := List.mem_singleton.1 hp
      exact Timestamp.le_foldl_max (List.mem_cons_of_mem _ (List.mem_map_of_mem hrow))

theorem step (hown : ∀ ix : Indexes, v.index (ix.only c) = v.index ix)
    (hs : Step photos rules m m') (hm : Shows v before m) : Shows v before m' := by
  cases hs with
  | write hw => exact ⟨hm.found, hm.reached⟩
  | readMark h =>
    obtain ⟨s, hdue, hcache, -⟩ := Traffic.due_of_step h
    cases hdue
    exact hm.of_same (by rw [hcache]) (by rw [hcache])
  | fetch _ _ h =>
    obtain ⟨s, hdue, hcache, -⟩ := Traffic.due_of_step h
    cases hdue
    have hsame := hm.of_same (congrArg (v.index ·.indexes) hcache) (congrArg (·.mark c) hcache)
    exact ⟨hsame.found, hsame.reached⟩
  | @absorb i since what traffic hfetched h =>
    obtain ⟨s, hdue, hcache, -⟩ := Traffic.due_of_step h
    cases hdue with
    | absorb hp =>
      obtain ⟨rfl, rfl⟩ := Puller.fetched.inj (hfetched.symm.trans hp)
      cases what with
      | rows batch => exact hm.merge i batch hcache
      | failed e =>
        simp only [Fetched.taken, List.append_nil]
        exact hm.of_same (congrArg (v.index ·.indexes) hcache) (congrArg (·.mark c) hcache)
      | panicked p =>
        simp only [Fetched.taken, List.append_nil]
        exact hm.of_same (congrArg (v.index ·.indexes) hcache) (congrArg (·.mark c) hcache)
  | join h =>
    obtain ⟨s, hdue, hcache, -⟩ := Traffic.due_of_step h
    cases hdue with
    | @join result hp =>
      cases result <;>
        exact hm.of_same (congrArg (v.index ·.indexes) hcache) (congrArg (·.mark c) hcache)
  | elsewhere hd h =>
    have hshare := congrArg Cache.Share.indexes (Traffic.elsewhere_of_step h hd).1
    refine hm.of_same ?_ (Traffic.step_of_ne h hd).1
    exact (hown _).symm.trans ((congrArg v.index hshare).trans (hown _))

theorem of_run (hown : ∀ ix : Indexes, v.index (ix.only c) = v.index ix) {table : List c.Row}
    {cache : Cache} (hrun : Run photos rules (start table cache) m) :
    Shows v (fun u => (v.index cache.indexes)[u]?) m :=
  hrun.keeps (step hown) ⟨fun _ => rfl, by simp [start]⟩

end Shows

end Race

/-! ### Two pulls -/

namespace Keyed

variable {v : Keyed c α} {a b : List c.Row} {cold : Timestamp} {m : Race c}

/-- What a row makes its identifier show. -/
def shown (v : Keyed c α) (row : c.Row) : Option α :=
  if (c.stamp row).isDeleted then none else some (v.entry row)

theorem tells_shown (v : Keyed c α) (row : c.Row) :
    (v.place (v.own row)).tells row = some (v.shown row) :=
  Stamped.tells_eq_some.2 ⟨rfl, rfl⟩

/-- Under every identifier in either of two batches the index shows the version in the second, or
that in the first where the second has none. -/
def ShowsOver (v : Keyed c α) (ix : Indexes) (a b : List c.Row) : Prop :=
  (∀ row ∈ b, (v.index ix)[v.own row]? = v.shown row) ∧
    ∀ row ∈ a, v.own row ∉ b.map v.own → (v.index ix)[v.own row]? = v.shown row

theorem lastSaid_own (hb : (b.map v.own).Nodup) {row : c.Row} (hrow : row ∈ b) :
    lastSaid (v.place (v.own row)).tells b = some (v.shown row) := by
  cases hsaid : lastSaid (v.place (v.own row)).tells b with
  | none => simpa [v.tells_shown] using lastSaid_eq_none.1 hsaid row hrow
  | some x =>
    obtain ⟨row', hrow', hx⟩ := exists_of_lastSaid hsaid
    obtain rfl := Rules.eq_of_key_eq hb hrow' hrow (v.own_of_tells hx)
    exact hx.symm.trans (v.tells_shown row')

theorem lastSaid_of_not_mem {u : Uuid} (hu : u ∉ b.map v.own) :
    lastSaid (v.place u).tells b = none := by
  refine lastSaid_eq_none.2 fun row hrow => Option.eq_none_iff_forall_ne_some.2 fun x hx => hu ?_
  exact v.own_of_tells hx ▸ List.mem_map_of_mem hrow

/-- What is said last over two batches, one after the other, is shown so. -/
theorem showsOver_of_said (ha : (a.map v.own).Nodup) (hb : (b.map v.own).Nodup) {ix : Indexes}
    {before : Uuid → Option α}
    (hix : ∀ u, (v.index ix)[u]? = (lastSaid (v.place u).tells (a ++ b)).getD (before u)) :
    v.ShowsOver ix a b := by
  constructor
  · intro row hrow
    rw [hix, lastSaid_append, lastSaid_own hb hrow]
    rfl
  · intro row hrow hnot
    rw [hix, lastSaid_append, lastSaid_of_not_mem hnot, lastSaid_own ha hrow]
    rfl

/-- An index that shows one batch over another shows the other over the one exactly if they agree
on what both have. -/
theorem showsOver_comm {ix : Indexes} (h : v.ShowsOver ix b a) :
    v.ShowsOver ix a b ↔ ∀ x ∈ a, ∀ y ∈ b, v.own x = v.own y → v.shown x = v.shown y := by
  constructor
  · intro h' x hx y hy hk
    have hfirst := h.1 x hx
    rw [hk] at hfirst
    exact hfirst.symm.trans (h'.1 y hy)
  · intro hagree
    refine ⟨fun row hrow => ?_, fun row hrow _ => h.1 row hrow⟩
    by_cases hin : v.own row ∈ a.map v.own
    · obtain ⟨x, hx, hk⟩ := List.mem_map.1 hin
      rw [← hk, h.1 x hx]
      exact hagree x hx row hrow hk
    · exact h.2 row hrow hin

/-- What two pulls leave, once both have merged, of which the one with `b` read the table after
the one with `a`: versions in `b` are stamped no earlier than those in `a`, the mark has come up to
all of them, and the index shows the newest versions fetched exactly if the pulls merged in the
order in which they read, or have nothing different to say. Else it shows those fetched first. -/
def LeftByTwo (photos : Uuid → Photo) (v : Keyed c α) : Prop :=
  ∀ (cold : Timestamp) (table : List c.Row) (cache : Cache) (m : Race c) (i j : Nat)
    (a b : List c.Row), (Rules.oneEach v.own cold).Sound table →
    Race.Run photos (Rules.oneEach v.own cold) (.start table cache) m →
    m.fetched = [(i, a), (j, b)] → m.merged.length = 2 →
      (∀ x ∈ a, ∀ y ∈ b, v.own x = v.own y → c.updatedAt x ≤ c.updatedAt y) ∧
      (∀ row ∈ a ++ b, c.updatedAt row ≤ m.traffic.cache.mark c) ∧
      (v.ShowsOver m.traffic.cache.indexes a b ↔
        m.merged = [(i, a), (j, b)] ∨
          ∀ x ∈ a, ∀ y ∈ b, v.own x = v.own y → v.shown x = v.shown y) ∧
      (m.merged = [(j, b), (i, a)] → v.ShowsOver m.traffic.cache.indexes b a)

theorem leftByTwo (v : Keyed c α) (hown : ∀ ix : Indexes, v.index (ix.only c) = v.index ix) :
    v.LeftByTwo photos := by
  intro cold table cache m i j a b ht hrun hf hmerged
  have hdated := Race.Dated.of_run ht hrun
  have hshows := Race.Shows.of_run hown hrun
  have horder := (Race.Tally.of_run hrun).merged_eq_or hf hmerged
  have ha : (a.map v.own).Nodup := hdated.nodup (p := (i, a)) (by simp [hf])
  have hb : (b.map v.own).Nodup := hdated.nodup (p := (j, b)) (by simp [hf])
  have hdates : Race.Precedes v.own (i, a) (j, b) := by simpa [hf] using hdated.ordered
  have hmark : ∀ row ∈ a ++ b, c.updatedAt row ≤ m.traffic.cache.mark c := by
    intro row hrow
    rcases List.mem_append.1 hrow with hrow | hrow
    · exact hshows.reached (i, a) (by rcases horder with h | h <;> simp [h]) row hrow
    · exact hshows.reached (j, b) (by rcases horder with h | h <;> simp [h]) row hrow
  have hinorder : m.merged = [(i, a), (j, b)] → v.ShowsOver m.traffic.cache.indexes a b :=
    fun h => showsOver_of_said ha hb (by simpa [h] using hshows.found)
  have hreversed : m.merged = [(j, b), (i, a)] → v.ShowsOver m.traffic.cache.indexes b a :=
    fun h => showsOver_of_said hb ha (by simpa [h] using hshows.found)
  refine ⟨hdates, hmark, ?_, hreversed⟩
  rcases horder with h | h
  · exact iff_of_true (hinorder h) (Or.inl h)
  · have hagree := showsOver_comm (hreversed h)
    exact ⟨fun hs => Or.inr (hagree.1 hs), fun hs => hs.elim hinorder hagree.2⟩

end Keyed

/-- What any two pulls of a keyed category leave, whatever else is under way. -/
theorem left_by_overlapping_pulls (photos : Uuid → Photo) :
    federationEntries.LeftByTwo photos ∧ companyEntries.LeftByTwo photos ∧
      tagEntries.LeftByTwo photos :=
  ⟨federationEntries.leftByTwo fun _ => rfl, companyEntries.leftByTwo fun _ => rfl,
    tagEntries.leftByTwo fun _ => rfl⟩

/-! A federation is renamed, and another one added, between the reads of two pulls. -/

namespace Race

def oldName : FederationRow := ⟨⟨⟨1, 0⟩, none⟩, Uuid.zero, "old"⟩

def newName : FederationRow := ⟨⟨⟨2, 0⟩, none⟩, Uuid.zero, "new"⟩

def another : FederationRow := ⟨⟨⟨3, 0⟩, none⟩, ⟨1⟩, "another"⟩

abbrev byUuid : Rules .federations (coldStartMark ⟨0, 0⟩) := Rules.oneEach FederationRow.uuid _

theorem exists_both_read : ∃ traffic since since',
    Run (fun _ => default) byUuid (start [] (.start ⟨0, 0⟩))
      ⟨[newName, another], traffic, [(0, [oldName]), (1, [newName, another])], []⟩ ∧
    traffic.pullers .federations 0 = .fetched since (.rows [oldName]) ∧
    traffic.pullers .federations 1 = .fetched since' (.rows [newName, another]) := by
  have hadd : byUuid.Writes [] [oldName] :=
    Rules.Write.insert byUuid.sound_nil (by decide) (by decide) (by decide)
  have hrename : byUuid.Writes ([] ++ oldName :: []) ([] ++ newName :: []) :=
    Rules.Write.alter (byUuid.sound_of_writes hadd) rfl (by decide) (by decide)
  have hmore : byUuid.Writes [newName] ([newName] ++ [another]) :=
    Rules.Write.insert (byUuid.sound_of_writes hrename) (by decide) (by decide) (by decide)
  have hold : Storage.changedSince .federations (coldStartMark ⟨0, 0⟩) [oldName] = [oldName] :=
    Storage.changedSince_singleton (by decide)
  have hnew : Storage.changedSince .federations (coldStartMark ⟨0, 0⟩) [newName, another] =
      [newName, another] :=
    Storage.changedSince_of_sorted (by decide)
  obtain ⟨t, hread, hcache, hq⟩ := exists_read (fun _ => default) byUuid
    (m := (start [oldName] (.start ⟨0, 0⟩) : Race .federations)) (i := 0) rfl hold
  have hmark : t.cache.mark .federations = coldStartMark ⟨0, 0⟩ := by rw [hcache]; rfl
  obtain ⟨t', hread', -, hq'⟩ := exists_read (fun _ => default) byUuid
    (m := ⟨[newName, another], t, [(0, [oldName])], []⟩) (i := 1) (by rw [hq]; rfl) (hmark ▸ hnew)
  have hrun : Run (fun _ => default) byUuid (start [] (.start ⟨0, 0⟩))
      ⟨[newName, another], t, [(0, [oldName])], []⟩ :=
    (((Relation.ReflTransGen.single (.write hadd)).trans hread).tail (.write hrename)).tail
      (.write hmore)
  refine ⟨t', coldStartMark ⟨0, 0⟩, coldStartMark ⟨0, 0⟩, hrun.trans hread', ?_, ?_⟩
  · rw [hq', hq]
    rfl
  · rw [hq', hmark]
    rfl

end Race

/-- The pulls merge in the order in which they read, and the new name is shown. -/
theorem left_by_overlapping_pulls_in_order :
    ∃ m : Race .federations, Race.Run (fun _ => default) Race.byUuid (.start [] (.start ⟨0, 0⟩)) m ∧
      m.fetched = [(0, [Race.oldName]), (1, [Race.newName, Race.another])] ∧
      m.traffic.cache.indexes.federations[Uuid.zero]? = some ⟨Uuid.zero, "new"⟩ := by
  obtain ⟨t, since, since', hrun, hfirst, hsecond⟩ := Race.exists_both_read
  obtain ⟨t', hmerge, hkept⟩ := Race.exists_merge (fun _ => default) Race.byUuid
    (m := ⟨_, t, _, _⟩) hfirst
  obtain ⟨t'', hmerge', -⟩ := Race.exists_merge (fun _ => default) Race.byUuid
    (m := ⟨_, t', _, _⟩) ((hkept 1 (by decide)).trans hsecond)
  have hdone := (hrun.tail hmerge).tail hmerge'
  obtain ⟨-, -, hshows, -⟩ := (left_by_overlapping_pulls fun _ => default).1 _ _ _ _ 0 1 _ _
    Race.byUuid.sound_nil hdone rfl rfl
  exact ⟨_, hdone, rfl, (hshows.2 (Or.inl rfl)).1 Race.newName (by simp)⟩

/-- They merge the other way round: the old name is shown, and the mark is past the new one. -/
theorem old_name_left_standing :
    ∃ (m : Race .federations) (a b : List FederationRow),
      Race.Run (fun _ => default) Race.byUuid (.start [] (.start ⟨0, 0⟩)) m ∧
      m.fetched = [(0, a), (1, b)] ∧ m.merged.length = 2 ∧
      ¬ federationEntries.ShowsOver m.traffic.cache.indexes a b ∧
      (∃ row ∈ b, row.uuid = Uuid.zero ∧ row.name = "new") ∧
      m.traffic.cache.indexes.federations[Uuid.zero]? = some ⟨Uuid.zero, "old"⟩ ∧
      ∀ row ∈ Storage.changedSince .federations (m.traffic.cache.mark .federations) m.table,
        row.uuid ≠ Uuid.zero := by
  obtain ⟨t, since, since', hrun, hfirst, hsecond⟩ := Race.exists_both_read
  obtain ⟨t', hmerge, hkept⟩ := Race.exists_merge (fun _ => default) Race.byUuid
    (m := ⟨_, t, _, _⟩) hsecond
  obtain ⟨t'', hmerge', -⟩ := Race.exists_merge (fun _ => default) Race.byUuid
    (m := ⟨_, t', _, _⟩) ((hkept 0 (by decide)).trans hfirst)
  have hdone := (hrun.tail hmerge).tail hmerge'
  obtain ⟨-, hmark, -, hshows⟩ := federationEntries.leftByTwo (fun _ => rfl) _ _ _ _ 0 1 _ _
    Race.byUuid.sound_nil hdone rfl rfl
  have hold := (hshows rfl).1 Race.oldName (by simp)
  refine ⟨_, _, _, hdone, rfl, rfl, fun hnewest => ?_, ⟨Race.newName, by simp, rfl, rfl⟩, hold, ?_⟩
  · have hnew := hnewest.1 Race.newName (by simp)
    exact absurd (hold.symm.trans hnew) (by decide)
  · -- the mark has come up to the row added last, so a renamed row below it is not read again
    intro row hrow hzero
    obtain ⟨hin, hge⟩ := Storage.mem_changedSince.1 hrow
    have hlast := Std.le_trans (hmark Race.another (by simp)) hge
    simp only [List.mem_cons, List.not_mem_nil, or_false] at hin
    rcases hin with rfl | rfl
    · exact absurd hlast (by decide)
    · exact absurd hzero (by decide)

end RefCache
