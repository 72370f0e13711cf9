import RefCache.Proofs.Due
import Mathlib.Data.List.Nodup
import Mathlib.Data.List.Perm.Basic

/-! Schedules of a refresh whose reads come back with given rows, errors and panics. The steps of
the eleven pullers and of the collector may be taken in any order in which each is due: the
refresh always comes to its end, and always to the same one, that of the pullers taking their turns
one after the other. -/

namespace RefCache

/-- How many steps a puller has before it. -/
def Puller.left {c : Category} : Puller c → Nat
  | .ready => 4
  | .reading _ => 3
  | .fetched _ _ => 2
  | .finished _ => 1
  | .joined => 0

namespace Refresh

/-- Every read comes back with what is assigned to its category. -/
def Answered (reads : (c : Category) → Fetched c) (acts : List Act) : Prop :=
  ∀ c what, ⟨c, .fetch what⟩ ∈ acts → what = reads c

/-- All steps of one puller, up to its join. -/
def course (reads : (c : Category) → Fetched c) (c : Category) : List Act :=
  [⟨c, .readMark⟩, ⟨c, .fetch (reads c)⟩, ⟨c, .absorb⟩, ⟨c, .join⟩]

/-- One puller after the other, in category order. -/
def oneByOne (reads : (c : Category) → Fetched c) : List Act := Category.all.flatMap (course reads)

def begin (cache : Cache) : State := ⟨cache, .start, []⟩

variable {photos : Uuid → Photo} {reads : (c : Category) → Fetched c} {cache : Cache}
  {c d : Category} {s s' : State}

/-! ### Schedules come to an end -/

def left (r : Refresh) : Nat := Category.all.foldr (fun c n => (r.puller c).left + n) 0

theorem Due.left_eq {p : PullStep c} (h : Due photos c s p s') :
    s.refresh.left = s'.refresh.left + 1 := by
  have hself : (s.refresh.puller c).left = (s'.refresh.puller c).left + 1 := by
    cases h with
    | readMark hp => simp [hp, Puller.left]
    | fetch hp => simp [hp, Puller.left]
    | absorb hp => simp [hp, Puller.left]
    | join hp => simp [hp, Puller.left]
  have hother : ∀ d, c ≠ d → s'.refresh.puller d = s.refresh.puller d := fun d => h.puller_of_ne
  cases c <;> simp [left, Category.all, hself, hother] <;> omega

theorem length_schedule {acts : List Act} (h : acts.foldlM (act photos) s = some s') :
    acts.length + s'.refresh.left = s.refresh.left := by
  induction acts generalizing s with
  | nil =>
    obtain rfl := Option.some.inj h
    simp
  | cons a acts ih =>
    rw [List.foldlM_cons] at h
    obtain ⟨mid, hmid, hrest⟩ := Option.bind_eq_some_iff.1 h
    have hleft := (step_eq_some.1 hmid).left_eq
    have hlength := ih hrest
    rw [List.length_cons]
    omega

/-- As long as a puller has not been joined, a step of it is due. -/
theorem exists_due (photos : Uuid → Photo) (reads : (c : Category) → Fetched c)
    (h : s.refresh.puller c ≠ .joined) :
    ∃ p s', Answered reads [⟨c, p⟩] ∧ Due photos c s p s' := by
  have hplain : ∀ p : PullStep c, (∀ what, p ≠ .fetch what) → Answered reads [⟨c, p⟩] := by
    rintro p hp d what hmem
    obtain ⟨rfl, hmem⟩ := Sigma.mk.inj (List.mem_singleton.1 hmem)
    exact absurd (eq_of_heq hmem).symm (hp what)
  cases hp : s.refresh.puller c with
  | ready => exact ⟨_, _, hplain _ (by simp), .readMark hp⟩
  | reading since =>
    refine ⟨.fetch (reads c), _, ?_, .fetch hp⟩
    rintro d what hmem
    obtain ⟨rfl, hmem⟩ := Sigma.mk.inj (List.mem_singleton.1 hmem)
    exact PullStep.fetch.inj (eq_of_heq hmem)
  | fetched since what => exact ⟨_, _, hplain _ (by simp), .absorb hp⟩
  | finished result => exact ⟨_, _, hplain _ (by simp), .join hp⟩
  | joined => exact absurd hp h

/-- A puller that has not moved yet can be seen through, and the others stay where they are. -/
theorem exists_after_course (photos : Uuid → Photo) (reads : (c : Category) → Fetched c)
    (h : s.refresh.puller c = .ready) :
    ∃ s', (course reads c).foldlM (act photos) s = some s' ∧ s'.refresh.puller c = .joined ∧
      ∀ d, c ≠ d → s'.refresh.puller d = s.refresh.puller d := by
  obtain ⟨s', hs', hjoined⟩ : ∃ s', (course reads c).foldlM (act photos) s = some s' ∧
      s'.refresh.puller c = .joined := by
    simp [course, act, step, h]
  refine ⟨s', hs', hjoined, fun d hd => ?_⟩
  refine kept_by_run (I := fun x => x.refresh.puller d = s.refresh.puller d) ?_ hs' rfl
  intro a ha x x' hx' hx
  have hac : a.1 = c := by
    simp only [course, List.mem_cons, List.not_mem_nil, or_false] at ha
    rcases ha with rfl | rfl | rfl | rfl <;> rfl
  exact ((step_eq_some.1 hx').puller_of_ne (hac ▸ hd)).trans hx

/-- Pullers that have not moved yet can be seen through one after the other. -/
theorem exists_after_courses (photos : Uuid → Photo) (reads : (c : Category) → Fetched c)
    {cs : List Category} (hcs : cs.Nodup) (h : ∀ c ∈ cs, s.refresh.puller c = .ready) :
    ∃ s', (cs.flatMap (course reads)).foldlM (act photos) s = some s' ∧
      (∀ c ∈ cs, s'.refresh.puller c = .joined) ∧
      ∀ d ∉ cs, s'.refresh.puller d = s.refresh.puller d := by
  induction cs generalizing s with
  | nil => exact ⟨s, rfl, by simp, fun d _ => rfl⟩
  | cons c cs ih =>
    rw [List.nodup_cons] at hcs
    obtain ⟨mid, hmid, hjoined, hother⟩ :=
      exists_after_course photos reads (h c (List.mem_cons_self ..))
    have hready : ∀ d ∈ cs, mid.refresh.puller d = .ready := by
      intro d hd
      have hne : c ≠ d := fun he => hcs.1 (he ▸ hd)
      rw [hother d hne]
      exact h d (List.mem_cons_of_mem c hd)
    obtain ⟨s', hs', hall, hrest⟩ := ih hcs.2 hready
    refine ⟨s', ?_, ?_, ?_⟩
    · rw [List.flatMap_cons, List.foldlM_append, hmid]
      exact hs'
    · intro d hd
      rcases List.mem_cons.1 hd with rfl | hd
      · exact (hrest d hcs.1).trans hjoined
      · exact hall d hd
    · intro d hd
      rw [List.mem_cons, not_or] at hd
      exact (hrest d hd.2).trans (hother d (Ne.symm hd.1))

theorem answered_courses (reads : (c : Category) → Fetched c) (cs : List Category) :
    Answered reads (cs.flatMap (course reads)) := by
  intro c what hmem
  obtain ⟨d, -, hd⟩ := List.mem_flatMap.1 hmem
  simp only [course, List.mem_cons, Sigma.mk.injEq, List.not_mem_nil, or_false] at hd
  rcases hd with ⟨rfl, h⟩ | ⟨rfl, h⟩ | ⟨rfl, h⟩ | ⟨rfl, h⟩
  · cases h
  · exact PullStep.fetch.inj (eq_of_heq h)
  · cases h
  · cases h

/-! ### Where a refresh stands -/

/-- The read of one category, absorbed on its own. -/
def pulled (photos : Uuid → Photo) (reads : (c : Category) → Fetched c) (cache : Cache)
    (c : Category) : Cache.Absorbed :=
  cache.absorb photos c (reads c)

/-- The cache after the pull of one category alone, and the collector's note of it. -/
def alone (photos : Uuid → Photo) (reads : (c : Category) → Fetched c) (cache : Cache)
    (c : Category) : Cache :=
  (noteResult c (pulled photos reads cache c).cache (pulled photos reads cache c).result).1

def outcomeOf (photos : Uuid → Photo) (reads : (c : Category) → Fetched c) (cache : Cache)
    (c : Category) : CategoryOutcome :=
  resultOutcome c (pulled photos reads cache c).result

theorem noteResult_congr {x y : Cache} (h : x.share c = y.share c) (result : PullResult) :
    (noteResult c x result).1.share c = (noteResult c y result).1.share c := by
  cases result with
  | panicked p =>
    change (x.noteError c (panicText p)).share c = (y.noteError c (panicText p)).share c
    rw [Cache.share_noteError_self, Cache.share_noteError_self, h]
  | merged o => exact h
  | failed e => exact h

/-- What a puller holds, and what its category's share of the cache is, by how far it has come. -/
def Stands (photos : Uuid → Photo) (reads : (c : Category) → Fetched c) (cache : Cache)
    (c : Category) (share : Cache.Share) : Puller c → Prop
  | .ready => share = cache.share c
  | .reading _ => share = cache.share c
  | .fetched _ what => what = reads c ∧ share = cache.share c
  | .finished result =>
    result = (pulled photos reads cache c).result ∧
      share = (pulled photos reads cache c).cache.share c
  | .joined => share = (alone photos reads cache c).share c

/-- What holds in the middle of every schedule. -/
structure Underway (photos : Uuid → Photo) (reads : (c : Category) → Fetched c) (cache : Cache)
    (s : State) : Prop where
  coldStart : s.cache.coldStart = cache.coldStart
  shouldUpdate : s.cache.shouldUpdate = cache.shouldUpdate
  stands : ∀ c, Stands photos reads cache c (s.cache.share c) (s.refresh.puller c)
  nodup : s.refresh.outcomes.Nodup
  outcomes : ∀ o, o ∈ s.refresh.outcomes ↔
    ∃ c, s.refresh.puller c = .joined ∧ o = outcomeOf photos reads cache c

theorem underway_begin : Underway photos reads cache (begin cache) where
  coldStart := rfl
  shouldUpdate := rfl
  stands _ := rfl
  nodup := List.nodup_nil
  outcomes := by simp [begin, start]

theorem outcomeOf_injective (h : outcomeOf photos reads cache c = outcomeOf photos reads cache d) :
    c = d := by
  have hcategory := congrArg CategoryOutcome.category h
  simpa [outcomeOf] using hcategory

/-- The puller that takes a step, and its category's share, stand where they should again. -/
theorem Due.stands_self {p : PullStep c} (h : Due photos c s p s')
    (hp : ∀ what, p = .fetch what → what = reads c)
    (hcold : s.cache.coldStart = cache.coldStart)
    (hc : Stands photos reads cache c (s.cache.share c) (s.refresh.puller c)) :
    Stands photos reads cache c (s'.cache.share c) (s'.refresh.puller c) := by
  cases h with
  | readMark hready =>
    rw [hready] at hc
    rw [puller_setPuller_self]
    exact hc
  | @fetch since what hreading =>
    rw [hreading] at hc
    rw [puller_setPuller_self]
    exact ⟨hp what rfl, hc⟩
  | absorb hfetched =>
    -- other pullers may have merged meanwhile, but this share is still the one at the beginning
    rw [hfetched] at hc
    obtain ⟨rfl, hshare⟩ := hc
    obtain ⟨habsorbed, hresult⟩ := Cache.absorb_congr photos hcold hshare (reads c)
    rw [puller_setPuller_self]
    exact ⟨hresult, habsorbed⟩
  | join hfinished =>
    rw [hfinished] at hc
    obtain ⟨rfl, hshare⟩ := hc
    have hjoined : (s.refresh.setPuller c .joined).puller c = .joined := puller_setPuller_self ..
    change Stands photos reads cache c _ ((s.refresh.setPuller c .joined).puller c)
    rw [hjoined]
    exact noteResult_congr hshare _

/-- Only a join adds an outcome, that of the puller joined. -/
theorem Due.outcomes_eq {p : PullStep c} (h : Due photos c s p s') :
    (s'.refresh.outcomes = s.refresh.outcomes ∧
      ∀ d, s'.refresh.puller d = .joined ↔ s.refresh.puller d = .joined) ∨
    ∃ result, s.refresh.puller c = .finished result ∧ s'.refresh.puller c = .joined ∧
      s'.refresh.outcomes = s.refresh.outcomes ++ [resultOutcome c result] := by
  have hother := fun d (hd : c ≠ d) => h.puller_of_ne hd
  have hsame : s.refresh.puller c ≠ .joined → s'.refresh.puller c ≠ .joined →
      ∀ d, s'.refresh.puller d = .joined ↔ s.refresh.puller d = .joined := by
    intro hold hnew d
    by_cases hd : c = d
    · subst hd
      simp [hold, hnew]
    · rw [hother d hd]
  cases h with
  | readMark hp => exact Or.inl ⟨rfl, hsame (by simp [hp]) (by simp)⟩
  | fetch hp => exact Or.inl ⟨rfl, hsame (by simp [hp]) (by simp)⟩
  | absorb hp => exact Or.inl ⟨rfl, hsame (by simp [hp]) (by simp)⟩
  | join hp => exact Or.inr ⟨_, hp, puller_setPuller_self .., rfl⟩

theorem Underway.result_eq (hu : Underway photos reads cache s) {result : PullResult}
    (h : s.refresh.puller c = .finished result) :
    result = (pulled photos reads cache c).result := by
  have hc := hu.stands c
  rw [h] at hc
  exact hc.1

theorem Underway.step {p : PullStep c} (hu : Underway photos reads cache s)
    (hp : ∀ what, p = .fetch what → what = reads c) (h : Due photos c s p s') :
    Underway photos reads cache s' := by
  have hstands : ∀ d, Stands photos reads cache d (s'.cache.share d) (s'.refresh.puller d) := by
    intro d
    by_cases hd : c = d
    · subst hd
      exact h.stands_self hp hu.coldStart (hu.stands c)
    · rw [h.puller_of_ne hd, h.share_of_ne hd]
      exact hu.stands d
  have hcold := h.coldStart_eq.trans hu.coldStart
  have hflag := h.shouldUpdate_eq.trans hu.shouldUpdate
  rcases h.outcomes_eq with ⟨houtcomes, hjoined⟩ | ⟨result, hfinished, hc, houtcomes⟩
  · refine ⟨hcold, hflag, hstands, houtcomes ▸ hu.nodup, fun o => ?_⟩
    simp only [houtcomes, hjoined, hu.outcomes]
  · obtain rfl := hu.result_eq hfinished
    change _ = s.refresh.outcomes ++ [outcomeOf photos reads cache c] at houtcomes
    -- an outcome names its category, and this puller has not been joined before
    have hnew : outcomeOf photos reads cache c ∉ s.refresh.outcomes := by
      intro hmem
      obtain ⟨d, hd, heq⟩ := (hu.outcomes _).1 hmem
      obtain rfl := outcomeOf_injective heq
      rw [hfinished] at hd
      cases hd
    refine ⟨hcold, hflag, hstands, ?_, fun o => ?_⟩
    · rw [houtcomes, List.nodup_append]
      refine ⟨hu.nodup, by simp, ?_⟩
      rintro a ha b hb rfl
      exact hnew (List.mem_singleton.1 hb ▸ ha)
    · rw [houtcomes, List.mem_append, List.mem_singleton, hu.outcomes]
      constructor
      · rintro (⟨d, hd, rfl⟩ | rfl)
        · have hne : c ≠ d := by
            rintro rfl
            rw [hfinished] at hd
            cases hd
          exact ⟨d, (h.puller_of_ne hne).trans hd, rfl⟩
        · exact ⟨c, hc, rfl⟩
      · rintro ⟨d, hd, rfl⟩
        by_cases hne : c = d
        · exact Or.inr (hne ▸ rfl)
        · exact Or.inl ⟨d, (h.puller_of_ne hne).symm.trans hd, rfl⟩

theorem underway_of_schedule {acts : List Act} (ha : Answered reads acts)
    (h : acts.foldlM (act photos) (begin cache) = some s) : Underway photos reads cache s := by
  refine kept_by_run (I := Underway photos reads cache) ?_ h underway_begin
  rintro ⟨c, p⟩ hact s s' hs' hu
  exact hu.step (fun what hwhat => ha c what (hwhat ▸ hact)) (step_eq_some.1 hs')

/-! ### The end of a refresh -/

theorem Underway.share_of_complete (hu : Underway photos reads cache s)
    (h : s.refresh.complete) (c : Category) :
    s.cache.share c = (alone photos reads cache c).share c := by
  have hc := hu.stands c
  rw [complete_iff.1 h c] at hc
  exact hc

theorem Underway.cache_eq (hu : Underway photos reads cache s)
    (hu' : Underway photos reads cache s') (h : s.refresh.complete) (h' : s'.refresh.complete) :
    s.cache = s'.cache := by
  refine Cache.eq_of_share (hu.coldStart.trans hu'.coldStart.symm)
    (hu.shouldUpdate.trans hu'.shouldUpdate.symm) fun c => ?_
  rw [hu.share_of_complete h, hu'.share_of_complete h']

/-- The report has the outcomes in category order, one for each. -/
theorem Underway.report_eq (hu : Underway photos reads cache s) (h : s.refresh.complete) :
    s.refresh.report = ⟨Category.all.map (outcomeOf photos reads cache)⟩ := by
  have hall := complete_iff.1 h
  have htrans : ∀ a b c : CategoryOutcome, Report.inOrder a b → Report.inOrder b c →
      Report.inOrder a c := by
    simp only [Report.inOrder, decide_eq_true_eq]
    intro a b c hab hbc
    exact Nat.le_trans hab hbc
  have htotal : ∀ a b : CategoryOutcome, Report.inOrder a b || Report.inOrder b a := by
    simp only [Report.inOrder, Bool.or_eq_true, decide_eq_true_eq]
    intro a b
    exact Nat.le_total ..
  have hperm : s.refresh.outcomes.Perm (Category.all.map (outcomeOf photos reads cache)) := by
    refine (List.perm_ext_iff_of_nodup hu.nodup ?_).2 fun o => ?_
    · exact List.Nodup.map (fun c d => outcomeOf_injective) (by decide)
    · simp only [hu.outcomes, hall, true_and, List.mem_map, eq_comm (a := o)]
      exact exists_congr fun c => (and_iff_right c.mem_all).symm
  have hsorted : (Category.all.map (outcomeOf photos reads cache)).Pairwise
      fun a b => Report.inOrder a b := by
    rw [List.pairwise_map]
    simp only [Report.inOrder, outcomeOf, category_resultOutcome]
    decide
  refine congrArg Report.mk (List.Perm.eq_of_pairwise ?_ (List.pairwise_mergeSort htrans htotal _)
    hsorted ((List.mergeSort_perm _ _).trans hperm))
  intro a b ha hb hab hba
  simp only [Report.inOrder, decide_eq_true_eq] at hab hba
  obtain ⟨c, -, rfl⟩ := List.mem_map.1 (hperm.mem_iff.1 (List.mem_mergeSort.1 ha))
  obtain ⟨d, -, rfl⟩ := List.mem_map.1 hb
  simp only [outcomeOf, category_resultOutcome] at hab hba
  rw [Category.rank_injective (Nat.le_antisymm hab hba)]

/-- No step is due any more. -/
def AtEnd (photos : Uuid → Photo) (reads : (c : Category) → Fetched c) (s : State) : Prop :=
  ∀ c p, Answered reads [⟨c, p⟩] → step photos c s p = none

theorem atEnd_iff : AtEnd photos reads s ↔ s.refresh.complete := by
  rw [complete_iff]
  constructor
  · intro h c
    by_contra hc
    obtain ⟨p, s', hp, hdue⟩ := exists_due photos reads hc
    rw [← step_eq_some, h c p hp] at hdue
    cases hdue
  · intro h c p _
    cases p <;> simp only [step, h c]

/-- Whatever the order of the steps, the refresh comes to an end after forty-four of them, and to
the end that the pullers reach one after the other. -/
theorem any_order_same_end (photos : Uuid → Photo) (reads : (c : Category) → Fetched c)
    (cache : Cache) :
    ∃ last, (oneByOne reads).foldlM (act photos) (begin cache) = some last ∧ last.refresh.complete ∧
      last.refresh.report.outcomes.map (·.category) = Category.all ∧
      ∀ acts s, Answered reads acts → acts.foldlM (act photos) (begin cache) = some s →
        acts.length ≤ 44 ∧ (AtEnd photos reads s → acts.length = 44 ∧ s.cache = last.cache ∧
          s.refresh.report = last.refresh.report) := by
  obtain ⟨last, hlast, hjoined, -⟩ := exists_after_courses photos reads
    (by decide : Category.all.Nodup) fun c _ => (rfl : (begin cache).refresh.puller c = .ready)
  have hcomplete : last.refresh.complete := complete_iff.2 fun c => hjoined c c.mem_all
  have hu : Underway photos reads cache last :=
    underway_of_schedule (answered_courses reads _) hlast
  refine ⟨last, hlast, hcomplete, ?_, fun acts s ha hs => ?_⟩
  · rw [hu.report_eq hcomplete, List.map_map]
    simp only [Function.comp_def, outcomeOf, category_resultOutcome, List.map_id']
  have hlength : acts.length + s.refresh.left = 44 := length_schedule hs
  refine ⟨by omega, fun hend => ?_⟩
  have hs' : s.refresh.complete := atEnd_iff.1 hend
  have hleft : s.refresh.left = 0 := by
    simp only [left, complete_iff.1 hs', Puller.left, Category.all, List.foldr]
  have hus : Underway photos reads cache s := underway_of_schedule ha hs
  refine ⟨by omega, hus.cache_eq hu hs' hcomplete, ?_⟩
  rw [hus.report_eq hs', hu.report_eq hcomplete]

/-- Reads of which one panics, one fails, one comes back with a row, and all others with none. -/
def mixedReads : (c : Category) → Fetched c
  | .users => .panicked .other
  | .tags => .failed (.internal "boom")
  | .companies => .rows [default]
  | _ => .rows []

/-- All pullers abreast, each phase in another order than the one before. -/
def abreast (reads : (c : Category) → Fetched c) : List Act :=
  Category.all.map (⟨·, .readMark⟩) ++ Category.all.reverse.map (fun c => ⟨c, .fetch (reads c)⟩) ++
    Category.all.map (⟨·, .absorb⟩) ++ Category.all.reverse.map (⟨·, .join⟩)

theorem answered_abreast (reads : (c : Category) → Fetched c) : Answered reads (abreast reads) := by
  intro c what hmem
  simp only [abreast, List.mem_append, List.mem_map, Sigma.mk.injEq] at hmem
  rcases hmem with ((⟨d, -, rfl, h⟩ | ⟨d, -, rfl, h⟩) | ⟨d, -, rfl, h⟩) | ⟨d, -, rfl, h⟩
  · cases h
  · exact (PullStep.fetch.inj (eq_of_heq h)).symm
  · cases h
  · cases h

theorem any_order_same_end_abreast :
    ∃ s last, (abreast mixedReads).foldlM (act fun _ => default) (begin (.start ⟨0, 0⟩)) = some s ∧
      (oneByOne mixedReads).foldlM (act fun _ => default) (begin (.start ⟨0, 0⟩)) = some last ∧
      s.refresh.outcomes.map (·.category) = Category.all.reverse ∧
      s.cache = last.cache ∧ s.refresh.report = last.refresh.report := by
  obtain ⟨s, hs, hcomplete, horder⟩ : ∃ s,
      (abreast mixedReads).foldlM (act fun _ => default) (begin (.start ⟨0, 0⟩)) = some s ∧
      s.refresh.complete ∧ s.refresh.outcomes.map (·.category) = Category.all.reverse :=
    ⟨_, rfl, rfl, rfl⟩
  obtain ⟨last, hlast, -, -, hany⟩ :=
    any_order_same_end (fun _ => default) mixedReads (.start ⟨0, 0⟩)
  obtain ⟨-, hcache, hreport⟩ :=
    (hany _ s (answered_abreast mixedReads) hs).2 (atEnd_iff.2 hcomplete)
  exact ⟨s, last, hs, hlast, horder, hcache, hreport⟩

end Refresh

end RefCache
