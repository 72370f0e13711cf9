import RefCache.Proofs.Schedule
import RefCache.Proofs.Visits
import RefCache.Session
import Mathlib.Data.List.Nodup

/-! Refreshes are serial. Any number of callers ask for refreshes, coordinators take their turns,
the cache is marked for updates, the store answers anything at any time, and queries, which change
nothing, go unmentioned. What the refreshes do is written down in a log. However all this is
interleaved, a refresh begins only when every earlier one has been seen through: every category of
it was absorbed and joined before. A batch is therefore never absorbed after one fetched later. No
caller gives up on its refresh here, and no category is pulled outside one. -/

namespace RefCache

/-- What a refresh has done, by its ticket. -/
inductive Entry where
  | took (ticket : Nat)
  | marked (ticket : Nat) (c : Category)
  | fetched (ticket : Nat) (c : Category) (what : Fetched c)
  | absorbed (ticket : Nat) (c : Category) (what : Fetched c)
  | joined (ticket : Nat) (c : Category)
  | released (ticket : Nat)

/-- What a step of a puller is written down as, by where the puller stood. -/
def Entry.ofStep (ticket : Nat) (c : Category) : PullStep c → Puller c → List Entry
  | .readMark, _ => [.marked ticket c]
  | .fetch what, _ => [.fetched ticket c what]
  | .absorb, .fetched _ what => [.absorbed ticket c what]
  | .absorb, _ => []
  | .join, _ => [.joined ticket c]

/-! ### What a log says -/

section Log

variable (log : List Entry) (ticket : Nat) (c : Category)

/-- The refresh is between taking the lock and releasing it. -/
def Holds : Prop := .took ticket ∈ log ∧ .released ticket ∉ log

/-- The refresh has seen the category through. -/
def Done : Prop := .joined ticket c ∈ log ∧ ∃ what, .absorbed ticket c what ∈ log

/-- Nothing has been fetched for the category since. -/
def LastFetched (what : Fetched c) : Prop :=
  ∃ old later, log = old ++ .fetched ticket c what :: later ∧
    ∀ t what', .fetched t c what' ∉ later

/-- All other refreshes so far have seen the category through. -/
def OthersDone : Prop := ∀ t, .took t ∈ log → t ≠ ticket → Done log t c

/-- What must be in the log already when an entry is added to it. -/
def Allowed : Entry → Prop
  | .took ticket => ∀ t, .took t ∈ log → t ≠ ticket ∧ .released t ∈ log
  | .marked ticket c => Holds log ticket ∧ OthersDone log ticket c
  | .fetched ticket c _ => Holds log ticket ∧ OthersDone log ticket c ∧ .marked ticket c ∈ log
  | .absorbed ticket c what => Holds log ticket ∧ LastFetched log ticket c what
  | .joined ticket c => Holds log ticket ∧ ∃ what, .absorbed ticket c what ∈ log
  | .released ticket => Holds log ticket ∧ ∀ c, Done log ticket c

/-- Every entry was allowed when it was added. -/
def Lawful : Prop := ∀ before e after, log = before ++ e :: after → Allowed before e

/-- What the log says of a puller, by how far it has come. -/
def Follows : Puller c → Prop
  | .ready => True
  | .reading _ => .marked ticket c ∈ log
  | .fetched _ what => LastFetched log ticket c what
  | .finished _ => ∃ what, .absorbed ticket c what ∈ log
  | .joined => Done log ticket c

end Log

variable {log : List Entry} {e : Entry} {ticket : Nat} {c d : Category}

theorem lawful_nil : Lawful [] := by
  intro before e after h
  cases before <;> cases h

theorem Lawful.concat (h : Lawful log) (he : Allowed log e) : Lawful (log ++ [e]) := by
  intro before x after heq
  rcases List.eq_nil_or_concat after with rfl | ⟨after, y, rfl⟩
  · obtain ⟨rfl, hx⟩ := List.append_inj' heq rfl
    obtain rfl := List.singleton_inj.1 hx
    exact he
  · rw [List.concat_eq_append, ← List.cons_append, ← List.append_assoc] at heq
    exact h before x after (List.append_inj' heq rfl).1

/-- A lock that was released had been taken. -/
theorem Lawful.took_of_released (h : Lawful log) (hr : .released ticket ∈ log) :
    .took ticket ∈ log := by
  obtain ⟨before, after, rfl⟩ := List.append_of_mem hr
  have hholds : Holds before ticket := (h before _ after rfl).1
  exact List.mem_append_left _ hholds.1

theorem Done.concat (h : Done log ticket c) (e : Entry) : Done (log ++ [e]) ticket c :=
  ⟨List.mem_append_left _ h.1, h.2.imp fun _ => List.mem_append_left _⟩

theorem LastFetched.concat {what : Fetched c} (h : LastFetched log ticket c what)
    (he : ∀ t what', e ≠ .fetched t c what') : LastFetched (log ++ [e]) ticket c what := by
  obtain ⟨old, later, rfl, hlater⟩ := h
  refine ⟨old, later ++ [e], by simp, fun t what' hmem => ?_⟩
  rcases List.mem_append.1 hmem with hmem | hmem
  · exact hlater t what' hmem
  · exact he t what' (List.mem_singleton.1 hmem).symm

theorem lastFetched_concat (what : Fetched c) :
    LastFetched (log ++ [.fetched ticket c what]) ticket c what :=
  ⟨log, [], rfl, fun _ _ hmem => nomatch hmem⟩

theorem Follows.concat {q : Puller c} (h : Follows log ticket c q)
    (he : ∀ t what', e ≠ .fetched t c what') : Follows (log ++ [e]) ticket c q := by
  cases q with
  | ready => trivial
  | reading since => exact List.mem_append_left _ h
  | fetched since what => exact LastFetched.concat h he
  | finished result => exact h.imp fun _ => List.mem_append_left _
  | joined => exact Done.concat h e

/-! ### The office -/

/-- What all who want refreshes share, and the log. -/
structure Office where
  shared : Shared
  log : List Entry

namespace Office

/-- What can happen next. A refresh is asked for and its report is fetched by whoever wants it; a
coordinator takes one of its turns, by its place among those open; the clock and the update channel
change as they please. -/
inductive Op where
  | request
  | collect (ticket : Nat)
  | flag (value : Bool)
  | turn (c : Coordinator) (i : Nat)
  | surroundings (now : Nat) (channel : Broadcast Nat)
  | grant
  | pull (a : Refresh.Act)
  | release

def start (now interval : Nat) (cache : Cache) (channel : Broadcast Nat) : Office :=
  ⟨⟨now, interval, cache, .start, channel⟩, []⟩

def setDesk (o : Office) (desk : Desk) : Office := { o with shared := { o.shared with desk } }

def setCache (o : Office) (cache : Cache) : Office := { o with shared := { o.shared with cache } }

def write (o : Office) (entries : List Entry) : Office := { o with log := o.log ++ entries }

/-- The first ticket is served, if the lock is free. -/
def grant (o : Office) : Option Office :=
  o.shared.desk.grant?.map fun desk =>
    (o.setDesk desk).write (desk.active.toList.map fun a => .took a.1)

/-- A step of the refresh under way. -/
def pull (photos : Uuid → Photo) (o : Office) (c : Category) (p : PullStep c) : Option Office :=
  o.shared.desk.active.bind fun a =>
    (Refresh.step photos c ⟨o.shared.cache, a.2, []⟩ p).map fun s =>
      ((o.setCache s.cache).setDesk { o.shared.desk with active := some (a.1, s.refresh) }).write
        (Entry.ofStep a.1 c p (a.2.puller c))

/-- The refresh under way is over, if every puller has been joined. -/
def release (o : Office) : Option Office :=
  o.shared.desk.finish?.map fun after =>
    (o.setDesk after.1).write (o.shared.desk.active.toList.map fun a => .released a.1)

def step (photos : Uuid → Photo) (o : Office) : Op → Option Office
  | .request => some (o.setDesk o.shared.desk.request.1)
  | .collect ticket => some (o.setDesk (o.shared.desk.collect ticket))
  | .flag value => some (o.setCache (o.shared.cache.setUpdate value))
  | .turn c i => (c.moves o.shared)[i]?.map fun m => { o with shared := m.shared }
  | .surroundings now channel => some { o with shared := { o.shared with now, channel } }
  | .grant => o.grant
  | .pull a => o.pull photos a.1 a.2
  | .release => o.release

end Office

/-! ### What holds at all times -/

/-- What holds of the desk and the log at all times. -/
structure Orderly (desk : Desk) (log : List Entry) : Prop where
  waiting : ∀ t ∈ desk.waiting, t < desk.next ∧ .took t ∉ log
  nodup : desk.waiting.Nodup
  drawn : ∀ t, .took t ∈ log → t < desk.next
  holder : ∀ t, Holds log t ↔ ∃ r, desk.active = some (t, r)
  follows : ∀ t r, desk.active = some (t, r) → ∀ c, Follows log t c (r.puller c)
  seenThrough : ∀ t, .released t ∈ log → ∀ c, Done log t c
  lawful : Lawful log

variable {desk desk' : Desk} {r r' : Refresh} {rest : List Nat}

theorem orderly_start : Orderly .start [] where
  waiting _ h := nomatch h
  nodup := .nil
  drawn _ h := nomatch h
  holder _ := iff_of_false (fun h => nomatch h.1) nofun
  follows _ _ h := nomatch h
  seenThrough _ h := nomatch h
  lawful := lawful_nil

namespace Orderly

/-- Visits to the desk draw fresh tickets and fetch reports. -/
theorem visit (ho : Orderly desk log) (h : desk.Visit desk') : Orderly desk' log := by
  obtain ⟨hwaiting, hnodup, hdrawn, hholder, hfollows, hthrough, hlawful⟩ := ho
  cases h with
  | none => exact ⟨hwaiting, hnodup, hdrawn, hholder, hfollows, hthrough, hlawful⟩
  | collect ticket => exact ⟨hwaiting, hnodup, hdrawn, hholder, hfollows, hthrough, hlawful⟩
  | request =>
    have hfresh : desk.next ∉ desk.waiting := fun h => Nat.lt_irrefl _ (hwaiting _ h).1
    refine ⟨?_, ?_, fun t ht => Nat.lt_succ_of_lt (hdrawn t ht), hholder, hfollows, hthrough,
      hlawful⟩
    · intro t ht
      rcases List.mem_append.1 ht with ht | ht
      · exact ⟨Nat.lt_succ_of_lt (hwaiting t ht).1, (hwaiting t ht).2⟩
      · obtain rfl := List.mem_singleton.1 ht
        exact ⟨Nat.lt_succ_self _, fun h => Nat.lt_irrefl _ (hdrawn _ h)⟩
    · exact List.nodup_append.2 ⟨hnodup, List.nodup_singleton _, fun a ha b hb hab =>
        hfresh (List.mem_singleton.1 hb ▸ hab ▸ ha)⟩

theorem eq_of_holds (ho : Orderly desk log) (h : desk.active = some (ticket, r)) {t : Nat}
    (ht : Holds log t) : t = ticket := by
  obtain ⟨r', hr'⟩ := (ho.holder t).1 ht
  rw [h] at hr'
  exact (congrArg Prod.fst (Option.some.inj hr')).symm

theorem not_holds (ho : Orderly desk log) (h : desk.active = none) (t : Nat) : ¬ Holds log t := by
  intro ht
  obtain ⟨r, hr⟩ := (ho.holder t).1 ht
  rw [h] at hr
  cases hr

/-- While one refresh holds the lock, all others that had it are done. -/
theorem othersDone (ho : Orderly desk log) (h : desk.active = some (ticket, r)) :
    OthersDone log ticket c := by
  intro t ht hne
  by_contra hdone
  exact hne (ho.eq_of_holds h ⟨ht, fun hr => hdone (ho.seenThrough t hr c)⟩)

theorem grant (ho : Orderly desk log) (hfree : desk.active = none)
    (hfirst : desk.waiting = ticket :: rest) :
    Orderly { desk with waiting := rest, active := some (ticket, .start) }
      (log ++ [.took ticket]) := by
  have hwaiting := ho.waiting
  have hnodup := ho.nodup
  rw [hfirst] at hwaiting hnodup
  rw [List.nodup_cons] at hnodup
  obtain ⟨hdrawn, hnew⟩ := hwaiting ticket (List.mem_cons_self ..)
  -- the lock is free, so whoever took it has released it
  have hallowed : Allowed log (.took ticket) := by
    intro t ht
    refine ⟨fun h => hnew (h ▸ ht), ?_⟩
    by_contra hr
    exact ho.not_holds hfree t ⟨ht, hr⟩
  have hreleased : ∀ t, .released t ∈ log ++ [Entry.took ticket] → .released t ∈ log := by simp
  have htook : ∀ t, .took t ∈ log ++ [Entry.took ticket] ↔ .took t ∈ log ∨ t = ticket := by simp
  refine ⟨fun t ht => ?_, hnodup.2, fun t ht => ?_, fun t => ?_, ?_, fun t ht c => ?_,
    ho.lawful.concat hallowed⟩
  · obtain ⟨hlt, hnot⟩ := hwaiting t (List.mem_cons_of_mem _ ht)
    refine ⟨hlt, fun h => ?_⟩
    rcases (htook t).1 h with h | rfl
    · exact hnot h
    · exact hnodup.1 ht
  · rcases (htook t).1 ht with h | rfl
    · exact ho.drawn t h
    · exact hdrawn
  · constructor
    · rintro ⟨ht, hr⟩
      have hr' : .released t ∉ log := fun h => hr (List.mem_append_left _ h)
      rcases (htook t).1 ht with h | rfl
      · exact absurd ⟨h, hr'⟩ (ho.not_holds hfree t)
      · exact ⟨_, rfl⟩
    · rintro ⟨r, hr⟩
      obtain rfl : ticket = t := congrArg Prod.fst (Option.some.inj hr)
      refine ⟨(htook ticket).2 (Or.inr rfl), fun h => hnew ?_⟩
      exact ho.lawful.took_of_released (hreleased ticket h)
  · intro t r hr c
    obtain rfl : Refresh.start = r := congrArg Prod.snd (Option.some.inj hr)
    exact trivial
  · exact (ho.seenThrough t (hreleased t ht) c).concat _

/-- A step of the puller of one category, written down as an entry about that category. -/
theorem concat (ho : Orderly desk log) (hactive : desk.active = some (ticket, r))
    (hother : ∀ d, c ≠ d → r'.puller d = r.puller d) (htook : ∀ t, e ≠ .took t)
    (hreleased : ∀ t, e ≠ .released t)
    (hfetched : ∀ d, c ≠ d → ∀ t what, e ≠ .fetched t d what) (he : Allowed log e)
    (hself : Follows (log ++ [e]) ticket c (r'.puller c)) :
    Orderly { desk with active := some (ticket, r') } (log ++ [e]) := by
  have hmemTook : ∀ t, .took t ∈ log ++ [e] ↔ .took t ∈ log := by
    intro t
    simp [(htook t).symm]
  have hmemReleased : ∀ t, .released t ∈ log ++ [e] ↔ .released t ∈ log := by
    intro t
    simp [(hreleased t).symm]
  refine ⟨fun t ht => ?_, ho.nodup, fun t ht => ho.drawn t ((hmemTook t).1 ht), fun t => ?_, ?_,
    fun t ht c => (ho.seenThrough t ((hmemReleased t).1 ht) c).concat e, ho.lawful.concat he⟩
  · obtain ⟨hlt, hnot⟩ := ho.waiting t ht
    exact ⟨hlt, fun h => hnot ((hmemTook t).1 h)⟩
  · unfold Holds
    rw [hmemTook, hmemReleased]
    refine (ho.holder t).trans ?_
    rw [hactive]
    simp
  · intro t r'' hr d
    obtain ⟨rfl, rfl⟩ := Prod.mk.inj (Option.some.inj hr)
    by_cases hd : c = d
    · exact hd ▸ hself
    · -- the entry is none of a fetch for another category, so what was fetched last there still is
      rw [hother d hd]
      exact (ho.follows ticket r hactive d).concat (hfetched d hd)

theorem pull {photos : Uuid → Photo} {cache : Cache} {p : PullStep c} {s : Refresh.State}
    (ho : Orderly desk log) (hactive : desk.active = some (ticket, r))
    (h : Refresh.Due photos c ⟨cache, r, []⟩ p s) :
    Orderly { desk with active := some (ticket, s.refresh) }
      (log ++ Entry.ofStep ticket c p (r.puller c)) := by
  have hholds : Holds log ticket := (ho.holder ticket).2 ⟨r, hactive⟩
  have hothers : OthersDone log ticket c := ho.othersDone hactive
  have hfollows : Follows log ticket c (r.puller c) := ho.follows ticket r hactive c
  have hother : ∀ d, c ≠ d → s.refresh.puller d = r.puller d := fun d hd => h.puller_of_ne hd
  cases h with
  | readMark hp =>
    refine ho.concat hactive hother nofun nofun (fun _ _ => nofun) ⟨hholds, hothers⟩ ?_
    rw [Refresh.puller_setPuller_self]
    exact List.mem_append_right _ (List.mem_singleton.2 rfl)
  | @fetch since what hp =>
    rw [hp] at hfollows
    refine ho.concat hactive hother nofun nofun ?_ ⟨hholds, hothers, hfollows⟩ ?_
    · rintro d hd t what' ⟨⟩
      exact hd rfl
    · rw [Refresh.puller_setPuller_self]
      exact lastFetched_concat what
  | @absorb since what hp =>
    rw [hp] at hfollows ⊢
    refine ho.concat hactive hother nofun nofun (fun _ _ => nofun) ⟨hholds, hfollows⟩ ?_
    rw [Refresh.puller_setPuller_self]
    exact ⟨what, List.mem_append_right _ (List.mem_singleton.2 rfl)⟩
  | @join result hp =>
    rw [hp] at hfollows
    refine ho.concat hactive hother nofun nofun (fun _ _ => nofun) ⟨hholds, hfollows⟩ ?_
    change Follows _ ticket c ((r.setPuller c .joined).puller c)
    rw [Refresh.puller_setPuller_self]
    exact ⟨List.mem_append_right _ (List.mem_singleton.2 rfl),
      hfollows.imp fun _ => List.mem_append_left _⟩

theorem release (ho : Orderly desk log) (hactive : desk.active = some (ticket, r))
    (hcomplete : r.complete) (reports : List (Nat × Report)) :
    Orderly { desk with active := none, reports } (log ++ [.released ticket]) := by
  have hholds : Holds log ticket := (ho.holder ticket).2 ⟨r, hactive⟩
  have hdone : ∀ c, Done log ticket c := by
    intro c
    have hfollows := ho.follows ticket r hactive c
    rw [Refresh.complete_iff.1 hcomplete c] at hfollows
    exact hfollows
  have htook : ∀ t, .took t ∈ log ++ [Entry.released ticket] ↔ .took t ∈ log := by simp
  have hreleased : ∀ t, .released t ∈ log ++ [Entry.released ticket] ↔
      .released t ∈ log ∨ t = ticket := by simp
  refine ⟨fun t ht => ?_, ho.nodup, fun t ht => ho.drawn t ((htook t).1 ht), fun t => ?_, nofun,
    fun t ht c => ?_, ho.lawful.concat ⟨hholds, hdone⟩⟩
  · obtain ⟨hlt, hnot⟩ := ho.waiting t ht
    exact ⟨hlt, fun h => hnot ((htook t).1 h)⟩
  · refine iff_of_false (fun ⟨ht, hr⟩ => ?_) nofun
    rw [hreleased, not_or] at hr
    exact hr.2 (ho.eq_of_holds hactive ⟨(htook t).1 ht, hr.1⟩)
  · rcases (hreleased t).1 ht with h | rfl
    · exact (ho.seenThrough t h c).concat _
    · exact (hdone c).concat _

end Orderly

namespace Office

variable {photos : Uuid → Photo} {o o' : Office}

theorem orderly_step {op : Op} (h : o.step photos op = some o')
    (ho : Orderly o.shared.desk o.log) : Orderly o'.shared.desk o'.log := by
  cases op with
  | request =>
    obtain rfl := Option.some.inj h
    exact ho.visit .request
  | collect ticket =>
    obtain rfl := Option.some.inj h
    exact ho.visit (.collect ticket)
  | flag value =>
    obtain rfl := Option.some.inj h
    exact ho
  | turn c i =>
    obtain ⟨m, hm, rfl⟩ := Option.map_eq_some_iff.1 h
    exact ho.visit (Coordinator.visit_of_mem_moves (List.mem_of_getElem? hm))
  | surroundings now channel =>
    obtain rfl := Option.some.inj h
    exact ho
  | grant =>
    obtain ⟨desk, hdesk, rfl⟩ := Option.map_eq_some_iff.1 h
    obtain ⟨ticket, rest, hfree, hfirst, rfl⟩ := Desk.exists_of_grant? hdesk
    exact ho.grant hfree hfirst
  | pull a =>
    obtain ⟨⟨ticket, r⟩, hactive, h⟩ := Option.bind_eq_some_iff.1 h
    obtain ⟨s, hs, rfl⟩ := Option.map_eq_some_iff.1 h
    exact ho.pull hactive (Refresh.step_eq_some.1 hs)
  | release =>
    obtain ⟨after, hafter, rfl⟩ := Option.map_eq_some_iff.1 h
    obtain ⟨ticket, r, hactive, hcomplete, hdesk⟩ := Desk.exists_of_finish? hafter
    have hlog : (o.shared.desk.active.toList.map fun a => Entry.released a.1) =
        [.released ticket] := by
      rw [hactive]
      rfl
    simp only [write, setDesk, hlog, hdesk]
    exact ho.release hactive hcomplete _

/-- However refreshes are asked for, granted and interleaved with all else, no two hold the lock at
once; one takes it when all before have released it, and releases it when every category of it has
been seen through; a category is read when all earlier refreshes have seen it through, and what is
absorbed was fetched last. -/
theorem refreshes_serialised {now interval : Nat} {cache : Cache} {channel : Broadcast Nat}
    {ops : List Op} (h : ops.foldlM (step photos) (start now interval cache channel) = some o) :
    (∀ t u, Holds o.log t → Holds o.log u → t = u) ∧
      (∀ before t after, o.log = before ++ .took t :: after →
        ∀ u, .took u ∈ before → u ≠ t ∧ .released u ∈ before) ∧
      (∀ before t after, o.log = before ++ .released t :: after →
        Holds before t ∧ ∀ c, Done before t c) ∧
      (∀ before t c after, o.log = before ++ .marked t c :: after →
        Holds before t ∧ OthersDone before t c) ∧
      (∀ before t c what after, o.log = before ++ .fetched t c what :: after →
        Holds before t ∧ OthersDone before t c ∧ .marked t c ∈ before) ∧
      ∀ before t c what after, o.log = before ++ .absorbed t c what :: after →
        Holds before t ∧ LastFetched before t c what := by
  have ho : Orderly o.shared.desk o.log :=
    kept_by_run (I := fun o => Orderly o.shared.desk o.log)
      (fun _ _ _ _ hstep ho => orderly_step hstep ho) h orderly_start
  refine ⟨fun t u ht hu => ?_, fun before t after => ho.lawful before _ after,
    fun before t after => ho.lawful before _ after,
    fun before t c after => ho.lawful before _ after,
    fun before t c what after => ho.lawful before _ after,
    fun before t c what after => ho.lawful before _ after⟩
  obtain ⟨r, hr⟩ := (ho.holder u).1 hu
  exact ho.eq_of_holds hr ht

/-- Two callers ask at once; the second refresh reads its first mark after the first is over. -/
def twoCallers : List Op :=
  [.request, .request, .grant] ++ (Refresh.abreast Refresh.mixedReads).map .pull ++
    [.release, .grant, .pull ⟨.users, .readMark⟩]

theorem refreshes_serialised_two_callers :
    ∃ o before, twoCallers.foldlM (step fun _ => default)
        (start 0 60000 (.start ⟨0, 0⟩) (.ofCapacity 16)) = some o ∧
      o.log = before ++ [.marked 1 .users] ∧ Holds before 1 ∧ Done before 0 .users := by
  obtain ⟨o, ho, hlog, htook⟩ : ∃ o, twoCallers.foldlM (step fun _ => default)
        (start 0 60000 (.start ⟨0, 0⟩) (.ofCapacity 16)) = some o ∧
      o.log = o.log.dropLast ++ [.marked 1 .users] ∧ .took 0 ∈ o.log.dropLast :=
    ⟨_, rfl, rfl, .head _⟩
  obtain ⟨-, -, -, hmarked, -, -⟩ := refreshes_serialised ho
  obtain ⟨hholds, hothers⟩ := hmarked _ 1 .users [] hlog
  exact ⟨o, _, ho, hlog, hholds, hothers 0 htook (by decide)⟩

end Office

/-! ### Sessions

What a session does between two moves of its clock is a run of the office. -/

namespace Session

variable {σ : Type}

@[simp] theorem shared_note (s : Session σ) (events : List Event) :
    (s.note events).shared = s.shared := by
  unfold note
  split <;> rfl

@[simp] theorem photos_note (s : Session σ) (events : List Event) :
    (s.note events).photos = s.photos := by
  unfold note
  split <;> rfl

/-- The session has gone on as the office can. -/
def FollowsOffice (s s' : Session σ) : Prop :=
  s'.photos = s.photos ∧ ∃ op, ∀ log,
    ((⟨s.shared, log⟩ : Office).step s.photos op).map Office.shared = some s'.shared

variable {s s' : Session σ}

theorem exists_of_coordinatorTurn {shared : Shared} {cs : List Coordinator}
    {after : Shared × List Coordinator × List Event} (h : coordinatorTurn shared cs = some after) :
    ∃ (c : Coordinator) (i : Nat) (m : Coordinator.Move),
      (c.moves shared)[i]? = some m ∧ m.shared = after.1 := by
  induction cs generalizing after with
  | nil => cases h
  | cons c cs ih =>
    unfold coordinatorTurn at h
    split at h
    · rename_i m hm
      obtain rfl := Option.some.inj h
      rw [List.head?_eq_getElem?] at hm
      exact ⟨c, 0, m, hm, rfl⟩
    · obtain ⟨mid, hmid, rfl⟩ := Option.map_eq_some_iff.1 h
      obtain ⟨d, i, m, hm, hshared⟩ := ih hmid
      exact ⟨d, i, m, hm, hshared⟩

theorem followsOffice_coordinatorMove (h : s.coordinatorMove? = some s') : FollowsOffice s s' := by
  obtain ⟨after, hafter, rfl⟩ := Option.map_eq_some_iff.1 h
  obtain ⟨c, i, m, hm, hshared⟩ := exists_of_coordinatorTurn hafter
  refine ⟨photos_note _ _, .turn c i, fun log => ?_⟩
  simp only [Office.step, hm, Option.map_some, shared_note, hshared]

theorem followsOffice_pullerStep {ticket : Nat} {r : Refresh} {c : Category} {p : PullStep c}
    (hactive : s.shared.desk.active = some (ticket, r))
    (h : s.pullerStep ticket r c p = some s') : FollowsOffice s s' := by
  obtain ⟨t, ht, rfl⟩ := Option.map_eq_some_iff.1 h
  have ht : Refresh.step s.photos c ⟨s.shared.cache, r, []⟩ p = some t := ht
  refine ⟨photos_note _ _, .pull ⟨c, p⟩, fun log => ?_⟩
  simp only [Office.step, Office.pull, hactive, Option.bind_some, ht, Option.map_some, shared_note]
  rfl

variable [Store σ]

theorem followsOffice_pullerMove {ticket : Nat} {r : Refresh} {c : Category}
    (hactive : s.shared.desk.active = some (ticket, r))
    (h : s.pullerMove? ticket r c = some s') : FollowsOffice s s' := by
  unfold pullerMove? at h
  split at h
  · exact followsOffice_pullerStep hactive h
  · split at h
    · cases h
    · -- the read has changed the store and the log, which the office does not see
      have hshared : ∀ store events, ((s.setStore store).note events).shared = s.shared :=
        fun store events => shared_note _ _
      have hphotos : ∀ store events, ((s.setStore store).note events).photos = s.photos :=
        fun store events => photos_note _ _
      have hfollows := followsOffice_pullerStep ((hshared _ _).symm ▸ hactive) h
      unfold FollowsOffice at hfollows
      rwa [hshared, hphotos] at hfollows
  · exact followsOffice_pullerStep hactive h
  · exact followsOffice_pullerStep hactive h
  · cases h

theorem followsOffice_refreshMove (h : s.refreshMove? = some s') : FollowsOffice s s' := by
  unfold refreshMove? at h
  split at h
  · obtain ⟨desk, hdesk, rfl⟩ := Option.map_eq_some_iff.1 h
    refine ⟨rfl, .grant, fun log => ?_⟩
    simp only [Office.step, Office.grant, hdesk, Option.map_some]
    rfl
  · rename_i ticket r hactive
    split at h
    · rename_i after hafter
      obtain rfl := Option.some.inj h
      obtain ⟨c, -, hmove⟩ := List.exists_of_findSome?_eq_some hafter
      exact followsOffice_pullerMove hactive hmove
    · obtain ⟨⟨desk, event⟩, hdesk, rfl⟩ := Option.map_eq_some_iff.1 h
      refine ⟨photos_note _ _, .release, fun log => ?_⟩
      simp only [Office.step, Office.release, hdesk, Option.map_some, shared_note]
      rfl

theorem followsOffice_move (h : s.move? = some s') : FollowsOffice s s' := by
  unfold move? at h
  split at h
  · obtain rfl := Option.some.inj h
    exact followsOffice_coordinatorMove ‹_›
  · exact followsOffice_refreshMove h

/-- What a session does between two moves of its clock, the office can do. -/
theorem exists_ops_of_run (fuel : Nat) (s : Session σ) (log : List Entry) :
    ∃ ops : List Office.Op,
      (ops.foldlM (Office.step s.photos) ⟨s.shared, log⟩).map Office.shared =
        some (s.run fuel).shared := by
  induction fuel generalizing s log with
  | zero => exact ⟨[], rfl⟩
  | succ fuel ih =>
    unfold run
    split
    · rename_i after hmove
      obtain ⟨hphotos, op, hop⟩ := followsOffice_move hmove
      obtain ⟨o, ho, hshared⟩ := Option.map_eq_some_iff.1 (hop log)
      obtain ⟨ops, hops⟩ := ih after o.log
      refine ⟨op :: ops, ?_⟩
      rw [List.foldlM_cons, ho]
      rw [hphotos, ← hshared] at hops
      exact hops
    · exact ⟨[], rfl⟩

end Session

end RefCache
