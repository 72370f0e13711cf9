import RefCache.Proofs.Serial
import Mathlib.Data.List.Induction

/-! A coordinator on duty, at the office that all share. Its turns, its shutdown and whatever else
happens at the office come in any order, and what matters of it is written down in one sequence of
notes. No request for an update is lost: while nobody else lowers the flag, a request is either
still to be seen on the flag, or was followed by a refresh of the hook loop, all reads of which
came later. Many requests may lead to one such refresh, but no request to two. -/

namespace RefCache

/-- What is written down of a coordinator and the office around it. -/
inductive Note where
  /-- An update is asked for, by a message or by somebody else. -/
  | asked
  /-- The hook loop takes the flag for the refresh of a ticket. -/
  | taken (ticket : Nat)
  /-- A loop draws a ticket. -/
  | begun (ticket : Nat)
  | stopping
  /-- A refresh does something. -/
  | entry (e : Entry)

namespace Note

def ofUse (ticket : Nat) : FlagUse → Note
  | .raised => .asked
  | .taken => .taken ticket

def entry? : Note → Option Entry
  | .entry e => some e
  | _ => none

def isAsked : Note → Bool
  | .asked => true
  | _ => false

def isTaken : Note → Bool
  | .taken _ => true
  | _ => false

/-- The log of the refreshes. -/
def entries (notes : List Note) : List Entry := notes.filterMap entry?

/-- Whether an update was asked for after the flag was taken last. -/
def pending (notes : List Note) : Bool :=
  notes.foldl (fun asked note => (asked || note.isAsked) && !note.isTaken) false

variable {notes : List Note} {note : Note} {ticket : Nat}

@[simp] theorem entries_append (a b : List Note) : entries (a ++ b) = entries a ++ entries b :=
  List.filterMap_append

@[simp] theorem entries_map_entry (log : List Entry) : entries (log.map .entry) = log := by
  simp [entries, List.filterMap_map, Function.comp_def, entry?]

theorem entries_concat (h : note.entry? = none) : entries (notes ++ [note]) = entries notes := by
  simp [entries, h]

theorem mem_entries {e : Entry} : e ∈ entries notes ↔ .entry e ∈ notes := by
  simp only [entries, List.mem_filterMap]
  constructor
  · rintro ⟨note, hnote, he⟩
    cases note with
    | entry e' => exact Option.some.inj he ▸ hnote
    | _ => cases he
  · exact fun h => ⟨_, h, rfl⟩

theorem pending_concat (notes : List Note) (note : Note) :
    pending (notes ++ [note]) = ((pending notes || note.isAsked) && !note.isTaken) :=
  List.foldl_concat ..

theorem pending_append_of_plain {others : List Note}
    (h : ∀ note ∈ others, note.isAsked = false ∧ note.isTaken = false) :
    pending (notes ++ others) = pending notes := by
  induction others generalizing notes with
  | nil => rw [List.append_nil]
  | cons note others ih =>
    obtain ⟨hasked, htaken⟩ := h note (List.mem_cons_self ..)
    rw [List.append_cons, ih fun n hn => h n (List.mem_cons_of_mem _ hn), pending_concat, hasked,
      htaken]
    simp

/-- What was asked for and not taken since is pending. -/
theorem pending_of_asked {before after : List Note} (h : ∀ note ∈ after, note.isTaken = false) :
    pending (before ++ .asked :: after) = true := by
  induction after using List.reverseRecOn with
  | nil => exact (pending_concat ..).trans (by simp [isAsked, isTaken])
  | append_singleton after note ih =>
    rw [← List.cons_append, ← List.append_assoc, pending_concat,
      ih fun n hn => h n (List.mem_append_left _ hn), h note (by simp)]
    simp

end Note

namespace Entry

/-- The refresh that an entry is about. -/
def ticket : Entry → Nat
  | .took ticket => ticket
  | .marked ticket _ => ticket
  | .fetched ticket _ _ => ticket
  | .absorbed ticket _ _ => ticket
  | .joined ticket _ => ticket
  | .released ticket => ticket

end Entry

/-! ### What a log owes to the desk -/

namespace Orderly

variable {desk : Desk} {log : List Entry} {ticket : Nat} {c : Category}

/-- Only tickets that were drawn have entries. -/
theorem ticket_lt (ho : Orderly desk log) {e : Entry} (he : e ∈ log) : e.ticket < desk.next := by
  obtain ⟨before, after, rfl⟩ := List.append_of_mem he
  have hallowed := ho.lawful before e after rfl
  have hdrawn : ∀ t, Holds before t → t < desk.next :=
    fun t ht => ho.drawn t (List.mem_append_left _ ht.1)
  cases e with
  | took t => exact ho.drawn t he
  | marked t c => exact hdrawn t hallowed.1
  | fetched t c what => exact hdrawn t hallowed.1
  | absorbed t c what => exact hdrawn t hallowed.1
  | joined t c => exact hdrawn t hallowed.1
  | released t => exact hdrawn t hallowed.1

/-- A refresh that is over has read every category. -/
theorem fetched_of_released (ho : Orderly desk log) (h : .released ticket ∈ log) (c : Category) :
    ∃ what, .fetched ticket c what ∈ log := by
  obtain ⟨-, what, hwhat⟩ := ho.seenThrough ticket h c
  obtain ⟨before, after, rfl⟩ := List.append_of_mem hwhat
  obtain ⟨-, old, later, rfl, -⟩ := ho.lawful before _ after rfl
  exact ⟨what, by simp⟩

end Orderly

/-! ### Requests and refreshes -/

/-- What holds of the flag, the desk and the notes at all times, while nobody but the hook loop
lowers the flag. -/
structure Accounted (flag : Bool) (desk : Desk) (notes : List Note) : Prop where
  orderly : Orderly desk (Note.entries notes)
  known : ∀ t < desk.next,
    t ∈ desk.waiting ∨ (∃ r, desk.active = some (t, r)) ∨ .entry (.released t) ∈ notes
  drawn : ∀ t, .taken t ∈ notes → t < desk.next
  later : notes.Pairwise fun a b => ∀ e t, a = .entry e → b = .taken t → e.ticket < t
  flagged : Note.pending notes → flag
  counted : notes.countP Note.isTaken + flag.toNat ≤ notes.countP Note.isAsked

theorem accounted_nil : Accounted false .start [] where
  orderly := orderly_start
  known _ ht := absurd ht (Nat.not_lt_zero _)
  drawn _ ht := nomatch ht
  later := .nil
  flagged h := h
  counted := Nat.le_refl _

namespace Accounted

variable {flag : Bool} {desk desk' : Desk} {notes : List Note}

theorem visit (h : Accounted flag desk notes) (hv : desk.Visit desk') :
    Accounted flag desk' notes := by
  refine ⟨h.orderly.visit hv, ?_, ?_, h.later, h.flagged, h.counted⟩
  · cases hv with
    | none => exact h.known
    | collect ticket => exact h.known
    | request =>
      intro t ht
      rcases Nat.lt_succ_iff_lt_or_eq.1 ht with ht | rfl
      · exact (h.known t ht).imp_left (List.mem_append_left _)
      · exact Or.inl (List.mem_append_right _ (List.mem_singleton_self _))
  · cases hv with
    | none => exact h.drawn
    | collect ticket => exact h.drawn
    | request => exact fun t ht => Nat.lt_succ_of_lt (h.drawn t ht)

/-- Notes that are about neither requests nor refreshes. -/
theorem concat_plain (h : Accounted flag desk notes) (note : Note) (hentry : note.entry? = none)
    (hasked : note.isAsked = false) (htaken : note.isTaken = false) :
    Accounted flag desk (notes ++ [note]) := by
  have hnot : ∀ t, note ≠ .taken t := by
    rintro t rfl
    cases htaken
  refine ⟨?_, fun t ht => ?_, fun t ht => ?_, ?_, fun hp => h.flagged ?_, ?_⟩
  · rw [Note.entries_concat hentry]
    exact h.orderly
  · exact (h.known t ht).imp_right (Or.imp_right (List.mem_append_left _))
  · refine h.drawn t ((List.mem_append.1 ht).resolve_right fun ht => ?_)
    exact hnot t (List.mem_singleton.1 ht).symm
  · refine List.pairwise_append.2 ⟨h.later, List.pairwise_singleton .., ?_⟩
    rintro a - b hb e t - rfl
    exact absurd (List.mem_singleton.1 hb).symm (hnot t)
  · simpa [Note.pending_concat, hasked, htaken] using hp
  · simpa [List.countP_append, List.countP_cons, hasked, htaken] using h.counted

theorem ask (h : Accounted flag desk notes) : Accounted true desk (notes ++ [.asked]) := by
  refine ⟨?_, fun t ht => ?_, fun t ht => ?_, ?_, fun _ => rfl, ?_⟩
  · rw [Note.entries_concat rfl]
    exact h.orderly
  · exact (h.known t ht).imp_right (Or.imp_right (List.mem_append_left _))
  · exact h.drawn t (by simpa using ht)
  · refine List.pairwise_append.2 ⟨h.later, List.pairwise_singleton .., ?_⟩
    rintro a - b hb e t - rfl
    cases List.mem_singleton.1 hb
  · have hcounted := h.counted
    simp only [List.countP_append, List.countP_singleton, Note.isTaken, Note.isAsked,
      Bool.toNat_true, Bool.false_eq_true, if_false, if_true]
    omega

/-- The hook loop takes the flag and draws a ticket, that has no entries yet. -/
theorem take (h : Accounted true desk notes) :
    Accounted false desk.request.1 (notes ++ [.taken desk.next]) := by
  have hv := h.visit .request
  refine ⟨?_, fun t ht => ?_, fun t ht => ?_, ?_, ?_, ?_⟩
  · rw [Note.entries_concat rfl]
    exact hv.orderly
  · exact (hv.known t ht).imp_right (Or.imp_right (List.mem_append_left _))
  · rcases List.mem_append.1 ht with ht | ht
    · exact hv.drawn t ht
    · obtain rfl := Note.taken.inj (List.mem_singleton.1 ht)
      exact Nat.lt_succ_self _
  · refine List.pairwise_append.2 ⟨h.later, List.pairwise_singleton .., ?_⟩
    rintro a ha b hb e t rfl rfl
    obtain rfl := Note.taken.inj (List.mem_singleton.1 hb)
    exact h.orderly.ticket_lt (Note.mem_entries.2 ha)
  · simp [Note.pending_concat, Note.isTaken]
  · have hcounted := h.counted
    simp only [Bool.toNat_true] at hcounted
    simp only [List.countP_append, List.countP_singleton, Note.isTaken, Note.isAsked,
      Bool.toNat_false, Bool.false_eq_true, if_false, if_true]
    omega

/-- The office serves a ticket, moves its refresh on, or sees that through. -/
theorem write (h : Accounted flag desk notes) {log : List Entry}
    (ho : Orderly desk' (Note.entries notes ++ log)) (hnext : desk'.next = desk.next)
    (hknown : ∀ t, (t ∈ desk.waiting ∨ ∃ r, desk.active = some (t, r)) →
      t ∈ desk'.waiting ∨ (∃ r, desk'.active = some (t, r)) ∨ .released t ∈ log) :
    Accounted flag desk' (notes ++ log.map .entry) := by
  have hplain : ∀ note ∈ log.map Note.entry, note.isAsked = false ∧ note.isTaken = false := by
    intro note hnote
    obtain ⟨e, -, rfl⟩ := List.mem_map.1 hnote
    exact ⟨rfl, rfl⟩
  refine ⟨?_, fun t ht => ?_, fun t ht => ?_, ?_, fun hp => h.flagged ?_, ?_⟩
  · rwa [Note.entries_append, Note.entries_map_entry]
  · rcases h.known t (hnext ▸ ht) with hw | ha | hr
    · exact (hknown t (Or.inl hw)).imp_right (Or.imp_right fun hr =>
        List.mem_append_right _ (List.mem_map_of_mem hr))
    · exact (hknown t (Or.inr ha)).imp_right (Or.imp_right fun hr =>
        List.mem_append_right _ (List.mem_map_of_mem hr))
    · exact Or.inr (Or.inr (List.mem_append_left _ hr))
  · rw [hnext]
    refine h.drawn t ((List.mem_append.1 ht).resolve_right fun ht => ?_)
    exact absurd (hplain _ ht).2 (by simp [Note.isTaken])
  · refine List.pairwise_append.2 ⟨h.later, ?_, ?_⟩
    · refine List.pairwise_of_forall_mem_list ?_
      rintro a - b hb e t - rfl
      exact absurd (hplain _ hb).2 (by simp [Note.isTaken])
    · rintro a - b hb e t - rfl
      exact absurd (hplain _ hb).2 (by simp [Note.isTaken])
  · rwa [Note.pending_append_of_plain hplain] at hp
  · have hzero : ∀ p : Note → Bool, (∀ note ∈ log.map Note.entry, p note = false) →
        (log.map Note.entry).countP p = 0 := by
      intro p hp
      exact List.countP_eq_zero.2 fun note hnote => by simp [hp note hnote]
    rw [List.countP_append, List.countP_append, hzero _ fun note hn => (hplain note hn).1,
      hzero _ fun note hn => (hplain note hn).2]
    exact h.counted

theorem grant (h : Accounted flag desk notes) {log : List Entry} (hg : desk.grant? = some desk')
    (ho : Orderly desk' (Note.entries notes ++ log)) :
    Accounted flag desk' (notes ++ log.map .entry) := by
  obtain ⟨ticket, rest, hfree, hfirst, rfl⟩ := Desk.exists_of_grant? hg
  refine h.write ho rfl ?_
  rintro t (hw | ⟨r, hr⟩)
  · rw [hfirst] at hw
    rcases List.mem_cons.1 hw with rfl | hw
    · exact Or.inr (Or.inl ⟨_, rfl⟩)
    · exact Or.inl hw
  · rw [hfree] at hr
    cases hr

theorem pull (h : Accounted flag desk notes) {log : List Entry} {ticket : Nat} {r r' : Refresh}
    (hactive : desk.active = some (ticket, r))
    (ho : Orderly { desk with active := some (ticket, r') } (Note.entries notes ++ log)) :
    Accounted flag { desk with active := some (ticket, r') } (notes ++ log.map .entry) := by
  refine h.write ho rfl ?_
  rintro t (hw | ⟨r, hr⟩)
  · exact Or.inl hw
  · obtain ⟨rfl, -⟩ := Prod.mk.inj (Option.some.inj (hactive.symm.trans hr))
    exact Or.inr (Or.inl ⟨r', rfl⟩)

theorem release (h : Accounted flag desk notes) {after : Desk × Event}
    (hf : desk.finish? = some after)
    (ho : Orderly after.1
      (Note.entries notes ++ desk.active.toList.map fun a => .released a.1)) :
    Accounted flag after.1
      (notes ++ (desk.active.toList.map fun a => Entry.released a.1).map .entry) := by
  obtain ⟨ticket, r, hactive, -, hdesk⟩ := Desk.exists_of_finish? hf
  have hnext : after.1.next = desk.next := by rw [hdesk]
  refine h.write ho hnext ?_
  rintro t (hw | ⟨r', hr⟩)
  · rw [hdesk]
    exact Or.inl hw
  · rw [hr]
    exact Or.inr (Or.inr (List.mem_singleton_self _))

end Accounted

/-! ### The coordinator and the office -/

structure Duty where
  shared : Shared
  coordinator : Coordinator
  notes : List Note

namespace Duty

/-- What can happen next: the coordinator takes one of its turns, by its place among those open, or
is shut down, or something else happens at the office. -/
inductive Op where
  | turn (i : Nat)
  | shutdown
  | around (op : Office.Op)

/-- Nobody else lowers the flag: not by hand, and there is no other coordinator. -/
def Op.leavesFlag : Op → Bool
  | .around (.flag value) => value
  | .around (.turn _ _) => false
  | _ => true

/-- A flag that is raised already was asked for. -/
def start (now interval : Nat) (cache : Cache) (channel : Broadcast Nat) (c : Coordinator) : Duty :=
  ⟨⟨now, interval, cache, .start, channel⟩, c, if cache.shouldUpdate then [.asked] else []⟩

/-- What a turn of the coordinator is written down as: what its events say of the flag, and the
ticket that it has drawn. -/
def turnNotes (before : Shared) (m : Coordinator.Move) : List Note :=
  (flagUses m.events).map (.ofUse before.desk.next) ++
    if before.desk.next < m.shared.desk.next then [.begun before.desk.next] else []

def aroundNotes : Office.Op → List Note
  | .flag true => [.asked]
  | _ => []

def after (d : Duty) (m : Coordinator.Move) : Duty :=
  ⟨m.shared, m.coordinator, d.notes ++ turnNotes d.shared m⟩

def step (photos : Uuid → Photo) (d : Duty) : Op → Option Duty
  | .turn i => (d.coordinator.moves d.shared)[i]?.map d.after
  | .shutdown =>
    some { d with
      coordinator := d.coordinator.requestShutdown, notes := d.notes ++ [.stopping] }
  | .around op =>
    (Office.step photos ⟨d.shared, []⟩ op).map fun o =>
      { d with shared := o.shared, notes := d.notes ++ aroundNotes op ++ o.log.map .entry }

variable {photos : Uuid → Photo} {d d' : Duty}

theorem accounted_after {m : Coordinator.Move} (hm : m ∈ d.coordinator.moves d.shared)
    (h : Accounted d.shared.cache.shouldUpdate d.shared.desk d.notes) :
    Accounted (d.after m).shared.cache.shouldUpdate (d.after m).shared.desk (d.after m).notes := by
  have hturned := Coordinator.turned_of_mem_moves hm
  unfold after turnNotes
  generalize flagUses m.events = uses at hturned ⊢
  cases hturned with
  | hears hheard =>
    cases hheard with
    | rests hcache hdesk => simpa [hcache, hdesk] using h
    | marks hcache hdesk => simpa [hcache, hdesk, Note.ofUse, Cache.setUpdate] using h.ask
  | collects ticket hcache hdesk =>
    simpa [hcache, hdesk, Desk.collect] using h.visit (.collect ticket)
  | ticks hcache hdesk =>
    have hbegun := (h.visit .request).concat_plain (.begun d.shared.desk.next) rfl rfl rfl
    simpa [hcache, hdesk, Desk.request] using hbegun
  | takes hflag hcache hdesk =>
    rw [hflag] at h
    have hbegun := h.take.concat_plain (.begun d.shared.desk.next) rfl rfl rfl
    simpa [hcache, hdesk, Note.ofUse, Cache.setUpdate, Desk.request] using hbegun

/-- Whatever its log, the office adds the same to it. -/
theorem step_log {shared : Shared} {op : Office.Op} {o : Office}
    (h : Office.step photos ⟨shared, []⟩ op = some o) (log : List Entry) :
    Office.step photos ⟨shared, log⟩ op = some ⟨o.shared, log ++ o.log⟩ := by
  cases op with
  | grant =>
    obtain ⟨desk, hdesk, rfl⟩ := Option.map_eq_some_iff.1 h
    exact Option.map_eq_some_iff.2 ⟨desk, hdesk, rfl⟩
  | pull a =>
    obtain ⟨active, hactive, h⟩ := Option.bind_eq_some_iff.1 h
    obtain ⟨s, hs, rfl⟩ := Option.map_eq_some_iff.1 h
    exact Option.bind_eq_some_iff.2 ⟨active, hactive, Option.map_eq_some_iff.2 ⟨s, hs, rfl⟩⟩
  | release =>
    obtain ⟨after, hafter, rfl⟩ := Option.map_eq_some_iff.1 h
    exact Option.map_eq_some_iff.2 ⟨after, hafter, rfl⟩
  | turn c i =>
    obtain ⟨m, hm, rfl⟩ := Option.map_eq_some_iff.1 h
    exact Option.map_eq_some_iff.2 ⟨m, hm, by rw [List.append_nil]⟩
  | _ =>
    obtain rfl := Option.some.inj h
    simp [Office.step, Office.setDesk, Office.setCache]

theorem accounted_around {op : Office.Op} {o : Office} (hop : Op.leavesFlag (.around op))
    (ho : Office.step photos ⟨d.shared, []⟩ op = some o)
    (h : Accounted d.shared.cache.shouldUpdate d.shared.desk d.notes) :
    Accounted o.shared.cache.shouldUpdate o.shared.desk
      (d.notes ++ aroundNotes op ++ o.log.map .entry) := by
  have horderly := Office.orderly_step (step_log ho (Note.entries d.notes)) h.orderly
  cases op with
  | request =>
    obtain rfl := Option.some.inj ho
    simpa [aroundNotes, Office.setDesk] using h.visit .request
  | collect ticket =>
    obtain rfl := Option.some.inj ho
    simpa [aroundNotes, Office.setDesk] using h.visit (.collect ticket)
  | flag value =>
    obtain rfl := Option.some.inj ho
    obtain rfl : value = true := hop
    simpa [aroundNotes, Office.setCache, Cache.setUpdate] using h.ask
  | turn c i => cases hop
  | surroundings now channel =>
    obtain rfl := Option.some.inj ho
    simpa [aroundNotes] using h
  | grant =>
    obtain ⟨desk, hdesk, rfl⟩ := Option.map_eq_some_iff.1 ho
    have hnotes : d.notes ++ aroundNotes .grant = d.notes := List.append_nil _
    rw [hnotes]
    exact h.grant hdesk horderly
  | pull a =>
    obtain ⟨active, hactive, ho⟩ := Option.bind_eq_some_iff.1 ho
    obtain ⟨s, hs, rfl⟩ := Option.map_eq_some_iff.1 ho
    rw [← (Refresh.step_eq_some.1 hs).shouldUpdate_eq] at h
    have hnotes : d.notes ++ aroundNotes (.pull a) = d.notes := List.append_nil _
    rw [hnotes]
    exact h.pull hactive horderly
  | release =>
    obtain ⟨after, hafter, rfl⟩ := Option.map_eq_some_iff.1 ho
    have hnotes : d.notes ++ aroundNotes .release = d.notes := List.append_nil _
    rw [hnotes]
    exact h.release hafter horderly

theorem accounted_step {op : Op} (hop : op.leavesFlag) (h : d.step photos op = some d')
    (hd : Accounted d.shared.cache.shouldUpdate d.shared.desk d.notes) :
    Accounted d'.shared.cache.shouldUpdate d'.shared.desk d'.notes := by
  cases op with
  | turn i =>
    obtain ⟨m, hm, rfl⟩ := Option.map_eq_some_iff.1 h
    exact accounted_after (List.mem_of_getElem? hm) hd
  | shutdown =>
    obtain rfl := Option.some.inj h
    exact hd.concat_plain .stopping rfl rfl rfl
  | around op =>
    obtain ⟨o, ho, rfl⟩ := Option.map_eq_some_iff.1 h
    exact accounted_around hop ho hd

theorem accounted_start (now interval : Nat) (cache : Cache) (channel : Broadcast Nat)
    (c : Coordinator) :
    Accounted cache.shouldUpdate .start (start now interval cache channel c).notes := by
  unfold start
  cases cache.shouldUpdate with
  | false => exact accounted_nil
  | true => exact accounted_nil.ask

end Duty

/-- What becomes of a request for an update, by the notes after it. -/
theorem Accounted.answered {flag : Bool} {desk : Desk} {before after : List Note}
    (h : Accounted flag desk (before ++ .asked :: after)) :
    flag ∨ ∃ t old new, after = old ++ .taken t :: new ∧
      (∀ e : Entry, e.ticket = t → .entry e ∉ before ∧ .entry e ∉ old) ∧
      (t ∈ desk.waiting ∨ (∃ r, desk.active = some (t, r)) ∨
        ∀ c, ∃ what, .entry (.fetched t c what) ∈ new) := by
  by_cases htaken : ∀ note ∈ after, note.isTaken = false
  · exact Or.inl (h.flagged (Note.pending_of_asked htaken))
  · right
    obtain ⟨t, hmem⟩ : ∃ t, Note.taken t ∈ after := by
      simp only [not_forall] at htaken
      obtain ⟨note, hnote, ht⟩ := htaken
      cases note with
      | taken t => exact ⟨t, hnote⟩
      | _ => exact absurd rfl ht
    obtain ⟨old, new, rfl⟩ := List.append_of_mem hmem
    -- an entry before the flag was taken is about an earlier ticket
    have hlater : ∀ e : Entry, e.ticket = t → .entry e ∉ before ++ .asked :: old := by
      rintro e rfl he
      have hsplit : before ++ Note.asked :: (old ++ .taken e.ticket :: new) =
          (before ++ .asked :: old) ++ .taken e.ticket :: new := by simp
      have hpair := (List.pairwise_append.1 (hsplit ▸ h.later)).2.2 _ he _ (List.mem_cons_self ..)
      exact Nat.lt_irrefl _ (hpair e e.ticket rfl rfl)
    have hearly : ∀ e : Entry, e.ticket = t → .entry e ∉ before ∧ .entry e ∉ old := fun e he =>
      ⟨fun hb => hlater e he (List.mem_append_left _ hb),
        fun ho => hlater e he (List.mem_append_right _ (List.mem_cons_of_mem _ ho))⟩
    refine ⟨t, old, new, rfl, hearly, ?_⟩
    have ht : t < desk.next := h.drawn t (by simp)
    refine (h.known t ht).imp_right (Or.imp_right fun hreleased c => ?_)
    obtain ⟨what, hwhat⟩ := h.orderly.fetched_of_released (Note.mem_entries.2 hreleased) c
    obtain ⟨hb, ho⟩ := hearly (.fetched t c what) rfl
    refine ⟨what, ?_⟩
    have hmem := Note.mem_entries.1 hwhat
    simpa [hb, ho] using hmem

namespace Duty

variable {photos : Uuid → Photo} {d : Duty}

/-- While nobody else lowers the flag, every request for an update is still on the flag, or the hook
loop took the flag later for a refresh that did nothing before it was drawn: that is waiting, or
under way, or has read all categories since. And the hook loop never takes the flag more often than
an update was asked for. -/
theorem no_request_lost {now interval : Nat} {cache : Cache} {channel : Broadcast Nat}
    {c : Coordinator} {ops : List Op} (hops : ∀ op ∈ ops, op.leavesFlag)
    (h : ops.foldlM (step photos) (start now interval cache channel c) = some d) :
    d.notes.countP Note.isTaken ≤ d.notes.countP Note.isAsked ∧
      ∀ before after, d.notes = before ++ .asked :: after →
        d.shared.cache.shouldUpdate ∨
        ∃ t old new, after = old ++ .taken t :: new ∧
          (∀ e : Entry, e.ticket = t → .entry e ∉ before ∧ .entry e ∉ old) ∧
          (t ∈ d.shared.desk.waiting ∨ (∃ r, d.shared.desk.active = some (t, r)) ∨
            ∀ c, ∃ what, .entry (.fetched t c what) ∈ new) := by
  have hd : Accounted d.shared.cache.shouldUpdate d.shared.desk d.notes :=
    kept_by_run (I := fun d => Accounted d.shared.cache.shouldUpdate d.shared.desk d.notes)
      (fun op hop _ _ hstep hd => accounted_step (hops op hop) hstep hd) h
      (accounted_start now interval cache channel c)
  refine ⟨Nat.le_of_add_right_le hd.counted, fun before after hnotes => ?_⟩
  rw [hnotes] at hd
  exact hd.answered

/-- Three messages come before the hook loop looks at the flag; the refresh that it asks for is seen
through. -/
def burst : List Op :=
  [.turn 1, .turn 1, .turn 1, .turn 1, .turn 2, .around (.surroundings 100 (.ofCapacity 16)),
      .turn 2, .around .grant] ++
    (Refresh.abreast Refresh.mixedReads).map (fun a => .around (.pull a)) ++ [.around .release]

set_option maxRecDepth 2000 in
theorem no_request_lost_burst :
    ∃ d after, burst.foldlM (step fun _ => default)
        (start 0 60000 (.start ⟨0, 0⟩) (.ofCapacity 16)
          (.create 0 (.standard 60000) [.messages ["a", "b", "c"]])) = some d ∧
      d.notes = [.asked, .asked] ++ .asked :: after ∧ d.notes.countP Note.isTaken = 1 ∧
      ∃ t, ∀ c, ∃ what, .entry (.fetched t c what) ∈ after := by
  obtain ⟨d, hd, hnotes, htaken, hflag, hwaiting, hactive⟩ : ∃ d,
      burst.foldlM (step fun _ => default) (start 0 60000 (.start ⟨0, 0⟩) (.ofCapacity 16)
          (.create 0 (.standard 60000) [.messages ["a", "b", "c"]])) = some d ∧
      d.notes = [.asked, .asked] ++ .asked :: d.notes.drop 3 ∧ d.notes.countP Note.isTaken = 1 ∧
      d.shared.cache.shouldUpdate = false ∧ d.shared.desk.waiting = [] ∧
      d.shared.desk.active = none :=
    ⟨_, rfl, rfl, rfl, rfl, rfl, rfl⟩
  have hops : ∀ op ∈ burst, op.leavesFlag :=
    List.all_eq_true.1 (rfl : burst.all Op.leavesFlag = true)
  refine ⟨d, _, hd, hnotes, htaken, ?_⟩
  rcases (no_request_lost hops hd).2 _ _ hnotes with hset | ⟨t, old, new, hafter, -, hstate⟩
  · rw [hflag] at hset
    cases hset
  · rw [hwaiting, hactive] at hstate
    rcases hstate with hmem | ⟨r, hr⟩ | hreads
    · cases hmem
    · cases hr
    · rw [hafter]
      exact ⟨t, fun c => (hreads c).imp fun what hwhat => by simp [hwhat]⟩

end Duty

end RefCache
