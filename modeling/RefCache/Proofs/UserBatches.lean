import RefCache.Proofs.UserIndexes
import Mathlib.Data.List.Pairwise

/-! What a whole batch of users does, where its rows have one membership each and agree whether
their user is deleted. An address goes to the last row that takes it. A federation that a user is
shown with is that of the last live membership in the batch; without one it stays as long as the
user is listed there, and is the lowest federation that lists the user after that, in whatever
order the memberships are dropped. -/

namespace RefCache

/-- The pairs of a user and a federation that the rows are for. -/
def memberships (batch : List UserRow) : List (Uuid × Uuid) :=
  batch.filterMap fun row => row.federation.map fun f => (row.uuid, f)

structure UserBatch (batch : List UserRow) : Prop where
  distinct : (memberships batch).Nodup
  deletion : ∀ a ∈ batch, ∀ b ∈ batch, a.uuid = b.uuid → a.isDeleted = b.isDeleted

open Indexes

namespace UserBatch

variable {photos : Uuid → Photo} {batch : List UserRow}

theorem eq_of_membership (h : UserBatch batch) {a b : UserRow} (ha : a ∈ batch) (hb : b ∈ batch)
    (hu : a.uuid = b.uuid) {f : Uuid} (haf : a.federation = some f) (hbf : b.federation = some f) :
    a = b := by
  have hpairs : batch.Pairwise fun a b => ∀ f, a.federation = some f → b.federation = some f →
      a.uuid ≠ b.uuid := by
    refine (List.pairwise_filterMap.1 h.distinct).imp fun {a b} hab f haf hbf hu => ?_
    exact hab (a.uuid, f) (by rw [haf]; rfl) (b.uuid, f) (by rw [hbf]; rfl) (by rw [hu])
  have hsymm : Std.Symm fun a b : UserRow =>
      ∀ f, a.federation = some f → b.federation = some f → a.uuid ≠ b.uuid :=
    ⟨fun a b hab f hb ha => (hab f ha hb).symm⟩
  by_contra hne
  exact hpairs.forall ha hb hne f haf hbf hu

/-- What two rows tell of one entry is the same. -/
theorem agree_entry (h : UserBatch batch) (f u : Uuid) :
    Agree (tellsEntry photos · f u) batch := by
  intro a ha b hb x y hx hy
  have hau : a.uuid = u := by
    by_contra hne
    simp [tellsEntry, hne] at hx
  have hbu : b.uuid = u := by
    by_contra hne
    simp [tellsEntry, hne] at hy
  have hd := h.deletion a ha b hb (hau.trans hbu.symm)
  by_cases had : a.isDeleted
  · simp only [tellsEntry, hau, hbu, ← hd, had, if_true, Option.some.injEq] at hx hy
    rw [← hx, ← hy]
  · -- two rows that tell of one entry of a live user are for one membership
    have haf : a.federation = some f := by
      by_contra hne
      simp [tellsEntry, hau, had, hne] at hx
    have hbf : b.federation = some f := by
      by_contra hne
      simp [tellsEntry, hbu, ← hd, had, hne] at hy
    obtain rfl := h.eq_of_membership ha hb (hau.trans hbu.symm) haf hbf
    exact Option.some.inj (hx.symm.trans hy)

/-- After the batch an entry is what any of its rows tells of it. -/
theorem entryAt_of_tells (h : UserBatch batch) {ix : Indexes} {row : UserRow} (hrow : row ∈ batch)
    {f u : Uuid} {x : Option User} (hx : tellsEntry photos row f u = some x) :
    (applyUsers photos batch ix).entryAt f u = x := by
  rw [entryAt_applyUsers]
  cases hsaid : lastSaid (tellsEntry photos · f u) batch with
  | none => simp [lastSaid_eq_none.1 hsaid row hrow] at hx
  | some y =>
    obtain ⟨other, hother, hy⟩ := exists_of_lastSaid hsaid
    exact h.agree_entry f u other hother row hrow y x hy hx

end UserBatch

namespace Indexes

variable {photos : Uuid → Photo} {row : UserRow} {batch : List UserRow} {ix ix' : Indexes}
  {u : Uuid} {e : String}

/-! ### Whom an address leads to -/

/-- The user that an address leads to. -/
def ownerAt (ix : Indexes) (e : String) : Option Uuid := ix.usersByEmail[e]?.map User.uuid

/-- The row gives the address to its user. -/
def Takes (e : String) (row : UserRow) : Prop := row.isDeleted = false ∧ row.email = e

instance : DecidablePred (Takes e) := fun _ => inferInstanceAs (Decidable (_ ∧ _))

def nextOwner (e : String) (owner : Option Uuid) (row : UserRow) : Option Uuid :=
  if Takes e row then some row.uuid else owner.filter (· ≠ row.uuid)

/-- An address leads to the record of its owner. -/
theorem Linked.usersByEmail_eq (h : Linked ix) (e : String) :
    ix.usersByEmail[e]? = (ix.ownerAt e).bind fun u => ix.usersByUuid[u]? := by
  unfold ownerAt
  cases hx : ix.usersByEmail[e]? with
  | none => rfl
  | some x => exact (h.email e x hx).2.symm

theorem Linked.ownerAt_applyUser (h : Linked ix) (e : String) :
    (ix.applyUser photos row).ownerAt e = nextOwner e (ix.ownerAt e) row := by
  rw [ownerAt, h.usersByEmail_applyUser, nextOwner]
  by_cases ht : Takes e row
  · rw [if_pos ht, if_pos (show _ ∧ _ from ht)]
    rfl
  · rw [if_neg ht, if_neg (show ¬ (_ ∧ _) from ht), ownerAt]
    cases ix.usersByEmail[e]? with
    | none => rfl
    | some x => by_cases hx : x.uuid = row.uuid <;> simp [Option.filter, hx]

theorem Linked.ownerAt_applyUsers (h : Linked ix) (e : String) :
    (ix.applyUsers photos batch).ownerAt e = batch.foldl (nextOwner e) (ix.ownerAt e) := by
  induction batch generalizing ix with
  | nil => rfl
  | cons row batch ih => rw [applyUsers_cons, ih h.applyUser, h.ownerAt_applyUser, List.foldl_cons]

/-- Where some row takes an address, it does not matter whom the address led to before. -/
theorem foldl_nextOwner_of_takes (h : ∃ row ∈ batch, Takes e row) (owner owner' : Option Uuid) :
    batch.foldl (nextOwner e) owner = batch.foldl (nextOwner e) owner' := by
  induction batch generalizing owner owner' with
  | nil => simp at h
  | cons row batch ih =>
    rw [List.foldl_cons, List.foldl_cons]
    by_cases hrow : Takes e row
    · simp only [nextOwner, hrow, if_true]
    · exact ih (by simpa [hrow] using h) _ _

/-- Where no row takes an address, it is lost if its owner has a row. -/
theorem foldl_nextOwner_of_not_takes (h : ∀ row ∈ batch, ¬ Takes e row) (owner : Option Uuid) :
    batch.foldl (nextOwner e) owner = owner.filter (· ∉ batch.map UserRow.uuid) := by
  induction batch generalizing owner with
  | nil => cases owner <;> rfl
  | cons row batch ih =>
    rw [List.forall_mem_cons] at h
    rw [List.foldl_cons, ih h.2, nextOwner, if_neg h.1, Option.filter_filter]
    refine congrArg (Option.filter · owner) (funext fun u => ?_)
    by_cases hu : u = row.uuid <;> simp [hu]

/-- The rows of a batch give an address to whom they gave it before. -/
theorem foldl_nextOwner_again (batch : List UserRow) (e : String) (owner : Option Uuid) :
    batch.foldl (nextOwner e) (batch.foldl (nextOwner e) owner) =
      batch.foldl (nextOwner e) owner := by
  by_cases h : ∃ row ∈ batch, Takes e row
  · exact foldl_nextOwner_of_takes h _ _
  · have hnone : ∀ row ∈ batch, ¬ Takes e row := fun row hrow ht => h ⟨row, hrow, ht⟩
    simp only [foldl_nextOwner_of_not_takes hnone, Option.filter_filter, Bool.and_self]

/-! ### The lowest federation that lists a user -/

/-- No federation that lists the user, but for the one left out, is below the one that remains. -/
theorem isLE_of_remainingFederation {except : Option Uuid} {f g : Uuid}
    (h : ix.remainingFederation u except = some f) (hlisted : ix.entryAt g u ≠ none)
    (hg : some g ≠ except) : (compare f g).isLE := by
  obtain ⟨⟨f', l⟩, hfind, rfl⟩ := Option.map_eq_some_iff.1 h
  obtain ⟨-, before, after, hsplit, hbefore⟩ := List.find?_eq_some_iff_append.1 hfind
  have hordered := Std.ExtTreeMap.ordered_keys_toList (t := ix.federationUsers)
  obtain ⟨x, hx, hu⟩ : ∃ x ∈ listAt ix.federationUsers g, x.uuid = u := by
    by_contra hnone
    exact hlisted (entryAt_eq_none.2 fun x hx hu => hnone ⟨x, hx, hu⟩)
  cases hl : ix.federationUsers[g]? with
  | none => simp [listAt, hl] at hx
  | some list =>
    have hx : x ∈ list := by simpa [listAt, hl] using hx
    have hmem := Std.ExtTreeMap.mem_toList_iff_getElem?_eq_some.2 hl
    rw [hsplit] at hmem hordered
    rcases List.mem_append.1 hmem with hmem | hmem
    · have hskipped := hbefore _ hmem
      have hfound : list.any (·.uuid == u) := List.any_eq_true.2 ⟨x, hx, by simpa using hu⟩
      simp [hg, hfound] at hskipped
    · rcases List.mem_cons.1 hmem with heq | hmem
      · obtain rfl := congrArg Prod.fst heq
        exact Std.ReflCmp.isLE_rfl
      · have hlt := (List.pairwise_cons.1 (List.pairwise_append.1 hordered).2.1).1 _ hmem
        simp only at hlt
        simp [hlt]

/-- What remains depends on the federations alone that list the user and are not left out. -/
theorem remainingFederation_congr {except except' : Option Uuid}
    (h : ∀ f, (ix.entryAt f u ≠ none ∧ some f ≠ except) ↔
      (ix'.entryAt f u ≠ none ∧ some f ≠ except')) :
    ix.remainingFederation u except = ix'.remainingFederation u except' := by
  cases hf : ix.remainingFederation u except with
  | none =>
    cases hf' : ix'.remainingFederation u except' with
    | none => rfl
    | some f =>
      obtain ⟨hne, hlisted⟩ := entryAt_remainingFederation hf'
      obtain ⟨hlisted, hne⟩ := (h f).2 ⟨hlisted, hne⟩
      exact absurd (entryAt_of_remainingFederation_eq_none hf hne) hlisted
  | some f =>
    obtain ⟨hne, hlisted⟩ := entryAt_remainingFederation hf
    obtain ⟨hlisted', hne'⟩ := (h f).1 ⟨hlisted, hne⟩
    cases hf' : ix'.remainingFederation u except' with
    | none => exact absurd (entryAt_of_remainingFederation_eq_none hf' hne') hlisted'
    | some g =>
      obtain ⟨hgne', hglisted'⟩ := entryAt_remainingFederation hf'
      obtain ⟨hglisted, hgne⟩ := (h g).2 ⟨hglisted', hgne'⟩
      have hfg := isLE_of_remainingFederation hf hglisted hgne
      have hgf := isLE_of_remainingFederation hf' hlisted' hne'
      exact congrArg some (Std.LawfulEqCmp.eq_of_compare (Std.OrientedCmp.isLE_antisymm hfg hgf))

/-! ### The federation that a user is shown with -/

/-- The federation that a user's record shows. -/
def shownAt (ix : Indexes) (u : Uuid) : Option Uuid := ix.usersByUuid[u]?.bind User.federation

/-- The federation that a user falls back on: the one shown before as long as the user is listed
there, else the lowest one that lists the user. -/
def fallback (ix : Indexes) (u : Uuid) (before : Option Uuid) : Option Uuid :=
  (before.filter fun f => (ix.entryAt f u).isSome).or (ix.remainingFederation u none)

theorem fallback_congr (h : ∀ f, (ix.entryAt f u).isSome = (ix'.entryAt f u).isSome)
    (before : Option Uuid) : ix.fallback u before = ix'.fallback u before := by
  have hremaining : ix.remainingFederation u none = ix'.remainingFederation u none := by
    refine remainingFederation_congr fun f => and_congr_left' ?_
    rw [← Option.isSome_iff_ne_none, ← Option.isSome_iff_ne_none, h f]
  simp only [fallback, h, hremaining]

theorem fallback_some {f : Uuid} (h : ix.entryAt f u ≠ none) : ix.fallback u (some f) = some f := by
  simp [fallback, Option.filter, Option.isSome_iff_ne_none.2 h]

/-- In linked indexes a user is shown where it would fall back on. -/
theorem Linked.fallback_shownAt (h : Linked ix) (u : Uuid) :
    ix.fallback u (ix.shownAt u) = ix.shownAt u := by
  cases hf : ix.shownAt u with
  | some f =>
    obtain ⟨x, hx, hxf⟩ := Option.bind_eq_some_iff.1 hf
    exact fallback_some (h.shown u x f hx hxf)
  | none =>
    cases hrest : ix.remainingFederation u none with
    | none => simp [fallback, hrest]
    | some g =>
      obtain ⟨y, hy⟩ := Option.ne_none_iff_exists'.1 (entryAt_remainingFederation hrest).2
      obtain ⟨-, r, hr⟩ := h.listed g u y hy
      have hnone : r.federation = none := by simpa [shownAt, hr] using hf
      exact nomatch hy.symm.trans (h.homeless u r hr hnone g)

theorem remainingFederation_of_ne {except : Option Uuid} {f : Uuid}
    (h : ix.remainingFederation u none = some f) (hf : some f ≠ except) :
    ix.remainingFederation u except = some f := by
  have hlisted := (entryAt_remainingFederation h).2
  cases hrest : ix.remainingFederation u except with
  | none => exact absurd (entryAt_of_remainingFederation_eq_none hrest hf) hlisted
  | some g =>
    have hgf := isLE_of_remainingFederation hrest hlisted hf
    have hglisted := (entryAt_remainingFederation hrest).2
    have hfg := isLE_of_remainingFederation h hglisted (Option.some_ne_none g)
    exact congrArg some (Std.LawfulEqCmp.eq_of_compare (Std.OrientedCmp.isLE_antisymm hgf hfg))

/-- Where a user falls back on once one federation lists the user no longer. -/
theorem fallback_drop {gone : Option Uuid}
    (h : ∀ f, ix'.entryAt f u ≠ none ↔ ix.entryAt f u ≠ none ∧ some f ≠ gone)
    (before : Option Uuid) :
    ((ix.fallback u before).filter (some · != gone)).or (ix'.remainingFederation u none) =
      ix'.fallback u before := by
  have hlisted : ∀ f, (ix'.entryAt f u).isSome =
      ((ix.entryAt f u).isSome && (some f != gone)) := by
    intro f
    rw [Bool.eq_iff_iff, Bool.and_eq_true, Option.isSome_iff_ne_none, Option.isSome_iff_ne_none,
      bne_iff_ne, h f]
  have hrest : ix.remainingFederation u gone = ix'.remainingFederation u none :=
    remainingFederation_congr fun f => by simp [h f]
  simp only [fallback, hlisted, ← Option.filter_filter]
  cases before.filter fun f => (ix.entryAt f u).isSome with
  | some f => simp
  | none =>
    rw [Option.none_or, Option.filter_none, Option.none_or]
    cases hlow : ix.remainingFederation u none with
    | none => rfl
    | some f =>
      by_cases hf : some f = gone
      · simp [Option.filter, hf]
      · rw [← hrest, remainingFederation_of_ne hlow hf]
        simp [Option.filter, hf]

theorem shownAt_applyUser (u : Uuid) :
    (ix.applyUser photos row).shownAt u =
      if row.uuid = u then if row.isDeleted then none else ix.shownFederation row
      else ix.shownAt u := by
  unfold shownAt
  rw [usersByUuid_applyUser]
  by_cases hu : row.uuid = u
  · cases hd : row.isDeleted <;> simp [hu, userRecord]
  · simp [hu]

theorem shownFederation_of_live {f : Uuid} (h : row.liveFederation = some f) :
    ix.shownFederation row = some f := by
  unfold shownFederation
  rw [h]

theorem shownFederation_of_not_live (h : row.liveFederation = none) :
    ix.shownFederation row = ((ix.shownAt row.uuid).filter (some · != row.federation)).or
      (ix.remainingFederation row.uuid row.federation) := by
  unfold shownFederation shownAt
  rw [h]
  cases (ix.usersByUuid[row.uuid]?.bind User.federation).filter (some · != row.federation) <;> rfl

/-- Dropping a membership takes a user to the federation that it falls back on. -/
theorem shownAt_applyUser_of_not_live (hd : row.isDeleted = false) (hl : row.liveFederation = none)
    {before : Option Uuid} (h : ix.shownAt row.uuid = ix.fallback row.uuid before) :
    (ix.applyUser photos row).shownAt row.uuid =
      (ix.applyUser photos row).fallback row.uuid before := by
  have hlisted : ∀ f, (ix.applyUser photos row).entryAt f row.uuid ≠ none ↔
      ix.entryAt f row.uuid ≠ none ∧ some f ≠ row.federation := by
    intro f
    rw [entryAt_applyUser, tellsEntry, if_pos rfl, hd, hl]
    by_cases hf : row.federation = some f <;> simp [hf, eq_comm]
  have hrest : ix.remainingFederation row.uuid row.federation =
      (ix.applyUser photos row).remainingFederation row.uuid none :=
    remainingFederation_congr fun f => by simp [hlisted f]
  rw [shownAt_applyUser, if_pos rfl, hd, shownFederation_of_not_live hl, h, hrest]
  exact fallback_drop hlisted before

theorem shownAt_applyUsers_of_not_live {before : Option Uuid}
    (hb : ∀ row ∈ batch, row.uuid = u → row.isDeleted = false ∧ row.liveFederation = none)
    (h : ix.shownAt u = ix.fallback u before) :
    (ix.applyUsers photos batch).shownAt u = (ix.applyUsers photos batch).fallback u before := by
  refine inv_applyUsers (I := fun ix => ix.shownAt u = ix.fallback u before)
    (fun row hrow ix hix => ?_) h
  by_cases hu : row.uuid = u
  · subst hu
    obtain ⟨hd, hl⟩ := hb row hrow rfl
    exact shownAt_applyUser_of_not_live hd hl hix
  · have hentry : ∀ f,
        (ix.entryAt f u).isSome = ((ix.applyUser photos row).entryAt f u).isSome := by
      intro f
      rw [entryAt_applyUser, tellsEntry, if_neg hu, Option.getD_none]
    rw [shownAt_applyUser, if_neg hu, hix]
    exact fallback_congr hentry before

/-- The federations of a user's live memberships, in the order of their rows. -/
def liveIn (batch : List UserRow) (u : Uuid) : List Uuid :=
  batch.filterMap fun row => if row.uuid = u then row.liveFederation else none

end Indexes

/-- After the rows of a user who is not deleted the user is shown with the federation of the last
live membership, or with the one that it falls back on from that before. -/
theorem UserBatch.shownAt_applyUsers {photos : Uuid → Photo} {batch : List UserRow} {ix : Indexes}
    (h : UserBatch batch) (hix : Linked ix) {u : Uuid}
    (hlive : ∀ row ∈ batch, row.uuid = u → row.isDeleted = false) :
    (ix.applyUsers photos batch).shownAt u =
      (liveIn batch u).getLast?.or ((ix.applyUsers photos batch).fallback u (ix.shownAt u)) := by
  cases hlast : (liveIn batch u).getLast? with
  | none =>
    have hnone := lastSaid_eq_none.1 hlast
    refine shownAt_applyUsers_of_not_live (fun row hrow hu => ⟨hlive row hrow hu, ?_⟩)
      (hix.fallback_shownAt u).symm
    simpa [hu] using hnone row hrow
  | some f =>
    obtain ⟨before, row, after, hsplit, hrow, hafter⟩ := exists_split_of_lastSaid hlast
    rw [Option.ite_none_right_eq_some] at hrow
    obtain ⟨rfl, hf⟩ := hrow
    have hmem : row ∈ batch := by simp [hsplit]
    have hd := hlive row hmem rfl
    have hentry : (ix.applyUsers photos batch).entryAt f row.uuid ≠ none := by
      rw [h.entryAt_of_tells hmem (x := some (userRecord photos row (some f)))]
      · simp
      · simp [tellsEntry, hd, liveFederation_eq_some hf, hf]
    have hmid : Linked ((ix.applyUsers photos before).applyUser photos row) :=
      hix.applyUsers.applyUser
    have hshown : ((ix.applyUsers photos before).applyUser photos row).shownAt row.uuid =
        some f := by
      rw [shownAt_applyUser, if_pos rfl, hd, shownFederation_of_live hf]
      rfl
    have hdropped : ∀ r ∈ after, r.uuid = row.uuid →
        r.isDeleted = false ∧ r.liveFederation = none := fun r hr hu =>
      ⟨hlive r (by simp [hsplit, hr]) hu, by simpa [hu] using hafter r hr⟩
    have hend : (ix.applyUsers photos batch).shownAt row.uuid =
        (ix.applyUsers photos batch).fallback row.uuid (some f) := by
      rw [hsplit, applyUsers_append, applyUsers_cons, ← hshown]
      exact shownAt_applyUsers_of_not_live hdropped (hmid.fallback_shownAt row.uuid).symm
    rw [hend, fallback_some hentry, Option.some_or]

end RefCache
