import RefCache.Indexes.Merge
import RefCache.Proofs.Items

/-! One row of a user, and what it does to the three indexes that users live in. The laws come
first: what is found after the row under an identifier, in a list and under an address. From them
follows that the row keeps the indexes linked: one record for each user, under its identifier and
at most one address, and on the lists of its federations if it shows one. -/

namespace RefCache.Indexes

variable {photos : Uuid → Photo} {row : UserRow} {ix : Indexes}

/-- A user's entry on the list of a federation. -/
def entryAt (ix : Indexes) (f u : Uuid) : Option User := itemAt User.uuid ix.federationUsers f u

/-- What a row says of a user's entry on the list of a federation. -/
def tellsEntry (photos : Uuid → Photo) (row : UserRow) (f u : Uuid) : Option (Option User) :=
  if row.uuid = u then
    if row.isDeleted then some none
    else if row.federation = some f then
      some (row.liveFederation.map fun g => userRecord photos row (some g))
    else none
  else none

/-- The federation of a live membership is the one the row is for. -/
theorem liveFederation_eq_some {f : Uuid} (h : row.liveFederation = some f) :
    row.federation = some f := by
  unfold UserRow.liveFederation at h
  split at h
  · cases h
  · exact h

/-! ### Forgetting addresses -/

@[simp] theorem usersByUuid_forgetEmail (u : Uuid) (m : String) :
    (ix.forgetEmail u m).usersByUuid = ix.usersByUuid := by
  unfold forgetEmail
  split <;> rfl

@[simp] theorem federationUsers_forgetEmail (u : Uuid) (m : String) :
    (ix.forgetEmail u m).federationUsers = ix.federationUsers := by
  unfold forgetEmail
  split <;> rfl

theorem usersByEmail_forgetEmail (u : Uuid) (m e : String) :
    (ix.forgetEmail u m).usersByEmail[e]? =
      if m = e then ix.usersByEmail[e]?.filter (·.uuid ≠ u) else ix.usersByEmail[e]? := by
  unfold forgetEmail
  by_cases hm : m = e
  · subst hm
    cases hx : ix.usersByEmail[m]? with
    | none => simp [hx]
    | some x => by_cases hu : x.uuid = u <;> simp [hx, hu, Option.filter]
  · split <;> simp [hm, Std.ExtTreeMap.getElem?_erase]

@[simp] theorem usersByUuid_forgetStaleEmail :
    (ix.forgetStaleEmail row).usersByUuid = ix.usersByUuid := by
  unfold forgetStaleEmail
  split
  · split
    · rfl
    · exact usersByUuid_forgetEmail _ _
  · rfl

@[simp] theorem federationUsers_forgetStaleEmail :
    (ix.forgetStaleEmail row).federationUsers = ix.federationUsers := by
  unfold forgetStaleEmail
  split
  · split
    · rfl
    · exact federationUsers_forgetEmail _ _
  · rfl

/-! ### The law of the records -/

theorem usersByUuid_removeUser (u : Uuid) (m : String) (k : Uuid) :
    (ix.removeUser u m).usersByUuid[k]? = if u = k then none else ix.usersByUuid[k]? := by
  unfold removeUser
  cases hu : ix.usersByUuid[u]? with
  | some x => simp [Std.ExtTreeMap.getElem?_erase]
  | none =>
    by_cases hk : u = k
    · subst hk
      simp [hu]
    · simp [hk]

theorem usersByUuid_applyUser (k : Uuid) :
    (ix.applyUser photos row).usersByUuid[k]? =
      if row.uuid = k then
        if row.isDeleted then none else some (userRecord photos row (ix.shownFederation row))
      else ix.usersByUuid[k]? := by
  unfold applyUser
  by_cases hd : row.isDeleted
  · simp [hd, usersByUuid_removeUser]
  · simp [hd, storeUser, userRecord, Std.ExtTreeMap.getElem?_insert]

/-! ### The law of the lists -/

theorem federationUsers_removeUser (u : Uuid) (m : String) :
    (ix.removeUser u m).federationUsers =
      ix.federationUsers.filterMap fun _ l => kept (l.filter fun a => !(a.uuid == u)) := by
  unfold removeUser
  cases ix.usersByUuid[u]? <;> simp [bne]

theorem federationUsers_applyUser :
    (ix.applyUser photos row).federationUsers =
      if row.isDeleted then
        ix.federationUsers.filterMap fun _ l => kept (l.filter fun a => !(a.uuid == row.uuid))
      else placeUser photos row ix.federationUsers := by
  unfold applyUser
  by_cases hd : row.isDeleted
  · simp [hd, federationUsers_removeUser]
  · simp [hd, storeUser]

theorem entryAt_applyUser (f u : Uuid) :
    (ix.applyUser photos row).entryAt f u = (tellsEntry photos row f u).getD (ix.entryAt f u) := by
  unfold entryAt tellsEntry
  rw [federationUsers_applyUser]
  by_cases hd : row.isDeleted
  · simp only [hd, if_true, itemAt_filterMap User.uuid]
    split <;> rfl
  · simp only [hd, Bool.false_eq_true, if_false, placeUser]
    cases hl : row.liveFederation with
    | some g =>
      have hg := liveFederation_eq_some hl
      simp only [itemAt_putIn, hg, Option.some.injEq, Option.map_some]
      by_cases hu : row.uuid = u <;> by_cases hf : g = f <;> simp [userRecord, hu, hf]
    | none =>
      cases hf : row.federation with
      | none => simp
      | some g =>
        simp only [itemAt_dropFrom User.uuid, Option.some.injEq, Option.map_none]
        by_cases hu : row.uuid = u <;> by_cases hg : g = f <;> simp [hu, hg]

theorem Tidy.applyUser (h : Tidy User.uuid ix.federationUsers) :
    Tidy User.uuid (ix.applyUser photos row).federationUsers := by
  rw [federationUsers_applyUser]
  split
  · exact h.filterMap _
  · unfold placeUser
    split
    · exact h.putIn _ _
    · exact h.dropFrom _ _
    · exact h

/-! ### Linked indexes -/

/-- Records and entries under their own identifiers, one record for each user, also under its
address; an entry for every federation that a record shows, and none if it shows no federation. -/
structure Linked (ix : Indexes) : Prop where
  own : ∀ (u : Uuid) (x : User), ix.usersByUuid[u]? = some x → x.uuid = u
  email : ∀ (e : String) (x : User), ix.usersByEmail[e]? = some x →
    x.email = e ∧ ix.usersByUuid[x.uuid]? = some x
  listed : ∀ f u x, ix.entryAt f u = some x →
    x.federation = some f ∧ ∃ r : User, ix.usersByUuid[u]? = some r
  shown : ∀ (u : Uuid) (x : User) (f : Uuid), ix.usersByUuid[u]? = some x →
    x.federation = some f → ix.entryAt f u ≠ none
  homeless : ∀ (u : Uuid) (x : User), ix.usersByUuid[u]? = some x → x.federation = none →
    ∀ f, ix.entryAt f u = none

theorem linked_empty : Linked .empty := by
  constructor <;> simp [empty, entryAt]

/-! ### The law of the addresses -/

/-- An address leads to a user by the user's own record. -/
theorem Linked.filter_email (h : Linked ix) {u : Uuid} {e : String}
    (hne : ∀ x : User, ix.usersByUuid[u]? = some x → x.email ≠ e) :
    ix.usersByEmail[e]?.filter (·.uuid ≠ u) = ix.usersByEmail[e]? := by
  cases hx : ix.usersByEmail[e]? with
  | none => rfl
  | some x =>
    obtain ⟨he, hr⟩ := h.email e x hx
    have hu : x.uuid ≠ u := by
      rintro rfl
      exact hne x hr he
    simp [Option.filter, hu]

theorem Linked.usersByEmail_removeUser (h : Linked ix) (u : Uuid) (m e : String) :
    (ix.removeUser u m).usersByEmail[e]? = ix.usersByEmail[e]?.filter (·.uuid ≠ u) := by
  unfold removeUser
  cases hu : ix.usersByUuid[u]? with
  | some x =>
    have hother := h.filter_email (u := u) (e := e)
    simp only [usersByEmail_forgetEmail, hu, Option.some.injEq, forall_eq'] at hother ⊢
    by_cases hm : m = e <;> by_cases hx : x.email = e
    · simp [hm, hx, Option.filter_filter]
    · simp [hm, hx]
    · simp [hm, hx]
    · simp only [hm, hx, if_false]
      exact (hother hx).symm
  | none =>
    have hother := h.filter_email (u := u) (e := e) (by simp [hu])
    simp only [usersByEmail_forgetEmail, hother, ite_self]

theorem Linked.usersByEmail_forgetStaleEmail (h : Linked ix) (e : String) :
    (ix.forgetStaleEmail row).usersByEmail[e]? =
      if row.email = e then ix.usersByEmail[e]?
      else ix.usersByEmail[e]?.filter (·.uuid ≠ row.uuid) := by
  unfold forgetStaleEmail
  by_cases he : row.email = e
  · subst he
    split
    · split
      · simp
      · rename_i x _ hx
        simp [usersByEmail_forgetEmail, hx]
    · simp
  · rw [if_neg he]
    split
    · rename_i x hx
      split
      · rename_i hm
        refine (h.filter_email fun y hy => ?_).symm
        obtain rfl := Option.some.inj (hx.symm.trans hy)
        rwa [hm]
      · rw [usersByEmail_forgetEmail]
        split
        · rfl
        · rename_i hne
          refine (h.filter_email fun y hy => ?_).symm
          obtain rfl := Option.some.inj (hx.symm.trans hy)
          exact hne
    · rename_i hx
      exact (h.filter_email fun y hy => nomatch hx.symm.trans hy).symm

theorem Linked.usersByEmail_applyUser (h : Linked ix) (e : String) :
    (ix.applyUser photos row).usersByEmail[e]? =
      if row.isDeleted = false ∧ row.email = e then
        some (userRecord photos row (ix.shownFederation row))
      else ix.usersByEmail[e]?.filter (·.uuid ≠ row.uuid) := by
  unfold applyUser
  by_cases hd : row.isDeleted
  · simp only [hd, if_true, h.usersByEmail_removeUser]
    simp
  · simp only [hd, Bool.false_eq_true, if_false, storeUser, Std.ExtTreeMap.getElem?_insert,
      h.usersByEmail_forgetStaleEmail]
    by_cases he : row.email = e <;> simp [userRecord, he]

/-! ### The federation that a record shows -/

theorem entryAt_eq_none {f u : Uuid} :
    ix.entryAt f u = none ↔ ∀ x ∈ listAt ix.federationUsers f, x.uuid ≠ u := by
  simp [entryAt, itemAt]

theorem entryAt_remainingFederation {u f : Uuid} {except : Option Uuid}
    (h : ix.remainingFederation u except = some f) :
    some f ≠ except ∧ ix.entryAt f u ≠ none := by
  obtain ⟨⟨g, l⟩, hfind, rfl⟩ := Option.map_eq_some_iff.1 h
  have hp := List.find?_some hfind
  have hl := Std.ExtTreeMap.mem_toList_iff_getElem?_eq_some.1 (List.mem_of_find?_eq_some hfind)
  simp only [Bool.and_eq_true, bne_iff_ne, List.any_eq_true, beq_iff_eq] at hp
  obtain ⟨hne, x, hx, hu⟩ := hp
  refine ⟨hne, fun hnone => entryAt_eq_none.1 hnone x ?_ hu⟩
  simpa [listAt, hl] using hx

theorem entryAt_of_remainingFederation_eq_none {u f : Uuid} {except : Option Uuid}
    (h : ix.remainingFederation u except = none) (hf : some f ≠ except) :
    ix.entryAt f u = none := by
  rw [remainingFederation, Option.map_eq_none_iff, List.find?_eq_none] at h
  refine entryAt_eq_none.2 fun x hx hu => ?_
  cases hl : ix.federationUsers[f]? with
  | none => simp [listAt, hl] at hx
  | some l =>
    have hx : x ∈ l := by simpa [listAt, hl] using hx
    refine h (f, l) (Std.ExtTreeMap.mem_toList_iff_getElem?_eq_some.2 hl) ?_
    simpa [hf] using ⟨x, hx, hu⟩

/-- The federation shown after a live row has the user on its list then. -/
theorem Linked.entryAt_shownFederation (h : Linked ix) (hd : row.isDeleted = false) {f : Uuid}
    (hf : ix.shownFederation row = some f) :
    (ix.applyUser photos row).entryAt f row.uuid ≠ none := by
  rw [entryAt_applyUser, tellsEntry, if_pos rfl, hd]
  -- a federation that the row is not for keeps its entry
  have kept : some f ≠ row.federation → ix.entryAt f row.uuid ≠ none →
      (if row.federation = some f then
        some (row.liveFederation.map fun g => userRecord photos row (some g))
        else none).getD (ix.entryAt f row.uuid) ≠ none := by
    intro hne hentry
    rwa [if_neg (Ne.symm hne)]
  unfold shownFederation at hf
  split at hf
  · rename_i g hg
    obtain rfl := Option.some.inj hf
    simp [liveFederation_eq_some hg, hg]
  · split at hf
    · rename_i g hg
      obtain rfl := Option.some.inj hf
      obtain ⟨hprev, hne⟩ := Option.filter_eq_some_iff.1 hg
      obtain ⟨x, hx, hxf⟩ := Option.bind_eq_some_iff.1 hprev
      exact kept (by simpa using hne) (h.shown _ x _ hx hxf)
    · obtain ⟨hne, hentry⟩ := entryAt_remainingFederation hf
      exact kept hne hentry

/-- If no federation is shown after a live row, no list has the user then. -/
theorem entryAt_of_shownFederation_eq_none (hd : row.isDeleted = false)
    (hf : ix.shownFederation row = none) (f : Uuid) :
    (ix.applyUser photos row).entryAt f row.uuid = none := by
  rw [entryAt_applyUser, tellsEntry, if_pos rfl, hd]
  unfold shownFederation at hf
  split at hf
  · cases hf
  · rename_i hlive
    split at hf
    · cases hf
    · by_cases hrow : row.federation = some f
      · simp [hrow, hlive]
      · simpa [hrow] using entryAt_of_remainingFederation_eq_none hf (Ne.symm hrow)

/-! ### A row keeps the indexes linked -/

theorem tellsEntry_eq_some {f u : Uuid} {x : User} (h : tellsEntry photos row f u = some (some x)) :
    row.uuid = u ∧ row.isDeleted = false ∧ row.liveFederation = some f ∧
      x = userRecord photos row (some f) := by
  unfold tellsEntry at h
  split at h
  · rename_i hu
    split at h
    · cases h
    · rename_i hd
      split at h
      · rename_i hf
        obtain ⟨g, hg, hx⟩ := Option.map_eq_some_iff.1 (Option.some.inj h)
        obtain rfl := Option.some.inj ((liveFederation_eq_some hg).symm.trans hf)
        exact ⟨hu, by simpa using hd, hg, hx.symm⟩
      · cases h
  · cases h

theorem Linked.applyUser (h : Linked ix) : Linked (ix.applyUser photos row) where
  own u x hx := by
    rw [usersByUuid_applyUser] at hx
    split at hx
    · rename_i hu
      split at hx
      · cases hx
      · obtain rfl := Option.some.inj hx
        exact hu
    · exact h.own u x hx
  email e x hx := by
    rw [h.usersByEmail_applyUser] at hx
    split at hx
    · rename_i hlive
      obtain rfl := Option.some.inj hx
      exact ⟨hlive.2, by simp [usersByUuid_applyUser, userRecord, hlive.1]⟩
    · obtain ⟨hx, hne⟩ := Option.filter_eq_some_iff.1 hx
      obtain ⟨he, hr⟩ := h.email e x hx
      have hne : row.uuid ≠ x.uuid := fun heq => by simp [heq] at hne
      exact ⟨he, by rw [usersByUuid_applyUser, if_neg hne, hr]⟩
  listed f u x hx := by
    rw [entryAt_applyUser] at hx
    cases ht : tellsEntry photos row f u with
    | some y =>
      rw [ht, Option.getD_some] at hx
      subst hx
      obtain ⟨hu, hd, -, rfl⟩ := tellsEntry_eq_some ht
      exact ⟨rfl, by simp [usersByUuid_applyUser, hu, hd]⟩
    | none =>
      rw [ht, Option.getD_none] at hx
      obtain ⟨hf, r, hr⟩ := h.listed f u x hx
      refine ⟨hf, ?_⟩
      rw [usersByUuid_applyUser]
      by_cases hu : row.uuid = u
      · have hd : row.isDeleted = false := by
          cases hd : row.isDeleted with
          | false => rfl
          | true => simp [tellsEntry, hu, hd] at ht
        simp [hu, hd]
      · simp [hu, hr]
  shown u x f hx hf := by
    rw [usersByUuid_applyUser] at hx
    split at hx
    · rename_i hu
      split at hx
      · cases hx
      · rename_i hd
        obtain rfl := Option.some.inj hx
        subst hu
        exact h.entryAt_shownFederation (by simpa using hd) hf
    · rename_i hu
      rw [entryAt_applyUser, tellsEntry, if_neg hu]
      exact h.shown u x f hx hf
  homeless u x hx hf f := by
    rw [usersByUuid_applyUser] at hx
    split at hx
    · rename_i hu
      split at hx
      · cases hx
      · rename_i hd
        obtain rfl := Option.some.inj hx
        subst hu
        exact entryAt_of_shownFederation_eq_none (by simpa using hd) hf f
    · rename_i hu
      rw [entryAt_applyUser, tellsEntry, if_neg hu]
      exact h.homeless u x hx hf f

end RefCache.Indexes
