import RefCache.Proofs.Arrivals
import RefCache.Proofs.UserMirror

/-! A batch of users merged twice. The lists tell already what the rows tell of them, so no row
changes them, and sorted lists are not sorted again. Addresses and records may change in the middle
of the second merge, where rows disagree about a user, but in the end they are what they were. -/

namespace RefCache.Indexes

/-! ### Changes that change nothing -/

section Lists

variable {α κ : Type} [DecidableEq κ] {key : α → κ} {index : Index (List α)} {o : Uuid}

theorem upsertBy_of_find? {item : α} {l : List α}
    (h : l.find? (key · == key item) = some item) : upsertBy key item l = l := by
  induction l with
  | nil => cases h
  | cons a l ih =>
    by_cases ha : key a = key item
    · have haitem : a = item := by simpa [List.find?_cons, ha] using h
      rw [upsertBy, if_pos ha, haitem]
    · have hrest : l.find? (key · == key item) = some item := by
        simpa [List.find?_cons, ha] using h
      rw [upsertBy, if_neg ha, ih hrest]

theorem putIn_of_itemAt {item : α} (h : itemAt key index o (key item) = some item) :
    putIn key o item index = index := by
  refine Std.ExtTreeMap.ext_getElem? fun o' => ?_
  rw [putIn, Std.ExtTreeMap.getElem?_alter]
  by_cases ho : o = o'
  · subst ho
    cases hl : index[o]? with
    | none => simp [itemAt, listAt, hl] at h
    | some l =>
      have hfind : l.find? (key · == key item) = some item := by simpa [itemAt, listAt, hl] using h
      simp [upsertBy_of_find? hfind]
  · simp [ho]

omit [DecidableEq κ] in
theorem Tidy.kept_filter (h : Tidy key index) {gone : α → Bool} {l : List α}
    (hl : index[o]? = some l) (hgone : ∀ a ∈ listAt index o, gone a = false) :
    kept (l.filter (!gone ·)) = some l := by
  have hall : l.filter (!gone ·) = l := by
    refine List.filter_eq_self.2 fun a ha => ?_
    rw [hgone a (by simpa [listAt, hl] using ha), Bool.not_false]
  rw [hall]
  exact kept_eq_some.2 ⟨rfl, h.nonempty o l hl⟩

omit [DecidableEq κ] in
theorem Tidy.dropFrom_of_forall (h : Tidy key index) {gone : α → Bool}
    (hgone : ∀ a ∈ listAt index o, gone a = false) : Indexes.dropFrom o gone index = index := by
  refine Std.ExtTreeMap.ext_getElem? fun o' => ?_
  rw [Indexes.dropFrom, Std.ExtTreeMap.getElem?_alter]
  by_cases ho : o = o'
  · subst ho
    cases hl : index[o]? with
    | none => simp
    | some l => simpa using h.kept_filter hl hgone
  · simp [ho]

omit [DecidableEq κ] in
theorem Tidy.filterMap_of_forall (h : Tidy key index) {gone : α → Bool}
    (hgone : ∀ o, ∀ a ∈ listAt index o, gone a = false) :
    (index.filterMap fun _ l => kept (l.filter (!gone ·))) = index := by
  refine Std.ExtTreeMap.ext_getElem? fun o => ?_
  rw [Std.ExtTreeMap.getElem?_filterMap']
  cases hl : index[o]? with
  | none => rfl
  | some l => exact h.kept_filter hl (hgone o)

end Lists

variable {photos : Uuid → Photo} {row : UserRow} {batch : List UserRow} {ix : Indexes}

/-- A row that tells of the lists what they tell already leaves them as they are. -/
theorem federationUsers_applyUser_of_told (ht : Tidy User.uuid ix.federationUsers)
    (h : ∀ f u x, tellsEntry photos row f u = some x → ix.entryAt f u = x) :
    (ix.applyUser photos row).federationUsers = ix.federationUsers := by
  have hgone : ∀ f, tellsEntry photos row f row.uuid = some none →
      ∀ a ∈ listAt ix.federationUsers f, (a.uuid == row.uuid) = false := fun f htells a ha => by
    simpa using entryAt_eq_none.1 (h f row.uuid none htells) a ha
  rw [federationUsers_applyUser]
  cases hd : row.isDeleted with
  | true => exact ht.filterMap_of_forall fun f => hgone f (by simp [tellsEntry, hd])
  | false =>
    rw [if_neg Bool.false_ne_true]
    unfold placeUser
    split
    · rename_i f hf
      refine putIn_of_itemAt (h f row.uuid _ ?_)
      simp [tellsEntry, hd, liveFederation_eq_some hf, hf]
    · rename_i f hl hf
      exact ht.dropFrom_of_forall (hgone f (by simp [tellsEntry, hd, hf, hl]))
    · rfl

theorem federationUsers_applyUsers_of_told (ht : Tidy User.uuid ix.federationUsers)
    (h : ∀ row ∈ batch, ∀ f u x, tellsEntry photos row f u = some x → ix.entryAt f u = x) :
    (ix.applyUsers photos batch).federationUsers = ix.federationUsers := by
  refine inv_applyUsers (I := fun ix' => ix'.federationUsers = ix.federationUsers)
    (fun row hrow ix' hsame => ?_) rfl
  have hentry : ∀ f u, ix'.entryAt f u = ix.entryAt f u := fun f u => by
    rw [entryAt, hsame, entryAt]
  refine (federationUsers_applyUser_of_told (hsame ▸ ht) fun f u x hx => ?_).trans hsame
  rw [hentry, h row hrow f u x hx]

theorem sortLists_of_sorted {touched : Std.ExtTreeSet Uuid}
    (h : ∀ f, DownByLastName (listAt ix.federationUsers f)) : ix.sortLists touched = ix := by
  have hlists : (ix.sortLists touched).federationUsers = ix.federationUsers := by
    refine Std.ExtTreeMap.ext_getElem? fun f => ?_
    simp only [sortLists, Std.ExtTreeMap.getElem?_map]
    cases hl : ix.federationUsers[f]? with
    | none => rfl
    | some l =>
      have hdown : DownByLastName l := by simpa [listAt, hl] using h f
      have hsorted : l.mergeSort lastNameDown = l :=
        List.mergeSort_of_pairwise (hdown.imp fun hab => by simpa [lastNameDown] using hab)
      simp [hsorted]
  exact congrArg (fun lists => { ix with federationUsers := lists }) hlists

end RefCache.Indexes

namespace RefCache.UserBatch

open Indexes

variable {photos : Uuid → Photo} {batch : List UserRow} {ix : Indexes}

theorem entryAt_merge_of_tells (h : UserBatch batch) (ht : Tidy User.uuid ix.federationUsers)
    {row : UserRow} (hrow : row ∈ batch) {f u : Uuid} {x : Option User}
    (hx : tellsEntry photos row f u = some x) :
    (ix.merge photos .users batch).state.entryAt f u = x := by
  rw [merge_users, entryAt_sortLists ht.applyUsers, h.entryAt_of_tells hrow hx]

/-- The lists that a batch leaves behind are not changed by its rows. -/
theorem federationUsers_again (h : UserBatch batch) (hix : Upheld ix) :
    ((ix.merge photos .users batch).state.applyUsers photos batch).federationUsers =
      (ix.merge photos .users batch).state.federationUsers :=
  federationUsers_applyUsers_of_told hix.merge.tidy fun _ hrow _ _ _ hx =>
    h.entryAt_merge_of_tells hix.tidy hrow hx

theorem recordAt_again (ix : Indexes) (u : Uuid) :
    ((ix.merge photos .users batch).state.applyUsers photos batch).recordAt u =
      (ix.merge photos .users batch).state.recordAt u := by
  have honce : (ix.merge photos .users batch).state.recordAt u =
      (lastSaid (tellsRecord photos · u) batch).getD (ix.recordAt u) := recordAt_applyUsers u
  rw [recordAt_applyUsers, honce]
  cases lastSaid (tellsRecord photos · u) batch <;> rfl

theorem shownAt_again (h : UserBatch batch) (hix : Upheld ix) (u : Uuid) :
    ((ix.merge photos .users batch).state.applyUsers photos batch).shownAt u =
      (ix.merge photos .users batch).state.shownAt u := by
  by_cases hlive : ∀ row ∈ batch, row.uuid = u → row.isDeleted = false
  · have hlinked : Linked (ix.merge photos .users batch).state := hix.merge.linked
    have honce : (ix.merge photos .users batch).state.shownAt u =
        (liveIn batch u).getLast?.or ((ix.applyUsers photos batch).fallback u (ix.shownAt u)) :=
      h.shownAt_applyUsers hix.linked hlive
    have hentry : ∀ f,
        (((ix.merge photos .users batch).state.applyUsers photos batch).entryAt f u).isSome =
          ((ix.merge photos .users batch).state.entryAt f u).isSome := fun f => by
      rw [entryAt, h.federationUsers_again hix, entryAt]
    rw [h.shownAt_applyUsers hlinked hlive, fallback_congr hentry, hlinked.fallback_shownAt]
    cases hlast : (liveIn batch u).getLast? with
    | some f => rw [honce, hlast, Option.some_or, Option.some_or]
    | none => rw [Option.none_or]
  · push Not at hlive
    obtain ⟨row, hrow, rfl, hd⟩ := hlive
    have honce : (ix.merge photos .users batch).state.recordAt row.uuid = none :=
      h.recordAt_of_deleted hrow (by simpa using hd)
    rw [shownAt_of_recordAt_eq_none honce,
      shownAt_of_recordAt_eq_none ((recordAt_again ix row.uuid).trans honce)]

end RefCache.UserBatch

namespace RefCache

open Indexes

/-- A batch of users merged once more leaves all indexes as they are. -/
theorem merge_users_again (photos : Uuid → Photo) (batches : List Batch) {batch : List UserRow}
    (h : UserBatch batch) :
    let once := ((afterBatches photos batches).merge photos .users batch).state
    (once.merge photos .users batch).state = once := by
  intro once
  have hix : Upheld (afterBatches photos batches) := upheld_afterBatches photos batches
  have honce : Upheld once := hix.merge
  have hlists : (once.applyUsers photos batch).federationUsers = once.federationUsers :=
    h.federationUsers_again hix
  have hrecords : ∀ u : Uuid,
      (once.applyUsers photos batch).usersByUuid[u]? = once.usersByUuid[u]? := fun u =>
    usersByUuid_eq (UserBatch.recordAt_again _ u) (h.shownAt_again hix u)
  have howners : ∀ e, (once.applyUsers photos batch).ownerAt e = once.ownerAt e := by
    intro e
    have hfirst : once.ownerAt e =
        batch.foldl (nextOwner e) ((afterBatches photos batches).ownerAt e) :=
      hix.linked.ownerAt_applyUsers e
    rw [honce.linked.ownerAt_applyUsers, hfirst, foldl_nextOwner_again]
  have hemails : ∀ e : String,
      (once.applyUsers photos batch).usersByEmail[e]? = once.usersByEmail[e]? := by
    intro e
    rw [honce.linked.applyUsers.usersByEmail_eq, honce.linked.usersByEmail_eq, howners]
    exact Option.bind_congr fun u _ => hrecords u
  have hsorted : (once.merge photos .users batch).state = once.applyUsers photos batch := by
    rw [merge_users]
    exact sortLists_of_sorted (hlists ▸ honce.sorted)
  refine eq_of_only fun c => ?_
  by_cases hc : c = .users
  · subst hc
    rw [hsorted]
    simp only [only, hlists, Std.ExtTreeMap.ext_getElem? hrecords,
      Std.ExtTreeMap.ext_getElem? hemails]
  · exact only_merge hc batch

/-- The rows of user 0 disagree about its address, and user 1 takes the first of the two. -/
def contested : List UserRow :=
  [userAt 1 ⟨0⟩ "a" (some ⟨7⟩) (some ⟨1, 0⟩), userAt 1 ⟨1⟩ "a" (some ⟨7⟩) none,
    userAt 1 ⟨0⟩ "b" (some ⟨8⟩) (some ⟨1, 0⟩), userAt 1 ⟨1⟩ "a" (some ⟨8⟩) none]

/-- User 0 leaves two of three federations; in the second merge the first row takes the address
back for a while. -/
theorem merge_users_again_contested :
    let photos : Uuid → Photo := fun _ => default
    let before : List Batch := [⟨.users, [userAt 0 ⟨0⟩ "a" (some ⟨7⟩) none,
      userAt 0 ⟨0⟩ "a" (some ⟨8⟩) none, userAt 0 ⟨0⟩ "a" (some ⟨9⟩) none]⟩]
    let once := ((afterBatches photos before).merge photos .users contested).state
    UserBatch contested ∧ once.ownerAt "a" = some ⟨1⟩ ∧ once.shownAt ⟨0⟩ = some ⟨9⟩ ∧
      (once.applyUsers photos (contested.take 1)).ownerAt "a" = some ⟨0⟩ ∧
      (once.merge photos .users contested).state = once := by
  have hbatch : UserBatch contested := ⟨by decide, by decide⟩
  exact ⟨hbatch, by decide +kernel, by decide +kernel, by decide +kernel,
    merge_users_again _ _ hbatch⟩

end RefCache
