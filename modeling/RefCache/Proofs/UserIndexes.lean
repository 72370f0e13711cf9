import RefCache.Proofs.Slot
import RefCache.Proofs.UserRows
import Mathlib.Data.List.Induction

/-! Batches of user rows. The rows of a batch keep the indexes linked one by one, and then the
lists that they added to are sorted, which leaves the entries of every list as they are. A list
that is not sorted has only lost entries since it was. So after any batches, of any rows, the three
indexes are consistent with one another and every list is in order. -/

namespace RefCache.Indexes

variable {photos : Uuid → Photo} {row : UserRow} {batch : List UserRow} {ix : Indexes}

/-! ### The rows of a batch -/

/-- The indexes after the rows of a batch, before the lists are sorted. -/
def applyUsers (photos : Uuid → Photo) (batch : List UserRow) (ix : Indexes) : Indexes :=
  (Merge.rows (Category.stamp .users) (applyRow photos .users) batch ix).state

theorem merge_users :
    (ix.merge photos .users batch).state = (applyUsers photos batch ix).sortLists (touched batch) :=
  rfl

theorem inv_applyUsers {I : Indexes → Prop}
    (kept : ∀ row ∈ batch, ∀ ix, I ix → I (ix.applyUser photos row)) (h : I ix) :
    I (applyUsers photos batch ix) := by
  refine Merge.inv_rows batch (fun row hrow s s' hs hi => ?_) ix h
  obtain rfl := Except.ok.inj hs
  exact kept row hrow s hi

/-- If each row sets or leaves what is found, the last row that sets it does so for the batch. -/
theorem find_applyUsers {β : Type} {g : Indexes → β} {tells : UserRow → Option β}
    (applied : ∀ row ix, g (ix.applyUser photos row) = (tells row).getD (g ix)) :
    g (applyUsers photos batch ix) = (lastSaid tells batch).getD (g ix) := by
  refine Merge.find_rows (fun row s s' hs => ?_) (fun row s e he => ?_) batch ix
  · obtain rfl := Except.ok.inj hs
    exact applied row s
  · cases he

theorem entryAt_applyUsers (f u : Uuid) :
    (applyUsers photos batch ix).entryAt f u =
      (lastSaid (tellsEntry photos · f u) batch).getD (ix.entryAt f u) :=
  find_applyUsers (g := fun ix => ix.entryAt f u) fun _ _ => entryAt_applyUser f u

theorem applyUsers_append (batch batch' : List UserRow) :
    applyUsers photos (batch ++ batch') ix =
      applyUsers photos batch' (applyUsers photos batch ix) :=
  Merge.state_rows_append batch batch' ix

theorem applyUsers_cons (batch : List UserRow) :
    applyUsers photos (row :: batch) ix = applyUsers photos batch (ix.applyUser photos row) :=
  applyUsers_append [row] batch

theorem Linked.applyUsers (h : Linked ix) : Linked (applyUsers photos batch ix) :=
  inv_applyUsers (fun _ _ _ => Linked.applyUser) h

theorem Tidy.applyUsers (h : Tidy User.uuid ix.federationUsers) :
    Tidy User.uuid (applyUsers photos batch ix).federationUsers :=
  inv_applyUsers (I := fun ix => Tidy User.uuid ix.federationUsers) (fun _ _ _ => Tidy.applyUser) h

/-! ### Sorting lists -/

section Sorting

variable {touched : Std.ExtTreeSet Uuid}

theorem listAt_sortLists (f : Uuid) :
    listAt (ix.sortLists touched).federationUsers f =
      if f ∈ touched then (listAt ix.federationUsers f).mergeSort lastNameDown
      else listAt ix.federationUsers f := by
  unfold listAt sortLists
  rw [Std.ExtTreeMap.getElem?_map]
  cases ix.federationUsers[f]? <;> by_cases hf : f ∈ touched <;> simp [hf]

theorem perm_listAt_sortLists (f : Uuid) :
    (listAt (ix.sortLists touched).federationUsers f).Perm (listAt ix.federationUsers f) := by
  rw [listAt_sortLists]
  split
  · exact List.mergeSort_perm _ _
  · exact List.Perm.refl _

theorem Tidy.sortLists (h : Tidy User.uuid ix.federationUsers) :
    Tidy User.uuid (ix.sortLists touched).federationUsers := by
  refine ⟨fun f l hl => ?_, fun f => ?_⟩
  · simp only [Indexes.sortLists, Std.ExtTreeMap.getElem?_map] at hl
    obtain ⟨l₀, hl₀, rfl⟩ := Option.map_eq_some_iff.1 hl
    have hne := h.nonempty f l₀ hl₀
    split
    · intro hnil
      have hlength : (l₀.mergeSort lastNameDown).length = l₀.length := List.length_mergeSort l₀
      rw [hnil] at hlength
      exact hne (List.length_eq_zero_iff.1 hlength.symm)
    · exact hne
  · exact ((perm_listAt_sortLists f).map User.uuid).nodup_iff.2 (h.nodup f)

theorem entryAt_sortLists (h : Tidy User.uuid ix.federationUsers) (f u : Uuid) :
    (ix.sortLists touched).entryAt f u = ix.entryAt f u := by
  refine Option.ext fun x => ?_
  refine (h.sortLists.itemAt_eq_some).trans (Iff.trans ?_ h.itemAt_eq_some.symm)
  exact and_congr_left fun _ => (perm_listAt_sortLists f).mem_iff

theorem Linked.sortLists (h : Linked ix) (ht : Tidy User.uuid ix.federationUsers) :
    Linked (ix.sortLists touched) where
  own := h.own
  email := h.email
  listed f u x hx := h.listed f u x (by rwa [entryAt_sortLists ht] at hx)
  shown u x f hx hf := by
    rw [entryAt_sortLists ht]
    exact h.shown u x f hx hf
  homeless u x hx hf f := by
    rw [entryAt_sortLists ht]
    exact h.homeless u x hx hf f

end Sorting

/-! ### The order of the lists -/

/-- By last name from the highest down. -/
def DownByLastName (l : List User) : Prop := l.Pairwise fun a b => b.lastName ≤ a.lastName

theorem downByLastName_mergeSort (l : List User) : DownByLastName (l.mergeSort lastNameDown) := by
  have trans : ∀ a b c, lastNameDown a b → lastNameDown b c → lastNameDown a c := by
    intro a b c hab hbc
    simp only [lastNameDown, decide_eq_true_eq] at *
    exact String.le_trans hbc hab
  have total : ∀ a b, lastNameDown a b || lastNameDown b a := by
    intro a b
    simp only [lastNameDown, Bool.or_eq_true, decide_eq_true_eq]
    exact String.le_total _ _
  exact (List.pairwise_mergeSort trans total l).imp fun h => by simpa [lastNameDown] using h

theorem mem_touched {f : Uuid} : f ∈ touched batch ↔ ∃ row ∈ batch, touchedBy row = some f := by
  induction batch using List.reverseRecOn with
  | nil => simp [touched]
  | append_singleton batch row ih =>
    rw [touched] at ih
    rw [touched, List.foldl_append, List.foldl_cons, List.foldl_nil]
    cases hr : touchedBy row with
    | none => simp [ih, or_and_right, exists_or, hr]
    | some g => simp [ih, or_and_right, exists_or, hr, or_comm]

/-- A list that a row does not touch can only lose an entry by it. -/
theorem sublist_applyUser {f : Uuid} (h : touchedBy row ≠ some f) :
    (listAt (ix.applyUser photos row).federationUsers f).Sublist (listAt ix.federationUsers f) := by
  rw [federationUsers_applyUser]
  by_cases hd : row.isDeleted
  · rw [if_pos hd, listAt_filterMap fun a : User => a.uuid == row.uuid]
    exact List.filter_sublist
  · rw [touchedBy, if_neg hd] at h
    rw [if_neg hd, placeUser]
    split
    · rename_i g hg
      rw [listAt_putIn, if_neg fun hgf => h (hg.trans (congrArg some hgf))]
    · rename_i g _ _
      rw [listAt_dropFrom]
      by_cases hg : g = f
      · rw [if_pos hg, hg]
        exact List.filter_sublist
      · rw [if_neg hg]
    · exact List.Sublist.refl _

theorem downByLastName_merge (h : ∀ f, DownByLastName (listAt ix.federationUsers f)) (f : Uuid) :
    DownByLastName (listAt (ix.merge photos .users batch).state.federationUsers f) := by
  rw [merge_users, listAt_sortLists]
  split
  · exact downByLastName_mergeSort _
  · rename_i hf
    have hsub : (listAt (applyUsers photos batch ix).federationUsers f).Sublist
        (listAt ix.federationUsers f) := by
      refine inv_applyUsers (I := fun ix' => (listAt ix'.federationUsers f).Sublist _)
        (fun row hrow ix' hi => ?_) (List.Sublist.refl _)
      exact (sublist_applyUser fun ht => hf (mem_touched.2 ⟨row, hrow, ht⟩)).trans hi
    exact (h f).sublist hsub

/-! ### Consistency -/

/-- What every batch keeps, whatever its rows are. -/
structure Upheld (ix : Indexes) : Prop where
  linked : Linked ix
  tidy : Tidy User.uuid ix.federationUsers
  sorted : ∀ f, DownByLastName (listAt ix.federationUsers f)

theorem upheld_empty : Upheld .empty :=
  ⟨linked_empty, tidy_empty _, fun f => by simp [empty, DownByLastName]⟩

theorem Upheld.merge (h : Upheld ix) : Upheld (ix.merge photos .users batch).state where
  linked := h.linked.applyUsers.sortLists h.tidy.applyUsers
  tidy := h.tidy.applyUsers.sortLists
  sorted := downByLastName_merge h.sorted

theorem upheld_batches (photos : Uuid → Photo) (batches : List (List UserRow)) :
    Upheld (batches.foldl (fun ix batch => (ix.merge photos .users batch).state) .empty) := by
  induction batches using List.reverseRecOn with
  | nil => exact upheld_empty
  | append_singleton batches batch ih =>
    rw [List.foldl_append, List.foldl_cons, List.foldl_nil]
    exact ih.merge

/-- The three indexes of users agree with one another, and every list is in order. -/
structure Consistent (ix : Indexes) : Prop where
  ownUuid : ∀ (u : Uuid) (x : User), ix.usersByUuid[u]? = some x → x.uuid = u
  ownEmail : ∀ (e : String) (x : User), ix.usersByEmail[e]? = some x → x.email = e
  sameRecord : ∀ (e : String) (x : User), ix.usersByEmail[e]? = some x →
    ix.usersByUuid[x.uuid]? = some x
  oneEmail : ∀ (e e' : String) (x x' : User), ix.usersByEmail[e]? = some x →
    ix.usersByEmail[e']? = some x' → x.uuid = x'.uuid → e = e'
  nonempty : ∀ (f : Uuid) (l : List User), ix.federationUsers[f]? = some l → l ≠ []
  distinct : ∀ (f : Uuid) (l : List User), ix.federationUsers[f]? = some l →
    (l.map User.uuid).Nodup
  sorted : ∀ (f : Uuid) (l : List User), ix.federationUsers[f]? = some l →
    l.Pairwise fun a b => b.lastName ≤ a.lastName
  entries : ∀ (f : Uuid) (l : List User), ix.federationUsers[f]? = some l → ∀ x ∈ l,
    x.federation = some f ∧ ∃ r : User, ix.usersByUuid[x.uuid]? = some r
  shownOnce : ∀ (u : Uuid) (x : User) (f : Uuid), ix.usersByUuid[u]? = some x →
    x.federation = some f → ∃ l : List User, ix.federationUsers[f]? = some l ∧
      (l.map User.uuid).count u = 1
  homeless : ∀ (u : Uuid) (x : User), ix.usersByUuid[u]? = some x → x.federation = none →
    ∀ (f : Uuid) (l : List User), ix.federationUsers[f]? = some l → u ∉ l.map User.uuid

theorem Upheld.consistent (h : Upheld ix) : Consistent ix := by
  obtain ⟨hlinked, htidy, hsorted⟩ := h
  have hlist : ∀ (f : Uuid) (l : List User), ix.federationUsers[f]? = some l →
      listAt ix.federationUsers f = l := fun f l hl => by simp [listAt, hl]
  refine ⟨hlinked.own, fun e x hx => (hlinked.email e x hx).1,
    fun e x hx => (hlinked.email e x hx).2,
    fun e e' x x' hx hx' hu => ?_, htidy.nonempty, fun f l hl => ?_, fun f l hl => ?_,
    fun f l hl x hx => ?_, fun u x f hx hf => ?_, fun u x hx hf f l hl hmem => ?_⟩
  · obtain ⟨he, hr⟩ := hlinked.email e x hx
    obtain ⟨he', hr'⟩ := hlinked.email e' x' hx'
    rw [hu] at hr
    obtain rfl := Option.some.inj (hr.symm.trans hr')
    exact he.symm.trans he'
  · exact hlist f l hl ▸ htidy.nodup f
  · exact hlist f l hl ▸ hsorted f
  · rw [← hlist f l hl] at hx
    exact hlinked.listed f x.uuid x (htidy.mem_listAt.1 hx)
  · obtain ⟨a, ha⟩ := Option.ne_none_iff_exists'.1 (hlinked.shown u x f hx hf)
    obtain ⟨hmem, rfl⟩ := htidy.itemAt_eq_some.1 ha
    cases hl : ix.federationUsers[f]? with
    | none => simp [listAt, hl] at hmem
    | some l =>
      rw [hlist f l hl] at hmem
      have hnodup := htidy.nodup f
      rw [hlist f l hl] at hnodup
      exact ⟨l, rfl, List.count_eq_one_of_mem hnodup (List.mem_map_of_mem hmem)⟩
  · obtain ⟨a, ha, rfl⟩ := List.mem_map.1 hmem
    rw [← hlist f l hl] at ha
    exact entryAt_eq_none.1 (hlinked.homeless a.uuid x hx hf f) a ha rfl

/-- After any batches of any rows, from empty indexes on. -/
theorem users_consistent (photos : Uuid → Photo) (batches : List (List UserRow)) :
    Consistent (batches.foldl (fun ix batch => (ix.merge photos .users batch).state) .empty) :=
  (upheld_batches photos batches).consistent

end RefCache.Indexes
