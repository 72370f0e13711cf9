import RefCache.Proofs.Arrivals
import RefCache.Proofs.UserMirror

/-! The rows of a batch of users in another order, where they carry the columns of their users and
no two live users have one address. What they tell of records, entries and addresses is the same.
The order shows where a user has several live memberships in the batch, since the record shows the
last of them, and between users of one last name on a list. -/

namespace RefCache

open Indexes

/-- Rows joined from users and memberships: one for each pair, with the columns of the user, where
no two live users have one address. -/
structure JoinedBatch (batch : List UserRow) : Prop where
  distinct : (memberships batch).Nodup
  columns : ∀ a ∈ batch, ∀ b ∈ batch, a.uuid = b.uuid → a.SameColumns b
  emails : ∀ a ∈ batch, ∀ b ∈ batch, a.isDeleted = false → b.isDeleted = false →
    a.email = b.email → a.uuid = b.uuid

/-- Records that are the same, but that each show the last live membership in the batch of a user
who has several there. -/
inductive SameButLast (batch batch' : List UserRow) : Option User → Option User → Prop where
  | absent : SameButLast batch batch' none none
  | same (x : User) (h : (liveIn batch x.uuid).length < 2) :
      SameButLast batch batch' (some x) (some x)
  | last (x : User) (h : 2 ≤ (liveIn batch x.uuid).length) :
      SameButLast batch batch' (some { x with federation := (liveIn batch x.uuid).getLast? })
        (some { x with federation := (liveIn batch' x.uuid).getLast? })

variable {photos : Uuid → Photo} {batch batch' : List UserRow} {ix : Indexes}

namespace JoinedBatch

theorem userBatch (h : JoinedBatch batch) : UserBatch batch where
  distinct := h.distinct
  deletion a ha b hb hu := (h.columns a ha b hb hu).isDeleted_eq

theorem perm (h : JoinedBatch batch) (hp : batch.Perm batch') : JoinedBatch batch' where
  distinct := (hp.filterMap _).nodup_iff.1 h.distinct
  columns a ha b hb := h.columns a (hp.mem_iff.2 ha) b (hp.mem_iff.2 hb)
  emails a ha b hb := h.emails a (hp.mem_iff.2 ha) b (hp.mem_iff.2 hb)

theorem recordAt_perm (h : JoinedBatch batch) (hp : batch.Perm batch') (u : Uuid) :
    (ix.applyUsers photos batch).recordAt u = (ix.applyUsers photos batch').recordAt u := by
  rw [recordAt_applyUsers, recordAt_applyUsers,
    (agree_record_of_columns h.columns photos u).lastSaid_perm hp]

theorem entryAt_perm (h : JoinedBatch batch) (hp : batch.Perm batch') (f u : Uuid) :
    (ix.applyUsers photos batch).entryAt f u = (ix.applyUsers photos batch').entryAt f u := by
  rw [entryAt_applyUsers, entryAt_applyUsers, (h.userBatch.agree_entry f u).lastSaid_perm hp]

/-- An address that a row takes leads to the row's user in the end. -/
theorem ownerAt_of_takes (h : JoinedBatch batch) (hix : Linked ix) {row : UserRow} {e : String}
    (hrow : row ∈ batch) (ht : Takes e row) :
    (ix.applyUsers photos batch).ownerAt e = some row.uuid := by
  obtain ⟨hd, rfl⟩ := ht
  refine Option.map_eq_some_iff.2 (hix.leads_applyUsers (fun r hr hu => ?_) ?_
    (Or.inr ⟨row, hrow, rfl⟩))
  · have hsame := h.columns r hr row hrow hu
    exact ⟨hsame.isDeleted_eq.trans hd, hsame.email⟩
  · exact fun r hr hrd hre => h.emails r hr row hrow hrd hd hre

theorem ownerAt_perm (h : JoinedBatch batch) (hp : batch.Perm batch') (hix : Linked ix)
    (e : String) :
    (ix.applyUsers photos batch).ownerAt e = (ix.applyUsers photos batch').ownerAt e := by
  by_cases htaken : ∃ row ∈ batch, Takes e row
  · obtain ⟨row, hrow, ht⟩ := htaken
    rw [h.ownerAt_of_takes hix hrow ht, (h.perm hp).ownerAt_of_takes hix (hp.mem_iff.1 hrow) ht]
  · have hnone : ∀ row ∈ batch, ¬ Takes e row := fun row hrow ht => htaken ⟨row, hrow, ht⟩
    have hnone' : ∀ row ∈ batch', ¬ Takes e row := fun row hrow => hnone row (hp.mem_iff.2 hrow)
    rw [hix.ownerAt_applyUsers, hix.ownerAt_applyUsers, foldl_nextOwner_of_not_takes hnone,
      foldl_nextOwner_of_not_takes hnone']
    simp only [(hp.map UserRow.uuid).mem_iff]

/-- A record shows the last live membership of the batch, or else what it shows in any order. -/
theorem shownAt_perm (h : JoinedBatch batch) (hp : batch.Perm batch') (hix : Linked ix) {u : Uuid}
    (hlive : ∀ row ∈ batch, row.uuid = u → row.isDeleted = false) :
    (ix.applyUsers photos batch).shownAt u =
        (liveIn batch u).getLast?.or ((ix.applyUsers photos batch).fallback u (ix.shownAt u)) ∧
      (ix.applyUsers photos batch').shownAt u =
        (liveIn batch' u).getLast?.or
          ((ix.applyUsers photos batch).fallback u (ix.shownAt u)) := by
  refine ⟨h.userBatch.shownAt_applyUsers hix hlive, ?_⟩
  rw [(h.perm hp).userBatch.shownAt_applyUsers hix fun row hrow => hlive row (hp.mem_iff.2 hrow)]
  exact congrArg _ (fallback_congr (fun f => by rw [h.entryAt_perm hp]) _)

/-- One live membership at most is shown in any order. -/
theorem liveIn_perm (hp : batch.Perm batch') {u : Uuid} (h : (liveIn batch u).length < 2) :
    liveIn batch u = liveIn batch' u := by
  have hperm : (liveIn batch u).Perm (liveIn batch' u) := hp.filterMap _
  cases hl : liveIn batch u with
  | nil => exact (List.nil_perm.1 (hl ▸ hperm)).symm
  | cons f rest =>
    obtain rfl : rest = [] := List.length_eq_zero_iff.1 (by rw [hl, List.length_cons] at h; omega)
    exact List.singleton_perm.1 (hl ▸ hperm)

theorem getLast?_or {l : List Uuid} (h : 0 < l.length) (f : Option Uuid) :
    l.getLast?.or f = l.getLast? :=
  Option.or_of_isSome (List.getLast?_isSome.2 (List.ne_nil_of_length_pos h))

/-- Records are the same in any order, but for the last live membership. -/
theorem sameButLast (h : JoinedBatch batch) (hp : batch.Perm batch') (hix : Linked ix) (u : Uuid) :
    SameButLast batch batch' (ix.applyUsers photos batch).usersByUuid[u]?
      (ix.applyUsers photos batch').usersByUuid[u]? := by
  rw [usersByUuid_eq_map, usersByUuid_eq_map, ← h.recordAt_perm hp u]
  cases hrecord : (ix.applyUsers photos batch).recordAt u with
  | none => exact .absent
  | some x =>
    obtain ⟨y, hy, rfl⟩ := Option.map_eq_some_iff.1 hrecord
    obtain rfl : y.uuid = u := hix.applyUsers.own u y hy
    have hlive : ∀ row ∈ batch, row.uuid = y.uuid → row.isDeleted = false := by
      intro row hrow hu
      by_contra hd
      have hnone : (ix.applyUsers photos batch).recordAt row.uuid = none :=
        h.userBatch.recordAt_of_deleted hrow (by simpa using hd)
      rw [hu, hrecord] at hnone
      cases hnone
    obtain ⟨hshown, hshown'⟩ := h.shownAt_perm hp hix hlive
    rw [hshown, hshown']
    by_cases hmany : 2 ≤ (liveIn batch y.uuid).length
    · have hmany' : 2 ≤ (liveIn batch' y.uuid).length := (hp.filterMap _).length_eq ▸ hmany
      rw [getLast?_or (Nat.zero_lt_of_lt hmany), getLast?_or (Nat.zero_lt_of_lt hmany')]
      exact .last _ hmany
    · rw [← liveIn_perm hp (Nat.not_le.1 hmany)]
      exact .same _ (Nat.not_le.1 hmany)

theorem sameButLast_email (h : JoinedBatch batch) (hp : batch.Perm batch') (hix : Linked ix)
    (e : String) : SameButLast batch batch' (ix.applyUsers photos batch).usersByEmail[e]?
      (ix.applyUsers photos batch').usersByEmail[e]? := by
  rw [hix.applyUsers.usersByEmail_eq, hix.applyUsers.usersByEmail_eq, ← h.ownerAt_perm hp hix]
  cases (ix.applyUsers photos batch).ownerAt e with
  | none => exact .absent
  | some u => exact h.sameButLast hp hix u

theorem perm_list (h : JoinedBatch batch) (hp : batch.Perm batch')
    (ht : Tidy User.uuid ix.federationUsers) (f : Uuid) :
    (listAt (ix.merge photos .users batch).state.federationUsers f).Perm
      (listAt (ix.merge photos .users batch').state.federationUsers f) := by
  refine ht.applyUsers.sortLists.perm_listAt ht.applyUsers.sortLists fun u => ?_
  exact (entryAt_sortLists ht.applyUsers f u).trans
    ((h.entryAt_perm hp f u).trans (entryAt_sortLists ht.applyUsers f u).symm)

end JoinedBatch

/-- Lists of the same users, both in order, have the same last name in every place. -/
theorem Indexes.DownByLastName.map_lastName_eq {l l' : List User} (h : DownByLastName l)
    (h' : DownByLastName l') (hp : l.Perm l') : l.map User.lastName = l'.map User.lastName :=
  (hp.map User.lastName).eq_of_pairwise (fun _ _ _ _ hba hab => String.le_antisymm hab hba)
    (List.pairwise_map.2 h) (List.pairwise_map.2 h')

/-- The rows of a batch may be merged in any order: the records are the same but for the last live
membership of those that have several, the addresses lead to the same users, and every list has the
same entries, in an order that differs between users of one last name alone. -/
theorem merge_users_perm (photos : Uuid → Photo) (batches : List Batch)
    {batch batch' : List UserRow} (hp : batch.Perm batch') (h : JoinedBatch batch) :
    let one := ((afterBatches photos batches).merge photos .users batch).state
    let other := ((afterBatches photos batches).merge photos .users batch').state
    (∀ u : Uuid, SameButLast batch batch' one.usersByUuid[u]? other.usersByUuid[u]?) ∧
      (∀ e : String, SameButLast batch batch' one.usersByEmail[e]? other.usersByEmail[e]?) ∧
      ∀ f, (listAt one.federationUsers f).Perm (listAt other.federationUsers f) ∧
        (listAt one.federationUsers f).map User.lastName =
          (listAt other.federationUsers f).map User.lastName := by
  intro one other
  have hix : Upheld (afterBatches photos batches) := upheld_afterBatches photos batches
  refine ⟨h.sameButLast hp hix.linked, h.sameButLast_email hp hix.linked, fun f => ?_⟩
  have hperm : (listAt one.federationUsers f).Perm (listAt other.federationUsers f) :=
    h.perm_list hp hix.tidy f
  exact ⟨hperm, (hix.merge.sorted f).map_lastName_eq (hix.merge.sorted f) hperm⟩

/-- User 0 drops a membership and its address, which user 1 takes, who joins two federations. -/
def handedOver : List UserRow :=
  [userAt 1 ⟨0⟩ "b" (some ⟨7⟩) (some ⟨1, 0⟩), userAt 1 ⟨1⟩ "a" (some ⟨8⟩) none,
    userAt 1 ⟨1⟩ "a" (some ⟨9⟩) none]

/-- User 1 shows the one or the other of its two federations. -/
theorem merge_users_perm_reversed :
    let photos : Uuid → Photo := fun _ => default
    let before : List Batch := [⟨.users, [userAt 0 ⟨0⟩ "a" (some ⟨7⟩) none]⟩]
    let one := ((afterBatches photos before).merge photos .users handedOver).state
    let other := ((afterBatches photos before).merge photos .users handedOver.reverse).state
    handedOver.Perm handedOver.reverse ∧ JoinedBatch handedOver ∧
      one.shownAt ⟨1⟩ = some ⟨9⟩ ∧ other.shownAt ⟨1⟩ = some ⟨8⟩ ∧
      (∀ u : Uuid, SameButLast handedOver handedOver.reverse one.usersByUuid[u]?
        other.usersByUuid[u]?) ∧
      SameButLast handedOver handedOver.reverse one.usersByEmail["a"]? other.usersByEmail["a"]? ∧
      (listAt one.federationUsers ⟨8⟩).Perm (listAt other.federationUsers ⟨8⟩) := by
  intro photos before one other
  have hperm : handedOver.Perm handedOver.reverse := (List.reverse_perm _).symm
  have hcolumns : ∀ a ∈ handedOver, ∀ b ∈ handedOver, a.uuid = b.uuid →
      a.name = b.name ∧ a.lastName = b.lastName ∧ a.patronymic = b.patronymic ∧
        a.email = b.email ∧ a.phone = b.phone ∧ a.hasPhoto = b.hasPhoto ∧
        a.deletedAt = b.deletedAt := by decide
  have hbatch : JoinedBatch handedOver := by
    refine ⟨by decide, fun a ha b hb hu => ?_, by decide⟩
    obtain ⟨h1, h2, h3, h4, h5, h6, h7⟩ := hcolumns a ha b hb hu
    exact ⟨h1, h2, h3, h4, h5, h6, h7⟩
  obtain ⟨hrecords, hemails, hlists⟩ := merge_users_perm photos before hperm hbatch
  exact ⟨hperm, hbatch, by decide +kernel, by decide +kernel, hrecords, hemails "a",
    (hlists ⟨8⟩).1⟩

end RefCache
