import RefCache.Proofs.UserBatches
import RefCache.Proofs.Place
import RefCache.Proofs.Upkeep

/-! The users of a table and the indexes that mirror them. A table of users has one row for each
membership, or one for a user without any, and each row carries the columns of its user. The rows
of one user tell the same of its record, and one row tells of its entry on a list. An address
follows its record: it may be handed over while a batch is merged, and then its new owner has a row
in the batch. So after every successful pull the three indexes are those of the table. -/

namespace RefCache

open Indexes Upkeep

/-! ### Tables of users -/

/-- The columns of a user; `updatedAt` and the membership are a row's own. -/
structure UserRow.SameColumns (a b : UserRow) : Prop where
  name : a.name = b.name
  lastName : a.lastName = b.lastName
  patronymic : a.patronymic = b.patronymic
  email : a.email = b.email
  phone : a.phone = b.phone
  hasPhoto : a.hasPhoto = b.hasPhoto
  deletedAt : a.deletedAt = b.deletedAt

def UserRow.membership (row : UserRow) : Uuid × Option Uuid := (row.uuid, row.federation)

/-- A record that has the columns of a row, and the photo of its user. The federation that it shows
is another matter. -/
structure User.Copies (photos : Uuid → Photo) (row : UserRow) (x : User) : Prop where
  uuid : x.uuid = row.uuid
  name : x.name = row.name
  lastName : x.lastName = row.lastName
  patronymic : x.patronymic = row.patronymic
  email : x.email = row.email
  phone : x.phone = row.phone
  hasPhoto : x.hasPhoto = row.hasPhoto
  photo : x.photo = photos row.uuid

theorem User.Copies.eq {photos : Uuid → Photo} {row : UserRow} {x : User}
    (h : x.Copies photos row) : x = ⟨row.uuid, row.name, row.lastName, row.patronymic, row.email,
      row.phone, row.hasPhoto, x.federation, photos row.uuid⟩ := by
  obtain ⟨⟩ := x
  obtain ⟨rfl, rfl, rfl, rfl, rfl, rfl, rfl, rfl⟩ := h
  rfl

theorem User.copies_iff {photos : Uuid → Photo} {row : UserRow} {x : User} :
    x.Copies photos row ↔ x = userRecord photos row x.federation := by
  refine ⟨fun h => h.eq, fun h => ?_⟩
  rw [h]
  exact ⟨rfl, rfl, rfl, rfl, rfl, rfl, rfl, rfl⟩

theorem Stamped.isDeleted_eq_false {row : Stamped} : row.isDeleted = false ↔ row.deletedAt = none :=
  Option.isSome_eq_false_iff.trans Option.isNone_iff_eq_none

/-- A row places its user in a federation if it has a membership there that is not dropped. -/
theorem UserRow.liveFederation_eq_some_iff {row : UserRow} {f : Uuid} :
    row.liveFederation = some f ↔ row.federation = some f ∧ row.membershipDeletedAt = none := by
  cases h : row.membershipDeletedAt <;> simp [liveFederation, h]

structure UserTable (cold : Timestamp) (t : List UserRow) : Prop where
  started : ∀ row ∈ t, cold ≤ row.updatedAt
  columns : ∀ a ∈ t, ∀ b ∈ t, a.uuid = b.uuid → a.SameColumns b
  distinct : (t.map UserRow.membership).Nodup

/-- A write stamps every row that it adds or changes no earlier than any row it finds. Rows stay,
but that of a user without membership may give way to a row of the same user that the write adds. -/
structure UserWrite (cold : Timestamp) (t t' : List UserRow) : Prop where
  table : UserTable cold t'
  stamped : ∀ row ∈ t', row ∈ t ∨ ∀ old ∈ t, old.updatedAt ≤ row.updatedAt
  kept : ∀ old ∈ t, (∃ row ∈ t', row.membership = old.membership) ∨
    (old.federation = none ∧ ∃ row ∈ t', row ∉ t ∧ row.uuid = old.uuid)

namespace UserTable

variable {cold : Timestamp} {t t' : List UserRow}

theorem eq_of_membership_eq (h : UserTable cold t) {a b : UserRow} (ha : a ∈ t) (hb : b ∈ t)
    (hm : a.membership = b.membership) : a = b :=
  List.inj_on_of_nodup_map h.distinct ha hb hm

/-- Where every user has one row, there is nothing for rows to disagree about. -/
theorem of_nodup_uuid (h : (t.map UserRow.uuid).Nodup) (hs : ∀ row ∈ t, cold ≤ row.updatedAt) :
    UserTable cold t where
  started := hs
  columns a ha b hb hu := by
    obtain rfl := List.inj_on_of_nodup_map h ha hb hu
    exact ⟨rfl, rfl, rfl, rfl, rfl, rfl, rfl⟩
  distinct := by
    refine List.Nodup.of_map Prod.fst ?_
    rw [List.map_map]
    exact h

/-- Tables of users; they are read when no two live users have one address. -/
def rules (cold : Timestamp) : Rules .users cold where
  Sound := UserTable cold
  Writes := UserWrite cold
  Readable t := ∀ a ∈ t, ∀ b ∈ t, a.isDeleted = false → b.isDeleted = false →
    a.email = b.email → a.uuid = b.uuid
  sound_nil := ⟨by simp, by simp, by simp⟩
  sound_of_writes h := h.table
  started h := h.started
  stamped h := h.stamped
  kept := by
    intro t t' ht h old hold
    rcases h.kept old hold with ⟨row, hrow, hm⟩ | ⟨-, row, hrow, hnew, -⟩
    · rcases h.stamped row hrow with hin | hstamp
      · obtain rfl := ht.eq_of_membership_eq hin hold hm
        exact ⟨row, hrow, Std.le_refl _⟩
      · exact ⟨row, hrow, hstamp old hold⟩
    · exact ⟨row, hrow, (h.stamped row hrow).resolve_left hnew old hold⟩

theorem user_kept (h : (rules cold).Later t t') : ∀ old ∈ t, ∃ row ∈ t', row.uuid = old.uuid := by
  induction h with
  | refl => exact fun old hold => ⟨old, hold, rfl⟩
  | tail _ hw ih =>
    intro old hold
    obtain ⟨mid, hmid, hu⟩ := ih old hold
    rcases UserWrite.kept hw mid hmid with ⟨row, hrow, hm⟩ | ⟨-, row, hrow, -, hm⟩
    · exact ⟨row, hrow, (congrArg Prod.fst hm).trans hu⟩
    · exact ⟨row, hrow, hm.trans hu⟩

theorem membership_kept (h : (rules cold).Later t t') : ∀ old ∈ t, old.federation ≠ none →
    ∃ row ∈ t', row.membership = old.membership := by
  induction h with
  | refl => exact fun old hold _ => ⟨old, hold, rfl⟩
  | tail _ hw ih =>
    intro old hold hf
    obtain ⟨mid, hmid, hm⟩ := ih old hold hf
    rcases UserWrite.kept hw mid hmid with ⟨row, hrow, hm'⟩ | ⟨hnone, -⟩
    · exact ⟨row, hrow, hm'.trans hm⟩
    · exact absurd ((congrArg Prod.snd hm).symm.trans hnone) hf

end UserTable

/-! ### What the rows tell of records and entries -/

namespace Indexes

variable {photos : Uuid → Photo} {row : UserRow} {batch : List UserRow} {ix ix' : Indexes}

/-- A user's record but for the federation that it shows. -/
def recordAt (ix : Indexes) (u : Uuid) : Option User :=
  ix.usersByUuid[u]?.map fun x => { x with federation := none }

def tellsRecord (photos : Uuid → Photo) (row : UserRow) (u : Uuid) : Option (Option User) :=
  row.toStamped.tells row.uuid u (userRecord photos row none)

theorem recordAt_applyUser (u : Uuid) :
    (ix.applyUser photos row).recordAt u = (tellsRecord photos row u).getD (ix.recordAt u) := by
  unfold recordAt tellsRecord Stamped.tells
  rw [usersByUuid_applyUser]
  by_cases hu : row.uuid = u <;> by_cases hd : row.isDeleted <;> simp [hu, hd, userRecord]

theorem recordAt_applyUsers (u : Uuid) :
    (applyUsers photos batch ix).recordAt u =
      (lastSaid (tellsRecord photos · u) batch).getD (ix.recordAt u) :=
  find_applyUsers (g := fun ix => ix.recordAt u) fun _ _ => recordAt_applyUser u

theorem tellsRecord_eq_some {u : Uuid} {x : User}
    (h : tellsRecord photos row u = some (some x)) :
    row.uuid = u ∧ row.isDeleted = false ∧ x = userRecord photos row none := by
  obtain ⟨hu, hx⟩ := Stamped.tells_eq_some.1 h
  cases hd : row.isDeleted with
  | true => simp [hd] at hx
  | false => exact ⟨hu, rfl, by simpa [hd] using hx⟩

/-- Where records reflect a table, the record of a user is from one of the user's rows. -/
theorem exists_row_of_record {table : List UserRow} {u : Uuid} {x : User}
    (h : Reflects (tellsRecord photos · u) table (ix.recordAt u))
    (hx : ix.usersByUuid[u]? = some x) :
    ∃ row ∈ table, row.isDeleted = false ∧ row.uuid = u ∧
      x = userRecord photos row x.federation := by
  have hrecord : ix.recordAt u = some { x with federation := none } := by simp [recordAt, hx]
  obtain ⟨row, hrow, ht⟩ := (h _).1 hrecord
  obtain ⟨hu, hd, he⟩ := tellsRecord_eq_some ht
  refine ⟨row, hrow, hd, hu, ?_⟩
  obtain ⟨⟩ := x
  simp only [userRecord, User.mk.injEq] at he ⊢
  simp [he]

theorem exists_record_of_row {table : List UserRow}
    (h : Reflects (tellsRecord photos · row.uuid) table (ix.recordAt row.uuid))
    (hrow : row ∈ table) (hd : row.isDeleted = false) :
    ∃ f, ix.usersByUuid[row.uuid]? = some (userRecord photos row f) := by
  have ht : tellsRecord photos row row.uuid = some (some (userRecord photos row none)) := by
    simp [tellsRecord, Stamped.tells, hd]
  obtain ⟨x, hx, he⟩ := Option.map_eq_some_iff.1 ((h _).2 ⟨row, hrow, ht⟩)
  refine ⟨x.federation, hx.trans (congrArg some ?_)⟩
  obtain ⟨⟩ := x
  simp only [userRecord, User.mk.injEq] at he ⊢
  simp [he]

/-- A record is made up of the federation that it shows and of the rest. -/
theorem usersByUuid_eq_map (ix : Indexes) (u : Uuid) :
    ix.usersByUuid[u]? = (ix.recordAt u).map fun x => { x with federation := ix.shownAt u } := by
  unfold recordAt shownAt
  cases ix.usersByUuid[u]? <;> rfl

theorem usersByUuid_eq {u : Uuid} (hrecord : ix.recordAt u = ix'.recordAt u)
    (hshown : ix.shownAt u = ix'.shownAt u) : ix.usersByUuid[u]? = ix'.usersByUuid[u]? := by
  rw [usersByUuid_eq_map, hrecord, hshown, ← usersByUuid_eq_map]

theorem shownAt_of_recordAt_eq_none {u : Uuid} (h : ix.recordAt u = none) :
    ix.shownAt u = none := by
  rw [recordAt, Option.map_eq_none_iff] at h
  rw [shownAt, h, Option.bind_none]

end Indexes

/-- A user with a deleted row has no record after the batch. -/
theorem UserBatch.recordAt_of_deleted {photos : Uuid → Photo} {batch : List UserRow} {ix : Indexes}
    (h : UserBatch batch) {row : UserRow} (hrow : row ∈ batch) (hd : row.isDeleted) :
    (ix.applyUsers photos batch).recordAt row.uuid = none := by
  rw [recordAt_applyUsers]
  cases hsaid : lastSaid (tellsRecord photos · row.uuid) batch with
  | none =>
    have hsilent := lastSaid_eq_none.1 hsaid row hrow
    simp [tellsRecord, Stamped.tells] at hsilent
  | some x =>
    obtain ⟨other, hother, hx⟩ := exists_of_lastSaid hsaid
    obtain ⟨hu, rfl⟩ := Stamped.tells_eq_some.1 hx
    rw [h.deletion row hrow other hother hu.symm] at hd
    simp [hd]

namespace UserRow.SameColumns

variable {a b : UserRow}

theorem isDeleted_eq (h : a.SameColumns b) : a.isDeleted = b.isDeleted :=
  congrArg Option.isSome h.deletedAt

theorem userRecord_eq (h : a.SameColumns b) (hu : a.uuid = b.uuid) (photos : Uuid → Photo)
    (f : Option Uuid) : userRecord photos a f = userRecord photos b f := by
  obtain ⟨h1, h2, h3, h4, h5, h6, -⟩ := h
  simp [userRecord, hu, h1, h2, h3, h4, h5, h6]

end UserRow.SameColumns

theorem agree_record_of_columns {t : List UserRow}
    (h : ∀ a ∈ t, ∀ b ∈ t, a.uuid = b.uuid → a.SameColumns b) (photos : Uuid → Photo) (u : Uuid) :
    Agree (tellsRecord photos · u) t := by
  intro a ha b hb x y hx hy
  obtain ⟨hau, rfl⟩ := Stamped.tells_eq_some.1 hx
  obtain ⟨hbu, rfl⟩ := Stamped.tells_eq_some.1 hy
  have hu : a.uuid = b.uuid := hau.trans hbu.symm
  have hsame := h a ha b hb hu
  rw [hsame.userRecord_eq hu]
  exact if_congr (by rw [hsame.isDeleted_eq]) rfl rfl

namespace UserTable

variable {photos : Uuid → Photo} {cold : Timestamp} {t : List UserRow}

theorem isDeleted_eq (h : UserTable cold t) {a b : UserRow} (ha : a ∈ t) (hb : b ∈ t)
    (hu : a.uuid = b.uuid) : a.isDeleted = b.isDeleted :=
  (h.columns a ha b hb hu).isDeleted_eq

theorem userRecord_eq (h : UserTable cold t) {a b : UserRow} (ha : a ∈ t) (hb : b ∈ t)
    (hu : a.uuid = b.uuid) (f : Option Uuid) : userRecord photos a f = userRecord photos b f :=
  (h.columns a ha b hb hu).userRecord_eq hu photos f

theorem agree_record (h : UserTable cold t) (u : Uuid) : Agree (tellsRecord photos · u) t :=
  agree_record_of_columns h.columns photos u

theorem userBatch (h : UserTable cold t) : UserBatch t where
  distinct := by
    have hpairs : memberships t =
        (t.map UserRow.membership).filterMap fun m => m.2.map fun f => (m.1, f) := by
      rw [List.filterMap_map]
      rfl
    rw [hpairs]
    refine h.distinct.filterMap fun m m' p hp hp' => ?_
    obtain ⟨f, hf, rfl⟩ := Option.map_eq_some_iff.1 hp
    obtain ⟨f', hf', heq⟩ := Option.map_eq_some_iff.1 hp'
    obtain ⟨hu, rfl⟩ := Prod.mk.inj heq
    exact Prod.ext hu.symm (hf.trans hf'.symm)
  deletion a ha b hb hu := h.isDeleted_eq ha hb hu

theorem agree_entry (h : UserTable cold t) (f u : Uuid) : Agree (tellsEntry photos · f u) t :=
  h.userBatch.agree_entry f u

end UserTable

/-! ### Addresses -/

namespace Indexes

variable {photos : Uuid → Photo} {row : UserRow} {batch : List UserRow} {ix : Indexes}

/-- An address leads to a user. -/
def Leads (ix : Indexes) (e : String) (u : Uuid) : Prop :=
  ∃ x : User, ix.usersByEmail[e]? = some x ∧ x.uuid = u

theorem Linked.leads_applyUser_self (h : Linked ix) (hd : row.isDeleted = false) :
    Leads (ix.applyUser photos row) row.email row.uuid := by
  refine ⟨userRecord photos row (ix.shownFederation row), ?_, rfl⟩
  rw [h.usersByEmail_applyUser, if_pos ⟨hd, rfl⟩]

/-- An address is lost only to another user who has it, or with a row of its own user. -/
theorem Linked.leads_applyUser (h : Linked ix) {e : String} {u : Uuid} (hl : Leads ix e u)
    (hown : row.uuid = u → row.isDeleted = false ∧ row.email = e)
    (hother : row.isDeleted = false → row.email = e → row.uuid = u) :
    Leads (ix.applyUser photos row) e u := by
  by_cases hu : row.uuid = u
  · obtain ⟨hd, rfl⟩ := hown hu
    exact hu ▸ h.leads_applyUser_self hd
  · obtain ⟨x, hx, rfl⟩ := hl
    refine ⟨x, ?_, rfl⟩
    rw [h.usersByEmail_applyUser, if_neg fun hc => hu (hother hc.1 hc.2), hx]
    simp [Option.filter, Ne.symm hu]

theorem Linked.leads_applyUsers (h : Linked ix) {e : String} {u : Uuid}
    (hown : ∀ row ∈ batch, row.uuid = u → row.isDeleted = false ∧ row.email = e)
    (hother : ∀ row ∈ batch, row.isDeleted = false → row.email = e → row.uuid = u)
    (hl : Leads ix e u ∨ ∃ row ∈ batch, row.uuid = u) :
    Leads (ix.applyUsers photos batch) e u := by
  have kept : ∀ {rows : List UserRow} {ix' : Indexes}, (∀ row ∈ rows, row ∈ batch) →
      Linked ix' → Leads ix' e u → Leads (ix'.applyUsers photos rows) e u := by
    intro rows ix' hsub hlinked hleads
    have hboth : Linked (ix'.applyUsers photos rows) ∧ Leads (ix'.applyUsers photos rows) e u := by
      refine inv_applyUsers (I := fun ix => Linked ix ∧ Leads ix e u) (fun row hrow s hs => ?_)
        ⟨hlinked, hleads⟩
      have hrow := hsub row hrow
      exact ⟨hs.1.applyUser, hs.1.leads_applyUser hs.2 (hown row hrow) (hother row hrow)⟩
    exact hboth.2
  rcases hl with hl | ⟨row, hrow, hu⟩
  · exact kept (fun _ hr => hr) h hl
  · -- from this row on the address leads to the user
    obtain ⟨before, after, hsplit⟩ := List.append_of_mem hrow
    obtain ⟨hd, he⟩ := hown row hrow hu
    have hbefore : Linked (ix.applyUsers photos before) := h.applyUsers
    have hself : Leads ((ix.applyUsers photos before).applyUser photos row) e u := by
      rw [← he, ← hu]
      exact hbefore.leads_applyUser_self hd
    rw [hsplit, applyUsers_append, applyUsers_cons]
    refine kept (fun r hr => ?_) hbefore.applyUser hself
    rw [hsplit]
    exact List.mem_append_right _ (List.mem_cons_of_mem _ hr)

end Indexes

/-! ### Mirroring -/

/-- Indexes that mirror a table of users, as a batch finds and leaves them. -/
structure Mirrored (photos : Uuid → Photo) (table : List UserRow) (ix : Indexes) : Prop where
  upheld : Upheld ix
  records : ∀ u, Reflects (tellsRecord photos · u) table (ix.recordAt u)
  entries : ∀ f u, Reflects (tellsEntry photos · f u) table (ix.entryAt f u)
  leads : ∀ (u : Uuid) (x : User), ix.usersByUuid[u]? = some x → Leads ix x.email u

namespace Mirrored

variable {photos : Uuid → Photo} {cold : Timestamp} {last seen batch : List UserRow} {ix : Indexes}

theorem nil : Mirrored photos [] .empty where
  upheld := upheld_empty
  records u := by
    simpa [recordAt, Indexes.empty] using reflects_nil (tellsRecord photos · u)
  entries f u := by
    simpa [entryAt, Indexes.empty] using reflects_nil (tellsEntry photos · f u)
  leads u x hx := by simp [Indexes.empty] at hx

theorem records_after (h : Mirrored photos last ix) (hlast : UserTable cold last)
    (hlater : (UserTable.rules cold).Later last seen) (hb : ∀ row ∈ batch, row ∈ seen)
    (hc : ∀ row ∈ seen, row ∈ last ∨ row ∈ batch) (u : Uuid) :
    Reflects (tellsRecord photos · u) seen ((ix.merge photos .users batch).state.recordAt u) := by
  have hfind : (ix.merge photos .users batch).state.recordAt u =
      (lastSaid (tellsRecord photos · u) batch).getD (ix.recordAt u) := recordAt_applyUsers u
  rw [hfind]
  refine (h.records u).after_batch (hlast.agree_record u)
    (UserTable.agree_record (hlater.sound hlast) u) hb hc ?_
  intro old hold x hx
  obtain ⟨hu, -, -⟩ := tellsRecord_eq_some hx
  obtain ⟨row, hrow, hrow'⟩ := UserTable.user_kept hlater old hold
  exact ⟨row, hrow, _, Stamped.tells_eq_some.2 ⟨hrow'.trans hu, rfl⟩⟩

theorem entries_after (h : Mirrored photos last ix) (hlast : UserTable cold last)
    (hlater : (UserTable.rules cold).Later last seen) (hb : ∀ row ∈ batch, row ∈ seen)
    (hc : ∀ row ∈ seen, row ∈ last ∨ row ∈ batch) (f u : Uuid) :
    Reflects (tellsEntry photos · f u) seen
      ((ix.merge photos .users batch).state.entryAt f u) := by
  rw [merge_users, entryAt_sortLists h.upheld.tidy.applyUsers, entryAt_applyUsers]
  refine (h.entries f u).after_batch (hlast.agree_entry f u)
    (UserTable.agree_entry (hlater.sound hlast) f u) hb hc ?_
  intro old hold x hx
  obtain ⟨hu, -, hf, -⟩ := tellsEntry_eq_some hx
  have hf : old.federation = some f := liveFederation_eq_some hf
  obtain ⟨row, hrow, hm⟩ := UserTable.membership_kept hlater old hold (by simp [hf])
  have hru : row.uuid = u := (congrArg Prod.fst hm).trans hu
  have hrf : row.federation = some f := (congrArg Prod.snd hm).trans hf
  refine ⟨row, hrow, ?_⟩
  by_cases hd : row.isDeleted <;> simp [tellsEntry, hru, hrf, hd]

/-- What a batch brings the indexes to that mirror the table seen last: they mirror the one that
the batch is from, if it has all rows that are new there. -/
theorem after_batch (h : Mirrored photos last ix) (hlast : UserTable cold last)
    (hlater : (UserTable.rules cold).Later last seen) (hread : (UserTable.rules cold).Readable seen)
    (hb : ∀ row ∈ batch, row ∈ seen) (hc : ∀ row ∈ seen, row ∈ last ∨ row ∈ batch) :
    Mirrored photos seen (ix.merge photos .users batch).state where
  upheld := h.upheld.merge
  records := h.records_after hlast hlater hb hc
  entries := h.entries_after hlast hlater hb hc
  leads u x hx := by
    have hseen : UserTable cold seen := hlater.sound hlast
    obtain ⟨row, hrow, hd, rfl, hrecord⟩ :=
      exists_row_of_record (h.records_after hlast hlater hb hc u) hx
    have he : x.email = row.email := by rw [hrecord]; rfl
    have hown : ∀ r ∈ batch, r.uuid = row.uuid → r.isDeleted = false ∧ r.email = row.email := by
      intro r hr hu
      exact ⟨(hseen.isDeleted_eq (hb r hr) hrow hu).trans hd,
        (hseen.columns r (hb r hr) row hrow hu).email⟩
    rw [he]
    refine h.upheld.linked.leads_applyUsers hown
      (fun r hr hrd hre => hread r (hb r hr) row hrow hrd hd hre) ?_
    by_cases hany : ∃ r ∈ batch, r.uuid = row.uuid
    · exact Or.inr hany
    · -- the user's rows were all there before, and so was the address
      left
      have hin : row ∈ last := (hc row hrow).resolve_right fun hr => hany ⟨row, hr, rfl⟩
      obtain ⟨f, hf⟩ := exists_record_of_row (h.records row.uuid) hin hd
      exact h.leads row.uuid _ hf

end Mirrored

variable {photos : Uuid → Photo} {now : Timestamp}

theorem mirrored_carried :
    Carried photos (UserTable.rules (coldStartMark now)) fun seen _ ix =>
      Mirrored photos seen ix where
  start := Mirrored.nil
  pull hlast hlater hread hcov h := by
    refine h.after_batch hlast hlater hread (fun row hrow => (Storage.mem_changedSince.1 hrow).1)
      fun row hrow => ?_
    exact (hcov row hrow).imp_right fun hs => Storage.mem_changedSince.2 ⟨hrow, hs⟩

/-- The indexes of users are those of a table: records and addresses are those of the live users,
and the list of a federation has one entry for each of them with a live membership in it. -/
structure MirrorsUsers (photos : Uuid → Photo) (table : List UserRow) (ix : Indexes) : Prop where
  known : ∀ u : Uuid, (∃ x : User, ix.usersByUuid[u]? = some x) ↔
    ∃ row ∈ table, row.deletedAt = none ∧ row.uuid = u
  columns : ∀ (u : Uuid) (x : User), ix.usersByUuid[u]? = some x → ∀ row ∈ table, row.uuid = u →
    x.Copies photos row
  shown : ∀ (u : Uuid) (x : User) (f : Uuid), ix.usersByUuid[u]? = some x → x.federation = some f →
    ∃ row ∈ table, row.uuid = u ∧ row.federation = some f ∧ row.membershipDeletedAt = none
  homeless : ∀ (u : Uuid) (x : User), ix.usersByUuid[u]? = some x → x.federation = none →
    ∀ row ∈ table, row.uuid = u → row.federation ≠ none → row.membershipDeletedAt ≠ none
  emails : ∀ (e : String) (x : User), ix.usersByEmail[e]? = some x ↔
    x.email = e ∧ ix.usersByUuid[x.uuid]? = some x
  entries : ∀ (f : Uuid) (x : User), x ∈ listAt ix.federationUsers f ↔
    x.federation = some f ∧ ∃ row ∈ table, row.deletedAt = none ∧ row.federation = some f ∧
      row.membershipDeletedAt = none ∧ x.Copies photos row
  once : ∀ f, ((listAt ix.federationUsers f).map User.uuid).Nodup
  sorted : ∀ f, (listAt ix.federationUsers f).Pairwise fun a b => b.lastName ≤ a.lastName
  nonempty : ∀ (f : Uuid) (l : List User), ix.federationUsers[f]? = some l → l ≠ []

namespace MirrorsUsers

variable {table : List UserRow} {ix : Indexes} {row : UserRow}

/-- The record of a user of one row, who is in the federation of that row if the membership is
live. -/
theorem record_of_one_row (h : MirrorsUsers photos table ix) (hrow : row ∈ table)
    (hd : row.deletedAt = none) (hone : ∀ other ∈ table, other.uuid = row.uuid → other = row) :
    ix.usersByUuid[row.uuid]? = some ⟨row.uuid, row.name, row.lastName, row.patronymic, row.email,
      row.phone, row.hasPhoto, if row.membershipDeletedAt = none then row.federation else none,
      photos row.uuid⟩ := by
  obtain ⟨x, hx⟩ := (h.known row.uuid).2 ⟨row, hrow, hd, rfl⟩
  have hfederation : x.federation =
      if row.membershipDeletedAt = none then row.federation else none := by
    cases hf : x.federation with
    | none =>
      have hhomeless := h.homeless row.uuid x hx hf row hrow rfl
      split
      · rename_i hm
        by_contra hmember
        exact hhomeless (Ne.symm hmember) hm
      · rfl
    | some f =>
      obtain ⟨other, hother, hu, hf', hm⟩ := h.shown row.uuid x f hx hf
      obtain rfl := hone other hother hu
      rw [if_pos hm, hf']
  rw [hx, (h.columns row.uuid x hx row hrow rfl).eq, hfederation]

theorem found_by_email {e : String} {u : Uuid} {x : User} (h : MirrorsUsers photos table ix)
    (hx : ix.usersByUuid[u]? = some x) (hu : x.uuid = u) (he : x.email = e) :
    ix.usersByEmail[e]? = some x :=
  (h.emails e x).2 ⟨he, hu ▸ hx⟩

end MirrorsUsers

namespace Mirrored

variable {cold : Timestamp} {table : List UserRow} {ix : Indexes}

theorem entry_iff (h : Mirrored photos table ix) {f : Uuid} {x : User} :
    x ∈ listAt ix.federationUsers f ↔ ∃ row ∈ table, row.isDeleted = false ∧
      row.liveFederation = some f ∧ x = userRecord photos row (some f) := by
  refine (h.upheld.tidy.mem_listAt.trans (h.entries f x.uuid x)).trans ?_
  refine exists_congr fun row => and_congr_right fun _ => ⟨fun ht => ?_, ?_⟩
  · obtain ⟨-, hd, hf, hx⟩ := tellsEntry_eq_some ht
    exact ⟨hd, hf, hx⟩
  · rintro ⟨hd, hf, rfl⟩
    simp [tellsEntry, userRecord, hd, hf, liveFederation_eq_some hf]

theorem mem_list_iff (h : Mirrored photos table ix) {f : Uuid} {x : User} :
    x ∈ listAt ix.federationUsers f ↔ x.federation = some f ∧ ∃ row ∈ table,
      row.deletedAt = none ∧ row.federation = some f ∧ row.membershipDeletedAt = none ∧
        x.Copies photos row := by
  rw [h.entry_iff]
  constructor
  · rintro ⟨row, hrow, hd, hlive, rfl⟩
    obtain ⟨hf, hm⟩ := UserRow.liveFederation_eq_some_iff.1 hlive
    exact ⟨rfl, row, hrow, Stamped.isDeleted_eq_false.1 hd, hf, hm, User.copies_iff.2 rfl⟩
  · rintro ⟨hx, row, hrow, hd, hf, hm, hcopies⟩
    refine ⟨row, hrow, Stamped.isDeleted_eq_false.2 hd,
      UserRow.liveFederation_eq_some_iff.2 ⟨hf, hm⟩, ?_⟩
    rw [← hx]
    exact User.copies_iff.1 hcopies

theorem mirrorsUsers (h : Mirrored photos table ix) (ht : UserTable cold table) :
    MirrorsUsers photos table ix := by
  have hlinked := h.upheld.linked
  refine ⟨fun u => ⟨?_, ?_⟩, fun u x hx row hrow hu => User.copies_iff.2 ?_,
    fun u x f hx hf => ?_, fun u x hx hf row hrow hu hmember hm => ?_,
    fun e x => ⟨hlinked.email e x, ?_⟩, fun f x => h.mem_list_iff, h.upheld.tidy.nodup,
    h.upheld.sorted, h.upheld.tidy.nonempty⟩
  · rintro ⟨x, hx⟩
    obtain ⟨row, hrow, hd, hu, -⟩ := exists_row_of_record (h.records u) hx
    exact ⟨row, hrow, Stamped.isDeleted_eq_false.1 hd, hu⟩
  · rintro ⟨row, hrow, hd, rfl⟩
    obtain ⟨f, hf⟩ := exists_record_of_row (h.records row.uuid) hrow
      (Stamped.isDeleted_eq_false.2 hd)
    exact ⟨_, hf⟩
  · obtain ⟨r, hr, -, hru, he⟩ := exists_row_of_record (h.records u) hx
    rw [ht.userRecord_eq hrow hr (hu.trans hru.symm)]
    exact he
  · obtain ⟨a, ha⟩ := Option.ne_none_iff_exists'.1 (hlinked.shown u x f hx hf)
    obtain ⟨row, hrow, htells⟩ := (h.entries f u a).1 ha
    obtain ⟨hu, -, hlive, -⟩ := tellsEntry_eq_some htells
    exact ⟨row, hrow, hu, UserRow.liveFederation_eq_some_iff.1 hlive⟩
  · obtain ⟨r, hr, hd, hru, -⟩ := exists_row_of_record (h.records u) hx
    have hlive : row.isDeleted = false := (ht.isDeleted_eq hrow hr (hu.trans hru.symm)).trans hd
    obtain ⟨f, hf'⟩ := Option.ne_none_iff_exists'.1 hmember
    have hmem : userRecord photos row (some f) ∈ listAt ix.federationUsers f :=
      h.entry_iff.2 ⟨row, hrow, hlive, UserRow.liveFederation_eq_some_iff.2 ⟨hf', hm⟩, rfl⟩
    have hnone := hlinked.homeless u x hx hf f
    exact absurd hu (entryAt_eq_none.1 hnone _ hmem)
  · rintro ⟨rfl, hx⟩
    obtain ⟨y, hy, hyu⟩ := h.leads x.uuid x hx
    obtain ⟨-, hr⟩ := hlinked.email x.email y hy
    rw [hyu, hx] at hr
    exact hy.trans hr.symm

end Mirrored

/-- After every successful pull of every run the indexes of users are those of the table as that
pull's read saw it. -/
theorem users_mirrored (photos : Uuid → Photo) (now : Timestamp) :
    AfterPull photos (UserTable.rules (coldStartMark now)) fun seen _ ix =>
      MirrorsUsers photos seen ix := by
  intro m seen batch hrun hp
  have htable := (sound_carried _).after_pull m seen batch hrun hp
  have hmirrored := mirrored_carried.after_pull m seen batch hrun hp
  exact hmirrored.mirrorsUsers htable

/-- A user of one federation at most, as it stands at some second. -/
def userAt (second : Int) (u : Uuid) (email : String) (federation : Option Uuid)
    (dropped : Option Timestamp) : UserRow :=
  ⟨⟨⟨second, 0⟩, none⟩, u, "name", "lname", "pname", email, 0, false, federation, dropped⟩

/-- The row of a user who has got a name, a number, a photo and another user's address. -/
def renamed : UserRow :=
  { userAt 1 ⟨1⟩ "a" (some ⟨7⟩) none with
    name := "new name", lastName := "new lname", patronymic := "new pname"
    phone := 5, hasPhoto := true }

/-- A user leaves a federation and hands an address over to another user, who joins it under a new
name. -/
theorem users_mirrored_handover :
    let photos : Uuid → Photo := fun u => ⟨"small", "medium", u.text⟩
    let gone : User := ⟨⟨0⟩, "name", "lname", "pname", "c", 0, false, none, photos ⟨0⟩⟩
    let joined : User :=
      ⟨⟨1⟩, "new name", "new lname", "new pname", "a", 5, true, some ⟨7⟩, photos ⟨1⟩⟩
    ∃ (m : Upkeep .users) (seen batch : List UserRow) (ix : Indexes),
      Run photos (UserTable.rules (coldStartMark ⟨0, 0⟩)) m ∧
      m.pull = .fetched seen (.rows batch) ∧
      ix = (m.absorbed photos (.rows batch)).cache.indexes ∧
      (∃ x : User, m.cache.indexes.usersByEmail["a"]? = some x ∧ x.uuid = ⟨0⟩) ∧
      ix.usersByUuid[(⟨0⟩ : Uuid)]? = some gone ∧ ix.usersByEmail["c"]? = some gone ∧
      ix.usersByUuid[(⟨1⟩ : Uuid)]? = some joined ∧ ix.usersByEmail["a"]? = some joined ∧
      (∃ x ∈ listAt m.cache.indexes.federationUsers ⟨7⟩, x.uuid = ⟨0⟩) ∧
      listAt ix.federationUsers ⟨7⟩ = [joined] := by
  intro photos gone joined
  let before := [userAt 0 ⟨0⟩ "a" (some ⟨7⟩) none, userAt 0 ⟨1⟩ "b" none none]
  let after := [userAt 1 ⟨0⟩ "c" (some ⟨7⟩) (some ⟨1, 0⟩), renamed]
  have hcold : coldStartMark ⟨0, 0⟩ ≤ ⟨0, 0⟩ := by decide
  have hlater : (⟨0, 0⟩ : Timestamp) ≤ ⟨1, 0⟩ := by decide
  let rules := UserTable.rules (coldStartMark ⟨0, 0⟩)
  have hbefore : UserTable (coldStartMark ⟨0, 0⟩) before :=
    UserTable.of_nodup_uuid (by decide) (by simpa [before, userAt] using hcold)
  have hafter : UserTable (coldStartMark ⟨0, 0⟩) after :=
    UserTable.of_nodup_uuid (by decide)
      (by simpa [after, renamed, userAt] using Std.le_trans hcold hlater)
  have hadd : rules.Writes [] before := ⟨hbefore, by simp, by simp⟩
  have halter : rules.Writes before after :=
    ⟨hafter, fun row hrow => Or.inr (by revert row; decide), fun old hold => by revert old; decide⟩
  have hreads : rules.Readable before := by
    intro a ha b hb
    revert a b
    decide
  have hreads' : rules.Readable after := by
    intro a ha b hb
    revert a b
    decide
  have hstart : Run photos rules (start ⟨0, 0⟩) := .start
  have hfirst := hstart.write_fetch hadd hreads
  have hsecond := (hfirst.step (.absorb rfl)).write_fetch halter hreads'
  have hold := users_mirrored photos ⟨0, 0⟩ _ _ _ hfirst rfl
  have hnew := users_mirrored photos ⟨0, 0⟩ _ _ _ hsecond rfl
  have hholder : userAt 0 ⟨0⟩ "a" (some ⟨7⟩) none ∈ before := List.mem_cons_self ..
  have hleaver : userAt 1 ⟨0⟩ "c" (some ⟨7⟩) (some ⟨1, 0⟩) ∈ after := List.mem_cons_self ..
  have hjoiner : renamed ∈ after := List.mem_cons_of_mem _ (List.mem_cons_self ..)
  have hthere := hold.record_of_one_row hholder rfl (by decide)
  have hgone := hnew.record_of_one_row hleaver rfl (by decide)
  have hjoined := hnew.record_of_one_row hjoiner rfl (by decide)
  refine ⟨_, _, _, _, hsecond, rfl, rfl, ⟨_, hold.found_by_email hthere rfl rfl, rfl⟩, hgone,
    hnew.found_by_email hgone rfl rfl, hjoined, hnew.found_by_email hjoined rfl rfl, ?_, ?_⟩
  · exact ⟨_, (hold.entries ⟨7⟩ _).2
      ⟨rfl, _, hholder, rfl, rfl, rfl, hold.columns _ _ hthere _ hholder rfl⟩, rfl⟩
  · refine List.perm_singleton.1 ((List.perm_ext_iff_of_nodup (.of_map User.uuid (hnew.once ⟨7⟩))
      (List.nodup_singleton _)).2 fun x => ?_)
    rw [List.mem_singleton]
    constructor
    · intro hx
      obtain ⟨hf, row, hrow, -, hf', hm, hcopies⟩ := (hnew.entries ⟨7⟩ x).1 hx
      have hleft : ∀ row ∈ after, row.federation = some ⟨7⟩ → row.membershipDeletedAt = none →
          row = renamed := by decide
      obtain rfl := hleft row hrow hf' hm
      rw [hcopies.eq, hf]
      rfl
    · rintro rfl
      exact (hnew.entries ⟨7⟩ _).2
        ⟨rfl, _, hjoiner, rfl, rfl, rfl, hnew.columns _ _ hjoined _ hjoiner rfl⟩

end RefCache
