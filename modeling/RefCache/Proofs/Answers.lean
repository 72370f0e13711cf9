import RefCache.Query
import RefCache.Proofs.Arrivals

/-! Answers to queries. An index that holds nothing answers like any other, so a single lookup
answers what stands in its index. A bulk lookup takes each address at its first occurrence; since
every user stands under their own address, the addresses read off the users found are those of the
request, and both lists are what single lookups answer. -/

namespace RefCache

/-! ### First occurrences -/

section FirstOccurrences

variable {α : Type} [BEq α]

theorem eraseDups_sublist (as : List α) : as.eraseDups.Sublist as := by
  match as with
  | [] => exact .slnil
  | a :: as =>
    rw [List.eraseDups_cons]
    exact ((eraseDups_sublist _).trans List.filter_sublist).cons_cons a
termination_by as.length
decreasing_by exact Nat.lt_succ_of_le (List.length_filter_le _ _)

theorem nodup_eraseDups [LawfulBEq α] (as : List α) : as.eraseDups.Nodup := by
  match as with
  | [] => exact .nil
  | a :: as =>
    rw [List.eraseDups_cons, List.nodup_cons, List.mem_eraseDups]
    exact ⟨by simp, nodup_eraseDups _⟩
termination_by as.length
decreasing_by exact Nat.lt_succ_of_le (List.length_filter_le _ _)

end FirstOccurrences

namespace Cache

variable {cache : Cache}

/-! ### Single lookups -/

/-- An index that holds nothing answers like any other if what is missing is what it lacks. -/
theorem consult_value {κ α β : Type} [Ord κ] [Std.TransOrd κ] {index : Std.ExtTreeMap κ α}
    {missing : β} {answer : Std.ExtTreeMap κ α → β} (name op : String)
    (h : index = ∅ → answer index = missing) :
    (consult name op index missing answer).value = answer index := by
  unfold consult
  split
  · rename_i hempty
    exact (h (Std.ExtTreeMap.isEmpty_iff.1 hempty)).symm
  · rfl

theorem findUser_value (cache : Cache) (email : String) :
    (cache.findUser email).value = cache.indexes.usersByEmail[email]? :=
  consult_value _ _ fun hempty => by simp [hempty]

theorem findProject_value (cache : Cache) (uuid : Uuid) :
    (cache.findProject uuid).value = cache.indexes.projects[uuid]? :=
  consult_value _ _ fun hempty => by simp [hempty]

/-! ### Bulk lookups -/

/-- The addresses asked for: each once, where it stands first, and no empty one. -/
def requested (emails : List String) : List String := (emails.filter (!·.isEmpty)).eraseDups

/-- The addresses asked for that were not seen before. -/
def unseen (seen emails : List String) : List String :=
  (emails.filter fun e => !(e.isEmpty || seen.contains e)).eraseDups

theorem unseen_nil (emails : List String) : unseen [] emails = requested emails := by
  simp [unseen, requested]

theorem unseen_cons_of_passed {seen : List String} {email : String}
    (h : email.isEmpty || seen.contains email) (rest : List String) :
    unseen seen (email :: rest) = unseen seen rest := by
  simp only [unseen, List.filter_cons, h, Bool.not_true, Bool.false_eq_true, if_false]

theorem unseen_cons_of_new {seen : List String} {email : String}
    (h : ¬(email.isEmpty || seen.contains email)) (rest : List String) :
    unseen seen (email :: rest) = email :: unseen (email :: seen) rest := by
  simp only [unseen, List.filter_cons, h, Bool.not_false, if_true, List.eraseDups_cons,
    List.filter_filter]
  congr 2
  refine List.filter_congr fun e _ => ?_
  rw [List.contains_cons]
  cases e == email <;> cases e.isEmpty <;> cases seen.contains e <;> rfl

/-- The loop finds the users of the addresses that it has not seen, in their order. -/
theorem lookUp_value (users : Std.ExtTreeMap String User) (seen emails : List String) :
    (lookUp users seen emails).value = (unseen seen emails).filterMap (users[·]?) := by
  induction emails generalizing seen with
  | nil => rfl
  | cons email rest ih =>
    rw [lookUp]
    by_cases hpassed : email.isEmpty || seen.contains email
    · rw [if_pos hpassed, unseen_cons_of_passed hpassed, ih]
    · rw [if_neg hpassed, unseen_cons_of_new hpassed, List.filterMap_cons]
      cases users[email]? with
      | none => exact ih _
      | some u => exact congrArg (u :: ·) (ih _)

theorem findUsers_value (cache : Cache) (emails : List String) :
    (cache.findUsers emails).value =
      ((requested emails).filterMap (cache.indexes.usersByEmail[·]?),
        ((requested emails).filterMap (cache.indexes.usersByEmail[·]?)).map (·.email)) := by
  unfold findUsers
  split
  · rename_i hempty
    simp [Std.ExtTreeMap.isEmpty_iff.1 hempty]
  · simp only [lookUp_value, unseen_nil]

/-- A bulk lookup against the single lookups of the same cache. -/
structure LookupsAgree (cache : Cache) (emails : List String) : Prop where
  keys : (cache.findUsers emails).value.2 =
    (requested emails).filter fun e => (cache.findUser e).value.isSome
  sublist : (cache.findUsers emails).value.2.Sublist emails
  nodup : (cache.findUsers emails).value.2.Nodup
  length : (cache.findUsers emails).value.1.length = (cache.findUsers emails).value.2.length
  user : ∀ i : Nat, (cache.findUsers emails).value.1[i]? =
    (cache.findUsers emails).value.2[i]?.bind fun e => (cache.findUser e).value
  email : ∀ i : Nat, (cache.findUsers emails).value.1[i]?.map User.email =
    (cache.findUsers emails).value.2[i]?

/-- Every user stands under their own address. -/
def OwnAddresses (users : Std.ExtTreeMap String User) : Prop :=
  ∀ (e : String) (x : User), users[e]? = some x → x.email = e

/-- Then the addresses of the users found are those that were looked up and led to someone. -/
theorem OwnAddresses.map_email_filterMap {users : Std.ExtTreeMap String User}
    (h : OwnAddresses users) (emails : List String) :
    (emails.filterMap (users[·]?)).map User.email = emails.filter (users[·]?.isSome) := by
  induction emails with
  | nil => rfl
  | cons e emails ih =>
    rw [List.filterMap_cons, List.filter_cons]
    cases hx : users[e]? with
    | none => exact ih
    | some x => simp [ih, h e x hx]

theorem OwnAddresses.lookupsAgree (h : OwnAddresses cache.indexes.usersByEmail)
    (emails : List String) : cache.LookupsAgree emails := by
  have hkeys : (cache.findUsers emails).value.2 =
      (requested emails).filter fun e => (cache.findUser e).value.isSome := by
    simp only [findUsers_value, findUser_value]
    exact h.map_email_filterMap _
  have hrequested : (requested emails).Sublist emails :=
    (eraseDups_sublist _).trans List.filter_sublist
  refine ⟨hkeys, ?_, ?_, ?_, fun i => ?_, fun i => ?_⟩
  · rw [hkeys]
    exact List.filter_sublist.trans hrequested
  · rw [hkeys]
    exact (nodup_eraseDups _).filter _
  · rw [findUsers_value, List.length_map]
  · simp only [findUsers_value, findUser_value, List.getElem?_map]
    cases hx : ((requested emails).filterMap (cache.indexes.usersByEmail[·]?))[i]? with
    | none => rfl
    | some x =>
      obtain ⟨e, -, he⟩ := List.mem_filterMap.1 (List.mem_of_getElem? hx)
      have hself : cache.indexes.usersByEmail[x.email]? = some x := by rw [h e x he, he]
      exact hself.symm
  · rw [findUsers_value, List.getElem?_map]

end Cache

/-- After any batches a bulk lookup finds, for the first occurrences of the addresses in the
request, whom a single lookup finds, together with those addresses. -/
theorem bulk_lookup_agrees (photos : Uuid → Photo) (now : Timestamp) (batches : List Batch)
    (emails : List String) : (Cache.ofBatches photos now batches).LookupsAgree emails := by
  refine Cache.OwnAddresses.lookupsAgree (fun e x hx => ?_) emails
  rw [Cache.indexes_ofBatches] at hx
  exact ((Indexes.upheld_afterBatches photos batches).linked.email e x hx).1

/-- An address that has passed from one user to another leads to the other one. -/
example :
    let row (u : BitVec 128) (email : String) : UserRow :=
      { (default : UserRow) with uuid := ⟨u⟩, email := email }
    let cache := Cache.ofBatches (fun _ => default) ⟨0, 0⟩
      [⟨.users, [row 1 "a", row 2 "b"]⟩, ⟨.users, [row 1 "c", row 2 "a"]⟩]
    let found := (cache.findUsers ["a", "", "c", "a", "b"]).value
    found.1.map User.uuid = [⟨2⟩, ⟨1⟩] ∧ found.2 = ["a", "c"] := by
  decide +kernel

end RefCache
