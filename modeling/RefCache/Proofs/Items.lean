import RefCache.Indexes.Basic
import Mathlib.Data.List.Nodup

/-! Lists kept under owners, read two ways: the list of an owner, and the entry of that list under
a key. An upsert and a removal each change one entry and no other, and keep every list non-empty
and free of repeated keys, so that the entries say all there is to say but their order. -/

namespace RefCache.Indexes

variable {α κ : Type} [DecidableEq κ]

/-- An owner's list, empty if it has none. -/
def listAt (index : Index (List α)) (owner : Uuid) : List α := index[owner]?.getD []

/-- The entry under a key of an owner's list. -/
def itemAt (key : α → κ) (index : Index (List α)) (owner : Uuid) (k : κ) : Option α :=
  (listAt index owner).find? (key · == k)

structure Tidy (key : α → κ) (index : Index (List α)) : Prop where
  nonempty : ∀ (o : Uuid) (l : List α), index[o]? = some l → l ≠ []
  nodup : ∀ o, ((listAt index o).map key).Nodup

@[simp] theorem listAt_empty (o : Uuid) : listAt (∅ : Index (List α)) o = [] := by simp [listAt]

@[simp] theorem itemAt_empty (key : α → κ) (o : Uuid) (k : κ) :
    itemAt key (∅ : Index (List α)) o k = none := by
  simp [itemAt]

omit [DecidableEq κ] in
theorem tidy_empty (key : α → κ) : Tidy key (∅ : Index (List α)) :=
  ⟨by simp, by simp⟩

theorem listAt_eq_nil_iff {index : Index (List α)} {o : Uuid} (h : index[o]? ≠ some []) :
    listAt index o = [] ↔ index[o]? = none := by
  cases hl : index[o]? with
  | none => simp [listAt, hl]
  | some l => simpa [listAt, hl] using h

theorem getD_kept (l : List α) : (kept l).getD [] = l := by
  cases l <;> simp [kept]

theorem kept_eq_some {l l' : List α} : kept l = some l' ↔ l = l' ∧ l ≠ [] := by
  cases l <;> simp [kept]

/-! ### Lists without repeated keys -/

theorem find?_key_eq_some {key : α → κ} {l : List α} (h : (l.map key).Nodup) {k : κ} {a : α} :
    l.find? (key · == k) = some a ↔ a ∈ l ∧ key a = k := by
  induction l with
  | nil => simp
  | cons b l ih =>
    rw [List.map_cons, List.nodup_cons] at h
    by_cases hb : key b = k
    · have hl : ∀ a ∈ l, key a ≠ k := fun a ha hk =>
        h.1 (List.mem_map.2 ⟨a, ha, hk.trans hb.symm⟩)
      simp only [List.find?_cons, hb, beq_self_eq_true, Option.some.injEq, List.mem_cons]
      constructor
      · rintro rfl
        exact ⟨Or.inl rfl, hb⟩
      · rintro ⟨rfl | ha, hk⟩
        · rfl
        · exact absurd hk (hl a ha)
    · have : (key b == k) = false := by simpa using hb
      rw [List.find?_cons, this, ih h.2, List.mem_cons]
      constructor
      · exact fun ⟨ha, hk⟩ => ⟨Or.inr ha, hk⟩
      · rintro ⟨rfl | ha, hk⟩
        · exact absurd hk hb
        · exact ⟨ha, hk⟩

/-- Without the items under one key, the others are found as before. -/
theorem find?_filter_key (key : α → κ) (gone k : κ) (l : List α) :
    (l.filter fun a => !(key a == gone)).find? (key · == k) =
      if gone = k then none else l.find? (key · == k) := by
  by_cases hk : gone = k
  · subst hk
    simp [List.find?_filter]
  · have hs : (fun a => decide ((!(key a == gone)) = true ∧ (key a == k) = true)) =
        (key · == k) := by
      funext a
      by_cases ha : key a = k <;> simp [ha, Ne.symm hk]
    rw [List.find?_filter, hs, if_neg hk]

/-- The entries of a tidy list are what is found under their own keys. -/
theorem Tidy.itemAt_eq_some {key : α → κ} {index : Index (List α)} (h : Tidy key index) {o : Uuid}
    {k : κ} {a : α} : itemAt key index o k = some a ↔ a ∈ listAt index o ∧ key a = k :=
  find?_key_eq_some (h.nodup o)

theorem Tidy.mem_listAt {key : α → κ} {index : Index (List α)} (h : Tidy key index) {o : Uuid}
    {a : α} : a ∈ listAt index o ↔ itemAt key index o (key a) = some a := by
  simp [h.itemAt_eq_some]

/-- Tidy lists that show the same under every key have the same entries. -/
theorem Tidy.perm_listAt {key : α → κ} {index index' : Index (List α)} (h : Tidy key index)
    (h' : Tidy key index') {o : Uuid} (hsame : ∀ k, itemAt key index o k = itemAt key index' o k) :
    (listAt index o).Perm (listAt index' o) := by
  refine (List.perm_ext_iff_of_nodup (.of_map key (h.nodup o)) (.of_map key (h'.nodup o))).2 ?_
  intro a
  rw [h.mem_listAt, h'.mem_listAt, hsame]

/-! ### Putting in and dropping from -/

theorem listAt_putIn (key : α → κ) (o : Uuid) (item : α) (index : Index (List α)) (o' : Uuid) :
    listAt (putIn key o item index) o' =
      if o = o' then upsertBy key item (listAt index o) else listAt index o' := by
  unfold listAt putIn
  rw [Std.ExtTreeMap.getElem?_alter]
  by_cases h : o = o' <;> simp [h]

theorem listAt_dropFrom (o : Uuid) (gone : α → Bool) (index : Index (List α)) (o' : Uuid) :
    listAt (dropFrom o gone index) o' =
      if o = o' then (listAt index o).filter (!gone ·) else listAt index o' := by
  unfold listAt dropFrom
  rw [Std.ExtTreeMap.getElem?_alter]
  by_cases h : o = o'
  · subst h
    cases index[o]? <;> simp [getD_kept]
  · simp [h]

theorem itemAt_putIn (key : α → κ) (o : Uuid) (item : α) (index : Index (List α)) (o' : Uuid)
    (k : κ) :
    itemAt key (putIn key o item index) o' k =
      if o = o' ∧ key item = k then some item else itemAt key index o' k := by
  unfold itemAt
  rw [listAt_putIn]
  by_cases h : o = o'
  · subst h
    simp [find?_upsertBy]
  · simp [h]

theorem itemAt_dropFrom (key : α → κ) (o : Uuid) (gone : κ) (index : Index (List α)) (o' : Uuid)
    (k : κ) :
    itemAt key (dropFrom o (key · == gone) index) o' k =
      if o = o' ∧ gone = k then none else itemAt key index o' k := by
  unfold itemAt
  rw [listAt_dropFrom]
  by_cases h : o = o'
  · rw [if_pos h, find?_filter_key]
    simp [h]
  · simp [h]

theorem nodup_upsertBy {key : α → κ} {l : List α} (item : α) (h : (l.map key).Nodup) :
    ((upsertBy key item l).map key).Nodup := by
  rw [map_upsertBy]
  split
  · exact h
  · rename_i hm
    refine List.nodup_append.2 ⟨h, by simp, fun a ha b hb hab => hm ?_⟩
    rw [List.mem_singleton] at hb
    rwa [← hb, ← hab]

theorem upsertBy_ne_nil (key : α → κ) (item : α) (l : List α) : upsertBy key item l ≠ [] := by
  cases l with
  | nil => simp [upsertBy]
  | cons a l => by_cases h : key a = key item <;> simp [upsertBy, h]

theorem Tidy.putIn {key : α → κ} {index : Index (List α)} (h : Tidy key index) (o : Uuid)
    (item : α) : Tidy key (putIn key o item index) := by
  refine ⟨fun o' l hl => ?_, fun o' => ?_⟩
  · rw [Indexes.putIn, Std.ExtTreeMap.getElem?_alter] at hl
    split at hl
    · obtain rfl := Option.some.inj hl
      exact upsertBy_ne_nil key item _
    · exact h.nonempty o' l hl
  · rw [listAt_putIn]
    split
    · exact nodup_upsertBy item (h.nodup o)
    · exact h.nodup o'

omit [DecidableEq κ] in
theorem Tidy.dropFrom {key : α → κ} {index : Index (List α)} (h : Tidy key index) (o : Uuid)
    (gone : α → Bool) : Tidy key (dropFrom o gone index) := by
  refine ⟨fun o' l hl => ?_, fun o' => ?_⟩
  · rw [Indexes.dropFrom, Std.ExtTreeMap.getElem?_alter] at hl
    split at hl
    · obtain ⟨l₀, -, hk⟩ := Option.bind_eq_some_iff.1 hl
      obtain ⟨rfl, hne⟩ := kept_eq_some.1 hk
      exact hne
    · exact h.nonempty o' l hl
  · rw [listAt_dropFrom]
    split
    · exact (h.nodup o).sublist (List.filter_sublist.map key)
    · exact h.nodup o'

/-! ### Dropping from every list -/

theorem listAt_filterMap (gone : α → Bool) (index : Index (List α)) (o : Uuid) :
    listAt (index.filterMap fun _ l => kept (l.filter (!gone ·))) o =
      (listAt index o).filter (!gone ·) := by
  unfold listAt
  rw [Std.ExtTreeMap.getElem?_filterMap']
  cases index[o]? <;> simp [getD_kept]

theorem itemAt_filterMap (key : α → κ) (gone : κ) (index : Index (List α)) (o : Uuid) (k : κ) :
    itemAt key (index.filterMap fun _ l => kept (l.filter fun a => !(key a == gone))) o k =
      if gone = k then none else itemAt key index o k := by
  unfold itemAt
  rw [listAt_filterMap, find?_filter_key]

omit [DecidableEq κ] in
theorem Tidy.filterMap {key : α → κ} {index : Index (List α)} (h : Tidy key index)
    (gone : α → Bool) : Tidy key (index.filterMap fun _ l => kept (l.filter (!gone ·))) := by
  refine ⟨fun o l hl => ?_, fun o => ?_⟩
  · rw [Std.ExtTreeMap.getElem?_filterMap'] at hl
    obtain ⟨l₀, -, hk⟩ := Option.bind_eq_some_iff.1 hl
    obtain ⟨rfl, hne⟩ := kept_eq_some.1 hk
    exact hne
  · rw [listAt_filterMap]
    exact (h.nodup o).sublist (List.filter_sublist.map key)

/-! ### Links -/

/-- A link is an entry that is its own key. -/
theorem link_eq_putIn (o target : Uuid) (index : Index (List Uuid)) :
    link o target index = putIn id o target index := by
  have h : ∀ l : List Uuid,
      upsertBy id target l = if l.contains target then l else l ++ [target] := by
    intro l
    induction l with
    | nil => simp [upsertBy]
    | cons a l ih =>
      by_cases ha : a = target
      · simp [upsertBy, ha]
      · by_cases hl : target ∈ l <;> simp_all [upsertBy, Ne.symm ha]
  simp [link, putIn, h]

end RefCache.Indexes
