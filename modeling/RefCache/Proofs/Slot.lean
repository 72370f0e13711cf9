import RefCache.Indexes.Merge

/-! One place in the indexes, and what the rows merged say of it. A row either says nothing of a
place or says what is found there from then on, so after a batch the last thing said holds. If the
rows of a table never contradict one another about a place, then a batch of them that leaves out
only rows already reflected there makes the place reflect the whole table. -/

namespace RefCache

variable {σ ρ α β : Type}

/-- The last thing that a batch says, if it says anything. -/
def lastSaid (tells : ρ → Option β) (batch : List ρ) : Option β := (batch.filterMap tells).getLast?

@[simp] theorem lastSaid_nil (tells : ρ → Option β) : lastSaid tells [] = none := rfl

theorem lastSaid_append (tells : ρ → Option β) (a b : List ρ) :
    lastSaid tells (a ++ b) = (lastSaid tells b).or (lastSaid tells a) := by
  simp [lastSaid, List.getLast?_append]

theorem lastSaid_singleton (tells : ρ → Option β) (row : ρ) : lastSaid tells [row] = tells row := by
  cases h : tells row <;> simp [lastSaid, h]

theorem lastSaid_eq_none {tells : ρ → Option β} {batch : List ρ} :
    lastSaid tells batch = none ↔ ∀ row ∈ batch, tells row = none := by
  simp [lastSaid]

theorem exists_of_lastSaid {tells : ρ → Option β} {batch : List ρ} {x : β}
    (h : lastSaid tells batch = some x) : ∃ row ∈ batch, tells row = some x :=
  List.mem_filterMap.1 (List.mem_of_getLast? h)

theorem exists_split_of_lastSaid {tells : ρ → Option β} {batch : List ρ} {x : β}
    (h : lastSaid tells batch = some x) : ∃ before row after,
      batch = before ++ row :: after ∧ tells row = some x ∧ ∀ r ∈ after, tells r = none := by
  induction batch with
  | nil => cases h
  | cons row batch ih =>
    rw [← List.singleton_append, lastSaid_append, lastSaid_singleton] at h
    cases hlater : lastSaid tells batch with
    | none =>
      rw [hlater, Option.none_or] at h
      exact ⟨[], row, batch, rfl, h, lastSaid_eq_none.1 hlater⟩
    | some y =>
      rw [hlater, Option.some_or] at h
      obtain ⟨before, last, after, rfl, hlast, hafter⟩ := ih (hlater.trans h)
      exact ⟨row :: before, last, after, rfl, hlast, hafter⟩

/-! ### Merging -/

namespace Merge

variable {stamp : ρ → Stamped} {apply : ρ → σ → Except Error σ}

theorem step_ok {m : Merge σ} {row : ρ} {s : σ} (h : apply row m.state = .ok s) :
    step stamp apply m row =
      ⟨s, m.applied + 1, later m.latest (stamp row).updatedAt, m.skipped⟩ := by
  simp [step, h]

theorem step_error {m : Merge σ} {row : ρ} {e : Error} (h : apply row m.state = .error e) :
    step stamp apply m row = { m with skipped := m.skipped ++ [e] } := by
  simp [step, h]

theorem inv_foldl {I : σ → Prop} (batch : List ρ)
    (kept : ∀ row ∈ batch, ∀ s s', apply row s = .ok s' → I s → I s') (m : Merge σ)
    (h : I m.state) : I (batch.foldl (step stamp apply) m).state := by
  induction batch generalizing m with
  | nil => exact h
  | cons row batch ih =>
    refine ih (fun r hr => kept r (List.mem_cons_of_mem _ hr)) _ ?_
    cases hr : apply row m.state with
    | ok s => rw [step_ok hr]; exact kept row (List.mem_cons_self ..) _ _ hr h
    | error e => rw [step_error hr]; exact h

/-- What every row that is applied keeps, a batch keeps. -/
theorem inv_rows {I : σ → Prop} (batch : List ρ)
    (kept : ∀ row ∈ batch, ∀ s s', apply row s = .ok s' → I s → I s') (s : σ) (h : I s) :
    I (rows stamp apply batch s).state :=
  inv_foldl batch kept (start s) h

theorem state_foldl (batch : List ρ) {m m' : Merge σ} (h : m.state = m'.state) :
    (batch.foldl (step stamp apply) m).state = (batch.foldl (step stamp apply) m').state := by
  induction batch generalizing m m' with
  | nil => exact h
  | cons row batch ih =>
    refine ih ?_
    cases hr : apply row m.state with
    | ok s => rw [step_ok hr, step_ok (h ▸ hr)]
    | error e => rw [step_error hr, step_error (h ▸ hr), h]

/-- Two batches, one after the other, do what the one made of both does. -/
theorem state_rows_append (batch batch' : List ρ) (s : σ) :
    (rows stamp apply (batch ++ batch') s).state =
      (rows stamp apply batch' (rows stamp apply batch s).state).state := by
  unfold rows
  rw [List.foldl_append]
  exact state_foldl batch' rfl

/-- If every row changes a view of the state by itself, then so does a batch, row by row. -/
theorem view_rows {f : σ → β} {edit : β → ρ → β}
    (applied : ∀ row s s', apply row s = .ok s' → f s' = edit (f s) row)
    (skipped : ∀ row s e, apply row s = .error e → edit (f s) row = f s) (batch : List ρ)
    (s : σ) : f (rows stamp apply batch s).state = batch.foldl edit (f s) := by
  have hfold : ∀ m : Merge σ,
      f (batch.foldl (step stamp apply) m).state = batch.foldl edit (f m.state) := by
    induction batch with
    | nil => exact fun m => rfl
    | cons row batch ih =>
      intro m
      rw [List.foldl_cons, List.foldl_cons, ih]
      cases hr : apply row m.state with
      | ok s => rw [step_ok hr, applied _ _ _ hr]
      | error e => rw [step_error hr, skipped _ _ _ hr]
  exact hfold (start s)

theorem find_foldl {find : σ → β} {tells : ρ → Option β}
    (applied : ∀ row s s', apply row s = .ok s' → find s' = (tells row).getD (find s))
    (skipped : ∀ row s e, apply row s = .error e → tells row = none) (batch : List ρ)
    (m : Merge σ) : find (batch.foldl (step stamp apply) m).state =
      (lastSaid tells batch).getD (find m.state) := by
  induction batch generalizing m with
  | nil => rfl
  | cons row batch ih =>
    rw [List.foldl_cons, ih, ← List.singleton_append, lastSaid_append, lastSaid_singleton]
    cases hr : apply row m.state with
    | ok s => rw [step_ok hr, applied _ _ _ hr]; cases lastSaid tells batch <;> rfl
    | error e => rw [step_error hr, skipped _ _ _ hr]; cases lastSaid tells batch <;> rfl

/-- After a batch a place holds the last thing said of it, or else what it held before. -/
theorem find_rows {find : σ → β} {tells : ρ → Option β}
    (applied : ∀ row s s', apply row s = .ok s' → find s' = (tells row).getD (find s))
    (skipped : ∀ row s e, apply row s = .error e → tells row = none) (batch : List ρ) (s : σ) :
    find (rows stamp apply batch s).state = (lastSaid tells batch).getD (find s) :=
  find_foldl applied skipped batch (start s)

/-- The rows of a batch that are applied, without those passed over. -/
def appliedRows (apply : ρ → σ → Except Error σ) : List ρ → σ → List ρ
  | [], _ => []
  | row :: batch, s =>
    match apply row s with
    | .ok s' => row :: appliedRows apply batch s'
    | .error _ => appliedRows apply batch s

theorem appliedRows_sublist (batch : List ρ) (s : σ) :
    (appliedRows apply batch s).Sublist batch := by
  induction batch generalizing s with
  | nil => exact .slnil
  | cons row batch ih =>
    unfold appliedRows
    split
    · exact (ih _).cons_cons row
    · exact (ih s).cons row

theorem appliedRows_eq_self (h : ∀ row s, ∃ s', apply row s = .ok s') (batch : List ρ) (s : σ) :
    appliedRows apply batch s = batch := by
  induction batch generalizing s with
  | nil => rfl
  | cons row batch ih =>
    obtain ⟨s', hs'⟩ := h row s
    simp only [appliedRows, hs', ih]

theorem applied_foldl (batch : List ρ) (m : Merge σ) :
    (batch.foldl (step stamp apply) m).applied =
      m.applied + (appliedRows apply batch m.state).length := by
  induction batch generalizing m with
  | nil => rfl
  | cons row batch ih =>
    rw [List.foldl_cons, ih, appliedRows]
    cases hr : apply row m.state with
    | ok s => simp only [step_ok hr, List.length_cons]; omega
    | error e => rw [step_error hr]

theorem latest_foldl (batch : List ρ) (m : Merge σ) :
    (batch.foldl (step stamp apply) m).latest =
      (m.latest.toList ++
        (appliedRows apply batch m.state).map fun row => (stamp row).updatedAt).max? := by
  induction batch generalizing m with
  | nil => cases hl : m.latest <;> simp [appliedRows, hl]
  | cons row batch ih =>
    rw [List.foldl_cons, ih, appliedRows]
    cases hr : apply row m.state with
    | ok s => rw [step_ok hr]; cases m.latest <;> rfl
    | error e => rw [step_error hr]

/-- A batch counts the rows that it applies. -/
theorem applied_rows (batch : List ρ) (s : σ) :
    (rows stamp apply batch s).applied = (appliedRows apply batch s).length :=
  (applied_foldl batch (start s)).trans (Nat.zero_add _)

/-- The latest stamp is that of the rows applied. -/
theorem latest_rows (batch : List ρ) (s : σ) :
    (rows stamp apply batch s).latest =
      ((appliedRows apply batch s).map fun row => (stamp row).updatedAt).max? :=
  latest_foldl batch (start s)

end Merge

/-! ### Reflecting a table -/

/-- What is found is what some row of the table says is found. -/
def Reflects (tells : ρ → Option (Option α)) (table : List ρ) (found : Option α) : Prop :=
  ∀ x, found = some x ↔ ∃ row ∈ table, tells row = some (some x)

/-- No two rows of the table contradict one another. -/
def Agree (tells : ρ → Option β) (table : List ρ) : Prop :=
  ∀ a ∈ table, ∀ b ∈ table, ∀ x y, tells a = some x → tells b = some y → x = y

/-- Rows that do not contradict one another say the same in any order. -/
theorem Agree.lastSaid_perm {tells : ρ → Option β} {batch batch' : List ρ}
    (h : Agree tells batch) (hp : batch.Perm batch') :
    lastSaid tells batch = lastSaid tells batch' := by
  cases hsaid : lastSaid tells batch with
  | none =>
    rw [lastSaid_eq_none] at hsaid
    exact (lastSaid_eq_none.2 fun row hrow => hsaid row (hp.mem_iff.2 hrow)).symm
  | some x =>
    obtain ⟨row, hrow, hx⟩ := exists_of_lastSaid hsaid
    cases hsaid' : lastSaid tells batch' with
    | none => exact nomatch hx.symm.trans (lastSaid_eq_none.1 hsaid' row (hp.mem_iff.1 hrow))
    | some y =>
      obtain ⟨row', hrow', hy⟩ := exists_of_lastSaid hsaid'
      rw [h row hrow row' (hp.mem_iff.2 hrow') x y hx hy]

theorem reflects_nil (tells : ρ → Option (Option α)) : Reflects tells [] none := by
  simp [Reflects]

/-- Rows that say something is found at a place go on speaking of it, and a batch of the table
seen holds every row that was not there when the place was last right: then it is right again. -/
theorem Reflects.after_batch {tells : ρ → Option (Option α)} {last seen batch : List ρ}
    {found : Option α} (hr : Reflects tells last found) (hl : Agree tells last)
    (hs : Agree tells seen) (hb : ∀ row ∈ batch, row ∈ seen)
    (hc : ∀ row ∈ seen, row ∈ last ∨ row ∈ batch)
    (hk : ∀ row ∈ last, ∀ x, tells row = some (some x) → ∃ row' ∈ seen, ∃ y, tells row' = some y) :
    Reflects tells seen ((lastSaid tells batch).getD found) := by
  intro x
  cases hsaid : lastSaid tells batch with
  | some y =>
    obtain ⟨row, hrow, hy⟩ := exists_of_lastSaid hsaid
    constructor
    · intro h
      have h : y = some x := h
      exact ⟨row, hb row hrow, h ▸ hy⟩
    · rintro ⟨row', hrow', hx⟩
      exact hs row (hb row hrow) row' hrow' y (some x) hy hx
  | none =>
    -- the batch is silent here, so a row of `seen` that speaks was there before
    have hsilent := lastSaid_eq_none.1 hsaid
    have hold : ∀ row ∈ seen, ∀ y, tells row = some y → row ∈ last := by
      intro row hrow y hy
      refine (hc row hrow).resolve_right fun h => ?_
      simp [hsilent row h] at hy
    constructor
    · intro h
      obtain ⟨row, hrow, hx⟩ := (hr x).1 h
      obtain ⟨row', hrow', y, hy⟩ := hk row hrow x hx
      obtain rfl := hl row hrow row' (hold row' hrow' y hy) _ _ hx hy
      exact ⟨row', hrow', hy⟩
    · rintro ⟨row, hrow, hx⟩
      exact (hr x).2 ⟨row, hold row hrow _ hx, hx⟩

end RefCache
