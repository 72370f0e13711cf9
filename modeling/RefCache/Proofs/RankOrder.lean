import RefCache.Proofs.Ranking

/-! The ranking told without its loop and its sort. The users admitted are the first of those who
earn points for every token, and ranking puts them from the most points down, with equal users in
the order in which they stood. No other list is ordered so (`eq_of_filter_key_eq`), so this is all
there is to say of a ranking. -/

namespace RefCache

/-- Lists that go down by their keys are equal if they have the same items, in the same order, under
each key. -/
theorem eq_of_filter_key_eq {α κ : Type} [DecidableEq κ] (key : α → κ) {R : κ → κ → Prop}
    (antisymm : ∀ j k, R j k → R k j → j = k) {l l' : List α}
    (hl : l.Pairwise fun a b => R (key a) (key b)) (hl' : l'.Pairwise fun a b => R (key a) (key b))
    (h : ∀ k, l.filter (key · = k) = l'.filter (key · = k)) : l = l' := by
  have mem_iff : ∀ a, a ∈ l ↔ a ∈ l' := by
    intro a
    have hiff : a ∈ l.filter (key · = key a) ↔ a ∈ l'.filter (key · = key a) := by rw [h]
    simpa using hiff
  induction l generalizing l' with
  | nil =>
    cases l' with
    | nil => rfl
    | cons b l' => simpa using mem_iff b
  | cons a l ih =>
    cases l' with
    | nil => simpa using mem_iff a
    | cons b l' =>
      rw [List.pairwise_cons] at hl hl'
      -- each head is an item of the other list, and so has the greater key of the two
      have hkey : key a = key b := by
        rcases List.mem_cons.1 ((mem_iff a).1 (List.mem_cons_self ..)) with rfl | ha
        · rfl
        rcases List.mem_cons.1 ((mem_iff b).2 (List.mem_cons_self ..)) with rfl | hb
        · rfl
        exact antisymm _ _ (hl.1 b hb) (hl'.1 a ha)
      have hhead : a = b := by
        have hfilter := h (key a)
        rw [List.filter_cons_of_pos (by simp), List.filter_cons_of_pos (by simp [hkey])] at hfilter
        exact (List.cons.inj hfilter).1
      subst hhead
      have htail : ∀ k, l.filter (key · = k) = l'.filter (key · = k) := by
        intro k
        have hfilter := h k
        by_cases hk : key a = k
        · rw [List.filter_cons_of_pos (by simpa), List.filter_cons_of_pos (by simpa)] at hfilter
          exact (List.cons.inj hfilter).2
        · rwa [List.filter_cons_of_neg (by simpa), List.filter_cons_of_neg (by simpa)] at hfilter
      refine congrArg _ (ih hl.2 hl'.2 htail fun x => ?_)
      have hiff : x ∈ l.filter (key · = key x) ↔ x ∈ l'.filter (key · = key x) := by rw [htail]
      simpa using hiff

namespace Search

variable {tokens : List (List Char)} {limit : Nat} {users ranked : List User} {query : String}

/-! ### Who is admitted -/

/-- The first user earns points for every token, and so does the second one, but no more. -/
def NoWorse (tokens : List (List Char)) (a b : User) : Prop :=
  ∃ m n, score a tokens = some m ∧ score b tokens = some n ∧ n ≤ m

/-- The users found from the most points down, with equal ones in the order of the list. -/
structure RankedFrom (tokens : List (List Char)) (found ranked : List User) : Prop where
  perm : ranked.Perm found
  down : ranked.Pairwise (NoWorse tokens)
  stable : ∀ points, ranked.filter (score · tokens = some points) =
    found.filter (score · tokens = some points)

theorem RankedFrom.eq {found ranked' : List User} (h : RankedFrom tokens found ranked)
    (h' : RankedFrom tokens found ranked') (hfound : ∀ u ∈ found, (score u tokens).isSome) :
    ranked = ranked' := by
  refine eq_of_filter_key_eq (score · tokens)
    (R := fun j k => ∃ m n, j = some m ∧ k = some n ∧ n ≤ m) ?_ h.down h'.down fun k => ?_
  · rintro _ _ ⟨m, n, rfl, rfl, hle⟩ ⟨_, _, ⟨⟩, ⟨⟩, hge⟩
    rw [Int.le_antisymm hge hle]
  · cases k with
    | some points => rw [h.stable, h'.stable]
    | none =>
      have hnone : ∀ l : List User, l.Perm found → l.filter (score · tokens = none) = [] := by
        intro l hl
        refine List.filter_eq_nil_iff.2 fun u hu => ?_
        simpa using Option.isSome_iff_ne_none.1 (hfound u (hl.mem_iff.1 hu))
      rw [hnone ranked h.perm, hnone ranked' h'.perm]

end Search

end RefCache
