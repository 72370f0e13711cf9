import RefCache.Proofs.Place
import Mathlib.Data.List.Basic
import Mathlib.Data.List.Induction

/-! The order of a list, told by its keys alone. A live row puts its key at the end of its owner's
list unless the key is there, and a deleted row drops it, so the keys after a batch follow from the
keys before it. A batch that is played once more leaves the keys that it never drops where they
are; the keys that it drops and puts again end up behind them, in the order in which the batch put
them (`play_play`). -/

namespace RefCache

/-- Moving the items that have a property behind the others changes nothing, if and only if no
other item stands behind one of them. -/
theorem filter_append_filter_eq_self {α : Type} {p : α → Bool} {l : List α} :
    l.filter (!p ·) ++ l.filter p = l ↔ l.Pairwise fun x y => p x → p y := by
  constructor
  · intro h
    rw [← h, List.pairwise_append]
    have hlast : ∀ y ∈ l.filter p, p y := fun y hy => (List.mem_filter.1 hy).2
    refine ⟨?_, ?_, fun x _ y hy _ => hlast y hy⟩
    · refine List.pairwise_of_forall_mem_list fun x hx y _ hpx => ?_
      simp [hpx] at hx
    · exact List.pairwise_of_forall_mem_list fun x _ y hy _ => hlast y hy
  · intro h
    induction l with
    | nil => rfl
    | cons x l ih =>
      rw [List.pairwise_cons] at h
      by_cases hx : p x
      · have hall : ∀ y ∈ l, p y := fun y hy => h.1 y hy hx
        have hnone : l.filter (!p ·) = [] :=
          List.filter_eq_nil_iff.2 fun y hy => by simp [hall y hy]
        have hsame : l.filter p = l := List.filter_eq_self.2 hall
        simp [hx, hnone, hsame]
      · simp only [List.filter_cons, hx, Bool.not_false, if_true, Bool.false_eq_true, if_false,
          List.cons_append, ih h.2]

/-- What a row does to the keys of a list. -/
inductive KeyEdit (κ : Type) where
  | put (k : κ)
  | drop (k : κ)

namespace KeyEdit

variable {κ : Type} [DecidableEq κ]

def apply (keys : List κ) : KeyEdit κ → List κ
  | put k => if k ∈ keys then keys else keys ++ [k]
  | drop k => keys.filter (· ≠ k)

/-- The keys after some edits, one after the other. -/
def play (edits : List (KeyEdit κ)) (keys : List κ) : List κ := edits.foldl apply keys

omit [DecidableEq κ] in
/-- The keys that are dropped at some time, whether they are put again or not. -/
def dropped : List (KeyEdit κ) → List κ
  | [] => []
  | put _ :: edits => dropped edits
  | drop k :: edits => k :: dropped edits

variable {edits : List (KeyEdit κ)} {keys keys' : List κ} {k : κ}

theorem play_concat (e : KeyEdit κ) : play (edits ++ [e]) keys = apply (play edits keys) e :=
  List.foldl_concat ..

theorem play_append (edits edits' : List (KeyEdit κ)) :
    play (edits ++ edits') keys = play edits' (play edits keys) :=
  List.foldl_append

theorem play_filterMap {ρ : Type} (edit : ρ → Option (KeyEdit κ)) (rows : List ρ)
    (keys : List κ) : play (rows.filterMap edit) keys =
      rows.foldl (fun keys row => (edit row).elim keys (apply keys)) keys := by
  induction rows generalizing keys with
  | nil => rfl
  | cons row rows ih => cases h : edit row <;> simp [play, h, ← ih]

omit [DecidableEq κ] in
theorem mem_dropped : k ∈ dropped edits ↔ drop k ∈ edits := by
  induction edits with
  | nil => simp [dropped]
  | cons e edits ih => cases e <;> simp [dropped, ih]

omit [DecidableEq κ] in
theorem dropped_append (a b : List (KeyEdit κ)) : dropped (a ++ b) = dropped a ++ dropped b := by
  induction a with
  | nil => rfl
  | cons e a ih => cases e <;> simp [dropped, ih]

/-! ### Keys that are never dropped -/

theorem mem_apply_of_mem {e : KeyEdit κ} (h : k ∈ keys) (he : e ≠ drop k) : k ∈ apply keys e := by
  cases e with
  | put j =>
    simp only [apply]
    split
    · exact h
    · exact List.mem_append_left _ h
  | drop j =>
    have hne : k ≠ j := fun hk => he (hk ▸ rfl)
    simp [apply, h, hne]

theorem mem_play_of_mem (h : k ∈ keys) (hk : k ∉ dropped edits) : k ∈ play edits keys := by
  induction edits generalizing keys with
  | nil => exact h
  | cons e edits ih =>
    rw [mem_dropped, List.mem_cons, not_or] at hk
    exact ih (mem_apply_of_mem h (Ne.symm hk.1)) (fun h' => hk.2 (mem_dropped.1 h'))

theorem mem_apply_put : k ∈ apply keys (put k) := by
  simp only [apply]
  split
  · assumption
  · exact List.mem_append_right _ (List.mem_singleton_self k)

theorem mem_play_of_put (h : put k ∈ edits) (hk : k ∉ dropped edits) : k ∈ play edits keys := by
  induction edits generalizing keys with
  | nil => cases h
  | cons e edits ih =>
    rw [mem_dropped, List.mem_cons, not_or] at hk
    have hrest : k ∉ dropped edits := fun h' => hk.2 (mem_dropped.1 h')
    rcases List.mem_cons.1 h with rfl | h
    · have hput : k ∈ play edits (apply keys (put k)) := mem_play_of_mem mem_apply_put hrest
      exact hput
    · exact ih h hrest

/-- Every key that is put and never dropped is there from the beginning. -/
def Settled (edits : List (KeyEdit κ)) (keys : List κ) : Prop :=
  ∀ k, put k ∈ edits → k ∉ dropped edits → k ∈ keys

theorem settled_play : Settled edits (play edits keys) := fun _ h hk => mem_play_of_put h hk

/-- Keys that are neither dropped nor new stay in their places. -/
theorem filter_play_of_settled {gone : List κ} (hgone : ∀ k ∈ dropped edits, k ∈ gone)
    (h : ∀ k, put k ∈ edits → k ∉ gone → k ∈ keys) :
    (play edits keys).filter (· ∉ gone) = keys.filter (· ∉ gone) := by
  induction edits generalizing keys with
  | nil => rfl
  | cons e edits ih =>
    have hrest : ∀ k ∈ dropped edits, k ∈ gone := fun k hk =>
      hgone k (mem_dropped.2 (List.mem_cons_of_mem e (mem_dropped.1 hk)))
    have hstep : (apply keys e).filter (· ∉ gone) = keys.filter (· ∉ gone) := by
      cases e with
      | put j =>
        simp only [apply]
        split
        · rfl
        · rename_i hj
          have hjgone : j ∈ gone := by
            by_contra hout
            exact hj (h j (List.mem_cons_self ..) hout)
          simp [hjgone]
      | drop j =>
        have hj : j ∈ gone := hgone j (List.mem_cons_self ..)
        simp only [apply, List.filter_filter]
        refine List.filter_congr fun x _ => ?_
        by_cases hx : x = j <;> simp [hx, hj]
    refine (ih hrest fun k hk hout => ?_).trans hstep
    refine mem_apply_of_mem (h k (List.mem_cons_of_mem e hk) hout) ?_
    rintro rfl
    exact hout (hgone k (List.mem_cons_self ..))

/-! ### Keys that are dropped at some time -/

/-- Which of the dropped keys are there in the end, and in which order, is up to the edits alone. -/
theorem filter_play_dropped (edits : List (KeyEdit κ)) (keys keys' : List κ) :
    (play edits keys).filter (· ∈ dropped edits) = (play edits keys').filter (· ∈ dropped edits) := by
  induction edits using List.reverseRecOn with
  | nil => simp [dropped]
  | append_singleton edits e ih =>
    simp only [play_concat]
    generalize play edits keys = a at ih ⊢
    generalize play edits keys' = b at ih ⊢
    have hmem : ∀ x ∈ dropped edits, (x ∈ a ↔ x ∈ b) := by
      intro x hx
      have hiff : x ∈ a.filter (· ∈ dropped edits) ↔ x ∈ b.filter (· ∈ dropped edits) := by rw [ih]
      simpa [hx] using hiff
    cases e with
    | put k =>
      have hput : ∀ l : List κ, (apply l (put k)).filter (· ∈ dropped (edits ++ [put k])) =
          l.filter (· ∈ dropped edits) ++ if k ∈ dropped edits ∧ k ∉ l then [k] else [] := by
        intro l
        by_cases hl : k ∈ l <;> by_cases hk : k ∈ dropped edits <;>
          simp [apply, dropped_append, dropped, hl, hk]
      rw [hput, hput, ih]
      by_cases hk : k ∈ dropped edits
      · simp [hmem k hk]
      · simp [hk]
    | drop k =>
      have hdrop : ∀ l : List κ, (apply l (drop k)).filter (· ∈ dropped (edits ++ [drop k])) =
          (l.filter (· ∈ dropped edits)).filter (· ≠ k) := by
        intro l
        simp only [apply, List.filter_filter]
        refine List.filter_congr fun x _ => ?_
        by_cases hx : x = k <;> simp [dropped_append, dropped, hx]
      rw [hdrop, hdrop, ih]

/-- If no other key is new, the dropped keys that are put again stand behind all others. -/
theorem pairwise_play {gone : List κ} (h : ∀ k, put k ∈ edits → k ∉ gone → k ∈ keys)
    (hgone : ∀ k ∈ dropped edits, k ∈ gone) :
    (play edits keys).Pairwise fun x y => x ∈ dropped edits → y ∈ gone := by
  induction edits using List.reverseRecOn with
  | nil => exact List.pairwise_of_forall fun _ _ hx => by cases hx
  | append_singleton edits e ih =>
    have hgone' : ∀ k ∈ dropped edits, k ∈ gone := fun k hk =>
      hgone k (dropped_append .. ▸ List.mem_append_left _ hk)
    have hbefore := ih (fun k hk => h k (List.mem_append_left _ hk)) hgone'
    simp only [play_concat]
    cases e with
    | put k =>
      simp only [dropped_append, dropped, List.append_nil, apply]
      split
      · exact hbefore
      · -- a key that is put anew is one of those dropped at some time
        rename_i hnew
        have hk : k ∈ gone := by
          by_contra hout
          exact hnew (mem_play_of_mem (h k (by simp) hout) fun hd => hout (hgone' k hd))
        refine List.pairwise_append.2 ⟨hbefore, List.pairwise_singleton .., fun x _ y hy _ => ?_⟩
        exact List.mem_singleton.1 hy ▸ hk
    | drop k =>
      refine (hbefore.sublist List.filter_sublist).imp_of_mem fun {x y} hx _ hxy hd => ?_
      have hxk : x ≠ k := by simpa using (List.mem_filter.1 hx).2
      rw [dropped_append, List.mem_append] at hd
      exact hxy (hd.resolve_right fun hk => hxk (by simpa [dropped] using hk))

/-! ### Twice -/

/-- Edits played once more move the keys that they drop and put again behind the others. -/
theorem play_play (edits : List (KeyEdit κ)) (keys : List κ) :
    play edits (play edits keys) =
      (play edits keys).filter (· ∉ dropped edits) ++
        (play edits keys).filter (· ∈ dropped edits) := by
  have hkept : (play edits (play edits keys)).filter (· ∉ dropped edits) =
      (play edits keys).filter (· ∉ dropped edits) :=
    filter_play_of_settled (fun _ hk => hk) settled_play
  have hmoved : (play edits (play edits keys)).filter (· ∈ dropped edits) =
      (play edits keys).filter (· ∈ dropped edits) :=
    filter_play_dropped edits _ keys
  have hbehind : (play edits (play edits keys)).Pairwise
      fun x y => decide (x ∈ dropped edits) → decide (y ∈ dropped edits) := by
    simpa using pairwise_play settled_play fun _ hk => hk
  rw [← hkept, ← hmoved]
  simpa using (filter_append_filter_eq_self.2 hbehind).symm

end KeyEdit

end RefCache
