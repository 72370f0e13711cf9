import RefCache.Storage
import Mathlib.Data.List.Nodup

/-! What a read answers: the rows of a table with stamps at or after a mark, in the order of their
stamps, and those with one stamp in the order of the table. Instants are in linear order, by
seconds and then by nanoseconds. -/

namespace RefCache

namespace Timestamp

theorem le_def {a b : Timestamp} :
    a ≤ b ↔ a.seconds < b.seconds ∨ (a.seconds = b.seconds ∧ a.nanos ≤ b.nanos) := Iff.rfl

instance : Std.IsLinearOrder Timestamp where
  le_refl a := Or.inr ⟨rfl, Nat.le_refl _⟩
  le_trans a b c hab hbc := by rw [le_def] at *; omega
  le_total a b := by rw [le_def, le_def]; omega
  le_antisymm a b hab hba := by
    rw [le_def] at *
    cases a; cases b
    simp only [mk.injEq] at *
    omega

instance : Std.LawfulOrderLeftLeaningMax Timestamp where
  max_eq_left a b hba := by
    change (if a ≤ b then b else a) = a
    split
    · exact Std.le_antisymm hba ‹_›
    · rfl
  max_eq_right a b hba := by
    have hab : a ≤ b := Std.le_of_not_ge hba
    exact if_pos hab

/-- The latest of an instant and some more is one of them. -/
theorem foldl_max_mem (t : Timestamp) (stamps : List Timestamp) :
    stamps.foldl max t ∈ t :: stamps :=
  List.max?_mem List.max?_cons'

theorem le_foldl_max {t a : Timestamp} {stamps : List Timestamp} (h : a ∈ t :: stamps) :
    a ≤ stamps.foldl max t :=
  (List.max?_eq_some_iff.1 List.max?_cons').2 a h

theorem foldl_max_of_le {t : Timestamp} {stamps : List Timestamp} (h : ∀ a ∈ stamps, a ≤ t) :
    stamps.foldl max t = t := by
  refine Std.le_antisymm ?_ (le_foldl_max (List.mem_cons_self ..))
  rcases List.mem_cons.1 (foldl_max_mem t stamps) with heq | hmem
  · exact Std.le_of_eq heq
  · exact h _ hmem

end Timestamp

namespace Category

/-- The stamp that decides from which mark on a row is read. -/
abbrev updatedAt (c : Category) (row : c.Row) : Timestamp := (c.stamp row).updatedAt

end Category

/-! ### Two items of a list, one before the other -/

section Pairs

variable {α : Type} {l : List α} {a b : α}

theorem pair_sublist_or (ha : a ∈ l) (hb : b ∈ l) (hne : a ≠ b) :
    [a, b].Sublist l ∨ [b, a].Sublist l := by
  induction l with
  | nil => cases ha
  | cons x l ih =>
    rcases List.mem_cons.1 ha with rfl | hal
    · have hbl : b ∈ l := (List.mem_cons.1 hb).resolve_left (Ne.symm hne)
      exact Or.inl ((List.singleton_sublist.2 hbl).cons_cons a)
    · rcases List.mem_cons.1 hb with rfl | hbl
      · exact Or.inr ((List.singleton_sublist.2 hal).cons_cons b)
      · exact (ih hal hbl).imp (·.cons x) (·.cons x)

theorem not_pair_sublist (h : l.Nodup) (hab : [a, b].Sublist l) : ¬ [b, a].Sublist l := by
  induction l with
  | nil => simp at hab
  | cons x l ih =>
    rw [List.nodup_cons] at h
    rw [List.cons_sublist_cons', List.singleton_sublist] at hab ⊢
    rintro (hba | ⟨rfl, ha⟩)
    · rcases hab with hab | ⟨rfl, hb⟩
      · exact ih h.2 hab hba
      · exact h.1 (hba.subset (by simp))
    · rcases hab with hab | ⟨rfl, hb⟩
      · exact h.1 (hab.subset (by simp))
      · exact h.1 ha

end Pairs

/-! ### Stable sorting -/

section Sorting

variable {α : Type} {le : α → α → Bool} {l : List α}

/-- Items of which none goes before another are sorted among the others as they stood. -/
theorem filter_mergeSort (trans : ∀ a b c, le a b → le b c → le a c)
    (total : ∀ a b, le a b || le b a) {p : α → Bool} (tied : ∀ a b, p a → p b → le a b) :
    (l.mergeSort le).filter p = l.filter p := by
  have hpairs : (l.filter p).Pairwise fun a b => le a b :=
    List.pairwise_of_forall_mem_list fun a ha b hb =>
      tied a b (List.mem_filter.1 ha).2 (List.mem_filter.1 hb).2
  have hsorted : (l.filter p).Sublist (l.mergeSort le) :=
    List.sublist_mergeSort trans total hpairs List.filter_sublist
  have hkept : (l.filter p).Sublist ((l.mergeSort le).filter p) := by
    simpa only [List.filter_filter, Bool.and_self] using hsorted.filter p
  have hperm : ((l.mergeSort le).filter p).Perm (l.filter p) :=
    (List.mergeSort_perm l le).filter p
  exact (hkept.eq_of_length hperm.length_eq.symm).symm

/-- Whatever holds along a list still holds along its sorted form between items that are tied. -/
theorem pairwise_mergeSort_of_pairwise (trans : ∀ a b c, le a b → le b c → le a c)
    (total : ∀ a b, le a b || le b a) {R : α → α → Prop} (h : l.Pairwise R) :
    (l.mergeSort le).Pairwise fun a b => le a b ∧ (le b a → R a b) := by
  rw [List.pairwise_iff_forall_sublist]
  intro a b hab
  have hle : le a b :=
    List.pairwise_iff_forall_sublist.1 (List.pairwise_mergeSort trans total l) hab
  refine ⟨hle, fun hge => List.pairwise_iff_forall_sublist.1 h ?_⟩
  have haa : le a a := trans a b a hle hge
  have htied : ∀ x y, (le a x && le x a) = true → (le a y && le y a) = true → le x y := by
    intro x y hx hy
    rw [Bool.and_eq_true] at hx hy
    exact trans x a y hx.2 hy.1
  have hpair : ([a, b].filter fun x => le a x && le x a) = [a, b] := by simp [haa, hle, hge]
  have hsub := hab.filter fun x => le a x && le x a
  rw [hpair, filter_mergeSort trans total htied] at hsub
  exact hsub.trans List.filter_sublist

end Sorting

namespace Storage

variable {c : Category} {since : Timestamp} {table : List c.Row}

theorem mem_changedSince {row : c.Row} :
    row ∈ changedSince c since table ↔ row ∈ table ∧ since ≤ c.updatedAt row := by
  simp [changedSince, Category.updatedAt]

theorem stampOrder_iff {a b : c.Row} : stampOrder c a b ↔ c.updatedAt a ≤ c.updatedAt b := by
  simp [stampOrder]

theorem stampOrder_trans (x y z : c.Row) (hxy : stampOrder c x y) (hyz : stampOrder c y z) :
    stampOrder c x z :=
  stampOrder_iff.2 (Std.le_trans (stampOrder_iff.1 hxy) (stampOrder_iff.1 hyz))

theorem stampOrder_total (x y : c.Row) : stampOrder c x y || stampOrder c y x := by
  simpa [stampOrder] using Std.le_total

theorem changedSince_singleton {row : c.Row} (h : since ≤ c.updatedAt row) :
    changedSince c since [row] = [row] := by
  have hfilter : [row].filter (fun r => decide (since ≤ c.updatedAt r)) = [row] := by simp [h]
  rw [changedSince, hfilter, List.mergeSort_singleton]

/-- A read that answers both rows answers the first one first. -/
def ReadBefore (table : List c.Row) (a b : c.Row) : Prop :=
  c.updatedAt a ≤ c.updatedAt b ∧ (c.updatedAt b ≤ c.updatedAt a → [a, b].Sublist table)

theorem ReadBefore.asymm (h : table.Nodup) {a b : c.Row} (hab : ReadBefore table a b) :
    ¬ ReadBefore table b a :=
  fun hba => not_pair_sublist h (hab.2 hba.1) (hba.2 hab.1)

theorem pairwise_changedSince :
    (changedSince c since table).Pairwise (ReadBefore table) := by
  have horder : (table.filter fun row => decide (since ≤ c.updatedAt row)).Pairwise fun a b =>
      [a, b].Sublist table :=
    List.pairwise_iff_forall_sublist.2 fun hab => hab.trans List.filter_sublist
  refine (pairwise_mergeSort_of_pairwise stampOrder_trans stampOrder_total horder).imp ?_
  intro a b hab
  exact ⟨stampOrder_iff.1 hab.1, fun hge => hab.2 (stampOrder_iff.2 hge)⟩

/-- Rows that stand in the order of their stamps are read in the order of the table. -/
theorem changedSince_of_sorted
    (h : (table.filter fun row => decide (since ≤ c.updatedAt row)).Pairwise fun a b =>
      c.updatedAt a ≤ c.updatedAt b) :
    changedSince c since table = table.filter fun row => decide (since ≤ c.updatedAt row) :=
  List.mergeSort_of_pairwise (h.imp stampOrder_iff.2)

/-- And so are those that all have the stamp of the mark. -/
theorem changedSince_of_last (h : ∀ row ∈ table, c.updatedAt row ≤ since) :
    changedSince c since table = table.filter fun row => decide (since ≤ c.updatedAt row) := by
  refine changedSince_of_sorted (List.pairwise_of_forall_mem_list fun a ha b hb => ?_)
  have hb : since ≤ c.updatedAt b := by simpa using (List.mem_filter.1 hb).2
  exact Std.le_trans (h a (List.mem_filter.1 ha).1) hb

end Storage

end RefCache
