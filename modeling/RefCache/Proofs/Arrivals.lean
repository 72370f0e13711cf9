import RefCache.Proofs.Share
import RefCache.Proofs.Upkeep
import RefCache.Proofs.UserIndexes

/-! Batches of all categories as they arrive, one after the other, from empty indexes on. What the
indexes of a category come to hold is due to the batches of that category alone. -/

namespace RefCache

/-- Rows of one category that are merged together. -/
abbrev Batch := (c : Category) × List c.Row

/-- The rows of a category in some batches, in the order in which they arrive. -/
def rowsOf (c : Category) (batches : List Batch) : List c.Row :=
  batches.flatMap fun b => if h : b.1 = c then h ▸ b.2 else []

theorem rowsOf_concat_self {c : Category} (batches : List Batch) (rows : List c.Row) :
    rowsOf c (batches ++ [⟨c, rows⟩]) = rowsOf c batches ++ rows := by
  simp [rowsOf]

theorem rowsOf_concat_of_ne {c d : Category} (h : d ≠ c) (batches : List Batch)
    (rows : List d.Row) : rowsOf c (batches ++ [⟨d, rows⟩]) = rowsOf c batches := by
  simp [rowsOf, h]

namespace Indexes

variable {photos : Uuid → Photo} {ix ix' : Indexes}

/-- The indexes after some batches. -/
def afterBatches (photos : Uuid → Photo) (batches : List Batch) : Indexes :=
  batches.foldl (fun ix b => (ix.merge photos b.1 b.2).state) .empty

theorem afterBatches_concat (photos : Uuid → Photo) (batches : List Batch) (b : Batch) :
    afterBatches photos (batches ++ [b]) =
      ((afterBatches photos batches).merge photos b.1 b.2).state :=
  List.foldl_concat ..

/-- Only the indexes of users matter to what batches of users uphold. -/
theorem upheld_only_iff : Upheld (ix.only .users) ↔ Upheld ix := by
  constructor
  · intro ⟨⟨own, email, listed, shown, homeless⟩, ⟨nonempty, nodup⟩, sorted⟩
    exact ⟨⟨own, email, listed, shown, homeless⟩, ⟨nonempty, nodup⟩, sorted⟩
  · intro ⟨⟨own, email, listed, shown, homeless⟩, ⟨nonempty, nodup⟩, sorted⟩
    exact ⟨⟨own, email, listed, shown, homeless⟩, ⟨nonempty, nodup⟩, sorted⟩

theorem upheld_afterBatches (photos : Uuid → Photo) (batches : List Batch) :
    Upheld (afterBatches photos batches) := by
  induction batches using List.reverseRecOn with
  | nil => exact upheld_empty
  | append_singleton batches b ih =>
    obtain ⟨c, rows⟩ := b
    rw [afterBatches_concat]
    by_cases hc : c = .users
    · subst hc
      exact ih.merge
    · rw [← upheld_only_iff, only_merge (Ne.symm hc), upheld_only_iff]
      exact ih

end Indexes

namespace Cache

/-- A new cache after some batches. -/
def ofBatches (photos : Uuid → Photo) (now : Timestamp) (batches : List Batch) : Cache :=
  batches.foldl (fun cache b => (cache.absorb photos b.1 (.rows b.2)).cache) (.start now)

theorem indexes_ofBatches (photos : Uuid → Photo) (now : Timestamp) (batches : List Batch) :
    (ofBatches photos now batches).indexes = Indexes.afterBatches photos batches := by
  induction batches using List.reverseRecOn with
  | nil => rfl
  | append_singleton batches b ih =>
    rw [Indexes.afterBatches_concat, ← ih, ofBatches, List.foldl_concat, indexes_absorb_rows]
    rfl

end Cache

end RefCache
