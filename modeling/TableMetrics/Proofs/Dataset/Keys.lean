import Mathlib.Data.Set.Card
import TableMetrics.Dataset.Aggregate

/-! The keys of cells: the different texts of those that are not null. Their count is what a distinct count counts. -/

namespace TableMetrics

/-- The texts of the values that are not null. -/
def keys (cells : List Value) : Set String := {k | ∃ v ∈ cells, v ≠ .null ∧ v.toText = k}

theorem isNull_iff {v : Value} : v.isNull = true ↔ v = .null := by
  cases v <;> simp [Value.isNull]

theorem mem_foldr_insert {k : String} (texts : List String) : k ∈ texts.foldr List.insert [] ↔ k ∈ texts := by
  induction texts with
  | nil => rfl
  | cons text texts ih => rw [List.foldr_cons, List.mem_insert_iff, List.mem_cons, ih]

theorem mem_distinctKeys {k : String} {cells : List Value} : k ∈ distinctKeys cells ↔ k ∈ keys cells := by
  rw [distinctKeys, mem_foldr_insert]
  simp only [List.mem_map, List.mem_filter, Bool.not_eq_true', ← Bool.not_eq_true, isNull_iff, keys, Set.mem_ofPred_eq,
    and_assoc]

theorem nodup_distinctKeys (cells : List Value) : (distinctKeys cells).Nodup := by
  unfold distinctKeys
  induction (cells.filter (!·.isNull)).map (·.toText) with
  | nil => exact List.nodup_nil
  | cons text texts ih => exact ih.insert

theorem length_distinctKeys (cells : List Value) : (distinctKeys cells).length = (keys cells).ncard := by
  have hkeys : keys cells = ↑(distinctKeys cells).toFinset := by
    ext k
    rw [List.coe_toFinset, Set.mem_ofPred_eq, mem_distinctKeys]
  rw [hkeys, Set.ncard_coe_finset, List.toFinset_card_of_nodup (nodup_distinctKeys cells)]

theorem finite_keys (cells : List Value) : (keys cells).Finite :=
  (distinctKeys cells).finite_toSet.subset fun _ h => mem_distinctKeys.mpr h

/-- Every key is that of a cell which is not null. -/
theorem length_distinctKeys_le (cells : List Value) :
    (distinctKeys cells).length ≤ (cells.filter (!·.isNull)).length := by
  unfold distinctKeys
  rw [← List.length_map (f := Value.toText)]
  induction (cells.filter (!·.isNull)).map (·.toText) with
  | nil => exact Nat.le_refl 0
  | cons text texts ih =>
    rw [List.foldr_cons, List.length_cons, List.length_insert]
    split <;> omega

/-- One value, however often, has one key at most. -/
theorem ncard_keys_replicate {n : Nat} (h : n ≠ 0) (v : Value) :
    (keys (List.replicate n v)).ncard = if v = .null then 0 else 1 := by
  split
  · next hnull =>
    have hkeys : keys (List.replicate n v) = ∅ := by
      ext k
      simp [keys, hnull]
    rw [hkeys, Set.ncard_empty]
  · next hnull =>
    have hkeys : keys (List.replicate n v) = {v.toText} := by
      ext k
      simp [keys, h, hnull, eq_comm]
    rw [hkeys, Set.ncard_singleton]

end TableMetrics
