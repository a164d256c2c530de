import Mathlib.Data.List.Forall2
import TableMetrics.Proofs.Dataset.Lookup

/-! All look-ups of a dataset read one table. A table is a dataset if and only if its columns have different names. A
    column is then there for all look-ups or for none of them, and where it is there, they agree on its place and on its
    entries, one for each row. -/

namespace TableMetrics

/-! ### Entries -/

/-- The entry of a row in the column at the place `k`: the cell there, and null where the row has none. -/
inductive Entry (k : Nat) : Option (List Value) → Value → Prop where
  | cell {cells : List Value} {v : Value} (h : cells[k]? = some v) : Entry k (some cells) v
  | short {cells : List Value} (h : cells.length ≤ k) : Entry k (some cells) .null
  | missing : Entry k none .null

theorem entry_readCell (k : Nat) (row : Option (List Value)) : Entry k row (readCell k row) := by
  cases row with
  | none => exact .missing
  | some cells =>
    cases hcell : cells[k]? with
    | some v =>
      rw [readCell, Option.getD_some, hcell]
      exact .cell hcell
    | none =>
      rw [readCell, Option.getD_some, hcell]
      exact .short (List.getElem?_eq_none_iff.mp hcell)

/-- The first of the values that is not null, and null if there is none. -/
inductive FirstOf : List Value → Value → Prop where
  | nil : FirstOf [] .null
  | null {vs : List Value} {v : Value} (h : FirstOf vs v) : FirstOf (.null :: vs) v
  | value {v : Value} (h : v ≠ .null) (vs : List Value) : FirstOf (v :: vs) v

theorem firstOf_firstNonNull (vs : List Value) : FirstOf vs (firstNonNull vs) := by
  induction vs with
  | nil => exact .nil
  | cons v vs ih =>
    cases v with
    | null => exact .null ih
    | bool b => exact .value Value.noConfusion vs
    | number n => exact .value Value.noConfusion vs
    | text s => exact .value Value.noConfusion vs

namespace Dataset
variable {d : Dataset} {name : String} {k : Nat}

/-! ### A column that is there -/

/-- What is looked up of a column is what the rows hold at the place `k`: there is one entry for each row, a cell is
    the entry of its row and null where there is no such row, and the first value is the first entry that is not null. -/
structure Shows (d : Dataset) (name : String) (k : Nat) : Prop where
  has : d.hasColumn name = true
  index : d.columnIndex name = .ok k
  values : ∃ entries, d.columnValues name = .ok entries ∧ List.Forall₂ (Entry k) d.rows entries ∧
    (∀ (i : Nat) (v : Value), entries[i]? = some v → d.cell i name = .ok v) ∧
    ∃ v, d.firstValue name = .ok v ∧ FirstOf entries v
  outside : ∀ i : Int, i < 0 ∨ d.size ≤ i → d.cell i name = .ok .null

theorem hasColumn_iff : d.hasColumn name = true ↔ name ∈ d.columns := List.contains_iff_mem

/-- Columns have different names, so that a name leads to the place at which it stands. -/
theorem columnIndex_of_getElem? (h : d.columns[k]? = some name) : d.columnIndex name = .ok k := by
  obtain ⟨hk, rfl⟩ := List.getElem?_eq_some_iff.mp h
  rw [columnIndex_of_mem (List.getElem_mem hk), d.distinct.idxOf_getElem]

theorem columnValues_of_getElem? (h : d.columns[k]? = some name) :
    d.columnValues name = .ok (d.rows.map (readCell k)) := by
  rw [columnValues, columnIndex_of_getElem? h]
  rfl

theorem firstValue_of_getElem? (h : d.columns[k]? = some name) :
    d.firstValue name = .ok (firstNonNull (d.rows.map (readCell k))) := by
  rw [firstValue, columnValues_of_getElem? h]
  rfl

theorem cell_of_getElem? (h : d.columns[k]? = some name) (i : Int) :
    d.cell i name = .ok (if i < 0 then .null else (d.rows.map (readCell k))[i.toNat]?.getD .null) := by
  rw [cell_eq, columnValues_of_getElem? h]
  rfl

theorem cell_outside (h : d.columns[k]? = some name) {i : Int} (hi : i < 0 ∨ d.size ≤ i) :
    d.cell i name = .ok .null := by
  rw [cell_of_getElem? h]
  split
  · rfl
  · next hnonneg =>
    have hsize : d.size ≤ i.toNat := by omega
    rw [List.getElem?_eq_none (by rwa [List.length_map])]
    rfl

theorem shows_of_getElem? (h : d.columns[k]? = some name) : d.Shows name k := by
  refine ⟨hasColumn_iff.mpr (List.mem_of_getElem? h), columnIndex_of_getElem? h, ?_, fun i => cell_outside h⟩
  refine ⟨_, columnValues_of_getElem? h, ?_, fun i v hi => ?_, _, firstValue_of_getElem? h, firstOf_firstNonNull _⟩
  · exact List.forall₂_map_right_iff.mpr (List.forall₂_same.mpr fun row _ => entry_readCell k row)
  · have hnonneg : ¬(i : Int) < 0 := by omega
    rw [cell_of_getElem? h, if_neg hnonneg, Int.toNat_natCast, hi]
    rfl

/-! ### A column that is not there -/

/-- All look-ups of a column fail, since it is not there. -/
structure Lacks (d : Dataset) (name : String) : Prop where
  has : d.hasColumn name = false
  index : d.columnIndex name = .error (.missingColumn name d.columns)
  values : d.columnValues name = .error (.missingColumn name d.columns)
  cell : ∀ i, d.cell i name = .error (.missingColumn name d.columns)
  first : d.firstValue name = .error (.missingColumn name d.columns)

theorem lacks_of_not_mem (h : name ∉ d.columns) : d.Lacks name where
  has := Bool.eq_false_iff.mpr fun hmem => h (hasColumn_iff.mp hmem)
  index := columnIndex_of_not_mem h
  values := columnValues_of_not_mem h
  cell i := by
    rw [cell_eq, columnValues_of_not_mem h]
    rfl
  first := by
    rw [firstValue, columnValues_of_not_mem h]
    rfl

/-! ### Tables -/

/-- A table is a dataset if and only if its columns have different names, and all look-ups then read its columns and
    rows. -/
theorem ofTable_lookups (t : Table) :
    ((∃ d, ofTable t = .ok d) ↔ t.columns.Nodup) ∧
    (¬t.columns.Nodup → ∃ name, ofTable t = .error (.duplicateColumn name)) ∧
    ∀ d, ofTable t = .ok d → d.toTable = t ∧
      (∀ k name, t.columns[k]? = some name → d.Shows name k) ∧ ∀ name, name ∉ t.columns → d.Lacks name := by
  refine ⟨⟨?_, fun hdistinct => ⟨_, ofTable_of_nodup hdistinct⟩⟩, ofTable_of_not_nodup, fun d hd => ?_⟩
  · rintro ⟨d, hd⟩
    exact ofTable_eq_ok_iff.mp hd ▸ d.distinct
  · obtain rfl := ofTable_eq_ok_iff.mp hd
    exact ⟨rfl, fun k name h => shows_of_getElem? h, fun name h => lacks_of_not_mem h⟩

end Dataset
end TableMetrics
