import Mathlib.Logic.Relation
import Mathlib.Data.List.Forall2
import TableMetrics.Proofs.Dataset.Lookup

/-! Datasets that show the same cells. A row can be written in many ways, since what is missing in it is null and what
    stands behind the last column is not read; and columns can stand in any order, if the cells follow them. -/

namespace TableMetrics

/-! ### One row -/

theorem readCell_append_of_lt {k : Nat} {cells : List Value} (h : k < cells.length) (more : List Value) :
    readCell k (some (cells ++ more)) = readCell k (some cells) := by
  simp [readCell, List.getElem?_append_left h]

theorem readCell_replicate (k n : Nat) : readCell k (some (List.replicate n .null)) = .null := by
  unfold readCell
  rw [Option.getD_some, List.getElem?_replicate]
  split <;> rfl

theorem readCell_append_null (k : Nat) (cells : List Value) (n : Nat) :
    readCell k (some (cells ++ List.replicate n .null)) = readCell k (some cells) := by
  by_cases h : k < cells.length
  · exact readCell_append_of_lt h _
  · have hnull := readCell_replicate (k - cells.length) n
    unfold readCell at hnull ⊢
    simp only [Option.getD_some] at hnull ⊢
    rw [List.getElem?_append_right (by omega), hnull, List.getElem?_eq_none (by omega)]
    rfl

theorem readCell_set_of_ne {k j : Nat} (h : j ≠ k) (cells : List Value) (v : Value) :
    readCell k (some (cells.set j v)) = readCell k (some cells) := by
  simp [readCell, List.getElem?_set_ne h]

/-- One way to write a row for another that shows the same cells in those of the first `width` columns that are
    `used`. -/
inductive Rewrites (width : Nat) (used : Nat → Prop) : Option (List Value) → Option (List Value) → Prop where
  /-- Cells behind the last column are extra. -/
  | extra (cells more : List Value) (h : width ≤ cells.length) : Rewrites width used (some cells) (some (cells ++ more))
  /-- Cells that are missing at the end are null. -/
  | missing (cells : List Value) (n : Nat) :
    Rewrites width used (some cells) (some (cells ++ List.replicate n .null))
  /-- A null row is a row of nulls. -/
  | null (n : Nat) : Rewrites width used none (some (List.replicate n .null))
  /-- What a column holds that is not used does not matter. -/
  | unused (cells : List Value) (j : Nat) (v : Value) (h : ¬used j) :
    Rewrites width used (some cells) (some (cells.set j v))

/-- Rows that can be written for one another in any number of ways. -/
abbrev SameRow (width : Nat) (used : Nat → Prop) : Option (List Value) → Option (List Value) → Prop :=
  Relation.EqvGen (Rewrites width used)

theorem Rewrites.readCell_eq {width k : Nat} {used : Nat → Prop} {row row' : Option (List Value)}
    (h : Rewrites width used row row') (hk : k < width) (hused : used k) : readCell k row = readCell k row' := by
  cases h with
  | extra cells more hwidth => exact (readCell_append_of_lt (by omega) more).symm
  | missing cells n => exact (readCell_append_null k cells n).symm
  | null n => exact (readCell_replicate k n).symm
  | unused cells j v hj =>
    have hne : j ≠ k := by
      rintro rfl
      exact hj hused
    exact (readCell_set_of_ne hne cells v).symm

theorem readCell_eq_of_sameRow {width k : Nat} {used : Nat → Prop} {row row' : Option (List Value)}
    (h : SameRow width used row row') (hk : k < width) (hused : used k) : readCell k row = readCell k row' := by
  induction h with
  | rel _ _ h => exact h.readCell_eq hk hused
  | refl _ => rfl
  | symm _ _ _ ih => exact ih.symm
  | trans _ _ _ _ _ ih₁ ih₂ => exact ih₁.trans ih₂

theorem map_readCell_eq {width k : Nat} {used : Nat → Prop} {rows rows' : List (Option (List Value))}
    (h : List.Forall₂ (SameRow width used) rows rows') (hk : k < width) (hused : used k) :
    rows.map (readCell k) = rows'.map (readCell k) := by
  induction h with
  | nil => rfl
  | cons hrow _ ih => rw [List.map_cons, List.map_cons, ih, readCell_eq_of_sameRow hrow hk hused]

namespace Dataset
variable {d : Dataset} {name : String}

/-! ### Other rows under the same columns -/

/-- The dataset with other rows. -/
def withRows (d : Dataset) (rows : List (Option (List Value))) : Dataset := { d with rows := rows }

@[simp] theorem withRows_columns (d : Dataset) (rows : List (Option (List Value))) :
    (d.withRows rows).columns = d.columns := rfl

@[simp] theorem withRows_rows (d : Dataset) (rows : List (Option (List Value))) : (d.withRows rows).rows = rows := rfl

@[simp] theorem withRows_size (d : Dataset) (rows : List (Option (List Value))) :
    (d.withRows rows).size = rows.length := rfl

@[simp] theorem withRows_columnIndex (d : Dataset) (rows : List (Option (List Value))) (name : String) :
    (d.withRows rows).columnIndex name = d.columnIndex name := rfl

/-- In the dataset of one row its cells are those that it had. -/
theorem cell_withRows_single {i : Nat} {r : Option (List Value)} (h : d.rows[i]? = some r) (name : String) :
    (d.withRows [r]).cell 0 name = d.cell i name := by
  have hnonneg : ¬(i : Int) < 0 := by omega
  unfold cell
  simp [h, hnonneg]

/-- The column at a place has one of the names. -/
def Uses (d : Dataset) (names : String → Prop) (k : Nat) : Prop := ∃ name, d.columns[k]? = some name ∧ names name

/-- The values of a column that is used stay as they are when rows are written in another way. -/
theorem columnValues_withRows {names : String → Prop} {rows : List (Option (List Value))}
    (h : List.Forall₂ (SameRow d.columns.length (d.Uses names)) d.rows rows) (hname : names name) :
    (d.withRows rows).columnValues name = d.columnValues name := by
  by_cases hmem : name ∈ d.columns
  · have hlt : d.columns.idxOf name < d.columns.length := List.idxOf_lt_length_of_mem hmem
    have hused : d.Uses names (d.columns.idxOf name) := ⟨name, List.getElem?_idxOf hmem, hname⟩
    have hmem' : name ∈ (d.withRows rows).columns := hmem
    rw [columnValues_of_mem hmem, columnValues_of_mem hmem', withRows_columns, withRows_rows,
      map_readCell_eq h hlt hused]
  · have hmem' : name ∉ (d.withRows rows).columns := hmem
    rw [columnValues_of_not_mem hmem, columnValues_of_not_mem hmem', withRows_columns]

/-! ### The same columns in another order -/

/-- The dataset with its columns in the order of `names`, and its cells as they belong to them. -/
def rearrange (d : Dataset) (names : List String) (h : names.Perm d.columns) : Dataset where
  columns := names
  rows := d.rows.map fun row => some (names.map fun name => readCell (d.columns.idxOf name) row)
  distinct := h.nodup_iff.mpr d.distinct

@[simp] theorem rearrange_size {names : List String} (h : names.Perm d.columns) : (d.rearrange names h).size = d.size :=
  List.length_map _

theorem columnValues_rearrange {names : List String} (h : names.Perm d.columns) (hname : name ∈ d.columns) :
    (d.rearrange names h).columnValues name = d.columnValues name := by
  have hname' : name ∈ (d.rearrange names h).columns := h.mem_iff.mpr hname
  have hplace : names[names.idxOf name]? = some name := List.getElem?_idxOf hname'
  have hread : ∀ row : Option (List Value), readCell (names.idxOf name)
      (some (names.map fun name => readCell (d.columns.idxOf name) row)) = readCell (d.columns.idxOf name) row :=
    fun row => by
      rw [readCell, Option.getD_some, List.getElem?_map, hplace, Option.map_some, Option.getD_some]
  rw [columnValues_of_mem hname', columnValues_of_mem hname, rearrange, List.map_map]
  exact congrArg Except.ok (List.map_congr_left fun row _ => hread row)

end Dataset
end TableMetrics
