import Mathlib.Data.List.Basic
import TableMetrics.Dataset.Aggregate
import TableMetrics.Proofs.Outcome

/-! Look-ups in a dataset. A column has an index if it is there, and all look-ups of one that is not there fail alike;
    the cell of a row is the one at its place among the values of the column. -/

namespace TableMetrics

/-! ### From tables to datasets -/

theorem firstRepeated?_of_nodup {names : List String} (h : names.Nodup) :
    ∀ seen : List String, (∀ name ∈ names, name ∉ seen) → firstRepeated? seen names = none := by
  induction names with
  | nil => exact fun _ _ => rfl
  | cons name names ih =>
    intro seen hseen
    obtain ⟨hname, hnames⟩ := List.nodup_cons.mp h
    rw [firstRepeated?, if_neg (hseen name (List.mem_cons_self ..))]
    refine ih hnames _ fun other hother hmem => ?_
    rcases List.mem_cons.mp hmem with rfl | hmem
    · exact hname hother
    · exact hseen other (List.mem_cons_of_mem _ hother) hmem

namespace Dataset
variable {d d' : Dataset} {name : String}

theorem ofTable_of_nodup {t : Table} (h : t.columns.Nodup) : ofTable t = .ok ⟨t, h⟩ := by
  have hnone := firstRepeated?_of_nodup h [] fun _ _ => List.not_mem_nil
  unfold ofTable
  split
  · next hsome =>
    rw [hnone] at hsome
    cases hsome
  · rfl

theorem ofTable_of_repeated {t : Table} (h : firstRepeated? [] t.columns = some name) :
    ofTable t = .error (.duplicateColumn name) := by
  unfold ofTable
  split
  · next hsome =>
    rw [h] at hsome
    cases hsome
    rfl
  · next hnone =>
    rw [h] at hnone
    cases hnone

theorem ofTable_of_not_nodup {t : Table} (h : ¬t.columns.Nodup) : ∃ name, ofTable t = .error (.duplicateColumn name) := by
  cases hname : firstRepeated? [] t.columns with
  | some name => exact ⟨name, ofTable_of_repeated hname⟩
  | none => exact absurd (firstRepeated?_eq_none hname).1 h

theorem ofTable_eq_ok_iff {t : Table} : ofTable t = .ok d ↔ t = d.toTable := by
  constructor
  · intro h
    by_cases hdistinct : t.columns.Nodup
    · rw [ofTable_of_nodup hdistinct] at h
      cases h
      rfl
    · obtain ⟨name, herror⟩ := ofTable_of_not_nodup hdistinct
      rw [herror] at h
      cases h
  · rintro rfl
    exact ofTable_of_nodup d.distinct

theorem ofInput_toTable (d : Dataset) : ofInput (some d.toTable) = .ok d := ofTable_of_nodup d.distinct

/-! ### Columns -/

theorem columnIndex_of_mem (h : name ∈ d.columns) : d.columnIndex name = .ok (d.columns.idxOf name) := by
  rw [columnIndex, List.idxOf_eq_getD_idxOf?]
  cases hindex : d.columns.idxOf? name with
  | some k => rfl
  | none => exact absurd h (List.idxOf?_eq_none_iff.mp hindex)

theorem columnIndex_of_not_mem (h : name ∉ d.columns) :
    d.columnIndex name = .error (.missingColumn name d.columns) := by
  rw [columnIndex, List.idxOf?_eq_none_iff.mpr h]
  rfl

theorem columnValues_of_mem (h : name ∈ d.columns) :
    d.columnValues name = .ok (d.rows.map (readCell (d.columns.idxOf name))) := by
  rw [columnValues, columnIndex_of_mem h]
  rfl

theorem columnValues_of_not_mem (h : name ∉ d.columns) :
    d.columnValues name = .error (.missingColumn name d.columns) := by
  rw [columnValues, columnIndex_of_not_mem h]
  rfl

theorem aggregate_of_not_mem (h : name ∉ d.columns) (a : Aggregate) :
    d.aggregate a name = .error (.missingColumn name d.columns) := by
  rw [aggregate_eq, columnValues_of_not_mem h]
  rfl

/-- A cell of a column is the value at its place, and null outside of the rows. -/
theorem cell_eq (d : Dataset) (i : Int) (name : String) :
    d.cell i name = (d.columnValues name).map fun cells => if i < 0 then .null else cells[i.toNat]?.getD .null := by
  unfold cell columnValues
  cases d.columnIndex name with
  | error x => rfl
  | ok k => simp [Except.map]

/-- Columns with the same cells in every row have the same values. -/
theorem columnValues_congr (hsize : d.size = d'.size) (h : name ∈ d.columns) (h' : name ∈ d'.columns)
    (hcells : ∀ i : Nat, i < d.size → d.cell i name = d'.cell i name) : d.columnValues name = d'.columnValues name := by
  rw [columnValues_of_mem h, columnValues_of_mem h']
  refine congrArg Except.ok (List.ext_getElem ?_ fun i hi hi' => ?_)
  · rw [List.length_map, List.length_map]
    exact hsize
  · rw [List.length_map] at hi hi'
    have hcell := hcells i hi
    have hnonneg : ¬(i : Int) < 0 := by omega
    rw [cell_eq, cell_eq, columnValues_of_mem h, columnValues_of_mem h'] at hcell
    simpa [Except.map, hi, hi', hnonneg] using hcell

/-! ### Agreement of look-ups

Of a column that is in both datasets or in neither, and whose values are the same where it is there. -/

section Agree
variable (hcolumn : name ∈ d.columns ↔ name ∈ d'.columns)
include hcolumn

/-- Look-ups that fail for want of the column agree if they do where the column is there. -/
theorem agree_of_mem {α : Type} {r r' : Except MetricError α}
    (hr : name ∉ d.columns → r = .error (.missingColumn name d.columns))
    (hr' : name ∉ d'.columns → r' = .error (.missingColumn name d'.columns)) (h : name ∈ d.columns → r = r') :
    Agree (d.columns = d'.columns) r r' := by
  by_cases hmem : name ∈ d.columns
  · exact .of_eq (h hmem)
  · rw [hr hmem, hr' fun hmem' => hmem (hcolumn.mpr hmem')]
    exact .error rfl fun hsame => by rw [hsame]

theorem columnValues_agree (h : name ∈ d.columns → d.columnValues name = d'.columnValues name) :
    Agree (d.columns = d'.columns) (d.columnValues name) (d'.columnValues name) :=
  agree_of_mem hcolumn columnValues_of_not_mem columnValues_of_not_mem h

theorem aggregate_agree (h : name ∈ d.columns → d.columnValues name = d'.columnValues name) (a : Aggregate) :
    Agree (d.columns = d'.columns) (d.aggregate a name) (d'.aggregate a name) := by
  rw [aggregate_eq, aggregate_eq]
  exact (columnValues_agree hcolumn h).bind fun _ _ => .refl _

end Agree

end Dataset
end TableMetrics
