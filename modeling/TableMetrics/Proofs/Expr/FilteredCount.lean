import TableMetrics.Proofs.Dataset.Keys
import TableMetrics.Proofs.Dataset.Lookup
import TableMetrics.Proofs.Expr.Call
import TableMetrics.Proofs.Outcome

/-! Distinct counts of a column: of all its cells, and of those in the rows where a condition holds. A column is
    counted as a whole and a choice row by row, but both count the texts of what the rows come to, leaving out null,
    and so the rows where a condition holds never count more than all of them. -/

namespace TableMetrics
namespace Expr
variable {d : Dataset} {e p : Expr} {column f g : String}

/-- The texts of what an expression comes to at the rows of a dataset, leaving out null. -/
def keysAt (e : Expr) (d : Dataset) : Set String :=
  {k | ∃ i < d.size, ∃ v, e.eval d (some (i : Int)) = .ok v ∧ v ≠ .null ∧ v.toText = k}

/-- The texts of the cells of a column, leaving out null, in the rows where a condition holds. -/
def keysWhere (p : Expr) (column : String) (d : Dataset) : Set String :=
  {k | ∃ i < d.size, (∃ v, p.eval d (some (i : Int)) = .ok v ∧ v.isTruthy = true) ∧
    ∃ v, d.cell i column = .ok v ∧ v ≠ .null ∧ v.toText = k}

/-! ### Counting row by row -/

theorem eval_column_row (i : Int) : eval d (some i) (.column column) = d.cell i column := by
  rw [eval_column, columnValue, columnCell_row]

theorem exists_cell (h : column ∈ d.columns) (i : Int) : ∃ v, d.cell i column = .ok v := by
  rw [Dataset.cell_eq, Dataset.columnValues_of_mem h]
  exact ⟨_, rfl⟩

/-- The values of a column are what it comes to at the rows. -/
theorem mapM_eval_column (h : column ∈ d.columns) :
    ((List.range d.size).mapM fun (i : Nat) => eval d (some (i : Int)) (.column column)) = d.columnValues column := by
  have hrow : ∀ (i : Nat) (r : Option (List Value)), d.rows[i]? = some r →
      eval d (some (i : Int)) (.column column) = pure (readCell (d.columns.idxOf column) r) := by
    intro i r hr
    have hnonneg : ¬(i : Int) < 0 := by omega
    rw [eval_column_row, Dataset.cell, Dataset.columnIndex_of_mem h]
    simp [Except.map, hnonneg, hr, pure, Except.pure]
  rw [Dataset.columnValues_of_mem h, Dataset.size, mapM_range hrow, List.mapM_pure]
  rfl

theorem keys_eq_keysAt {vs : List Value}
    (h : ((List.range d.size).mapM fun (i : Nat) => e.eval d (some (i : Int))) = .ok vs) : keys vs = e.keysAt d := by
  obtain ⟨vs', hvs', hmem⟩ := exists_mapM (exists_of_mapM_eq_ok h)
  rw [h] at hvs'
  cases hvs'
  ext k
  simp only [keys, keysAt, Set.mem_ofPred_eq, hmem, List.mem_range]
  constructor
  · rintro ⟨v, ⟨i, hi, hv⟩, hkey⟩
    exact ⟨i, hi, v, hv, hkey⟩
  · rintro ⟨i, hi, v, hv, hkey⟩
    exact ⟨v, ⟨i, hi, hv⟩, hkey⟩

section EachRow
variable (hf : Function.ofName? f = some (.aggregate .countDistinct))
  (hargument : ∀ name, e = .column name → name ∈ d.columns) (row : Option Int)
include hf hargument

/-- A distinct count evaluates its argument at every row. It does so for a column as well, if the column is there:
    counting its values comes to the same. -/
theorem eval_countDistinct_eachRow : eval d row (.call f [e]) =
    ((List.range d.size).mapM fun (i : Nat) => e.eval d (some (i : Int))).map
      fun values => .number (.integer (distinctKeys values).length) := by
  by_cases hcolumn : ∃ name, e = .column name
  · obtain ⟨name, rfl⟩ := hcolumn
    rw [eval_countDistinct_column hf, mapM_eval_column (hargument name rfl), Dataset.aggregate_eq]
    cases d.columnValues name <;> rfl
  · exact eval_countDistinct hf fun name hname => hcolumn ⟨name, hname⟩

/-- A distinct count fails as its argument does at the first row at which it fails. -/
theorem eval_countDistinct_error_at {x : MetricError} : eval d row (.call f [e]) = .error x ↔
    ∃ i < d.size, e.eval d (some (i : Int)) = .error x ∧ ∀ j < i, ∃ v, e.eval d (some (j : Int)) = .ok v := by
  rw [eval_countDistinct_eachRow hf hargument, map_eq_error_iff, mapM_eq_error_iff]
  constructor
  · rintro ⟨i, a, hi, hx, hbefore⟩
    obtain ⟨hlt, rfl⟩ := List.getElem?_eq_some_iff.mp hi
    rw [List.length_range] at hlt
    rw [List.getElem_range] at hx
    exact ⟨i, hlt, hx, fun j hj => hbefore j hj j (List.getElem?_range (by omega))⟩
  · rintro ⟨i, hlt, hx, hbefore⟩
    refine ⟨i, i, List.getElem?_range hlt, hx, fun j hj a ha => ?_⟩
    rw [List.getElem?_range (by omega)] at ha
    cases ha
    exact hbefore j hj

/-- If its argument fails at no row, a distinct count counts the keys of the rows. -/
theorem eval_countDistinct_ok_at (hok : ∀ i < d.size, ∃ v, e.eval d (some (i : Int)) = .ok v) :
    eval d row (.call f [e]) = .ok (.number (.integer (e.keysAt d).ncard)) := by
  obtain ⟨vs, hvs, -⟩ := exists_mapM (f := fun (i : Nat) => e.eval d (some (i : Int)))
    fun i hi => hok i (List.mem_range.mp hi)
  rw [eval_countDistinct_eachRow hf hargument, hvs, ← keys_eq_keysAt hvs, ← length_distinctKeys]
  rfl

end EachRow

/-! ### Counting a column -/

section Column
variable (h : column ∈ d.columns)
include h

theorem mem_of_eq_column : ∀ name, Expr.column column = .column name → name ∈ d.columns := by
  rintro name ⟨⟩
  exact h

theorem eval_countDistinct_keysAt (hf : Function.ofName? f = some (.aggregate .countDistinct)) (row : Option Int) :
    eval d row (.call f [.column column]) = .ok (.number (.integer (keysAt (.column column) d).ncard)) := by
  refine eval_countDistinct_ok_at hf (mem_of_eq_column h) row fun i _ => ?_
  rw [eval_column_row]
  exact exists_cell h i

theorem exists_columnValues : ∃ cells, d.columnValues column = .ok cells ∧ cells.length = d.size ∧
    keys cells = keysAt (.column column) d := by
  have hvalues := Dataset.columnValues_of_mem h
  exact ⟨_, hvalues, List.length_map _, keys_eq_keysAt ((mapM_eval_column h).trans hvalues)⟩

theorem finite_keysAt : (keysAt (.column column) d).Finite := by
  obtain ⟨cells, -, -, hkeys⟩ := exists_columnValues h
  exact hkeys ▸ finite_keys cells

/-- A count of a column is no less than its distinct count, and no more than the rows are. -/
theorem exists_eval_count (hg : Function.ofName? g = some (.aggregate .count)) (row : Option Int) :
    ∃ n : Nat, eval d row (.call g [.column column]) = .ok (.number (.integer n)) ∧
      (keysAt (.column column) d).ncard ≤ n ∧ n ≤ d.size := by
  obtain ⟨cells, hvalues, hsize, hkeys⟩ := exists_columnValues h
  refine ⟨(cells.filter (!·.isNull)).length, ?_, ?_, ?_⟩
  · rw [eval_aggregate_column hg, Dataset.aggregate_eq, hvalues]
    rfl
  · rw [← hkeys, ← length_distinctKeys]
    exact length_distinctKeys_le cells
  · exact hsize ▸ List.length_filter_le ..

end Column

/-! ### Counting where a condition holds -/

section Choose
variable (hg : Function.ofName? g = some .choose)
include hg

/-- A choice by a number that holds is what it chooses. -/
theorem eval_choose_number {n : Number} (hn : (Value.number n).isTruthy = true) (row : Option Int) (e : Expr) :
    eval d row (.call g [.number n, e]) = e.eval d row := by
  rw [eval_choose_two hg, eval_number]
  exact if_pos hn

section Column
variable (h : column ∈ d.columns) {i : Int}
include h

/-- A choice between a column and null comes to the cell where its condition holds, and to null elsewhere. -/
theorem exists_eval_choose {v : Value} (hv : p.eval d (some i) = .ok v) : ∃ w, d.cell i column = .ok w ∧
    eval d (some i) (.call g [p, .column column, .null]) = .ok (if v.isTruthy then w else .null) := by
  obtain ⟨w, hw⟩ := exists_cell h i
  refine ⟨w, hw, ?_⟩
  rw [eval_choose_three hg, hv, eval_column_row, hw, eval_null]
  exact (apply_ite Except.ok ..).symm

theorem eval_choose_error_iff {x : MetricError} :
    eval d (some i) (.call g [p, .column column, .null]) = .error x ↔ p.eval d (some i) = .error x := by
  cases hp : p.eval d (some i) with
  | error y =>
    rw [eval_choose_three hg, hp]
    rfl
  | ok v =>
    obtain ⟨w, -, heval⟩ := exists_eval_choose hg h hp
    rw [heval]
    exact iff_of_false (fun hx => nomatch hx) (fun hx => nomatch hx)

theorem exists_eval_choose_iff :
    (∃ v, eval d (some i) (.call g [p, .column column, .null]) = .ok v) ↔ ∃ v, p.eval d (some i) = .ok v := by
  cases hp : p.eval d (some i) with
  | error y =>
    rw [(eval_choose_error_iff hg h).mpr hp]
  | ok v =>
    obtain ⟨w, -, heval⟩ := exists_eval_choose hg h hp
    exact iff_of_true ⟨_, heval⟩ ⟨_, rfl⟩

theorem keysAt_choose (hok : ∀ i < d.size, ∃ v, p.eval d (some (i : Int)) = .ok v) :
    keysAt (.call g [p, .column column, .null]) d = keysWhere p column d := by
  ext k
  constructor
  · rintro ⟨i, hi, u, hu, hnull, hkey⟩
    obtain ⟨v, hv⟩ := hok i hi
    obtain ⟨w, hw, heval⟩ := exists_eval_choose hg h hv
    rw [heval] at hu
    cases hu
    split at hnull
    · next htrue =>
      rw [if_pos htrue] at hkey
      exact ⟨i, hi, ⟨v, hv, htrue⟩, w, hw, hnull, hkey⟩
    · exact absurd rfl hnull
  · rintro ⟨i, hi, ⟨v, hv, htrue⟩, w, hw, hnull, hkey⟩
    obtain ⟨w', hw', heval⟩ := exists_eval_choose hg h hv
    rw [hw] at hw'
    cases hw'
    rw [if_pos htrue] at heval
    exact ⟨i, hi, w, heval, hnull, hkey⟩

end Column

end Choose

theorem ncard_keysWhere_le (h : column ∈ d.columns) (p : Expr) :
    (keysWhere p column d).ncard ≤ (keysAt (.column column) d).ncard := by
  refine Set.ncard_le_ncard ?_ (finite_keysAt h)
  rintro k ⟨i, hi, -, v, hv, hnull, hkey⟩
  exact ⟨i, hi, v, (eval_column_row i).trans hv, hnull, hkey⟩

/-- A distinct count of a column counts the keys of its cells at the rows, and so does that of a choice of the column
    by one. A distinct count of the choice between the column and null by a condition fails as the condition does at
    the first row at which it fails; if it fails at none, the keys of the rows where it holds are counted. These are
    no more than all keys, which are no more than the cells that are counted, and these no more than the rows. -/
theorem eval_countDistinct_choose {distinct choose count : String}
    (hdistinct : Function.ofName? distinct = some (.aggregate .countDistinct))
    (hchoose : Function.ofName? choose = some .choose) (hcount : Function.ofName? count = some (.aggregate .count))
    (d : Dataset) (row : Option Int) {column : String} (h : column ∈ d.columns) :
    eval d row (.call distinct [.column column]) = .ok (.number (.integer (keysAt (.column column) d).ncard)) ∧
    (∀ one ∈ [Number.integer 1, .float (.ofInt 1)],
      eval d row (.call distinct [.call choose [.number one, .column column]]) =
        eval d row (.call distinct [.column column])) ∧
    ∀ p : Expr,
      ((∀ i < d.size, ∃ v, p.eval d (some (i : Int)) = .ok v) →
        eval d row (.call distinct [.call choose [p, .column column, .null]]) =
          .ok (.number (.integer (keysWhere p column d).ncard)) ∧
        ∃ n : Nat, eval d row (.call count [.column column]) = .ok (.number (.integer n)) ∧
          (keysWhere p column d).ncard ≤ (keysAt (.column column) d).ncard ∧
          (keysAt (.column column) d).ncard ≤ n ∧ n ≤ d.size) ∧
      ∀ x, eval d row (.call distinct [.call choose [p, .column column, .null]]) = .error x ↔
        ∃ i < d.size, p.eval d (some (i : Int)) = .error x ∧ ∀ j < i, ∃ v, p.eval d (some (j : Int)) = .ok v := by
  have hcall : ∀ (args : List Expr) name, call choose args = .column name → name ∈ d.columns :=
    fun _ _ heq => nomatch heq
  refine ⟨eval_countDistinct_keysAt h hdistinct row, fun one hone => ?_, fun p => ⟨fun hok => ?_, fun x => ?_⟩⟩
  · have htrue : (Value.number one).isTruthy = true := by
      revert one
      decide +kernel
    rw [eval_countDistinct_eachRow hdistinct (hcall _) row,
      eval_countDistinct_eachRow hdistinct (mem_of_eq_column h) row]
    simp only [eval_choose_number hchoose htrue]
  · have hok' : ∀ i < d.size, ∃ v, eval d (some (i : Int)) (.call choose [p, .column column, .null]) = .ok v :=
      fun i hi => (exists_eval_choose_iff hchoose h).mpr (hok i hi)
    obtain ⟨n, hn, hle, hsize⟩ := exists_eval_count h hcount row
    refine ⟨?_, n, hn, ncard_keysWhere_le h p, hle, hsize⟩
    rw [eval_countDistinct_ok_at hdistinct (hcall _) row hok', keysAt_choose hchoose h hok]
  · rw [eval_countDistinct_error_at hdistinct (hcall _) row]
    simp only [eval_choose_error_iff hchoose h, exists_eval_choose_iff hchoose h]

/-- A whole number and a text are one key, null rows and short ones have none, and the condition holds in one row. -/
theorem eval_countDistinct_choose_ragged :
    "a" ∈ ["a", "b"] ∧
    eval ⟨⟨["a", "b"], [some [.number (.integer 1), .bool true], some [.text "1"], none, some [.text "y", .null]]⟩,
      by decide⟩ none (.call "COUNT_DISTINCT" [.call "IF" [.column "b", .column "a", .null]]) =
    .ok (.number (.integer (keysWhere (.column "b") "a" ⟨⟨["a", "b"],
      [some [.number (.integer 1), .bool true], some [.text "1"], none, some [.text "y", .null]]⟩,
      by decide⟩).ncard)) := by
  have hdistinct : Function.ofName? "COUNT_DISTINCT" = some (.aggregate .countDistinct) := by decide +kernel
  have hchoose : Function.ofName? "IF" = some .choose := by decide +kernel
  have hcount : Function.ofName? "COUNT" = some (.aggregate .count) := by decide +kernel
  have hmem : "a" ∈ ["a", "b"] := List.mem_cons_self ..
  refine ⟨hmem, (((eval_countDistinct_choose hdistinct hchoose hcount _ none hmem).2.2 (.column "b")).1 ?_).1⟩
  exact fun i _ => ⟨_, rfl⟩

end Expr
end TableMetrics
