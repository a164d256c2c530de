import TableMetrics.Proofs.Dataset.Rows
import TableMetrics.Proofs.Expr.Reads

/-! A dataset matters to an expression only through the cells of the columns that the expression names. -/

namespace TableMetrics

/-- Two datasets have as many rows, and each column that an expression names is in both, with the same cells, or in
    neither. -/
structure SameCells (e : Expr) (d d' : Dataset) : Prop where
  size : d.size = d'.size
  columns : ∀ name, .column name ∈ e.walk → (name ∈ d.columns ↔ name ∈ d'.columns)
  cells : ∀ name, .column name ∈ e.walk → name ∈ d.columns → ∀ i : Nat, i < d.size → d.cell i name = d'.cell i name

namespace Expr
variable {e : Expr} {d d' : Dataset}

/-- Whole columns that are the same read alike at every row. -/
theorem readsAlike_of_columnValues (hsize : d.size = d'.size)
    (hcolumns : ∀ name, .column name ∈ e.walk → (name ∈ d.columns ↔ name ∈ d'.columns))
    (hvalues : ∀ name, .column name ∈ e.walk → name ∈ d.columns → d.columnValues name = d'.columnValues name)
    (row : Option Int) : ReadsAlike e d row d' row where
  columns := hcolumns
  atRow name hname hmem := by
    have hcell := columnCell_congr row (hvalues name (mem_walk_of_mem_outer hname) hmem)
    exact ⟨columnValue_congr hcell rfl, columnText_congr hcell⟩
  whole _ := ⟨hsize, hvalues⟩

theorem readsAlike_of_sameCells (h : SameCells e d d') (row : Option Int) : ReadsAlike e d row d' row :=
  readsAlike_of_columnValues h.size h.columns (fun name hname hmem =>
    Dataset.columnValues_congr h.size hmem ((h.columns name hname).mp hmem) (h.cells name hname hmem)) row

theorem readsAlike_withRows {rows : List (Option (List Value))}
    (h : List.Forall₂ (SameRow d.columns.length (d.Uses fun name => .column name ∈ e.walk)) d.rows rows)
    (row : Option Int) : ReadsAlike e d row (d.withRows rows) row := by
  have hsize : d.size = (d.withRows rows).size := by rw [Dataset.withRows_size, Dataset.size, h.length_eq]
  exact readsAlike_of_columnValues hsize (fun _ _ => Iff.rfl)
    (fun _ hname _ => (Dataset.columnValues_withRows h hname).symm) row

theorem readsAlike_rearrange {names : List String} (h : names.Perm d.columns) (row : Option Int) :
    ReadsAlike e d row (d.rearrange names h) row :=
  readsAlike_of_columnValues (Dataset.rearrange_size h).symm (fun _ _ => h.mem_iff.symm)
    (fun _ _ hmem => (Dataset.columnValues_rearrange h hmem).symm) row

/-- Datasets with the same cells for an expression give it the same value, or failures of one kind, and with the same
    message if their columns are the same. So it does not matter whether a row has extra cells, lacks cells at its
    end or is null, nor what columns hold that the expression does not name, nor how the columns are ordered. -/
theorem eval_of_sameCells (e : Expr) (row : Option Int) :
    (∀ d d', SameCells e d d' → Agree (d.columns = d'.columns) (e.eval d row) (e.eval d' row)) ∧
    (∀ (d : Dataset) (rows : List (Option (List Value))),
      List.Forall₂ (SameRow d.columns.length (d.Uses fun name => .column name ∈ e.walk)) d.rows rows →
      e.eval d row = e.eval (d.withRows rows) row) ∧
    ∀ (d : Dataset) (names : List String) (h : names.Perm d.columns),
      Agree (d.columns = names) (e.eval d row) (e.eval (d.rearrange names h) row) := by
  refine ⟨fun d d' h => ?_, fun d rows h => ?_, fun d names h => ?_⟩
  · exact eval_agree (readsAlike_of_sameCells h row)
  · exact (eval_agree (readsAlike_withRows h row)).eq rfl
  · exact eval_agree (readsAlike_rearrange h row)

/-- A null row reads as a short one does, and a column that is not named may come first. -/
theorem eval_of_sameCells_ragged :
    SameCells (.call "COUNT_DISTINCT" [.arith "+" (.column "a") (.column "b")])
      ⟨⟨["a", "b"], [some [.bool true, .text "2"], none]⟩, by decide⟩
      ⟨⟨["c", "b", "a"], [some [.null, .text "2", .bool true, .null], some [.text "x"]]⟩, by decide⟩ ∧
    Agree (["a", "b"] = ["c", "b", "a"])
      (eval ⟨⟨["a", "b"], [some [.bool true, .text "2"], none]⟩, by decide⟩ none
        (.call "COUNT_DISTINCT" [.arith "+" (.column "a") (.column "b")]))
      (eval ⟨⟨["c", "b", "a"], [some [.null, .text "2", .bool true, .null], some [.text "x"]]⟩, by decide⟩ none
        (.call "COUNT_DISTINCT" [.arith "+" (.column "a") (.column "b")])) := by
  have hcells : SameCells (.call "COUNT_DISTINCT" [.arith "+" (.column "a") (.column "b")])
      ⟨⟨["a", "b"], [some [.bool true, .text "2"], none]⟩, by decide⟩
      ⟨⟨["c", "b", "a"], [some [.null, .text "2", .bool true, .null], some [.text "x"]]⟩, by decide⟩ := by
    have hnames : ∀ name, .column name ∈ walk (.call "COUNT_DISTINCT" [.arith "+" (.column "a") (.column "b")]) →
        name = "a" ∨ name = "b" := fun name hname => by simpa [walk, walkAll] using hname
    refine ⟨rfl, fun name hname => ?_, fun name hname _ i hi => ?_⟩
    · rcases hnames name hname with rfl | rfl <;> decide
    · have hi : i = 0 ∨ i = 1 := by
        change i < 2 at hi
        omega
      rcases hnames name hname with rfl | rfl <;> rcases hi with rfl | rfl <;> rfl
  exact ⟨hcells, (eval_of_sameCells _ none).1 _ _ hcells⟩

end Expr
end TableMetrics
