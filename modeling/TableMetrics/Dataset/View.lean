import TableMetrics.Dataset
import TableMetrics.Failure

/-! Views: a dataset as evaluation sees it, by its look-ups alone. -/

namespace TableMetrics

/-- The columns of a dataset, the number of its rows, and its look-ups by the name of a column. Each of them may
    fail. -/
structure View (ε : Type) where
  columns : List String
  size : Except ε Nat
  columnIndex (column : String) : Except ε Nat
  cell (row : Int) (column : String) : Except ε Value
  columnValues (column : String) : Except ε (List Value)

def View.firstValue {ε : Type} (v : View ε) (column : String) : Except ε Value :=
  (v.columnValues column).map firstNonNull

namespace Dataset

def view (d : Dataset) : View MetricError := ⟨d.columns, .ok d.size, d.columnIndex, d.cell, d.columnValues⟩

variable (d : Dataset) (column : String)

@[simp] theorem view_columns : d.view.columns = d.columns := rfl

@[simp] theorem view_size : d.view.size = .ok d.size := rfl

@[simp] theorem view_columnIndex : d.view.columnIndex column = d.columnIndex column := rfl

@[simp] theorem view_cell (row : Int) : d.view.cell row column = d.cell row column := rfl

@[simp] theorem view_columnValues : d.view.columnValues column = d.columnValues column := rfl

@[simp] theorem view_firstValue : d.view.firstValue column = d.firstValue column := rfl

end Dataset
end TableMetrics
