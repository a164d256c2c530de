import TableMetrics.Dataset.View

/-! Datasets as they are handed in, before anything of them is read. They may be no dataset at all; and what stands for
    their columns, their rows or a row may be no list. -/

namespace TableMetrics

/-- What is handed in for a list, as far as it can be read: its length, the item at an index, and all items in
    order. -/
structure Sequence (α : Type) where
  length : Option Nat
  item (i : Nat) : Option α
  items : Option (List α)

namespace Sequence

def ofList {α : Type} (list : List α) : Sequence α := ⟨some list.length, (list[·]?), some list⟩

/-- A value that is no list in any respect, such as a number. -/
def scalar {α : Type} : Sequence α := ⟨none, fun _ => none, none⟩

end Sequence

/-- What is read of a value, which fails if it cannot be read. -/
def readable {α : Type} (x : Option α) : Except Failure α := x.elim (.error .unreadable) .ok

/-- A row as it is handed in; null is a row without cells. -/
abbrev Row := Option (Sequence Value)

/-- The cell of a row at an index, which is null if the row is too short. -/
def Row.cell (index : Nat) : Row → Except Failure Value
  | none => .ok .null
  | some cells => do
    if index < (← readable cells.length) then readable (cells.item index) else return .null

inductive Input where
  /-- There are no columns or no rows. -/
  | malformed
  | mapping (columns : Option (List String)) (rows : Sequence Row)

namespace Input
open Failing

/-- What is seen of rows under the columns of a dataset. Rows are read when they are looked at, and not before. -/
def viewRows (d : Dataset) (rows : Sequence Row) : View Failure where
  columns := d.columns
  size := readable rows.length
  columnIndex column := lift (d.columnIndex column)
  cell i column := do
    let index ← lift (d.columnIndex column)
    if i < 0 then return .null
    if i.toNat < (← readable rows.length) then (← readable (rows.item i.toNat)).cell index else return .null
  columnValues column := do
    let index ← lift (d.columnIndex column)
    (← readable rows.items).mapM (Row.cell index)

/-- What evaluation sees of an input. Its columns are read at once and must differ. -/
def view : Input → Except Failure (View Failure)
  | .malformed => .error (.metric .malformedDataset)
  | .mapping columns rows => do
    let d ← lift (Dataset.ofTable ⟨← readable columns, []⟩)
    return viewRows d rows

/-- A table, which may be missing, as an input. -/
def ofTable : Option Table → Input
  | none => .malformed
  | some t => .mapping (some t.columns) (.ofList (t.rows.map fun row => row.map Sequence.ofList))

end Input
end TableMetrics
