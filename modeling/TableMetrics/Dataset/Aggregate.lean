import TableMetrics.Dataset.View
import TableMetrics.Number.Sum

/-! Aggregates of a column. Statistics leave out the cells that stand for no finite number, and counts leave out
    null alone. -/

namespace TableMetrics

def numericValues (cells : List Value) : List Binary64 := (cells.map (·.toNumber)).filter (·.isFinite)

def distinctKeys (cells : List Value) : List String :=
  ((cells.filter (!·.isNull)).map (·.toText)).foldr List.insert []

namespace Statistic

/-- The number of places behind the point of means, sums and deviations. -/
def places : Nat := 4

def average (xs : List Binary64) : Binary64 := (Binary64.sum xs).div (.ofInt xs.length)

/-- The lesser of two numbers, the first if they are equal. -/
def lesser (x y : Binary64) : Binary64 := if y.order? x = some .lt then y else x

/-- The greater of two numbers, the first if they are equal. -/
def greater (x y : Binary64) : Binary64 := if y.order? x = some .gt then y else x

/-- The root of the mean square distance from the mean. -/
def spread (xs : List Binary64) : Binary64 :=
  let mean := average xs
  (average (xs.map fun x => (x.sub mean).mul (x.sub mean))).sqrt

/-- The statistic of the numbers `x` and `xs`. A single number has no deviation. -/
def of (s : Statistic) (x : Binary64) (xs : List Binary64) : Binary64 :=
  match s with
  | .mean => (average (x :: xs)).roundPlaces places
  | .sum => (Binary64.sum (x :: xs)).roundPlaces places
  | .minimum => xs.foldl lesser x
  | .maximum => xs.foldl greater x
  | .deviation => if xs.isEmpty then .zero false else (spread (x :: xs)).roundPlaces places

/-- The statistic of the numbers that cells stand for, if there are any. -/
def ofCells? (s : Statistic) (cells : List Value) : Option Binary64 :=
  match numericValues cells with
  | [] => none
  | x :: xs => some (s.of x xs)

end Statistic

/-- An aggregate of the cells of a column. -/
def Aggregate.ofCells (a : Aggregate) (column : String) (cells : List Value) : Except MetricError Number :=
  match a with
  | .count => .ok (.integer (cells.filter (!·.isNull)).length)
  | .countDistinct => .ok (.integer (distinctKeys cells).length)
  | .statistic s => ((MetricError.emptyColumn s column).require (s.ofCells? cells)).map .float

open Failing

namespace View
variable {ε : Type} [Failing ε]

def aggregate (v : View ε) (a : Aggregate) (column : String) : Except ε Number := do
  lift (a.ofCells column (← v.columnValues column))

/-- The aggregate of a column that an operation names. -/
def calculate (v : View ε) (column operation : String) : Except ε Number :=
  if operation.isEmpty then .error (ofMetric .operationTypeRequired)
  else do
    let a ← lift ((MetricError.unsupportedOperation operation).require (Aggregate.ofOperation? operation))
    v.aggregate a column

end View

namespace Dataset

/-- The finite numbers that the cells of a column stand for, in the order of the rows. -/
def columnNumbers (d : Dataset) (column : String) : Except MetricError (List Binary64) :=
  (d.columnValues column).map numericValues

/-- The different texts of the cells of a column that are not null, in ascending order. -/
def columnKeys (d : Dataset) (column : String) : Except MetricError (List String) :=
  (d.columnValues column).map fun cells => (distinctKeys cells).mergeSort fun s t => decide (s ≤ t)

def aggregate (d : Dataset) (a : Aggregate) (column : String) : Except MetricError Number := d.view.aggregate a column

def calculate (d : Dataset) (column operation : String) : Except MetricError Number := d.view.calculate column operation

theorem aggregate_eq (d : Dataset) (a : Aggregate) (column : String) :
    d.aggregate a column = d.columnValues column >>= a.ofCells column := by
  rw [aggregate, View.aggregate]
  simp only [lift_self, view_columnValues]

theorem calculate_eq_ite (d : Dataset) (column operation : String) : d.calculate column operation =
    if operation.isEmpty then .error .operationTypeRequired
    else (MetricError.unsupportedOperation operation).require (Aggregate.ofOperation? operation) >>= fun a =>
      d.aggregate a column := by
  rw [calculate, View.calculate]
  simp only [lift_self]
  rfl

end Dataset

end TableMetrics
