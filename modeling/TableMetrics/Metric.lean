import TableMetrics.Problem
import TableMetrics.Log

/-! Metrics as they are stored: an expression, or else an operation on a column. -/

namespace TableMetrics

/-- The definition of a metric. A text that is empty counts as missing, except for the name. -/
structure Metric where
  name : Option String
  expression : Option String
  operation : Option String
  column : Option String
  deriving DecidableEq, Inhabited

/-- A field of a metric that is there and not empty. -/
def given? (field : Option String) : Option String := field.filter (!·.isEmpty)

/-- What an execution leaves: its records, from the first to the last, and its outcome. -/
structure Execution (ε : Type) where
  log : List LogEvent
  outcome : Except ε Value

namespace Metric
open Failing

section View
variable {ε : Type} [Failing ε]

/-- What a metric that has no expression is executed on: a view, the number of its rows, an operation and a column. -/
structure Operands (ε : Type) where
  view : View ε
  operation : String
  column : String
  rows : Nat

def operands (m : Metric) (source : Except ε (View ε)) : Except ε (Operands ε) := do
  let v ← source
  let operation ← lift (MetricError.operationRequired.require (given? m.operation))
  let column ← lift (MetricError.columnRequired.require (given? m.column))
  return ⟨v, operation, column, ← v.size⟩

/-- The warning that an execution failed, if a metric can fail in this way. -/
def warning (record : MetricError → LogEvent) (e : ε) : List LogEvent := ((metric? e).map record).toList

/-- Calculates what is asked for and records it. Nothing is recorded where there is nothing to calculate. -/
def executeOn : Except ε (Operands ε) → Execution ε
  | .error e => ⟨[], .error e⟩
  | .ok ⟨v, operation, column, rows⟩ =>
    let begun := .executing operation column rows
    match v.calculate column operation with
    | .ok n => ⟨[begun, .executed operation column n], .ok (.number n)⟩
    | .error e => ⟨begun :: warning (.executionFailed operation column) e, .error e⟩

/-- Executes the operation of a metric on its column. -/
def executeOperationIn (m : Metric) (source : Except ε (View ε)) : Execution ε := executeOn (m.operands source)

/-- Executes a metric: its expression if it has one, and otherwise its operation. -/
def executeIn (m : Metric) (source : Except ε (View ε)) : Execution ε :=
  match given? m.expression with
  | none => m.executeOperationIn source
  | some expression =>
    match evaluateIn expression source with
    | .ok v => ⟨[.evaluating expression], .ok v⟩
    | .error e => ⟨.evaluating expression :: warning (.evaluationFailed expression) e, .error e⟩

end View

/-- Executes the operation of a metric over a table. -/
def executeOperation (m : Metric) (input : Option Table) : Execution MetricError := m.executeOperationIn (source input)

/-- Executes a metric over a table. -/
def execute (m : Metric) (input : Option Table) : Execution MetricError := m.executeIn (source input)

def operationProblem? (m : Metric) : Option Problem :=
  match given? m.operation with
  | none => some .operationRequired
  | some operation =>
    if (Aggregate.ofOperation? operation).isNone then some (.unsupportedOperation operation) else none

def columnProblem? (m : Metric) (known : Option (List String)) : Option Problem :=
  match given? m.column, known with
  | none, _ => some .columnRequired
  | some column, some columns => if column ∈ columns then none else some (.columnNotFound column)
  | some _, none => none

/-- The problems of a metric, checked against the known columns if these are given. -/
def problems (m : Metric) (known : Option (List String)) : List Problem :=
  match given? m.expression with
  | some expression => checkExpression expression known
  | none => m.operationProblem?.toList ++ (m.columnProblem? known).toList

def check (m : Option Metric) (known : Option (List String)) : List Problem :=
  match m with
  | some m => m.problems known
  | none => [.definitionRequired]

end Metric

end TableMetrics
