import TableMetrics.Evaluation

/-! Checking an expression without a dataset. -/

namespace TableMetrics

inductive Problem where
  | expressionRequired
  | failure (e : MetricError)
  /-- An expression names a column that is not among the known ones. -/
  | unknownColumn (column : String) (known : List String)
  | definitionRequired
  | operationRequired
  | unsupportedOperation (operation : String)
  | columnRequired
  /-- A metric names a column that is not among the known ones. -/
  | columnNotFound (column : String)
  deriving Inhabited

def Problem.message : Problem → String
  | .expressionRequired => "Metric expression is required"
  | .failure e => e.report
  | .unknownColumn column known =>
    "MissingColumn: Column \"" ++ column ++ "\" not found. Available columns: " ++ listing known
  | .definitionRequired => "Metric definition is required"
  | .operationRequired => "Operation is required"
  | .unsupportedOperation operation => "Unsupported operation: " ++ operation
  | .columnRequired => "Column is required"
  | .columnNotFound column => "Column \"" ++ column ++ "\" not found in dataset"

namespace Expr

/-- What is wrong with an expression itself, apart from its parts: it calls a function that does not exist, or is
    a column that is not among the known ones, if these are given. -/
def problem? (known : Option (List String)) : Expr → Option Problem
  | .call f _ => if (Function.ofName? f).isNone then some (.failure (.unknownFunction f)) else none
  | .column name =>
    match known with
    | some columns => if name ∈ columns then none else some (.unknownColumn name columns)
    | none => none
  | _ => none

/-- The problems of an expression and its parts, in the order in which they are written. -/
def problems (known : Option (List String)) (e : Expr) : List Problem := e.walk.filterMap (problem? known)

end Expr

/-- The problems of the text of an expression; it is valid if there are none. -/
def checkExpression (expression : String) (known : Option (List String)) : List Problem :=
  if isBlankText expression then [.expressionRequired]
  else
    match Expr.ofText expression with
    | .error e => [.failure e]
    | .ok e => e.problems known

end TableMetrics
