import TableMetrics.Expr.Eval

/-! Evaluation of the text of an expression over a table as it is handed in. -/

namespace TableMetrics

def Expr.ofText (expression : String) : Except MetricError Expr := do
  let ts ← (Token.ofText expression).mapError .lexical
  (Expr.ofTokens ts).mapError .syntactic

theorem Expr.ofText_of_tokens {expression : String} {ts : List Token} (h : Token.ofText expression = .ok ts) :
    Expr.ofText expression = (Expr.ofTokens ts).mapError .syntactic := by
  rw [ofText, h]
  rfl

open Failing

/-- The value of an expression over what a source shows, which may fail to show anything. A blank expression is found
    first, the failure of the source next, and the faults of the expression after that. -/
def evaluateIn {ε : Type} [Failing ε] (expression : String) (source : Except ε (View ε)) : Except ε Value :=
  if isBlankText expression then .error (ofMetric .blank)
  else do
    let v ← source
    let e ← lift (Expr.ofText expression)
    e.evalIn v none

/-- What evaluation sees of a table that may be missing or not be a dataset. -/
def source (input : Option Table) : Except MetricError (View MetricError) := (Dataset.ofInput input).map Dataset.view

/-- The value of an expression over a table. -/
def evaluate (expression : String) (input : Option Table) : Except MetricError Value :=
  evaluateIn expression (source input)

theorem evaluate_eq_ite (expression : String) (input : Option Table) : evaluate expression input =
    if isBlankText expression then .error .blank
    else Dataset.ofInput input >>= fun d => Expr.ofText expression >>= fun e => e.eval d none := by
  rw [evaluate, evaluateIn, source]
  simp only [lift_self]
  cases Dataset.ofInput input <;> rfl

/-- The value of a tree over a table at a row, if one is given. -/
def evaluateTree (e : Expr) (input : Option Table) (row : Option Int) : Except MetricError Value := do
  e.eval (← Dataset.ofInput input) row

/-- The value of an expression over a table at a row, if one is given. The faults of the expression are found
    before those of the table. -/
def evaluateAt (expression : String) (input : Option Table) (row : Option Int) : Except MetricError Value := do
  evaluateTree (← Expr.ofText expression) input row

/-- A value as results report it: a number that is not finite is reported as null. -/
def Value.reported : Value → Value
  | .number (.float x) => if x.isFinite then .number (.float x) else .null
  | v => v

/-- The value of an expression over a table, as results report it. -/
def evaluateReported (expression : String) (input : Option Table) : Except MetricError Value :=
  (evaluate expression input).map Value.reported

end TableMetrics
