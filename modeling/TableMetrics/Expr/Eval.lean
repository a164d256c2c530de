import TableMetrics.Dataset.Aggregate

/-! Evaluation of an expression over a dataset. There may be a row to evaluate it at: then a column is its cell in
    that row. Without one a column is the text of its first cell that is not null. Aggregates take the whole
    column in either case. -/

namespace TableMetrics
namespace Expr

/-- The number that an operand stands for; null stands for zero. -/
def operand (op : String) (side : Side) (v : Value) : Except MetricError Number :=
  match v with
  | .null => .ok (.integer 0)
  | v => if v.toNumber.isNaN then .error (.notNumeric op side v) else .ok (.float v.toNumber)

def calculate (op : String) (m n : Number) : Except MetricError Number :=
  match ArithOp.ofSymbol? op with
  | some .plus => .ok (m.add n)
  | some .minus => .ok (m.sub n)
  | some .times => .ok (m.mul n)
  | some .divide => if n.isZero then .error .divisionByZero else .ok (m.div n)
  | none => .error (.unknownOperator op)

/-- One if a comparison holds and zero otherwise. -/
def decideOrder (op : String) (o : Option Ordering) : Except MetricError Value :=
  match CompareOp.ofSymbol? op with
  | some op => .ok (.number (.integer (if op.holds o then 1 else 0)))
  | none => .error (.unknownComparison op)

/-- Compares two values: as texts if one of them is a text, and as numbers otherwise. -/
def compareValues (op : String) (l r : Value) : Except MetricError Value :=
  match l, r with
  | .text _, _ => decideOrder op (some (Ord.compare l.toText r.toText))
  | _, .text _ => decideOrder op (some (Ord.compare l.toText r.toText))
  | l, r => do
    let m ← operand op .left l
    let n ← operand op .right r
    decideOrder op (m.toBinary64.order? n.toBinary64)

open Failing

section View
variable {ε : Type} [Failing ε]

/-- The column that is the only argument of a function. The column must exist. -/
def columnArgument (v : View ε) (function : String) (args : List Expr) : Except ε String :=
  match args with
  | [.column name] => (v.columnIndex name).map fun _ => name
  | [argument] => .error (ofMetric (.notAColumn function argument v.columns))
  | _ => .error (ofMetric (.columnArity function args.length))

/-- The cell that stands for a column: that of the row, or without one the first that is not null. -/
def columnCell (v : View ε) (row : Option Int) (name : String) : Except ε Value :=
  match row with
  | some i => v.cell i name
  | none => v.firstValue name

def columnText (v : View ε) (row : Option Int) (name : String) : Except ε Value :=
  (columnCell v row name).map fun w => .text w.toText

/-- The value of a column: its cell in the row, or without one its text. -/
def columnValue (v : View ε) (row : Option Int) (name : String) : Except ε Value :=
  match row with
  | some _ => columnCell v row name
  | none => columnText v row name

/-- The value of an expression over what a view shows. Operands and conditions are evaluated from left to right; of
    the two branches of a condition the other one is not evaluated. -/
def evalIn (v : View ε) (row : Option Int) : Expr → Except ε Value
  | .number n => .ok (.number n)
  | .text s => .ok (.text s)
  | .null => .ok .null
  | .column name => columnValue v row name
  | .arith op l r => do
    let m ← lift (operand op .left (← evalIn v row l))
    let n ← lift (operand op .right (← evalIn v row r))
    return .number (← lift (calculate op m n))
  | .compare op l r => do
    let left ← evalIn v row l
    let right ← evalIn v row r
    lift (compareValues op left right)
  | .call function args =>
    match Function.ofName? function with
    | none => .error (ofMetric (.unknownFunction function))
    | some f =>
      if hchoose : f = .choose then
        match args with
        | [condition, yes] => do
          if (← evalIn v row condition).isTruthy then evalIn v row yes else return .null
        | [condition, yes, no] => do
          if (← evalIn v row condition).isTruthy then evalIn v row yes else evalIn v row no
        | _ => .error (ofMetric .chooseArity)
      else if hdistinct : f = .aggregate .countDistinct then
        match args with
        | [.column name] => (v.aggregate .countDistinct name).map .number
        | [argument] => do
          let values ← (List.range (← v.size)).mapM fun (i : Nat) => evalIn v (some (i : Int)) argument
          return .number (.integer (distinctKeys values).length)
        | _ => .error (ofMetric (.distinctArity function args.length))
      else if htext : f = .text then do
        let name ← columnArgument v function args
        columnText v row name
      else do
        let name ← columnArgument v function args
        (v.aggregate (f.kernel ⟨hchoose, hdistinct, htext⟩) name).map .number

end View

/-- The value of an expression over a dataset. -/
def eval (d : Dataset) (row : Option Int) (e : Expr) : Except MetricError Value := evalIn d.view row e

section Eval
variable {d : Dataset} {row : Option Int}

theorem columnCell_row (i : Int) (name : String) : columnCell d.view (some i) name = d.cell i name := rfl

theorem columnCell_first (name : String) : columnCell d.view none name = d.firstValue name := rfl

theorem eval_number (n : Number) : eval d row (.number n) = .ok (.number n) := rfl

theorem eval_literal (s : String) : eval d row (.text s) = .ok (.text s) := rfl

theorem eval_null : eval d row .null = .ok .null := rfl

theorem eval_column (name : String) : eval d row (.column name) = columnValue d.view row name := rfl

theorem eval_arith (op : String) (l r : Expr) : eval d row (.arith op l r) = (do
    let m ← operand op .left (← eval d row l)
    let n ← operand op .right (← eval d row r)
    return .number (← calculate op m n)) := by
  rw [eval, evalIn]
  simp only [lift_self]
  rfl

theorem eval_compare (op : String) (l r : Expr) : eval d row (.compare op l r) = (do
    let left ← eval d row l
    let right ← eval d row r
    compareValues op left right) := by
  rw [eval, evalIn]
  simp only [lift_self]
  rfl

/-- No argument of an unknown function is evaluated. -/
theorem eval_unknown {f : String} (hf : Function.ofName? f = none) (args : List Expr) :
    eval d row (.call f args) = .error (.unknownFunction f) := by
  rw [eval, evalIn.eq_def]
  simp only [hf]
  rfl

end Eval

end Expr

end TableMetrics
