import TableMetrics.Proofs.Input
import TableMetrics.Proofs.Metric.Check

/-! What the execution of a metric records. The records tell the outcome and do not change it: where there are any, the
    first one tells of the start, and the last one of the failure if there is one, or of the value of an operation. -/

namespace TableMetrics

/-! ### Records -/

namespace LogEvent
variable {r : LogEvent} {e : MetricError} {v : Value}

/-- The record tells that an execution begins. -/
inductive IsStart : LogEvent → Prop where
  | executing (operation column : String) (rows : Nat) : IsStart (.executing operation column rows)
  | evaluating (expression : String) : IsStart (.evaluating expression)

def value? : LogEvent → Option Value
  | .executed _ _ n => some (.number n)
  | _ => none

theorem IsStart.level (h : r.IsStart) : r.level = .debug := by cases h <;> rfl

end LogEvent

/-! ### Executions -/

namespace Execution

/-- An execution that fails in no other way than metrics do, as one that could. -/
def lift {ε : Type} [Failing ε] (x : Execution MetricError) : Execution ε := ⟨x.log, Failing.lift x.outcome⟩

variable {r : LogEvent}

end Execution

/-- What is handed in for the columns, or for the rows, is no list: there are no names to be read, or no number of
    rows. -/
inductive Input.Unlisted : Input → Prop where
  | columns (rows : Sequence Row) : Unlisted (.mapping none rows)
  | rows (columns : Option (List String)) {rows : Sequence Row} (h : rows.length = none) :
    Unlisted (.mapping columns rows)

namespace Metric
variable {m : Metric} {input : Input}

/-! ### Operations -/

/-- The execution of an operation lacks its dataset, which is malformed, or its operation, or its column. -/
inductive LacksOperands (m : Metric) : Input → Prop where
  | malformed : LacksOperands m .malformed
  | repeated {columns : List String} (h : ¬columns.Nodup) (rows : Sequence Row) :
    LacksOperands m (.mapping (some columns) rows)
  | operation (input : Input) (h : m.operation = none ∨ m.operation = some "") : LacksOperands m input
  | column (input : Input) (h : m.column = none ∨ m.column = some "") : LacksOperands m input

/-- The failures of an execution that does not begin. -/
inductive Unbegun (m : Metric) (input : Input) : Failure → Prop where
  | invalid {e : MetricError} (h : m.LacksOperands input) (hkind : e.kind = .invalidArgument) :
    Unbegun m input (.metric e)
  | unreadable (h : input.Unlisted) : Unbegun m input .unreadable

open LogEvent Execution

theorem Unbegun.cause {e : Failure} (h : m.Unbegun input e) : m.LacksOperands input ∨ input.Unlisted := by
  cases h with
  | invalid h _ => exact Or.inl h
  | unreadable h => exact Or.inr h

section Lift
open Failing
variable {ε : Type} [Failing ε] {s : Except ε (View ε)} {s' : Except MetricError (View MetricError)}

end Lift

end Metric
end TableMetrics
