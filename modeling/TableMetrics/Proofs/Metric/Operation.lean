import TableMetrics.Metric
import TableMetrics.Proofs.Expr.Source

/-! The operation of a metric on its column, and the call of the function of the same name. Operations and functions
    have lists of names of their own, but the name of an operation in upper case is that of its function. -/

namespace TableMetrics

theorem given?_eq_some_iff {field : Option String} {s : String} :
    given? field = some s ↔ field = some s ∧ s.isEmpty = false := by
  simp [given?, Option.filter_eq_some_iff]

/-! ### Names of operations -/

namespace Aggregate

theorem isEmpty_of_ofOperation? {operation : String} {a : Aggregate} (h : ofOperation? operation = some a) :
    operation.isEmpty = false := by
  rw [Bool.eq_false_iff]
  intro hempty
  have hnone : ofOperation? "" = none := by decide +kernel
  rw [String.isEmpty_iff.mp hempty, hnone] at h
  cases h

/-- The name of an operation in upper case is a name of its function. -/
theorem upper_operationName (a : Aggregate) : Function.ofName? (upper a.operationName) = some (.aggregate a) ∧
    isName (upper a.operationName) = true ∧ upper (upper a.operationName) = upper a.operationName := by
  rcases a with s | _ | _
  · cases s <;> decide +kernel
  · decide +kernel
  · decide +kernel

end Aggregate

theorem isEmpty_of_isName {s : String} (h : isName s = true) : s.isEmpty = false := by
  rw [Bool.eq_false_iff]
  intro hempty
  rw [String.isEmpty_iff.mp hempty] at h
  exact absurd h (by decide)

theorem Expr.describe_call_column (f column : String) :
    describe (.call f [.column column]) = f ++ "(" ++ column ++ ")" := by
  rw [describe, describeAll, describeAll, describe, String.intercalate_singleton]

/-! ### Executing an operation -/

theorem View.calculate_eq {ε : Type} [Failing ε] {operation : String} {a : Aggregate}
    (h : Aggregate.ofOperation? operation = some a) (v : View ε) (column : String) :
    v.calculate column operation = v.aggregate a column := by
  rw [calculate, Aggregate.isEmpty_of_ofOperation? h, h]
  rfl

theorem Dataset.calculate_eq {operation : String} {a : Aggregate} (h : Aggregate.ofOperation? operation = some a)
    (d : Dataset) (column : String) : d.calculate column operation = d.aggregate a column :=
  View.calculate_eq h d.view column

namespace Metric

variable {m : Metric} {operation column : String}

theorem executeOperationIn_of_operands {ε : Type} [Failing ε] {source : Except ε (View ε)} {x : Operands ε}
    (h : m.operands source = .ok x) :
    (m.executeOperationIn source).outcome = (x.view.calculate x.column x.operation).map .number := by
  rw [executeOperationIn, h, executeOn]
  cases x.view.calculate x.column x.operation <;> rfl

/-- A metric without an expression comes to what the dataset calculates, if it has an operation and a column. -/
theorem executeOperation_outcome (m : Metric) (d : Dataset) : (m.executeOperation (some d.toTable)).outcome =
    (MetricError.operationRequired.require (given? m.operation) >>= fun operation =>
      MetricError.columnRequired.require (given? m.column) >>= fun column =>
        (d.calculate column operation).map .number) := by
  have hoperands : m.operands (source (some d.toTable)) =
      (MetricError.operationRequired.require (given? m.operation) >>= fun operation =>
        MetricError.columnRequired.require (given? m.column) >>= fun column =>
          pure ⟨d.view, operation, column, d.size⟩) := by
    rw [operands, source, Dataset.ofInput_toTable]
    simp only [Failing.lift_self]
    rfl
  cases ho : given? m.operation with
  | none =>
    rw [executeOperation, executeOperationIn, hoperands, ho]
    rfl
  | some operation =>
    cases hc : given? m.column with
    | none =>
      rw [executeOperation, executeOperationIn, hoperands, ho, hc]
      rfl
    | some column =>
      rw [ho, hc] at hoperands
      exact executeOperationIn_of_operands hoperands

/-- An operation on a column comes to what the call of its function with the column comes to, value or failure. -/
theorem executeOperation_eq_evaluate {a : Aggregate} (ho : m.operation = some operation) (hc : m.column = some column)
    (ha : Aggregate.ofOperation? operation = some a) (hname : isName column = true) (hnull : upper column ≠ "NULL")
    (d : Dataset) : (m.executeOperation (some d.toTable)).outcome =
      evaluate (upper a.operationName ++ "(" ++ column ++ ")") (some d.toTable) := by
  obtain ⟨hfunction, hf, hupper⟩ := a.upper_operationName
  have ho' := given?_eq_some_iff.mpr ⟨ho, Aggregate.isEmpty_of_ofOperation? ha⟩
  have hc' := given?_eq_some_iff.mpr ⟨hc, isEmpty_of_isName hname⟩
  have hcall : Expr.Plain (.call (upper a.operationName) [.column column]) := by
    refine .call hf hupper fun e he => ?_
    cases List.mem_singleton.mp he
    exact .column hname hnull
  have htext := Expr.ofText_of_prints hcall.prints.expression
  rw [Expr.describe_call_column] at htext
  rw [executeOperation_outcome, ho', hc', evaluate_of_ofText htext, Expr.eval_aggregate_column hfunction,
    ← Dataset.calculate_eq ha]
  rfl

/-- An alias with blanks around it, on a column that is not there. -/
theorem executeOperation_eq_evaluate_missing :
    Aggregate.ofOperation? " CountDistinct\t" = some .countDistinct ∧ isName "net_2" = true ∧ upper "net_2" ≠ "NULL" ∧
    (executeOperation ⟨none, none, some " CountDistinct\t", some "net_2"⟩ (some ⟨["a"], [none]⟩)).outcome =
      evaluate "COUNT_DISTINCT(net_2)" (some ⟨["a"], [none]⟩) := by
  have ha : Aggregate.ofOperation? " CountDistinct\t" = some .countDistinct := by decide +kernel
  have hname : isName "net_2" = true := by decide
  have hnull : upper "net_2" ≠ "NULL" := by decide +kernel
  have htext : upper (Aggregate.operationName .countDistinct) ++ "(" ++ "net_2" ++ ")" = "COUNT_DISTINCT(net_2)" := by
    decide +kernel
  have heq := executeOperation_eq_evaluate (m := ⟨none, none, some " CountDistinct\t", some "net_2"⟩) rfl rfl ha hname
    hnull ⟨⟨["a"], [none]⟩, by decide⟩
  rw [htext] at heq
  exact ⟨ha, hname, hnull, heq⟩

end Metric

end TableMetrics
