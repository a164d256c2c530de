import TableMetrics.Proofs.Metric.Operation

/-! Checking a metric and executing it. A metric without an expression is found valid where its execution fails for the
    cells of its column at most, and otherwise its problems tell how the execution fails; a metric with an expression
    that is found valid fails for values alone. -/

namespace TableMetrics
namespace Metric
variable {m : Metric} {d : Dataset} {problems : List Problem} {r : Except MetricError Value}

/-! ### Metrics without an expression -/

/-- What the problems of a metric without an expression tell of the outcome of its execution. -/
inductive Verdict (m : Metric) (d : Dataset) : List Problem → Except MetricError Value → Prop where
  | runs {r : Except MetricError Value} (h : OnlyFails [.emptyColumn] r) : Verdict m d [] r
  | missing {column : String} (hcolumn : m.column = some column) (h : column ∉ d.columns) :
    Verdict m d [.columnNotFound column] (.error (.missingColumn column d.columns))
  | invalid {problems : List Problem} {p : Problem} {e : MetricError} (hp : p ∈ problems)
    (hother : ∀ column, p ≠ .columnNotFound column) (hkind : e.kind = .invalidArgument) :
    Verdict m d problems (.error e)

namespace Verdict

theorem eq_nil_iff (h : Verdict m d problems r) :
    problems = [] ↔ (∃ v, r = .ok v) ∨ ∃ e, r = .error e ∧ e.kind = .emptyColumn := by
  cases h with
  | runs h =>
    refine iff_of_true rfl ?_
    cases r with
    | ok v => exact Or.inl ⟨v, rfl⟩
    | error e => exact Or.inr ⟨e, rfl, List.mem_singleton.mp (h e rfl)⟩
  | missing =>
    refine iff_of_false (List.cons_ne_nil _ _) ?_
    rintro (⟨v, hv⟩ | ⟨e, he, hkind⟩)
    · cases hv
    · cases he
      cases hkind
  | invalid hp _ hinvalid =>
    refine iff_of_false (List.ne_nil_of_mem hp) ?_
    rintro (⟨v, hv⟩ | ⟨e, he, hkind⟩)
    · cases hv
    · cases he
      rw [hinvalid] at hkind
      cases hkind

theorem missingColumn_iff (h : Verdict m d problems r) : (∃ e, r = .error e ∧ e.kind = .missingColumn) ↔
    ∃ column, m.column = some column ∧ column ∉ d.columns ∧ problems = [.columnNotFound column] := by
  cases h with
  | runs h =>
    refine iff_of_false ?_ fun ⟨_, _, _, heq⟩ => nomatch heq
    rintro ⟨e, he, hkind⟩
    have hempty := List.mem_singleton.mp (h e he)
    rw [hempty] at hkind
    cases hkind
  | missing hcolumn h => exact iff_of_true ⟨_, rfl, rfl⟩ ⟨_, hcolumn, h, rfl⟩
  | invalid hp hother hinvalid =>
    constructor
    · rintro ⟨e, he, hkind⟩
      cases he
      rw [hinvalid] at hkind
      cases hkind
    · rintro ⟨column, -, -, rfl⟩
      exact absurd (List.mem_singleton.mp hp) (hother column)

theorem invalidArgument (h : Verdict m d problems r) (hne : problems ≠ [])
    (hmissing : ∀ column, problems ≠ [.columnNotFound column]) : ∃ e, r = .error e ∧ e.kind = .invalidArgument := by
  cases h with
  | runs => exact absurd rfl hne
  | missing => exact absurd rfl (hmissing _)
  | invalid _ _ hkind => exact ⟨_, rfl, hkind⟩

end Verdict

theorem kind_of_unsupported {operation : String} (h : Aggregate.ofOperation? operation = none) (d : Dataset)
    (column : String) : ∃ e, d.calculate column operation = .error e ∧ e.kind = .invalidArgument := by
  rw [Dataset.calculate_eq_ite, h]
  split
  · exact ⟨_, rfl, rfl⟩
  · exact ⟨_, rfl, rfl⟩

/-- The problems of operation and column are a verdict on the execution. The cases are those of the execution: what is
    missing is found first, then what is not supported, and the column last. -/
theorem verdict (m : Metric) (d : Dataset) :
    Verdict m d (m.operationProblem?.toList ++ (m.columnProblem? (some d.columns)).toList)
      (m.executeOperation (some d.toTable)).outcome := by
  rw [executeOperation_outcome]
  cases ho : given? m.operation with
  | none =>
    have hp : m.operationProblem? = some .operationRequired := by simp only [operationProblem?, ho]
    rw [hp]
    exact .invalid (List.mem_cons_self ..) (fun _ heq => nomatch heq) rfl
  | some operation =>
    cases hc : given? m.column with
    | none =>
      have hp : m.columnProblem? (some d.columns) = some .columnRequired := by simp only [columnProblem?, hc]
      rw [hp]
      exact .invalid (List.mem_append_right _ (List.mem_cons_self ..)) (fun _ heq => nomatch heq) rfl
    | some column =>
      change Verdict m d _ ((d.calculate column operation).map Value.number)
      cases ha : Aggregate.ofOperation? operation with
      | none =>
        have hp : m.operationProblem? = some (.unsupportedOperation operation) := by
          simp [operationProblem?, ho, ha]
        obtain ⟨e, he, hkind⟩ := kind_of_unsupported ha d column
        rw [hp, he]
        exact .invalid (List.mem_cons_self ..) (fun _ heq => nomatch heq) hkind
      | some a =>
        have hp : m.operationProblem? = none := by simp [operationProblem?, ho, ha]
        rw [Dataset.calculate_eq ha, hp]
        by_cases hmem : column ∈ d.columns
        · have hp' : m.columnProblem? (some d.columns) = none := by simp [columnProblem?, hc, hmem]
          rw [hp']
          exact .runs ((aggregate_onlyFails (Or.inl hmem) (List.mem_singleton_self _) a).map _)
        · have hp' : m.columnProblem? (some d.columns) = some (.columnNotFound column) := by
            simp [columnProblem?, hc, hmem]
          rw [hp', Dataset.aggregate_of_not_mem hmem]
          exact .missing (given?_eq_some_iff.mp hc).1 hmem

/-! ### Metrics with an expression -/

theorem executeIn_outcome_of_expression {ε : Type} [Failing ε] {expression : String}
    (h : given? m.expression = some expression) (source : Except ε (View ε)) :
    (m.executeIn source).outcome = evaluateIn expression source := by
  unfold executeIn
  simp only [h]
  cases evaluateIn expression source <;> rfl

theorem executeIn_of_no_expression {ε : Type} [Failing ε] (h : given? m.expression = none) (source : Except ε (View ε)) :
    m.executeIn source = m.executeOperationIn source := by
  simp only [executeIn, h]

theorem execute_outcome_of_expression {expression : String} (h : given? m.expression = some expression)
    (input : Option Table) : (m.execute input).outcome = evaluate expression input :=
  executeIn_outcome_of_expression h (source input)

/-- A check decides the execution of a metric. Without an expression, a metric is valid if and only if its execution has
    a value or fails because the column holds no numbers; the execution fails for a missing column if and only if
    that is the only problem, and for an invalid argument whenever there are other problems. The execution of a valid
    metric with an expression fails for values alone. -/
theorem check_decides_execute (m : Metric) (d : Dataset) :
    (given? m.expression = none →
      (check (some m) (some d.columns) = [] ↔ (∃ v, (m.execute (some d.toTable)).outcome = .ok v) ∨
        ∃ e, (m.execute (some d.toTable)).outcome = .error e ∧ e.kind = .emptyColumn) ∧
      ((∃ e, (m.execute (some d.toTable)).outcome = .error e ∧ e.kind = .missingColumn) ↔
        ∃ column, m.column = some column ∧ column ∉ d.columns ∧
          check (some m) (some d.columns) = [.columnNotFound column]) ∧
      (check (some m) (some d.columns) ≠ [] →
        (∀ column, check (some m) (some d.columns) ≠ [.columnNotFound column]) →
        ∃ e, (m.execute (some d.toTable)).outcome = .error e ∧ e.kind = .invalidArgument)) ∧
    ∀ expression, given? m.expression = some expression → check (some m) (some d.columns) = [] →
      OnlyFails valueKinds (m.execute (some d.toTable)).outcome := by
  refine ⟨fun hnone => ?_, fun expression hsome hcheck => ?_⟩
  · have hverdict := verdict m d
    have hcheck : check (some m) (some d.columns) =
        m.operationProblem?.toList ++ (m.columnProblem? (some d.columns)).toList := by
      simp only [check, problems, hnone]
    have hexecute : m.execute (some d.toTable) = m.executeOperation (some d.toTable) :=
      executeIn_of_no_expression hnone _
    rw [hcheck, hexecute]
    exact ⟨hverdict.eq_nil_iff, hverdict.missingColumn_iff, hverdict.invalidArgument⟩
  · have hproblems : checkExpression expression (some d.columns) = [] := by
      simpa only [check, problems, hsome] using hcheck
    obtain ⟨-, e, he, hnone⟩ := exists_of_checkExpression hproblems
    rw [execute_outcome_of_expression hsome, evaluate_of_ofText he]
    refine Expr.eval_onlyFails (fun _ hk => hk) none e ⟨fun f args => Expr.function_of_problems hnone, ?_⟩
    exact fun name hname => Or.inl (Expr.column_of_problems hnone hname)

/-- An empty expression is none, and the operation is there but not its column; the other metric is valid, although its
    quotient is not. -/
theorem check_decides_execute_quotient :
    given? (some "") = none ∧
    check (some ⟨none, some "", some " Sum", some "b"⟩) (some ["a"]) = [.columnNotFound "b"] ∧
    (∃ e, (execute ⟨none, some "", some " Sum", some "b"⟩ (some ⟨["a"], []⟩)).outcome = .error e ∧
      e.kind = .missingColumn) ∧
    check (some ⟨none, some "a / 0", none, none⟩) (some ["a"]) = [] ∧
    OnlyFails valueKinds (execute ⟨none, some "a / 0", none, none⟩ (some ⟨["a"], []⟩)).outcome := by
  have hnone : given? (some "") = none := by decide
  have hsum : Aggregate.ofOperation? " Sum" = some (.statistic .sum) := by decide +kernel
  have hmissing : check (some ⟨none, some "", some " Sum", some "b"⟩) (some ["a"]) = [.columnNotFound "b"] := by
    have ho : given? (some " Sum") = some " Sum" := by decide
    have hc : given? (some "b") = some "b" := by decide
    simp [check, problems, operationProblem?, columnProblem?, hnone, ho, hc, hsum]
  have hsome : given? (some "a / 0") = some "a / 0" := by decide
  have hvalid : check (some ⟨none, some "a / 0", none, none⟩) (some ["a"]) = [] := by decide +kernel
  refine ⟨hnone, hmissing, ?_, hvalid, ?_⟩
  · refine ((check_decides_execute ⟨none, some "", some " Sum", some "b"⟩ ⟨⟨["a"], []⟩, by decide⟩).1 hnone).2.1.mpr ?_
    exact ⟨"b", rfl, by decide, hmissing⟩
  · exact (check_decides_execute ⟨none, some "a / 0", none, none⟩ ⟨⟨["a"], []⟩, by decide⟩).2 _ hsome hvalid

end Metric
end TableMetrics
