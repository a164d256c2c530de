import TableMetrics.Proofs.Metric.Check
import TableMetrics.Proofs.Service.Schema
import TableMetrics.Service
import TableMetrics.Service.Payload

/-! The answers to requests over a table. Evaluating an expression and executing a metric that has the expression come
    to the same: an evaluation tells of a failure in its answer and records it, and an execution answers with a status
    of its own. -/

namespace TableMetrics

/-- A value is reported as it is, unless it is a number that is not finite. -/
theorem Value.reported_cases (v : Value) :
    v.reported = .null ∨ v.reported = v ∧ ∀ x, v = .number (.float x) → x.isFinite = true := by
  unfold Value.reported
  split
  · next x =>
    split
    · next hfinite =>
      refine Or.inr ⟨rfl, ?_⟩
      rintro _ ⟨⟩
      exact hfinite
    · exact Or.inl rfl
  · next hother => exact Or.inr ⟨rfl, fun x hx => absurd hx (hother x)⟩

namespace Service

open Payload

/-! ### Values in answers -/

theorem valueJson_reported (v : Value) : valueJson v.reported = valueJson v := by
  have hreported : v.reported.reported = v.reported := by
    rcases v.reported_cases with h | ⟨h, -⟩
    · rw [h]
      rfl
    · rw [h, h]
  rw [valueJson, valueJson, hreported]

/-- No answer holds a number that is not finite. -/
theorem isFinite_of_valueJson {v : Value} {x : Binary64} (h : valueJson v = .number (.float x)) :
    x.isFinite = true := by
  unfold valueJson at h
  rcases v.reported_cases with hnull | ⟨heq, hfinite⟩
  · rw [hnull] at h
    cases h
  · rw [heq] at h
    cases v <;> cases h
    exact hfinite x rfl

/-! ### Answers to evaluations and executions -/

/-- The body of an answer to an evaluation that has a value. -/
def success (value : Json) : Json := .object [("ok", .bool true), ("value", value), ("error", .null)]

/-- The body of an answer to an evaluation that fails. -/
def failure (kind message : String) : Json :=
  .object [("ok", .bool false), ("value", .null),
    ("error", .object [("kind", .text kind), ("message", .text message)])]

/-- How an answer tells the outcome of an evaluation. -/
def outcomeBody : Except MetricError Value → Json
  | .ok v => success (valueJson v)
  | .error e => failure e.kind.name e.message

theorem evaluateResponse_eq (expression : String) (t : Table) : evaluateResponse expression t =
    ⟨200, outcomeBody (evaluateReported expression (some t)),
      match evaluateReported expression (some t) with
      | .ok _ => []
      | .error e => [.answeredFailure expression e.kind]⟩ := by
  unfold evaluateResponse
  cases evaluateReported expression (some t) <;> rfl

section Execute
variable {m : Metric} {t : Table}

theorem executeResponse_ok {v : Value} (h : (m.execute (some t)).outcome = .ok v) : executeResponse m t =
    ⟨200, .object [("name", optionalText m.name), ("value", valueJson v)], (m.execute (some t)).log⟩ := by
  unfold executeResponse
  simp only [h]

theorem executeResponse_error {e : MetricError} (h : (m.execute (some t)).outcome = .error e) : executeResponse m t =
    ⟨422, .object [("error", .text e.kind.name), ("detail", .text e.message)], (m.execute (some t)).log⟩ := by
  unfold executeResponse
  simp only [h]

end Execute

/-- An evaluation succeeds with a value if and only if the execution of a metric that has the expression is answered
    with the value, and fails if and only if that is answered with the kind and the message of the failure. -/
theorem evaluateResponse_iff {m : Metric} {expression : String} (h : given? m.expression = some expression)
    (t : Table) :
    (∀ value, (evaluateResponse expression t).body = success value ↔ (executeResponse m t).status = 200 ∧
      (executeResponse m t).body = .object [("name", optionalText m.name), ("value", value)]) ∧
    ∀ kind message, (evaluateResponse expression t).body = failure kind message ↔ (executeResponse m t).status = 422 ∧
      (executeResponse m t).body = .object [("error", .text kind), ("detail", .text message)] := by
  have houtcome := Metric.execute_outcome_of_expression h (some t)
  rw [evaluateResponse_eq, evaluateReported]
  cases hr : evaluate expression (some t) with
  | ok v =>
    rw [executeResponse_ok (houtcome.trans hr)]
    simp [Except.map, outcomeBody, success, failure, valueJson_reported]
  | error e =>
    rw [executeResponse_error (houtcome.trans hr)]
    simp [Except.map, outcomeBody, success, failure]

/-- What every answer to an evaluation tells: it is well if it tells of no error, it has no value otherwise, no value is
    a number that is not finite, and the failure alone is recorded. -/
theorem evaluateResponse_fields (expression : String) (t : Table) : ∃ ok value error,
    (evaluateResponse expression t).body = .object [("ok", .bool ok), ("value", value), ("error", error)] ∧
    (ok = true ↔ error = .null) ∧ (ok = false → value = .null) ∧
    (∀ x, value = .number (.float x) → x.isFinite = true) ∧
    ((∃ event ∈ (evaluateResponse expression t).log, event.level = .info) ↔ ok = false) := by
  rw [evaluateResponse_eq]
  cases evaluateReported expression (some t) with
  | ok v =>
    refine ⟨true, valueJson v, .null, rfl, ?_, ?_, fun x => isFinite_of_valueJson, ?_⟩ <;> simp
  | error e =>
    refine ⟨false, .null, .object [("kind", .text e.kind.name), ("message", .text e.message)], rfl, ?_, ?_, ?_, ?_⟩
    · simp
    · exact fun _ => rfl
    · rintro x ⟨⟩
    · simp [LogEvent.level]

/-! ### Requests over a table -/

/-- The answer to a request that posts a body for an expression to be evaluated. -/
def postEvaluate (g : Gateway) (body : Option Json) (maxRows : Int) : Response :=
  handle g ⟨"POST", "/api/metrics/evaluate", body, maxRows⟩

/-- The answer to a request that posts a body for a metric to be executed. -/
def postExecute (g : Gateway) (body : Option Json) (maxRows : Int) : Response :=
  handle g ⟨"POST", "/api/metrics/execute", body, maxRows⟩

def answerEvaluate : Option Json → Int → Response := postEvaluate .standard

def answerExecute : Option Json → Int → Response := postExecute .standard

section Requests
variable {body : Option Json} {maxRows : Int} {value : Json} {t : Table}

theorem executeWithin_standard (m : Metric) (t : Table) : executeWithin .standard m t = executeResponse m t := by
  have hnone : (given? m.expression).filter (Gateway.standard.exhausts · (some t)) = none := by
    cases given? m.expression <;> rfl
  unfold executeWithin
  simp only [hnone]

theorem answerEvaluate_eq : answerEvaluate body maxRows = withBody .standard (evaluation body) fun (expression, t) =>
    withinLimit maxRows t (evaluateResponse expression) := by rfl

theorem answerExecute_eq : answerExecute body maxRows = withBody .standard (execution body) fun (m, t) =>
    withinLimit maxRows t (executeWithin .standard m) := by rfl

theorem refuse_status_ne (findings : List Finding) : (refuse findings).status ≠ 200 := by
  unfold refuse
  split <;> rintro ⟨⟩

theorem withinLimit_of_le (h : (t.rows.length : Int) ≤ maxRows) (answer : Table → Response) :
    withinLimit maxRows t answer = answer t := if_neg (Int.not_lt.mpr h)

theorem answerEvaluate_of_isEvaluation {expression : String} (h : IsEvaluation value expression t)
    (hrows : (t.rows.length : Int) ≤ maxRows) :
    answerEvaluate (some value) maxRows = evaluateResponse expression t := by
  rw [answerEvaluate_eq, evaluation_eq_ok_iff.mpr h]
  exact withinLimit_of_le hrows _

theorem answerExecute_of_isExecution {m : Metric} (h : IsExecution value m t)
    (hrows : (t.rows.length : Int) ≤ maxRows) : answerExecute (some value) maxRows = executeResponse m t := by
  rw [answerExecute_eq, execution_eq_ok_iff.mpr h]
  exact (withinLimit_of_le hrows _).trans (executeWithin_standard m t)

/-- A body that is not of the schema and a table over the limit have statuses of their own, and every other body is
    evaluated. -/
theorem exists_of_answerEvaluate (h : (answerEvaluate body maxRows).status = 200) :
    ∃ expression t, answerEvaluate body maxRows = evaluateResponse expression t := by
  rw [answerEvaluate_eq] at h ⊢
  cases hbody : evaluation body with
  | error findings =>
    rw [hbody] at h
    exact absurd h (refuse_status_ne findings)
  | ok checked =>
    obtain ⟨expression, t⟩ := checked
    simp only [hbody, withBody, withinLimit] at h ⊢
    split at h
    · cases h
    · next hlimit => exact ⟨expression, t, if_neg hlimit⟩

end Requests

/-- Evaluating an expression over a table and executing a metric with the expression over the table have one outcome.
    An evaluation is answered with it whether it succeeds or fails. An execution is answered with the same value if and
    only if the evaluation succeeds, and with the kind and the message of the failure if and only if it fails. -/
theorem answerEvaluate_answerExecute (maxRows : Int) :
    (∀ value value' expression t m, IsEvaluation value expression t → IsExecution value' m t →
      m.expression = some expression → expression ≠ "" → (t.rows.length : Int) ≤ maxRows →
      let evaluated := answerEvaluate (some value) maxRows
      let executed := answerExecute (some value') maxRows
      evaluated.status = 200 ∧ evaluated.body = outcomeBody (evaluateReported expression (some t)) ∧
      (∀ result, evaluated.body = success result ↔
        executed.status = 200 ∧ executed.body = .object [("name", optionalText m.name), ("value", result)]) ∧
      ∀ kind message, evaluated.body = failure kind message ↔
        executed.status = 422 ∧ executed.body = .object [("error", .text kind), ("detail", .text message)]) ∧
    ∀ body, (answerEvaluate body maxRows).status = 200 → ∃ ok result error,
      (answerEvaluate body maxRows).body = .object [("ok", .bool ok), ("value", result), ("error", error)] ∧
      (ok = true ↔ error = .null) ∧ (ok = false → result = .null) ∧
      (∀ x, result = .number (.float x) → x.isFinite = true) ∧
      ((∃ event ∈ (answerEvaluate body maxRows).log, event.level = .info) ↔ ok = false) := by
  constructor
  · intro value value' expression t m hevaluation hexecution hm hne hrows
    have hgiven : given? m.expression = some expression :=
      given?_eq_some_iff.mpr ⟨hm, by simpa using hne⟩
    simp only [answerEvaluate_of_isEvaluation hevaluation hrows, answerExecute_of_isExecution hexecution hrows]
    exact ⟨by rw [evaluateResponse_eq], by rw [evaluateResponse_eq], evaluateResponse_iff hgiven t⟩
  · intro body hstatus
    obtain ⟨expression, t, h⟩ := exists_of_answerEvaluate hstatus
    rw [h]
    exact evaluateResponse_fields expression t

/-- A truth value in a cell is one, and has the text of one. -/
theorem answerEvaluate_answerExecute_truth :
    let dataset := .object [("columns", .array [.text "a"]), ("rows", .array [.array [.bool true], .array [.text "1"]])]
    let evaluated := answerEvaluate (some (.object [("expression", .text "COUNT_DISTINCT(a)"), ("dataset", dataset)])) 2
    let executed := answerExecute
      (some (.object [("metric", .object [("expression", .text "COUNT_DISTINCT(a)")]), ("dataset", dataset)])) 2
    evaluated.status = 200 ∧ evaluated.body = success (.number (.integer 1)) ∧
    executed.status = 200 ∧ executed.body = .object [("name", .null), ("value", .number (.integer 1))] := by
  intro dataset evaluated executed
  have hevaluation : IsEvaluation (.object [("expression", .text "COUNT_DISTINCT(a)"), ("dataset", dataset)])
      "COUNT_DISTINCT(a)" ⟨["a"], [some [.number (.integer 1)], some [.text "1"]]⟩ :=
    evaluation_eq_ok_iff.mp rfl
  have hexecution : IsExecution
      (.object [("metric", .object [("expression", .text "COUNT_DISTINCT(a)")]), ("dataset", dataset)])
      ⟨none, some "COUNT_DISTINCT(a)", none, none⟩ ⟨["a"], [some [.number (.integer 1)], some [.text "1"]]⟩ :=
    execution_eq_ok_iff.mp rfl
  have hone : (evaluateReported "COUNT_DISTINCT(a)"
      (some ⟨["a"], [some [.number (.integer 1)], some [.text "1"]]⟩)).toOption = some (.number (.integer 1)) := by
    decide +kernel
  obtain ⟨hstatus, hbody, hsuccess, -⟩ :=
    (answerEvaluate_answerExecute 2).1 _ _ _ _ _ hevaluation hexecution rfl (by decide) (by decide)
  have hvalue : evaluated.body = success (.number (.integer 1)) := by
    rw [hbody]
    cases hr : evaluateReported "COUNT_DISTINCT(a)" (some ⟨["a"], [some [.number (.integer 1)], some [.text "1"]]⟩) with
    | ok v =>
      rw [hr] at hone
      cases hone
      rfl
    | error e =>
      rw [hr] at hone
      cases hone
  exact ⟨hstatus, hvalue, (hsuccess _).mp hvalue⟩

end Service
end TableMetrics
