import TableMetrics.Proofs.Service.Endpoints
import TableMetrics.Proofs.Service.Finding

/-! What stands between a request over a table and its answer. A body that is not of the schema is refused with all that
    is wrong with it, a table with too many rows is answered with the limit, and only what is left is evaluated or
    executed. The framework may be any that keeps to the schemas of the bodies. -/

namespace TableMetrics

/-! ### Findings and the answers that show them -/

/-- Findings tell all that is wrong and nothing else: each violation has one, at its place or inside of it. -/
structure Lists (violates : Place → Prop) (fs : List Finding) : Prop where
  complete : ∀ p, violates p → ∃ f ∈ fs, p <+: f.place
  sound : ∀ f ∈ fs, ∃ p, violates p ∧ p <+: f.place

/-- An entry of an answer tells what was found, and where, and shows the value that is at fault. -/
def Shows (entry : Json) (f : Finding) : Prop :=
  ∃ fields, entry = .object fields ∧ Json.lookup fields "type" = some (.text f.fault) ∧
    Json.lookup fields "loc" = some (.array (f.place.map Payload.stepJson)) ∧ Json.lookup fields "input" = some f.input

/-- An answer that shows findings, each in an entry of its own. -/
def Response.Details (r : Response) (fs : List Finding) : Prop :=
  ∃ entries, List.Forall₂ Shows entries fs ∧ r = ⟨422, .object [("detail", .array entries)], []⟩

/-! ### Frameworks -/

namespace Payload

section Validation
variable {α : Type} {S : Schema α} {V : Violations} {check : Check α} {name : String}

/-- What a body stands for, as the schema of its value reads it. -/
def StandsFor (S : Schema α) (name : String) (body : Option Json) (a : α) (t : Table) : Prop :=
  ∃ value, body = some value ∧ IsRequest S name value a t

/-- A framework validates bodies of a schema: it reads those that are of the schema, and lists the violations of the
    others. What it finds is shown as a part of the body. -/
structure Validates (S : Schema α) (V : Violations) (name : String)
    (check : Option Json → Except (List Finding) (α × Table)) : Prop where
  reads : ∀ body a t, check body = .ok (a, t) ↔ StandsFor S name body a t
  /-- All violations are collected before a body is refused. -/
  lists : ∀ body fs, check body = .error fs → Lists (RequestViolation V name body) fs
  shows : ∀ body fs, check body = .error fs → ∀ f ∈ fs, f.input.IsPart (body.getD .null)

end Validation

end Payload

open Payload

/-- A framework does what is declared of the bodies: it validates them, and shows what it finds, unless the answer cannot
    be written because it shows a number that is not finite. On what it gives up is left open. -/
structure Gateway.Lawful (g : Gateway) : Prop where
  evaluation : Validates IsText TextViolation "expression" g.evaluation
  execution : Validates IsMetric MetricViolation "metric" g.execution
  -- an answer in JSON has no number that is not finite
  written : ∀ fs, (∀ f ∈ fs, f.input.isFinite = true) → (g.refuse fs).Details fs
  unwritten : ∀ fs, (∃ f ∈ fs, f.input.isFinite = false) → (g.refuse fs).status = 500 ∧ (g.refuse fs).log = []

/-- A framework that gives up on other expressions is lawful as well. -/
theorem Gateway.Lawful.exhausts {g : Gateway} (h : g.Lawful) (exhausts : String → Option Table → Bool) :
    { g with exhausts }.Lawful :=
  ⟨h.evaluation, h.execution, h.written, h.unwritten⟩

namespace Service

/-! ### The gate -/

section Gate
variable {g : Gateway} {α : Type} {S : Schema α} {V : Violations} {name : String}
  {check : Option Json → Except (List Finding) (α × Table)}

end Gate

/-- An evaluation is answered well, with its value or its failure, unless the interpreter gives up on the expression. -/
inductive Evaluated (g : Gateway) (expression : String) (t : Table) (r : Response) : Prop where
  | exhausted (h : g.exhausts expression (some t) = true) (hstatus : r.status = 500)
  | outcome (h : g.exhausts expression (some t) = false) (hstatus : r.status = 200)
    (hbody : r.body = outcomeBody (evaluateReported expression (some t)))

/-- A metric has an expression that the interpreter gives up on. -/
def GivesUp (g : Gateway) (m : Metric) (t : Table) : Prop :=
  ∃ expression, given? m.expression = some expression ∧ g.exhausts expression (some t) = true

/-- An execution is answered with its value, or with the kind and the message of its failure, unless the interpreter
    gives up on the expression of the metric. -/
inductive Executed (g : Gateway) (m : Metric) (t : Table) (r : Response) : Prop where
  | exhausted (h : GivesUp g m t) (hstatus : r.status = 500)
  | value {v : Value} (h : ¬GivesUp g m t) (houtcome : (m.execute (some t)).outcome = .ok v) (hstatus : r.status = 200)
  | failure {e : MetricError} (h : ¬GivesUp g m t) (houtcome : (m.execute (some t)).outcome = .error e)
    (hstatus : r.status = 422) (hbody : r.body = .object [("error", .text e.kind.name), ("detail", .text e.message)])

theorem evaluated (g : Gateway) (expression : String) (t : Table) :
    Evaluated g expression t (evaluateWithin g expression t) := by
  unfold evaluateWithin
  split
  · next h => exact .exhausted h rfl
  · next h =>
    refine .outcome (Bool.eq_false_iff.mpr h) ?_ ?_
    · rw [evaluateResponse_eq]
    · rw [evaluateResponse_eq]

theorem executed (g : Gateway) (m : Metric) (t : Table) : Executed g m t (executeWithin g m t) := by
  unfold executeWithin
  split
  · next expression h =>
    obtain ⟨hexpression, hexhausts⟩ := Option.filter_eq_some_iff.mp h
    exact .exhausted ⟨expression, hexpression, hexhausts⟩ rfl
  · next hnone =>
    have hkeeps : ¬GivesUp g m t := by
      rintro ⟨expression, hexpression, hexhausts⟩
      exact absurd hexhausts (Option.filter_eq_none_iff.mp hnone expression hexpression)
    cases houtcome : (m.execute (some t)).outcome with
    | ok v =>
      rw [executeResponse_ok houtcome]
      exact .value hkeeps houtcome rfl
    | error e =>
      rw [executeResponse_error houtcome]
      exact .failure hkeeps houtcome rfl rfl

end Service
end TableMetrics
