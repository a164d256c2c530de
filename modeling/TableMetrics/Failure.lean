import TableMetrics.Error

/-! Failures of computations over what is handed in. Most are those of metrics; but where a list is expected, a value
    may be handed in that cannot be read as one, which is a failure of another sort. -/

namespace TableMetrics

/-- Failures of which some are those of metrics. -/
class Failing (ε : Type) where
  ofMetric : MetricError → ε
  metric? : ε → Option MetricError
  metric?_ofMetric (e : MetricError) : metric? (ofMetric e) = some e

/-- A failure over what is handed in. -/
inductive Failure where
  | metric (e : MetricError)
  /-- A value cannot be read as a list, or its length, or one of its items. -/
  | unreadable
  deriving Inhabited

def Failure.metric? : Failure → Option MetricError
  | .metric e => some e
  | .unreadable => none

instance : Failing MetricError := ⟨id, some, fun _ => rfl⟩

instance : Failing Failure := ⟨.metric, Failure.metric?, fun _ => rfl⟩

namespace Failing

attribute [simp] metric?_ofMetric

/-- A computation that fails in no other way than metrics do, as one that could. -/
def lift {ε : Type} [Failing ε] {α : Type} (r : Except MetricError α) : Except ε α := r.mapError ofMetric

variable {α β : Type}

@[simp] theorem lift_self (r : Except MetricError α) : lift r = r := by cases r <;> rfl

variable {ε : Type} [Failing ε]

@[simp] theorem lift_ok (a : α) : (lift (.ok a) : Except ε α) = .ok a := rfl

theorem lift_bind (r : Except MetricError α) (f : α → Except MetricError β) :
    (lift (r >>= f) : Except ε β) = lift r >>= fun a => lift (f a) := by cases r <;> rfl

theorem lift_map (r : Except MetricError α) (f : α → β) : (lift (r.map f) : Except ε β) = (lift r).map f := by
  cases r <;> rfl

end Failing
end TableMetrics
