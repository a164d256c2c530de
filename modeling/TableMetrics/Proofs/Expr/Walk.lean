import TableMetrics.Problem

/-! The parts of an expression, and the problems found by walking over them. -/

namespace TableMetrics
namespace Expr

theorem walkAll_eq_flatMap (es : List Expr) : walkAll es = es.flatMap walk := by
  induction es with
  | nil => rfl
  | cons e es ih => rw [walkAll, ih, List.flatMap_cons]

/-- The parts that an expression is made of at once. -/
def parts : Expr → List Expr
  | .call _ args => args
  | .arith _ l r => [l, r]
  | .compare _ l r => [l, r]
  | _ => []

theorem sizeOf_part {e x : Expr} (h : x ∈ e.parts) : sizeOf x < sizeOf e := by
  cases e with
  | call f args =>
    have hargs : sizeOf x < sizeOf args := List.sizeOf_lt_of_mem h
    simp only [call.sizeOf_spec]
    omega
  | arith op l r =>
    simp only [parts, List.mem_cons, List.not_mem_nil, or_false] at h
    rcases h with rfl | rfl <;> simp only [arith.sizeOf_spec] <;> omega
  | compare op l r =>
    simp only [parts, List.mem_cons, List.not_mem_nil, or_false] at h
    rcases h with rfl | rfl <;> simp only [compare.sizeOf_spec] <;> omega
  | _ => cases h

/-- What holds of an expression whenever it holds of its parts holds of every expression. -/
@[elab_as_elim]
theorem inductionParts {motive : Expr → Prop} (e : Expr) (step : ∀ e, (∀ x ∈ e.parts, motive x) → motive e) :
    motive e :=
  step e fun x _ => inductionParts x step
termination_by sizeOf e
decreasing_by exact sizeOf_part ‹_›

theorem walk_eq (e : Expr) : e.walk = e :: e.parts.flatMap walk := by
  cases e with
  | call f args => rw [walk, walkAll_eq_flatMap, parts]
  | arith op l r => simp [walk, parts]
  | compare op l r => simp [walk, parts]
  | _ => rfl

theorem mem_walk_self (e : Expr) : e ∈ e.walk := by
  rw [walk_eq]
  exact List.mem_cons_self ..

theorem mem_walk_part {e x y : Expr} (hx : x ∈ e.parts) (hy : y ∈ x.walk) : y ∈ e.walk := by
  rw [walk_eq]
  exact List.mem_cons_of_mem e (List.mem_flatMap.mpr ⟨x, hx, hy⟩)

theorem problems_eq_nil_iff {known : Option (List String)} {e : Expr} :
    e.problems known = [] ↔ ∀ x ∈ e.walk, problem? known x = none := by
  rw [problems, List.filterMap_eq_nil_iff]

theorem function_of_problems {known : Option (List String)} {e : Expr} (h : e.problems known = []) {f : String}
    {args : List Expr} (hx : .call f args ∈ e.walk) : (Function.ofName? f).isSome = true := by
  have hnone := problems_eq_nil_iff.mp h _ hx
  simp only [problem?] at hnone
  cases hf : Function.ofName? f with
  | none =>
    rw [hf] at hnone
    cases hnone
  | some g => rfl

/-- An expression without problems names known columns only. -/
theorem column_of_problems {columns : List String} {e : Expr} (h : e.problems (some columns) = []) {name : String}
    (hx : .column name ∈ e.walk) : name ∈ columns := by
  have hnone := problems_eq_nil_iff.mp h _ hx
  simp only [problem?] at hnone
  split at hnone
  · next hmem => exact hmem
  · cases hnone

end Expr
end TableMetrics
