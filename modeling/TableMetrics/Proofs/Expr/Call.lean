import TableMetrics.Expr.Eval
import TableMetrics.Proofs.Dataset.Lookup

/-! What a call evaluates to, by the function that its name denotes and by the arguments that it has. -/

namespace TableMetrics
namespace Expr
variable {d : Dataset} {row : Option Int} {f : String} {args : List Expr}

theorem eq_column_or_ne (e : Expr) : (∃ name, e = .column name) ∨ ∀ name, e ≠ .column name := by
  cases e with
  | column name => exact Or.inl ⟨name, rfl⟩
  | _ => exact Or.inr fun _ heq => nomatch heq

section Choose
variable (hf : Function.ofName? f = some .choose)
include hf

theorem eval_choose_two (condition yes : Expr) : eval d row (.call f [condition, yes]) =
    eval d row condition >>= fun v => if v.isTruthy then eval d row yes else .ok .null := by
  rw [eval, evalIn]
  simp only [hf, ↓reduceDIte]
  rfl

theorem eval_choose_three (condition yes no : Expr) : eval d row (.call f [condition, yes, no]) =
    eval d row condition >>= fun v => if v.isTruthy then eval d row yes else eval d row no := by
  rw [eval, evalIn]
  simp only [hf, ↓reduceDIte]
  rfl

theorem eval_choose_arity (htwo : ∀ condition yes, args ≠ [condition, yes])
    (hthree : ∀ condition yes no, args ≠ [condition, yes, no]) :
    eval d row (.call f args) = .error .chooseArity := by
  rw [eval, evalIn.eq_def]
  simp only [hf, ↓reduceDIte]
  rfl

end Choose

section CountDistinct
variable (hf : Function.ofName? f = some (.aggregate .countDistinct))
include hf

theorem eval_countDistinct_column (name : String) :
    eval d row (.call f [.column name]) = (d.aggregate .countDistinct name).map .number := by
  rw [eval, evalIn.eq_def]
  simp only [hf, reduceCtorEq, ↓reduceDIte]
  rfl

/-- The argument of a distinct count is evaluated at every row, and not at the one of the call. -/
theorem eval_countDistinct {argument : Expr} (hargument : ∀ name, argument ≠ .column name) :
    eval d row (.call f [argument]) = ((List.range d.size).mapM fun (i : Nat) => eval d (some (i : Int)) argument).map
      fun values => .number (.integer (distinctKeys values).length) := by
  rw [eval, evalIn.eq_def]
  simp only [hf, reduceCtorEq, ↓reduceDIte]
  rfl

theorem eval_countDistinct_arity (hone : ∀ argument, args ≠ [argument]) :
    eval d row (.call f args) = .error (.distinctArity f args.length) := by
  rw [eval, evalIn.eq_def]
  simp only [hf, reduceCtorEq, ↓reduceDIte]
  split
  · next name => exact absurd rfl (hone (.column name))
  · next argument _ => exact absurd rfl (hone argument)
  · rfl

end CountDistinct

theorem eval_aggregate {a : Aggregate} (hf : Function.ofName? f = some (.aggregate a)) (ha : a ≠ .countDistinct) :
    eval d row (.call f args) = columnArgument d.view f args >>= fun name => (d.aggregate a name).map .number := by
  have hreduction := Function.isReduction_aggregate ha
  rw [eval, evalIn.eq_def]
  simp only [hf, hreduction.ne_choose, hreduction.ne_countDistinct, hreduction.ne_text, ↓reduceDIte,
    Function.kernel_aggregate]
  rfl

theorem columnArgument_column (name : String) :
    columnArgument d.view f [.column name] = (d.columnIndex name).map fun _ => name := rfl

/-- An aggregate of one column is that of the dataset, which fails for a missing column as a look-up does. -/
theorem eval_aggregate_column {a : Aggregate} (hf : Function.ofName? f = some (.aggregate a)) (name : String) :
    eval d row (.call f [.column name]) = (d.aggregate a name).map .number := by
  by_cases ha : a = .countDistinct
  · subst ha
    exact eval_countDistinct_column hf name
  · rw [eval_aggregate hf ha, columnArgument_column]
    by_cases hname : name ∈ d.columns
    · rw [Dataset.columnIndex_of_mem hname]
      rfl
    · rw [Dataset.columnIndex_of_not_mem hname, Dataset.aggregate_of_not_mem hname]
      rfl

theorem eval_text (hf : Function.ofName? f = some .text) :
    eval d row (.call f args) = columnArgument d.view f args >>= columnText d.view row := by
  rw [eval, evalIn.eq_def]
  simp only [hf, reduceCtorEq, ↓reduceDIte]

theorem columnArgument_of_ne {argument : Expr} (h : ∀ name, argument ≠ .column name) :
    columnArgument d.view f [argument] = .error (.notAColumn f argument d.columns) := by
  cases argument with
  | column name => exact absurd rfl (h name)
  | _ => rfl

theorem columnArgument_arity (h : ∀ argument, args ≠ [argument]) :
    columnArgument d.view f args = .error (.columnArity f args.length) := by
  unfold columnArgument
  split
  · next name => exact absurd rfl (h (.column name))
  · next argument _ => exact absurd rfl (h argument)
  · rfl

/-- A function of one column takes its name from its only argument. -/
theorem args_of_columnArgument {name : String} (h : columnArgument d.view f args = .ok name) :
    args = [.column name] := by
  unfold columnArgument at h
  split at h
  · next column =>
    cases hindex : d.view.columnIndex column with
    | error e =>
      rw [hindex] at h
      cases h
    | ok i =>
      rw [hindex] at h
      cases h
      rfl
  · cases h
  · cases h

end Expr
end TableMetrics
