import TableMetrics.Proofs.Expr.FilteredCount
import TableMetrics.Proofs.Expr.Reads
import TableMetrics.Proofs.Expr.Source
import TableMetrics.Proofs.Expr.Strict

/-! Expressions without choices. An evaluation of such an expression over rows comes by every part of it, so that a
    check without a dataset finds no problem in an expression that has a value. -/

namespace TableMetrics
namespace Expr
variable {d : Dataset} {row : Option Int} {e : Expr}

/-- A call of the choice by a condition. -/
def isChoice : Expr → Bool
  | .call f _ => Function.ofName? f == some .choose
  | _ => false

/-- No choice is made in the expression. -/
def IsUnconditional (e : Expr) : Prop := ∀ x ∈ e.walk, x.isChoice = false

theorem IsUnconditional.part {x : Expr} (h : e.IsUnconditional) (hx : x ∈ e.parts) : x.IsUnconditional :=
  fun y hy => h y (mem_walk_part hx hy)

/-! ### Columns -/

theorem mem_of_columnValue {name : String} {v : Value} (h : columnValue d.view row name = .ok v) : name ∈ d.columns := by
  by_contra hname
  rw [columnValue_of_not_mem hname] at h
  cases h

theorem mem_of_aggregate {name : String} {a : Aggregate} {n : Number} (h : d.aggregate a name = .ok n) :
    name ∈ d.columns := by
  by_contra hname
  rw [Dataset.aggregate_of_not_mem hname] at h
  cases h

theorem mem_of_columnArgument {f name : String} {args : List Expr} (h : columnArgument d.view f args = .ok name) :
    args = [.column name] ∧ name ∈ d.columns := by
  obtain rfl := args_of_columnArgument h
  refine ⟨rfl, ?_⟩
  by_contra hname
  rw [columnArgument_column, Dataset.columnIndex_of_not_mem hname] at h
  cases h

/-! ### Parts -/

/-- An expression with a value is no column that is not there, and calls no function that does not exist. -/
theorem problem?_of_eval (h : ∃ v, e.eval d row = .ok v) : e.problem? (some d.columns) = none := by
  obtain ⟨v, hv⟩ := h
  cases e with
  | column name =>
    rw [eval_column] at hv
    simp [problem?, mem_of_columnValue hv]
  | call f args =>
    cases hf : Function.ofName? f with
    | none =>
      rw [eval_unknown hf] at hv
      cases hv
    | some g => simp [problem?, hf]
  | _ => rfl

/-- A column that is there has a value at the first row. -/
theorem exists_eval_of_mem {name : String} (h : name ∈ d.columns) : ∃ row' v, eval d row' (.column name) = .ok v := by
  obtain ⟨v, hv⟩ := exists_cell h 0
  exact ⟨some 0, v, (eval_column_row 0).trans hv⟩

/-- Over rows, the argument of a distinct count with a value has one: the column that it is is there, or it is evaluated
    at the first row. -/
theorem exists_eval_counted (hsize : 0 < d.size) {f : String}
    (hf : Function.ofName? f = some (.aggregate .countDistinct)) {args : List Expr} {v : Value}
    (hv : eval d row (.call f args) = .ok v) {x : Expr} (hx : x ∈ args) : ∃ row' v, x.eval d row' = .ok v := by
  by_cases hone : ∃ argument, args = [argument]
  · obtain ⟨argument, rfl⟩ := hone
    obtain rfl := List.mem_singleton.mp hx
    rcases x.eq_column_or_ne with ⟨name, rfl⟩ | hne
    · rw [eval_countDistinct_column hf] at hv
      obtain ⟨n, hn, -⟩ := map_eq_ok_iff.mp hv
      exact exists_eval_of_mem (mem_of_aggregate hn)
    · exact ⟨_, exists_eval_of_needs (.counted hf row hne hsize) ⟨v, hv⟩⟩
  · rw [eval_countDistinct_arity hf fun argument heq => hone ⟨argument, heq⟩] at hv
    cases hv

/-- Over rows, the arguments of a call with a value have values, if the call is no choice. -/
theorem exists_eval_argument (hsize : 0 < d.size) {f : String} {args : List Expr} {g : Function}
    (hf : Function.ofName? f = some g) (hg : g ≠ .choose) {v : Value} (hv : eval d row (.call f args) = .ok v) {x : Expr}
    (hx : x ∈ args) : ∃ row' v, x.eval d row' = .ok v := by
  have hcolumn : ∀ name, columnArgument d.view f args = .ok name → ∃ row' v, x.eval d row' = .ok v := by
    intro name hname
    obtain ⟨rfl, hmem⟩ := mem_of_columnArgument hname
    obtain rfl := List.mem_singleton.mp hx
    exact exists_eval_of_mem hmem
  cases g with
  | choose => exact absurd rfl hg
  | text =>
    rw [eval_text hf] at hv
    obtain ⟨name, hname, -⟩ := bind_eq_ok_iff.mp hv
    exact hcolumn name hname
  | aggregate a =>
    by_cases ha : a = .countDistinct
    · subst ha
      exact exists_eval_counted hsize hf hv hx
    · rw [eval_aggregate hf ha] at hv
      obtain ⟨name, hname, -⟩ := bind_eq_ok_iff.mp hv
      exact hcolumn name hname

/-- Over rows, the parts of an expression that has a value and is no choice have values. -/
theorem exists_eval_part (hsize : 0 < d.size) (hchoice : e.isChoice = false) (h : ∃ v, e.eval d row = .ok v) {x : Expr}
    (hx : x ∈ e.parts) : ∃ row' v, x.eval d row' = .ok v := by
  cases e with
  | arith op l r =>
    simp only [parts, List.mem_cons, List.not_mem_nil, or_false] at hx
    rcases hx with rfl | rfl
    · exact ⟨row, exists_eval_of_needs (.arithLeft row op x r) h⟩
    · exact ⟨row, exists_eval_of_needs (.arithRight row op l x) h⟩
  | compare op l r =>
    simp only [parts, List.mem_cons, List.not_mem_nil, or_false] at hx
    rcases hx with rfl | rfl
    · exact ⟨row, exists_eval_of_needs (.compareLeft row op x r) h⟩
    · exact ⟨row, exists_eval_of_needs (.compareRight row op l x) h⟩
  | call f args =>
    obtain ⟨v, hv⟩ := h
    cases hf : Function.ofName? f with
    | none =>
      rw [eval_unknown hf] at hv
      cases hv
    | some g =>
      refine exists_eval_argument hsize hf ?_ hv hx
      rintro rfl
      simp [isChoice, hf] at hchoice
  | _ => cases hx

/-- Over rows, no part of an expression that has a value and makes no choice has a problem. The induction is on the
    parts, for every row at once: those of a distinct count have their values at the first row. -/
theorem problems_of_eval (hsize : 0 < d.size) (he : e.IsUnconditional) (h : ∃ v, e.eval d row = .ok v) :
    e.problems (some d.columns) = [] := by
  rw [problems_eq_nil_iff]
  induction e using inductionParts generalizing row with
  | step e ih =>
    intro y hy
    rw [walk_eq] at hy
    rcases List.mem_cons.mp hy with rfl | hy
    · exact problem?_of_eval h
    · obtain ⟨x, hx, hy⟩ := List.mem_flatMap.mp hy
      obtain ⟨row', hvalue⟩ := exists_eval_part hsize (he e (mem_walk_self e)) h hx
      exact ih x hx (he.part hx) hvalue y hy

end Expr

/-- If the evaluation over a dataset with rows gives a value to an expression that makes no choice, then a check finds no
    problems in it; so whatever a check finds, the evaluation fails. -/
theorem checkExpression_complete {s : String} {d : Dataset} (hsize : 0 < d.size)
    (hchoice : ∀ e, Expr.ofText s = .ok e → e.IsUnconditional) :
    (∀ v, evaluate s (some d.toTable) = .ok v → checkExpression s (some d.columns) = []) ∧
    ∀ p ∈ checkExpression s (some d.columns), ∃ x, evaluate s (some d.toTable) = .error x := by
  have hvalid : ∀ v, evaluate s (some d.toTable) = .ok v → checkExpression s (some d.columns) = [] := by
    intro v hv
    cases hblank : isBlankText s with
    | true =>
      rw [evaluate_blank hblank] at hv
      cases hv
    | false =>
      cases he : Expr.ofText s with
      | error x =>
        rw [evaluate_error hblank he] at hv
        cases hv
      | ok e =>
        rw [evaluate_of_ofText he] at hv
        rw [checkExpression_of_ofText he]
        exact Expr.problems_of_eval hsize (hchoice e he) ⟨v, hv⟩
  refine ⟨hvalid, fun p hp => ?_⟩
  cases hv : evaluate s (some d.toTable) with
  | error x => exact ⟨x, rfl⟩
  | ok v =>
    rw [hvalid v hv] at hp
    cases hp

/-- A distinct count that has a value is valid. The argument of a sum is never evaluated, but what is wrong inside of it
    makes the evaluation fail all the same. -/
theorem checkExpression_complete_unread :
    let d : Dataset := ⟨⟨["a"], [some [.text "x"], none]⟩, by decide⟩
    let valid := "COUNT_DISTINCT(a = 'x')"
    let invalid := "COUNT(a) + SUM(net * PROFIT(a))"
    0 < d.size ∧ (∀ s ∈ [valid, invalid], ∀ e, Expr.ofText s = .ok e → e.IsUnconditional) ∧
    (∃ v, evaluate valid (some d.toTable) = .ok v) ∧ checkExpression valid (some ["a"]) = [] ∧
    (checkExpression invalid (some ["a"])).length = 2 ∧ ∃ x, evaluate invalid (some d.toTable) = .error x := by
  intro d valid invalid
  have hsize : 0 < d.size := by decide
  have hchoice : ∀ s ∈ [valid, invalid], ∀ e, Expr.ofText s = .ok e → e.IsUnconditional := by
    have hall : [valid, invalid].all (fun s => (Expr.ofText s).toOption.all fun e => e.walk.all fun x => !x.isChoice) =
        true := by decide +kernel
    intro s hs e he x hx
    have hread := List.all_eq_true.mp hall s hs
    rw [he] at hread
    simpa using List.all_eq_true.mp hread x hx
  have hvalue : (evaluate valid (some d.toTable)).toOption.isSome = true := by decide +kernel
  have htwo : (checkExpression invalid (some ["a"])).length = 2 := by decide +kernel
  obtain ⟨p, hp⟩ := List.exists_mem_of_length_pos (htwo ▸ Nat.zero_lt_two)
  have hfails := (checkExpression_complete hsize (hchoice invalid (by simp))).2 p hp
  cases hv : evaluate valid (some d.toTable) with
  | error x =>
    rw [hv] at hvalue
    cases hvalue
  | ok v =>
    have hvalid := (checkExpression_complete hsize (hchoice valid (by simp))).1 v hv
    exact ⟨hsize, hchoice, ⟨v, rfl⟩, hvalid, htwo, hfails⟩

end TableMetrics
