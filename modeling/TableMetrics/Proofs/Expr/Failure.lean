import TableMetrics.Proofs.Expr.Call
import TableMetrics.Proofs.Expr.Walk

/-! Where an evaluation fails. Every failure is raised by a node of the expression, and the kind of the node tells which
    failures it may raise. -/

namespace TableMetrics

/-- A computation fails in no other way than with failures of which `P` holds. -/
def FailsWith (P : MetricError → Prop) {α : Type} (r : Except MetricError α) : Prop := ∀ x, r = .error x → P x

namespace FailsWith
variable {P Q : MetricError → Prop} {α β : Type} {r : Except MetricError α}

theorem ok (a : α) : FailsWith P (.ok a) := fun _ h => by cases h

theorem error {x : MetricError} (h : P x) : FailsWith P (.error x : Except MetricError α) := fun _ hx => by
  cases hx
  exact h

theorem mono (h : FailsWith P r) (hpq : ∀ x, P x → Q x) : FailsWith Q r := fun x hx => hpq x (h x hx)

theorem bind {f : α → Except MetricError β} (h : FailsWith P r) (hf : ∀ a, r = .ok a → FailsWith P (f a)) :
    FailsWith P (r >>= f) := by
  cases r with
  | ok a => exact hf a rfl
  | error x => exact error (h x rfl)

theorem map (h : FailsWith P r) (f : α → β) : FailsWith P (r.map f) := by
  cases r with
  | ok a => exact ok (f a)
  | error x => exact error (h x rfl)

theorem mapM {f : α → Except MetricError β} {as : List α} (h : ∀ a ∈ as, FailsWith P (f a)) :
    FailsWith P (as.mapM f) := by
  induction as with
  | nil => exact ok []
  | cons a as ih =>
    rw [List.mapM_cons]
    refine (h a (List.mem_cons_self ..)).bind fun b _ => ?_
    exact (ih fun x hx => h x (List.mem_cons_of_mem a hx)).bind fun bs _ => ok _

end FailsWith

section Columns
variable {P : MetricError → Prop} {d : Dataset} {name : String}

theorem columnIndex_fails (h : name ∉ d.columns → P (.missingColumn name d.columns)) :
    FailsWith P (d.columnIndex name) := by
  by_cases hname : name ∈ d.columns
  · rw [Dataset.columnIndex_of_mem hname]
    exact .ok _
  · rw [Dataset.columnIndex_of_not_mem hname]
    exact .error (h hname)

theorem columnValues_fails (h : name ∉ d.columns → P (.missingColumn name d.columns)) :
    FailsWith P (d.columnValues name) := (columnIndex_fails h).map _

theorem aggregate_fails {a : Aggregate} (h : name ∉ d.columns → P (.missingColumn name d.columns))
    (hempty : ∀ s, a = .statistic s → P (.emptyColumn s name)) : FailsWith P (d.aggregate a name) := by
  rw [Dataset.aggregate_eq]
  refine (columnValues_fails h).bind fun cells _ => ?_
  cases a with
  | count => exact .ok _
  | countDistinct => exact .ok _
  | statistic s =>
    rw [Aggregate.ofCells]
    refine FailsWith.map ?_ _
    cases s.ofCells? cells with
    | some x => exact .ok x
    | none => exact .error (hempty s rfl)

theorem columnCell_fails (h : name ∉ d.columns → P (.missingColumn name d.columns)) (row : Option Int) :
    FailsWith P (Expr.columnCell d.view row name) := by
  cases row with
  | some i => exact (columnIndex_fails h).map _
  | none => exact (columnValues_fails h).map _

theorem columnText_fails (h : name ∉ d.columns → P (.missingColumn name d.columns)) (row : Option Int) :
    FailsWith P (Expr.columnText d.view row name) := (columnCell_fails h row).map _

theorem columnValue_fails (h : name ∉ d.columns → P (.missingColumn name d.columns)) (row : Option Int) :
    FailsWith P (Expr.columnValue d.view row name) := by
  cases row with
  | some i => exact columnCell_fails h (some i)
  | none => exact columnText_fails h none

end Columns

namespace Expr

section Operators
variable {P : MetricError → Prop} {op : String}

theorem operand_fails {side : Side} {v : Value} (h : v.toNumber.isNaN = true → P (.notNumeric op side v)) :
    FailsWith P (operand op side v) := by
  unfold operand
  split
  · exact .ok _
  · split
    · next hnan => exact .error (h hnan)
    · exact .ok _

theorem calculate_fails (hzero : ArithOp.ofSymbol? op = some .divide → P .divisionByZero)
    (hunknown : ArithOp.ofSymbol? op = none → P (.unknownOperator op)) (m n : Number) :
    FailsWith P (calculate op m n) := by
  unfold calculate
  split
  · exact .ok _
  · exact .ok _
  · exact .ok _
  · next hop =>
    split
    · exact .error (hzero hop)
    · exact .ok _
  · next hop => exact .error (hunknown hop)

theorem decideOrder_fails (hunknown : CompareOp.ofSymbol? op = none → P (.unknownComparison op))
    (o : Option Ordering) : FailsWith P (decideOrder op o) := by
  unfold decideOrder
  split
  · exact .ok _
  · next hop => exact .error (hunknown hop)

theorem compareValues_fails (hoperand : ∀ side v, v.toNumber.isNaN = true → P (.notNumeric op side v))
    (hunknown : CompareOp.ofSymbol? op = none → P (.unknownComparison op)) (l r : Value) :
    FailsWith P (compareValues op l r) := by
  unfold compareValues
  split
  · exact decideOrder_fails hunknown _
  · exact decideOrder_fails hunknown _
  · refine (operand_fails (hoperand .left l)).bind fun m _ => ?_
    exact (operand_fails (hoperand .right r)).bind fun n _ => decideOrder_fails hunknown _

end Operators

/-- The function takes the name of a column and nothing else. -/
structure TakesColumn (g : Function) : Prop where
  ne_choose : g ≠ .choose
  ne_countDistinct : g ≠ .aggregate .countDistinct

theorem takesColumn_text : TakesColumn .text := ⟨by decide, by decide⟩

theorem takesColumn_aggregate {a : Aggregate} (ha : a ≠ .countDistinct) : TakesColumn (.aggregate a) :=
  ⟨by rintro ⟨⟩, fun h => ha (Function.aggregate.inj h)⟩

/-- The failures that a node raises itself, and not one of its parts. -/
inductive Raises (d : Dataset) : Expr → MetricError → Prop where
  | missingColumn {name : String} (h : name ∉ d.columns) : Raises d (.column name) (.missingColumn name d.columns)
  | arithOperand (op : String) (l r : Expr) (side : Side) {v : Value} (hv : v.toNumber.isNaN = true) :
    Raises d (.arith op l r) (.notNumeric op side v)
  | divisionByZero {op : String} (hop : ArithOp.ofSymbol? op = some .divide) (l r : Expr) :
    Raises d (.arith op l r) .divisionByZero
  | unknownOperator {op : String} (hop : ArithOp.ofSymbol? op = none) (l r : Expr) :
    Raises d (.arith op l r) (.unknownOperator op)
  | compareOperand (op : String) (l r : Expr) (side : Side) {v : Value} (hv : v.toNumber.isNaN = true) :
    Raises d (.compare op l r) (.notNumeric op side v)
  | unknownComparison {op : String} (hop : CompareOp.ofSymbol? op = none) (l r : Expr) :
    Raises d (.compare op l r) (.unknownComparison op)
  | unknownFunction {f : String} (hf : Function.ofName? f = none) (args : List Expr) :
    Raises d (.call f args) (.unknownFunction f)
  | chooseArity {f : String} {args : List Expr} (hf : Function.ofName? f = some .choose) (htwo : args.length ≠ 2)
    (hthree : args.length ≠ 3) : Raises d (.call f args) .chooseArity
  | distinctArity {f : String} {args : List Expr} (hf : Function.ofName? f = some (.aggregate .countDistinct))
    (hone : args.length ≠ 1) : Raises d (.call f args) (.distinctArity f args.length)
  | columnArity {f : String} {args : List Expr} {g : Function} (hf : Function.ofName? f = some g)
    (hg : TakesColumn g) (hone : args.length ≠ 1) : Raises d (.call f args) (.columnArity f args.length)
  | notAColumn {f : String} {g : Function} (hf : Function.ofName? f = some g) (hg : TakesColumn g) {argument : Expr}
    (hargument : ∀ name, argument ≠ .column name) :
    Raises d (.call f [argument]) (.notAColumn f argument d.columns)
  | emptyColumn {f : String} {s : Statistic} (hf : Function.ofName? f = some (.statistic s)) (name : String) :
    Raises d (.call f [.column name]) (.emptyColumn s name)

/-- A computation fails in no other way than a node of the expression does. -/
def FailsIn (d : Dataset) (e : Expr) {α : Type} (r : Except MetricError α) : Prop :=
  FailsWith (fun x => ∃ y ∈ e.walk, Raises d y x) r

section FailsIn
variable {d : Dataset} {e : Expr} {α : Type} {r : Except MetricError α} {f : String} {args : List Expr}

theorem FailsIn.node (h : FailsWith (Raises d e) r) : FailsIn d e r := h.mono fun _ hx => ⟨e, mem_walk_self e, hx⟩

theorem FailsIn.part {p : Expr} (h : FailsIn d p r) (hp : p ∈ e.parts) : FailsIn d e r :=
  h.mono fun _ ⟨y, hy, hx⟩ => ⟨y, mem_walk_part hp hy, hx⟩

/-- A column that is missing is a node itself, also where it is the argument of a call. -/
theorem exists_raises_missing {name : String} (hmem : .column name ∈ e.walk) (h : name ∉ d.columns) :
    ∃ y ∈ e.walk, Raises d y (.missingColumn name d.columns) := ⟨_, hmem, .missingColumn h⟩

theorem mem_walk_argument (name : String) : .column name ∈ (call f [.column name]).walk :=
  mem_walk_part (List.mem_singleton_self _) (mem_walk_self _)

theorem columnArgument_failsIn {g : Function} (hf : Function.ofName? f = some g) (hg : TakesColumn g) :
    FailsIn d (.call f args) (columnArgument d.view f args) := by
  unfold columnArgument
  split
  · next name => exact (columnIndex_fails fun h => exists_raises_missing (mem_walk_argument name) h).map _
  · next argument hargument => exact .node (.error (.notAColumn hf hg hargument))
  · next hone =>
    refine .node (.error (.columnArity hf hg fun hlength => ?_))
    obtain ⟨argument, rfl⟩ := List.length_eq_one_iff.mp hlength
    exact hone argument rfl

/-- A function of one column fails for its argument, or as it does of that column. -/
theorem columnArgument_bind_failsIn {g : Function} (hf : Function.ofName? f = some g) (hg : TakesColumn g)
    {k : String → Except MetricError α} (hk : ∀ name, args = [.column name] → FailsIn d (.call f args) (k name)) :
    FailsIn d (.call f args) (columnArgument d.view f args >>= k) :=
  (columnArgument_failsIn hf hg).bind fun name hname => hk name (args_of_columnArgument hname)

end FailsIn

/-- Every failure of an evaluation is raised by a node of the expression. The induction is that of the evaluation, for
    every row at once: a distinct count evaluates its argument at each. -/
theorem eval_failsIn (d : Dataset) (row : Option Int) (e : Expr) : FailsIn d e (e.eval d row) := by
  induction row, e using Expr.evalIn.induct with
  | case1 row n =>
    rw [eval_number]
    exact .ok _
  | case2 row s =>
    rw [eval_literal]
    exact .ok _
  | case3 row =>
    rw [eval_null]
    exact .ok _
  | case4 row name =>
    rw [eval_column]
    exact columnValue_fails (fun h => exists_raises_missing (mem_walk_self _) h) row
  | case5 row op l r ihl ihr =>
    rw [eval_arith]
    refine (ihl.part (by simp [parts])).bind fun left _ => ?_
    refine (FailsIn.node (operand_fails fun hv => .arithOperand op l r .left hv)).bind fun m _ => ?_
    refine (ihr.part (by simp [parts])).bind fun right _ => ?_
    refine (FailsIn.node (operand_fails fun hv => .arithOperand op l r .right hv)).bind fun n _ => ?_
    have hcalculate := calculate_fails (P := Raises d (.arith op l r)) (fun hop => .divisionByZero hop l r)
      (fun hop => .unknownOperator hop l r) m n
    exact (FailsIn.node hcalculate).bind fun x _ => .ok _
  | case6 row op l r ihl ihr =>
    rw [eval_compare]
    refine (ihl.part (by simp [parts])).bind fun left _ => ?_
    refine (ihr.part (by simp [parts])).bind fun right _ => FailsIn.node ?_
    exact compareValues_fails (fun side v hv => .compareOperand op l r side hv)
      (fun hop => .unknownComparison hop l r) left right
  | case7 row f args hf =>
    rw [eval_unknown hf]
    exact .node (.error (.unknownFunction hf args))
  | case8 row f condition yes hf ihc ihy =>
    rw [eval_choose_two hf]
    refine (ihc.part (by simp [parts])).bind fun c _ => ?_
    split
    · exact ihy.part (by simp [parts])
    · exact .ok _
  | case9 row f condition yes no hf ihc ihy ihn =>
    rw [eval_choose_three hf]
    refine (ihc.part (by simp [parts])).bind fun c _ => ?_
    split
    · exact ihy.part (by simp [parts])
    · exact ihn.part (by simp [parts])
  | case10 row f args htwo hthree hf =>
    rw [eval_choose_arity hf htwo hthree]
    refine .node (.error (.chooseArity hf (fun hlength => ?_) fun hlength => ?_))
    · obtain ⟨condition, yes, rfl⟩ := List.length_eq_two.mp hlength
      exact htwo condition yes rfl
    · obtain ⟨condition, yes, no, rfl⟩ := List.length_eq_three.mp hlength
      exact hthree condition yes no rfl
  | case11 row f name hf _ =>
    rw [eval_countDistinct_column hf]
    refine FailsWith.map (aggregate_fails (fun h => exists_raises_missing (mem_walk_argument name) h) ?_) _
    rintro s ⟨⟩
  | case12 row f argument hcolumn hf _ ih =>
    rw [eval_countDistinct hf hcolumn]
    -- The argument is evaluated at every row, and not at the one of the call.
    exact FailsWith.map (.mapM fun i _ => (ih i).part (by simp [parts])) _
  | case13 row f args hcolumn hone hf _ =>
    rw [eval_countDistinct_arity hf hone]
    refine .node (.error (.distinctArity hf fun hlength => ?_))
    obtain ⟨argument, rfl⟩ := List.length_eq_one_iff.mp hlength
    exact hone argument rfl
  | case14 row f args hf _ _ =>
    rw [eval_text hf]
    refine columnArgument_bind_failsIn hf takesColumn_text fun name hargs => ?_
    subst hargs
    exact columnText_fails (fun h => exists_raises_missing (mem_walk_argument name) h) row
  | case15 row f args g hf hchoose hdistinct htext =>
    obtain ⟨a, ha, rfl⟩ := Function.IsReduction.exists_aggregate ⟨hchoose, hdistinct, htext⟩
    rw [eval_aggregate hf ha]
    refine columnArgument_bind_failsIn hf (takesColumn_aggregate ha) fun name hargs => ?_
    subst hargs
    refine FailsWith.map (aggregate_fails (fun h => exists_raises_missing (mem_walk_argument name) h) ?_) _
    rintro s rfl
    exact ⟨_, mem_walk_self _, .emptyColumn hf name⟩

end Expr
end TableMetrics
