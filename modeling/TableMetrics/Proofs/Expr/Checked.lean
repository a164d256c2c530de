import TableMetrics.Proofs.Expr.Failure

/-! What a check without a dataset says about evaluation. An expression without problems fails on a dataset only for
    its values, never for its names; one that is no expression fails on every dataset as the check reports. -/

namespace TableMetrics

/-- A computation fails with errors of these kinds only. -/
def OnlyFails (ks : List ErrorKind) {α : Type} (r : Except MetricError α) : Prop := ∀ e, r = .error e → e.kind ∈ ks

theorem OnlyFails.map {ks : List ErrorKind} {α β : Type} {r : Except MetricError α} (h : OnlyFails ks r) (f : α → β) :
    OnlyFails ks (r.map f) := FailsWith.map h f

/-- The kinds of failure that values lead to, whatever the expression. -/
def valueKinds : List ErrorKind := [.divisionByZero, .type, .invalidArgument, .emptyColumn]

theorem aggregate_onlyFails {ks : List ErrorKind} {d : Dataset} {column : String}
    (h : column ∈ d.columns ∨ .missingColumn ∈ ks) (hempty : .emptyColumn ∈ ks) (a : Aggregate) :
    OnlyFails ks (d.aggregate a column) := aggregate_fails h.resolve_left fun _ _ => hempty

namespace Expr
variable {ks : List ErrorKind}

/-- The names in an expression are those of functions and, unless a column may be missing, of columns. -/
structure Known (ks : List ErrorKind) (d : Dataset) (e : Expr) : Prop where
  function : ∀ f args, .call f args ∈ e.walk → (Function.ofName? f).isSome = true
  column : ∀ name, .column name ∈ e.walk → name ∈ d.columns ∨ .missingColumn ∈ ks

/-- An expression whose names are known fails for its values alone, or for a column that may be missing. -/
theorem eval_onlyFails {d : Dataset} (hks : ∀ k ∈ valueKinds, k ∈ ks) (row : Option Int) (e : Expr)
    (hknown : Known ks d e) : OnlyFails ks (e.eval d row) := by
  have hargument : .invalidArgument ∈ ks := hks .invalidArgument (by decide)
  intro x hx
  obtain ⟨y, hy, hraises⟩ := eval_failsIn d row e x hx
  cases hraises with
  | missingColumn h => exact (hknown.column _ hy).resolve_left h
  | arithOperand op l r side hv => exact hks .type (by decide)
  | divisionByZero hop l r => exact hks .divisionByZero (by decide)
  | unknownOperator hop l r => exact hargument
  | compareOperand op l r side hv => exact hks .type (by decide)
  | unknownComparison hop l r => exact hargument
  | unknownFunction hf args =>
    have hsome := hknown.function _ args hy
    rw [hf] at hsome
    cases hsome
  | chooseArity hf htwo hthree => exact hargument
  | distinctArity hf hone => exact hargument
  | columnArity hf hg hone => exact hargument
  | notAColumn hf hg h => exact hargument
  | emptyColumn hf name => exact hks .emptyColumn (by decide)

end Expr

section Evaluate
variable {expression : String} {d : Dataset}

theorem evaluate_blank (h : isBlankText expression = true) (input : Option Table) :
    evaluate expression input = .error .blank := by
  rw [evaluate_eq_ite, if_pos h]

theorem evaluate_error {e : MetricError} (hblank : isBlankText expression = false)
    (h : Expr.ofText expression = .error e) : evaluate expression (some d.toTable) = .error e := by
  rw [evaluate_eq_ite, if_neg (by simp [hblank]), Dataset.ofInput_toTable, h]
  rfl

theorem evaluate_ok {e : Expr} (hblank : isBlankText expression = false) (h : Expr.ofText expression = .ok e) :
    evaluate expression (some d.toTable) = e.eval d none := by
  rw [evaluate_eq_ite, if_neg (by simp [hblank]), Dataset.ofInput_toTable, h]
  rfl

/-- A text is found to have no problems only if it is an expression without problems. -/
theorem exists_of_checkExpression {known : Option (List String)} (h : checkExpression expression known = []) :
    isBlankText expression = false ∧ ∃ e, Expr.ofText expression = .ok e ∧ e.problems known = [] := by
  unfold checkExpression at h
  split at h
  · cases h
  · next hblank =>
    refine ⟨Bool.eq_false_iff.mpr hblank, ?_⟩
    split at h
    · cases h
    · next e he => exact ⟨e, he, h⟩

/-- What fails before there is an expression fails for its characters or for their order. -/
theorem kind_of_ofText {e : MetricError} (h : Expr.ofText expression = .error e) :
    e.kind ∈ [.parse, .unexpectedChar, .unclosedString] := by
  cases htokens : Token.ofText expression with
  | error l =>
    rw [Expr.ofText, htokens] at h
    cases h
    cases l with
    | unexpectedChar c p => exact List.mem_cons_of_mem _ (List.mem_cons_self ..)
    | unclosedString p => exact List.mem_cons_of_mem _ (List.mem_cons_of_mem _ (List.mem_cons_self ..))
  | ok ts =>
    rw [Expr.ofText_of_tokens htokens] at h
    cases htree : Expr.ofTokens ts with
    | error p =>
      rw [htree] at h
      cases h
      exact List.mem_cons_self ..
    | ok t =>
      rw [htree] at h
      cases h

end Evaluate

/-- If a check finds no problems, then an evaluation over any dataset that has the known columns fails for values
    alone; where no columns are known, also for a column that is not there. If a check finds a text that is no
    expression, then the evaluation over every dataset fails with what the check reports. -/
theorem checkExpression_sound (expression : String) (d : Dataset) :
    (∀ known, (∀ name ∈ known, name ∈ d.columns) → checkExpression expression (some known) = [] →
      OnlyFails valueKinds (evaluate expression (some d.toTable))) ∧
    (checkExpression expression none = [] →
      OnlyFails (.missingColumn :: valueKinds) (evaluate expression (some d.toTable))) ∧
    (∀ known, isBlankText expression = true → ∃ p e, checkExpression expression known = [p] ∧
      evaluate expression (some d.toTable) = .error e ∧ e.kind = .parse ∧ p.message = e.message) ∧
    ∀ known e, isBlankText expression = false → Expr.ofText expression = .error e →
      e.kind ∈ [.parse, .unexpectedChar, .unclosedString] ∧ ∃ p, checkExpression expression known = [p] ∧
        evaluate expression (some d.toTable) = .error e ∧ p.message = e.kind.name ++ ": " ++ e.message := by
  refine ⟨fun known hknown hcheck => ?_, fun hcheck => ?_, fun known hblank => ?_, fun known e hblank he => ?_⟩
  · obtain ⟨hblank, e, he, hproblems⟩ := exists_of_checkExpression hcheck
    rw [evaluate_ok hblank he]
    refine Expr.eval_onlyFails (fun _ hk => hk) none e ⟨fun f args => Expr.function_of_problems hproblems, ?_⟩
    exact fun name hname => Or.inl (hknown name (Expr.column_of_problems hproblems hname))
  · obtain ⟨hblank, e, he, hproblems⟩ := exists_of_checkExpression hcheck
    rw [evaluate_ok hblank he]
    refine Expr.eval_onlyFails (fun _ hk => List.mem_cons_of_mem _ hk) none e
      ⟨fun f args => Expr.function_of_problems hproblems, ?_⟩
    exact fun name _ => Or.inr (List.mem_cons_self ..)
  · refine ⟨.expressionRequired, .blank, ?_, evaluate_blank hblank _, rfl, rfl⟩
    rw [checkExpression, if_pos hblank]
  · refine ⟨kind_of_ofText he, .failure e, ?_, evaluate_error hblank he, rfl⟩
    rw [checkExpression, if_neg (by simp [hblank]), he]

example : checkExpression "SUM(a) / b" (some ["a", "b"]) = [] := by decide +kernel

end TableMetrics
