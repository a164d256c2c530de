import TableMetrics.Proofs.Dataset.Keys
import TableMetrics.Proofs.Expr.Reads

/-! Aggregates shut out the row. What stands in their arguments is evaluated over whole columns, or at rows of their
    own, so that an expression without columns outside of them has one outcome, whatever its row. -/

namespace TableMetrics
namespace Expr
variable {d : Dataset} {e : Expr}

theorem readsAlike_of_outer (h : ∀ name, .column name ∉ e.outer) (row row' : Option Int) :
    ReadsAlike e d row d row' where
  columns _ _ := Iff.rfl
  atRow name hname := absurd hname (h name)
  whole _ := ⟨rfl, fun _ _ _ => rfl⟩

/-- An expression whose columns all stand in arguments of aggregates has the same outcome at every row and without one.
    A distinct count of it, over a dataset with rows, is one, or zero if it is null, or fails as it does. The column
    whose text a function takes stands where the call of that function does. -/
theorem eval_rowFree (e : Expr) (h : ∀ name, .column name ∉ e.outer) (d : Dataset) :
    (∀ row row', e.eval d row = e.eval d row') ∧
    ∀ f row row', Function.ofName? f = some (.aggregate .countDistinct) → 0 < d.size →
      eval d row (.call f [e]) = (e.eval d row').map fun v => .number (.integer (if v = .null then 0 else 1)) := by
  have hsame : ∀ row row', e.eval d row = e.eval d row' := fun row row' =>
    (eval_agree (readsAlike_of_outer h row row')).eq rfl
  refine ⟨hsame, fun f row row' hf hsize => ?_⟩
  have hcolumn : ∀ name, e ≠ .column name := by
    rintro name rfl
    exact h name (mem_outer_self _)
  have hrows : (List.range d.size).mapM (fun (i : Nat) => e.eval d (some (i : Int))) =
      (e.eval d row').map (List.replicate (List.range d.size).length) :=
    mapM_const (fun i _ => hsame _ _) (by simpa using Nat.ne_of_gt hsize)
  rw [eval_countDistinct hf hcolumn, hrows, List.length_range]
  cases e.eval d row' with
  | error x => rfl
  | ok v =>
    simp only [Except.map, length_distinctKeys, ncard_keys_replicate (Nat.ne_of_gt hsize)]
    split <;> rfl

/-- The column of a sum and that of a distinct count are never read at the row, not even at one that is not there, and
    so a distinct count of their comparison sees one value in both rows. -/
theorem eval_rowFree_nested :
    (∀ name, .column name ∉ outer (.compare ">" (.call "SUM" [.column "a"]) (.call "Countdistinct"
      [.arith "*" (.column "a") (.number (.integer 0))]))) ∧
    eval ⟨⟨["a"], [some [.text "3"], none]⟩, by decide⟩ (some (-1)) (.compare ">" (.call "SUM" [.column "a"])
      (.call "Countdistinct" [.arith "*" (.column "a") (.number (.integer 0))])) =
    eval ⟨⟨["a"], [some [.text "3"], none]⟩, by decide⟩ none (.compare ">" (.call "SUM" [.column "a"])
      (.call "Countdistinct" [.arith "*" (.column "a") (.number (.integer 0))])) ∧
    eval ⟨⟨["a"], [some [.text "3"], none]⟩, by decide⟩ none (.call "Countdistinct" [.compare ">"
      (.call "SUM" [.column "a"]) (.call "Countdistinct" [.arith "*" (.column "a") (.number (.integer 0))])]) =
    (eval ⟨⟨["a"], [some [.text "3"], none]⟩, by decide⟩ (some 7) (.compare ">" (.call "SUM" [.column "a"])
      (.call "Countdistinct" [.arith "*" (.column "a") (.number (.integer 0))]))).map
      fun v => .number (.integer (if v = .null then 0 else 1)) := by
  have hsum : Function.ofName? "SUM" = some (.statistic .sum) := by decide +kernel
  have hcount : Function.ofName? "Countdistinct" = some (.aggregate .countDistinct) := by decide +kernel
  have houter : ∀ name, .column name ∉ outer (.compare ">" (.call "SUM" [.column "a"]) (.call "Countdistinct"
      [.arith "*" (.column "a") (.number (.integer 0))])) := by
    simp [outer, isAggregate, hsum, hcount]
  refine ⟨houter, (eval_rowFree _ houter _).1 (some (-1)) none, ?_⟩
  exact (eval_rowFree _ houter _).2 "Countdistinct" none (some 7) hcount (by decide)

end Expr
end TableMetrics
