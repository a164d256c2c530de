import TableMetrics.Proofs.Dataset.Keys
import TableMetrics.Proofs.Dataset.Rows
import TableMetrics.Proofs.Expr.Reads

/-! Distinct counts over rows. An expression without aggregates sees one row only, so that a distinct count of it
    evaluates it at each row on its own, fails as the first row that fails, and otherwise counts the texts that the
    rows come to, in whatever order and however often the rows are there. -/

namespace TableMetrics

namespace Expr
variable {d : Dataset} {e : Expr} {f : String}

/-- No aggregate is called in the expression. -/
def IsRowwise (e : Expr) : Prop := ∀ x ∈ e.walk, x.isAggregate = false

/-- The outcome of an expression at a row that is the only one. -/
def evalRow (e : Expr) (d : Dataset) (r : Option (List Value)) : Except MetricError Value :=
  e.eval (d.withRows [r]) (some 0)

theorem readsAlike_single (h : e.IsRowwise) {i : Nat} {r : Option (List Value)} (hr : d.rows[i]? = some r) :
    ReadsAlike e d (some (i : Int)) (d.withRows [r]) (some 0) where
  columns _ _ := Iff.rfl
  atRow name _ _ := by
    have hcell := (Dataset.cell_withRows_single hr name).symm
    exact ⟨hcell, columnText_congr hcell⟩
  whole hagg := by
    obtain ⟨x, hx, hagg⟩ := hagg
    rw [h x hx] at hagg
    cases hagg

/-- At a row, an expression without aggregates comes to what it comes to at that row alone. -/
theorem eval_eq_evalRow (h : e.IsRowwise) {i : Nat} {r : Option (List Value)} (hr : d.rows[i]? = some r) :
    e.eval d (some (i : Int)) = e.evalRow d r :=
  (eval_agree (readsAlike_single h hr)).eq rfl

/-- The texts of what the rows come to, each on its own, leaving out null. -/
def rowKeys (e : Expr) (d : Dataset) : Set String :=
  {k | ∃ r ∈ d.rows, ∃ v, e.evalRow d r = .ok v ∧ v ≠ .null ∧ v.toText = k}

theorem rowKeys_withRows {rows : List (Option (List Value))} (hrows : ∀ r, r ∈ rows ↔ r ∈ d.rows) :
    e.rowKeys (d.withRows rows) = e.rowKeys d := by
  ext k
  constructor
  · rintro ⟨r, hr, h⟩
    exact ⟨r, (hrows r).mp hr, h⟩
  · rintro ⟨r, hr, h⟩
    exact ⟨r, (hrows r).mpr hr, h⟩

section Count
variable (h : e.IsRowwise) (hcolumn : ∀ name, e ≠ .column name)
  (hf : Function.ofName? f = some (.aggregate .countDistinct)) (row : Option Int)
include h hcolumn hf

theorem eval_countDistinct_rows (d : Dataset) : eval d row (.call f [e]) =
    (d.rows.mapM (e.evalRow d)).map fun values => .number (.integer (distinctKeys values).length) := by
  rw [eval_countDistinct hf hcolumn]
  exact congrArg _ (mapM_range fun i r hr => eval_eq_evalRow h hr)

/-- A distinct count fails as the first row that fails on its own. -/
theorem eval_countDistinct_error_iff {x : MetricError} : eval d row (.call f [e]) = .error x ↔
    ∃ (i : Nat) (r : Option (List Value)), d.rows[i]? = some r ∧ e.evalRow d r = .error x ∧
      ∀ j < i, ∀ r', d.rows[j]? = some r' → ∃ v, e.evalRow d r' = .ok v := by
  rw [eval_countDistinct_rows h hcolumn hf row d, map_eq_error_iff, mapM_eq_error_iff]

theorem exists_eval_countDistinct_error_iff : (∃ x, eval d row (.call f [e]) = .error x) ↔
    ∃ r ∈ d.rows, ∃ x, e.evalRow d r = .error x := by
  simp only [eval_countDistinct_rows h hcolumn hf row d, map_eq_error_iff, exists_mapM_eq_error_iff]

/-- If no row fails on its own, a distinct count counts the keys of the rows. -/
theorem eval_countDistinct_ok (hok : ∀ r ∈ d.rows, ∃ v, e.evalRow d r = .ok v) :
    eval d row (.call f [e]) = .ok (.number (.integer (e.rowKeys d).ncard)) := by
  obtain ⟨vs, hvs, hmem⟩ := exists_mapM hok
  have hkeys : keys vs = e.rowKeys d := by
    ext k
    constructor
    · rintro ⟨v, hv, hkey⟩
      obtain ⟨r, hr, hvalue⟩ := (hmem v).mp hv
      exact ⟨r, hr, v, hvalue, hkey⟩
    · rintro ⟨r, hr, v, hvalue, hkey⟩
      exact ⟨v, (hmem v).mpr ⟨r, hr, hvalue⟩, hkey⟩
  rw [eval_countDistinct_rows h hcolumn hf row d, hvs, ← hkeys, ← length_distinctKeys]
  rfl

end Count

/-- An expression without aggregates comes, at a row, to what it comes to at that row alone. A distinct count of it
    fails if a row fails on its own, and as the first one that does; if none does, it counts the keys of the rows,
    and is the same for every list of the same rows, in any order and with any row more than once. -/
theorem eval_rowwise (e : Expr) (h : e.IsRowwise) (d : Dataset) :
    (∀ (i : Nat) (r : Option (List Value)), d.rows[i]? = some r → e.eval d (some (i : Int)) = e.evalRow d r) ∧
    ∀ f row, (∀ name, e ≠ .column name) → Function.ofName? f = some (.aggregate .countDistinct) →
      ((∃ x, eval d row (.call f [e]) = .error x) ↔ ∃ r ∈ d.rows, ∃ x, e.evalRow d r = .error x) ∧
      (∀ x, eval d row (.call f [e]) = .error x ↔
        ∃ (i : Nat) (r : Option (List Value)), d.rows[i]? = some r ∧ e.evalRow d r = .error x ∧
          ∀ j < i, ∀ r', d.rows[j]? = some r' → ∃ v, e.evalRow d r' = .ok v) ∧
      ((∀ r ∈ d.rows, ∃ v, e.evalRow d r = .ok v) →
        eval d row (.call f [e]) = .ok (.number (.integer (e.rowKeys d).ncard)) ∧
        ∀ rows, (∀ r, r ∈ rows ↔ r ∈ d.rows) →
          eval (d.withRows rows) row (.call f [e]) = eval d row (.call f [e])) := by
  refine ⟨fun i r hr => eval_eq_evalRow h hr, fun f row hcolumn hf => ⟨?_, fun x => ?_, fun hok => ?_⟩⟩
  · exact exists_eval_countDistinct_error_iff h hcolumn hf row
  · exact eval_countDistinct_error_iff h hcolumn hf row
  · have hcount := eval_countDistinct_ok h hcolumn hf row hok
    refine ⟨hcount, fun rows hrows => ?_⟩
    have hok' : ∀ r ∈ (d.withRows rows).rows, ∃ v, e.evalRow (d.withRows rows) r = .ok v := fun r hr =>
      hok r ((hrows r).mp hr)
    rw [eval_countDistinct_ok h hcolumn hf row hok', rowKeys_withRows hrows, hcount]

/-- The first row reads as null and so as zero; the second one holds no number, and the count fails there. -/
theorem eval_rowwise_failing :
    IsRowwise (.arith "+" (.column "a") .null) ∧
    eval ⟨⟨["a"], [none, some [.text "x"], some [.null]]⟩, by decide⟩ none
      (.call "count_distinct" [.arith "+" (.column "a") .null]) = .error (.notNumeric "+" .left (.text "x")) := by
  have hrowwise : IsRowwise (.arith "+" (.column "a") .null) := by simp [IsRowwise, walk, isAggregate]
  have hcount : Function.ofName? "count_distinct" = some (.aggregate .countDistinct) := by decide +kernel
  refine ⟨hrowwise, ?_⟩
  rw [((eval_rowwise _ hrowwise _).2 "count_distinct" none (by simp) hcount).2.1]
  refine ⟨1, some [.text "x"], rfl, rfl, fun j hj r hr => ?_⟩
  obtain rfl : j = 0 := by omega
  cases hr
  exact ⟨_, rfl⟩

end Expr
end TableMetrics
