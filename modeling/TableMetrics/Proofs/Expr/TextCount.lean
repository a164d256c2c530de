import TableMetrics.Evaluation
import TableMetrics.Proofs.Expr.FilteredCount

/-! Distinct counts of the texts of a column. A text is never null: at a row where the cell of a column is null, the text
    of the column is the empty one. So the texts of a column have the keys of its cells, and the empty key for a
    null among them. -/

namespace TableMetrics
namespace Expr
variable {d : Dataset} {column text distinct : String}

/-- The cell of a column is null at some row: there is a null in its place, or the row is null or ends before it. -/
def HasNull (column : String) (d : Dataset) : Prop := ∃ i < d.size, d.cell i column = .ok .null

section Text
variable (htext : Function.ofName? text = some .text) (h : column ∈ d.columns)
include htext h

theorem eval_text_row (i : Int) :
    eval d (some i) (.call text [.column column]) = (d.cell i column).map fun v => .text v.toText := by
  rw [eval_text htext, columnArgument_column, Dataset.columnIndex_of_mem h]
  rfl

theorem keysAt_text : keysAt (.call text [.column column]) d =
    keysAt (.column column) d ∪ {k | HasNull column d ∧ k = ""} := by
  ext k
  constructor
  · rintro ⟨i, hi, u, hu, -, hkey⟩
    rw [eval_text_row htext h, map_eq_ok_iff] at hu
    obtain ⟨v, hv, rfl⟩ := hu
    by_cases hnull : v = .null
    · subst hnull
      exact Or.inr ⟨⟨i, hi, hv⟩, hkey.symm⟩
    · exact Or.inl ⟨i, hi, v, (eval_column_row i).trans hv, hnull, hkey⟩
  · have hrow : ∀ i < d.size, ∀ v, d.cell (i : Int) column = .ok v →
        v.toText ∈ keysAt (.call text [.column column]) d := fun i hi v hv =>
      ⟨i, hi, .text v.toText, by rw [eval_text_row htext h, hv]; rfl, by simp, rfl⟩
    rintro (⟨i, hi, v, hv, -, rfl⟩ | ⟨⟨i, hi, hv⟩, rfl⟩)
    · exact hrow i hi v ((eval_column_row i).symm.trans hv)
    · exact hrow i hi .null hv

theorem eval_countDistinct_text_keysAt (hdistinct : Function.ofName? distinct = some (.aggregate .countDistinct))
    (row : Option Int) : eval d row (.call distinct [.call text [.column column]]) =
      .ok (.number (.integer (keysAt (.call text [.column column]) d).ncard)) := by
  have hcall : ∀ name, call text [.column column] = .column name → name ∈ d.columns := fun _ heq => nomatch heq
  refine eval_countDistinct_ok_at hdistinct hcall row fun i _ => ?_
  obtain ⟨v, hv⟩ := exists_cell h i
  exact ⟨_, by rw [eval_text_row htext h, hv]; rfl⟩

end Text

/-- A distinct count of the texts of a column counts as much as that of the column if and only if no cell of the
    column is null or one of them is the empty text. Otherwise it counts one more: the text of the null cells. -/
theorem eval_countDistinct_text (hdistinct : Function.ofName? distinct = some (.aggregate .countDistinct))
    (htext : Function.ofName? text = some .text) (d : Dataset) (row : Option Int) (h : column ∈ d.columns) :
    ∃ n m : Nat, eval d row (.call distinct [.column column]) = .ok (.number (.integer n)) ∧
      eval d row (.call distinct [.call text [.column column]]) = .ok (.number (.integer m)) ∧
      (m = n ↔ (HasNull column d → "" ∈ keysAt (.column column) d)) ∧ (m ≠ n → m = n + 1) := by
  refine ⟨_, _, eval_countDistinct_keysAt h hdistinct row, eval_countDistinct_text_keysAt htext h hdistinct row, ?_⟩
  rw [keysAt_text htext h]
  by_cases hsame : HasNull column d → "" ∈ keysAt (.column column) d
  · have hkeys : keysAt (.column column) d ∪ {k | HasNull column d ∧ k = ""} = keysAt (.column column) d := by
      refine Set.union_eq_left.mpr ?_
      rintro _ ⟨hnull, rfl⟩
      exact hsame hnull
    rw [hkeys]
    exact ⟨iff_of_true rfl hsame, fun hne => absurd rfl hne⟩
  · obtain ⟨hnull, hempty⟩ := Classical.not_imp.mp hsame
    have hkeys : keysAt (.column column) d ∪ {k | HasNull column d ∧ k = ""} =
        insert "" (keysAt (.column column) d) := by
      ext k
      simp [hnull]
    rw [hkeys, Set.ncard_insert_of_notMem hempty (finite_keysAt h)]
    exact ⟨iff_of_false (Nat.succ_ne_self _) hsame, fun _ => rfl⟩

/-- The text of a null cell is a key beside that of the other cell. -/
theorem evaluate_countDistinct_text_null :
    (evaluate "COUNT_DISTINCT(a)" (some ⟨["a"], [some [.text "x"], some [.null]]⟩)).toOption =
      some (.number (.integer 1)) ∧
    (evaluate "COUNT_DISTINCT(TEXT(a))" (some ⟨["a"], [some [.text "x"], some [.null]]⟩)).toOption =
      some (.number (.integer 2)) := by
  decide +kernel

/-- The row that is null counts as the empty text of the first row does. -/
theorem eval_countDistinct_text_empty :
    "a" ∈ ["a"] ∧ ∃ n m : Nat,
      eval ⟨⟨["a"], [some [.text ""], none]⟩, by decide⟩ none (.call "COUNT_DISTINCT" [.column "a"]) =
        .ok (.number (.integer n)) ∧
      eval ⟨⟨["a"], [some [.text ""], none]⟩, by decide⟩ none
        (.call "COUNT_DISTINCT" [.call "FIRST_TEXT" [.column "a"]]) = .ok (.number (.integer m)) ∧ m = n := by
  have hdistinct : Function.ofName? "COUNT_DISTINCT" = some (.aggregate .countDistinct) :=
    Function.ofName?_of_mem (by decide)
  have htext : Function.ofName? "FIRST_TEXT" = some .text := Function.ofName?_of_mem (by decide)
  have hmem : "a" ∈ ["a"] := List.mem_cons_self ..
  obtain ⟨n, m, hn, hm, hiff, -⟩ := eval_countDistinct_text hdistinct htext
    ⟨⟨["a"], [some [.text ""], none]⟩, by decide⟩ none hmem
  exact ⟨hmem, n, m, hn, hm, hiff.mpr fun _ => ⟨0, Nat.zero_lt_succ _, .text "", rfl, by simp, rfl⟩⟩

end Expr
end TableMetrics
