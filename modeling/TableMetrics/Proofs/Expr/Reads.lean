import TableMetrics.Proofs.Dataset.Lookup
import TableMetrics.Proofs.Expr.Call
import TableMetrics.Proofs.Expr.Walk

/-! What an evaluation reads. Outside of aggregates it reads columns where its row is, and inside of them it reads
    whole columns, whatever its row. Two evaluations that find the same there have the same outcome: at two rows, over
    two datasets, or both. -/

namespace TableMetrics
namespace Expr

/-- A call of an aggregate. -/
def isAggregate : Expr → Bool
  | .call f _ =>
    match Function.ofName? f with
    | some (.aggregate _) => true
    | _ => false
  | _ => false

mutual

/-- The parts of an expression that stand in no argument of an aggregate, in the order of the walk. -/
def outer : Expr → List Expr
  | .call f args => .call f args :: if (call f args).isAggregate then [] else outerAll args
  | .arith op l r => .arith op l r :: (outer l ++ outer r)
  | .compare op l r => .compare op l r :: (outer l ++ outer r)
  | e => [e]

def outerAll : List Expr → List Expr
  | [] => []
  | e :: es => outer e ++ outerAll es

end

theorem outerAll_eq_flatMap (es : List Expr) : outerAll es = es.flatMap outer := by
  induction es with
  | nil => rfl
  | cons e es ih => rw [outerAll, ih, List.flatMap_cons]

theorem outer_eq (e : Expr) : e.outer = e :: if e.isAggregate then [] else e.parts.flatMap outer := by
  cases e with
  | call f args => rw [outer, outerAll_eq_flatMap, parts]
  | arith op l r => simp [outer, parts, isAggregate]
  | compare op l r => simp [outer, parts, isAggregate]
  | _ => rfl

theorem mem_outer_self (e : Expr) : e ∈ e.outer := by
  rw [outer_eq]
  exact List.mem_cons_self ..

theorem mem_outer_part {e x y : Expr} (he : e.isAggregate = false) (hx : x ∈ e.parts) (hy : y ∈ x.outer) :
    y ∈ e.outer := by
  rw [outer_eq, he, if_neg (by simp)]
  exact List.mem_cons_of_mem e (List.mem_flatMap.mpr ⟨x, hx, hy⟩)

theorem mem_walk_of_mem_outer {e x : Expr} (h : x ∈ e.outer) : x ∈ e.walk := by
  induction e using inductionParts with
  | step e ih =>
    rw [outer_eq] at h
    rcases List.mem_cons.mp h with rfl | h
    · exact mem_walk_self _
    · split at h
      · cases h
      · obtain ⟨y, hy, hx⟩ := List.mem_flatMap.mp h
        exact mem_walk_part hy (ih y hy hx)

/-! ### Columns -/

section Columns
variable {d d' : Dataset} {row row' : Option Int} {name : String}

theorem columnCell_of_not_mem (h : name ∉ d.columns) :
    columnCell d.view row name = .error (.missingColumn name d.columns) := by
  cases row with
  | some i => rw [columnCell_row, Dataset.cell_eq, Dataset.columnValues_of_not_mem h]; rfl
  | none => rw [columnCell_first, Dataset.firstValue, Dataset.columnValues_of_not_mem h]; rfl

theorem columnText_of_not_mem (h : name ∉ d.columns) :
    columnText d.view row name = .error (.missingColumn name d.columns) := by
  rw [columnText, columnCell_of_not_mem h]
  rfl

theorem columnValue_of_not_mem (h : name ∉ d.columns) :
    columnValue d.view row name = .error (.missingColumn name d.columns) := by
  cases row with
  | some i => rw [columnValue, columnCell_of_not_mem h]
  | none => exact columnText_of_not_mem h

theorem columnCell_congr (row : Option Int) (h : d.columnValues name = d'.columnValues name) :
    columnCell d.view row name = columnCell d'.view row name := by
  cases row with
  | some i => simp only [columnCell_row, Dataset.cell_eq, h]
  | none => simp only [columnCell_first, Dataset.firstValue, h]

theorem columnText_congr (h : columnCell d.view row name = columnCell d'.view row' name) :
    columnText d.view row name = columnText d'.view row' name := by
  rw [columnText, columnText, h]

theorem columnValue_congr (h : columnCell d.view row name = columnCell d'.view row' name) (hrow : row.isSome = row'.isSome) :
    columnValue d.view row name = columnValue d'.view row' name := by
  cases row <;> cases row' <;> cases hrow
  · exact columnText_congr h
  · exact h

theorem columnArgument_agree {f : String} {args : List Expr}
    (h : ∀ name, .column name ∈ args → (name ∈ d.columns ↔ name ∈ d'.columns)) :
    Agree (d.columns = d'.columns) (columnArgument d.view f args) (columnArgument d'.view f args) := by
  unfold columnArgument
  split
  · next name =>
    have hcolumn := h name (List.mem_cons_self ..)
    have hmissing : ∀ x : Dataset, name ∉ x.columns →
        (x.columnIndex name).map (fun _ => name) = .error (.missingColumn name x.columns) := fun x hx => by
      rw [Dataset.columnIndex_of_not_mem hx]
      rfl
    refine Dataset.agree_of_mem hcolumn (hmissing d) (hmissing d') fun hmem => ?_
    rw [Dataset.view_columnIndex, Dataset.view_columnIndex, Dataset.columnIndex_of_mem hmem,
      Dataset.columnIndex_of_mem (hcolumn.mp hmem)]
    rfl
  · refine .error rfl fun hsame => ?_
    rw [Dataset.view_columns, Dataset.view_columns, hsame]
  · exact .refl _

end Columns

/-- An evaluation of the expression over `d` at `row` finds what one over `d'` at `row'` does: the columns that it names
    are there or not there alike, those that it reads at the row have the same value and text, and if it has
    aggregates, the datasets have as many rows and the columns the same values. -/
structure ReadsAlike (e : Expr) (d : Dataset) (row : Option Int) (d' : Dataset) (row' : Option Int) : Prop where
  columns : ∀ name, .column name ∈ e.walk → (name ∈ d.columns ↔ name ∈ d'.columns)
  atRow : ∀ name, .column name ∈ e.outer → name ∈ d.columns →
    columnValue d.view row name = columnValue d'.view row' name ∧ columnText d.view row name = columnText d'.view row' name
  whole : (∃ x ∈ e.walk, x.isAggregate = true) → d.size = d'.size ∧
    ∀ name, .column name ∈ e.walk → name ∈ d.columns → d.columnValues name = d'.columnValues name

namespace ReadsAlike
variable {d d' : Dataset} {row row' : Option Int} {e : Expr}

theorem part {x : Expr} (h : ReadsAlike e d row d' row') (he : e.isAggregate = false) (hx : x ∈ e.parts) :
    ReadsAlike x d row d' row' where
  columns name hname := h.columns name (mem_walk_part hx hname)
  atRow name hname := h.atRow name (mem_outer_part he hx hname)
  whole hagg := by
    obtain ⟨y, hy, hyagg⟩ := hagg
    obtain ⟨hsize, hvalues⟩ := h.whole ⟨y, mem_walk_part hx hy, hyagg⟩
    exact ⟨hsize, fun name hname => hvalues name (mem_walk_part hx hname)⟩

/-- The argument of an aggregate is read alike at every row, since whole columns are. -/
theorem argument {x : Expr} (h : ReadsAlike e d row d' row') (he : e.isAggregate = true) (hx : x ∈ e.parts) (i : Int) :
    ReadsAlike x d (some i) d' (some i) where
  columns name hname := h.columns name (mem_walk_part hx hname)
  atRow name hname hmem := by
    obtain ⟨-, hvalues⟩ := h.whole ⟨e, mem_walk_self e, he⟩
    have hcell := columnCell_congr (some i)
      (hvalues name (mem_walk_part hx (mem_walk_of_mem_outer hname)) hmem)
    exact ⟨columnValue_congr hcell rfl, columnText_congr hcell⟩
  whole _ := by
    obtain ⟨hsize, hvalues⟩ := h.whole ⟨e, mem_walk_self e, he⟩
    exact ⟨hsize, fun name hname => hvalues name (mem_walk_part hx hname)⟩

theorem columnValue_agree {name : String} (h : ReadsAlike (.column name) d row d' row') :
    Agree (d.columns = d'.columns) (columnValue d.view row name) (columnValue d'.view row' name) :=
  Dataset.agree_of_mem (h.columns name (mem_walk_self _)) columnValue_of_not_mem columnValue_of_not_mem
    fun hmem => (h.atRow name (mem_outer_self _) hmem).1

theorem columnArgument_agree {f : String} {args : List Expr} (h : ReadsAlike (.call f args) d row d' row') :
    Agree (d.columns = d'.columns) (columnArgument d.view f args) (columnArgument d'.view f args) :=
  Expr.columnArgument_agree fun name hname => h.columns name (mem_walk_part hname (mem_walk_self _))

theorem columnText_agree {f name : String} {args : List Expr} (h : ReadsAlike (.call f args) d row d' row')
    (hf : (call f args).isAggregate = false) (hname : .column name ∈ args) :
    Agree (d.columns = d'.columns) (columnText d.view row name) (columnText d'.view row' name) :=
  Dataset.agree_of_mem (h.columns name (mem_walk_part hname (mem_walk_self _))) columnText_of_not_mem
    columnText_of_not_mem fun hmem => (h.atRow name (mem_outer_part hf hname (mem_outer_self _)) hmem).2

theorem aggregate_agree {f name : String} {args : List Expr} (h : ReadsAlike (.call f args) d row d' row')
    (hf : (call f args).isAggregate = true) (hname : .column name ∈ args) (a : Aggregate) :
    Agree (d.columns = d'.columns) (d.aggregate a name) (d'.aggregate a name) :=
  Dataset.aggregate_agree (h.columns name (mem_walk_part hname (mem_walk_self _)))
    ((h.whole ⟨_, mem_walk_self _, hf⟩).2 name (mem_walk_part hname (mem_walk_self _))) a

end ReadsAlike

/-- Evaluations that read alike agree. The induction is that of the evaluation over `d`, for every row of the other
    one: the argument of a distinct count is evaluated at rows of its own. -/
theorem eval_agree {d d' : Dataset} {row row' : Option Int} {e : Expr} (h : ReadsAlike e d row d' row') :
    Agree (d.columns = d'.columns) (e.eval d row) (e.eval d' row') := by
  induction row, e using Expr.evalIn.induct generalizing row' with
  | case1 row n =>
    rw [eval_number, eval_number]
    exact .refl _
  | case2 row s =>
    rw [eval_literal, eval_literal]
    exact .refl _
  | case3 row =>
    rw [eval_null, eval_null]
    exact .refl _
  | case4 row name =>
    rw [eval_column, eval_column]
    exact h.columnValue_agree
  | case5 row op l r ihl ihr =>
    rw [eval_arith, eval_arith]
    refine (ihl (h.part rfl (by simp [parts]))).bind fun left _ => (Agree.refl _).bind fun m _ => ?_
    exact (ihr (h.part rfl (by simp [parts]))).bind fun right _ => .refl _
  | case6 row op l r ihl ihr =>
    rw [eval_compare, eval_compare]
    refine (ihl (h.part rfl (by simp [parts]))).bind fun left _ => ?_
    exact (ihr (h.part rfl (by simp [parts]))).bind fun right _ => .refl _
  | case7 row f args hf =>
    rw [eval_unknown hf, eval_unknown hf]
    exact .refl _
  | case8 row f condition yes hf ihc ihy =>
    have hagg : (call f [condition, yes]).isAggregate = false := by simp only [isAggregate, hf]
    rw [eval_choose_two hf, eval_choose_two hf]
    refine (ihc (h.part hagg (by simp [parts]))).bind fun v _ => ?_
    split
    · exact ihy (h.part hagg (by simp [parts]))
    · exact .refl _
  | case9 row f condition yes no hf ihc ihy ihn =>
    have hagg : (call f [condition, yes, no]).isAggregate = false := by simp only [isAggregate, hf]
    rw [eval_choose_three hf, eval_choose_three hf]
    refine (ihc (h.part hagg (by simp [parts]))).bind fun v _ => ?_
    split
    · exact ihy (h.part hagg (by simp [parts]))
    · exact ihn (h.part hagg (by simp [parts]))
  | case10 row f args htwo hthree hf =>
    rw [eval_choose_arity hf htwo hthree, eval_choose_arity hf htwo hthree]
    exact .refl _
  | case11 row f name hf _ =>
    have hagg : (call f [.column name]).isAggregate = true := by simp only [isAggregate, hf]
    rw [eval_countDistinct_column hf, eval_countDistinct_column hf]
    exact (h.aggregate_agree hagg (List.mem_cons_self ..) _).map _
  | case12 row f argument hcolumn hf _ ih =>
    have hagg : (call f [argument]).isAggregate = true := by simp only [isAggregate, hf]
    obtain ⟨hsize, -⟩ := h.whole ⟨_, mem_walk_self _, hagg⟩
    rw [eval_countDistinct hf hcolumn, eval_countDistinct hf hcolumn, ← hsize]
    -- From here on neither row matters: both arguments are evaluated at the same rows.
    exact (Agree.mapM fun i _ => ih i (h.argument hagg (List.mem_cons_self ..) i)).map _
  | case13 row f args hcolumn hone hf _ =>
    rw [eval_countDistinct_arity hf hone, eval_countDistinct_arity hf hone]
    exact .refl _
  | case14 row f args hf _ _ =>
    have hagg : (call f args).isAggregate = false := by simp only [isAggregate, hf]
    rw [eval_text hf, eval_text hf]
    refine h.columnArgument_agree.bind fun name hname => ?_
    obtain rfl := args_of_columnArgument hname
    exact h.columnText_agree hagg (List.mem_cons_self ..)
  | case15 row f args g hf hchoose hdistinct htext =>
    obtain ⟨a, ha, rfl⟩ := Function.IsReduction.exists_aggregate ⟨hchoose, hdistinct, htext⟩
    have hagg : (call f args).isAggregate = true := by simp only [isAggregate, hf]
    rw [eval_aggregate hf ha, eval_aggregate hf ha]
    refine h.columnArgument_agree.bind fun name hname => ?_
    obtain rfl := args_of_columnArgument hname
    exact (h.aggregate_agree hagg (List.mem_cons_self ..) a).map _

end Expr
end TableMetrics
