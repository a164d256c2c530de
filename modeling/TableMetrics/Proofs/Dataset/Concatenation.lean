import TableMetrics.Proofs.Dataset.Column
import TableMetrics.Proofs.Expr.Call
import TableMetrics.Proofs.Number.Conversion

/-! Rows behind one another. The aggregates of all rows come from those of the first part and of the second: counts add
    up, keys are united, the lesser minimum and the greater maximum stay, and a part without numbers does not matter.
    Nor do rows, wherever they stand, whose cell stands for no finite number. -/

namespace TableMetrics

open Binary64 (IsExtreme AtMost AtLeast)

/-! ### Lists of cells -/

theorem numericValues_append (cells cells' : List Value) :
    numericValues (cells ++ cells') = numericValues cells ++ numericValues cells' := by
  rw [numericValues, List.map_append, List.filter_append]
  rfl

theorem keys_append (cells cells' : List Value) : keys (cells ++ cells') = keys cells ∪ keys cells' := by
  ext k
  simp only [keys, List.mem_append, Set.mem_union, Set.mem_ofPred_eq, or_and_right, exists_or]

theorem not_isNull_iff {v : Value} : (!v.isNull) = true ↔ v ≠ .null := by
  rw [Bool.not_eq_true', ← Bool.not_eq_true, isNull_iff]

theorem firstNonNull_append_of_exists {cells : List Value} (cells' : List Value) (h : ∃ v ∈ cells, v ≠ .null) :
    firstNonNull (cells ++ cells') = firstNonNull cells := by
  obtain ⟨v, hv, hne⟩ := h
  have hsome : (cells.find? (!·.isNull)).isSome = true :=
    List.find?_isSome.mpr ⟨v, hv, not_isNull_iff.mpr hne⟩
  obtain ⟨w, hw⟩ := Option.isSome_iff_exists.mp hsome
  rw [firstNonNull, firstNonNull, List.find?_append, hw]
  rfl

theorem firstNonNull_append_of_not_exists {cells : List Value} (cells' : List Value) (h : ¬∃ v ∈ cells, v ≠ .null) :
    firstNonNull (cells ++ cells') = firstNonNull cells' := by
  have hnone : cells.find? (!·.isNull) = none := by
    rw [List.find?_eq_none]
    intro v hv hnull
    exact h ⟨v, hv, not_isNull_iff.mp hnull⟩
  rw [firstNonNull, firstNonNull, List.find?_append, hnone]
  rfl

/-- Of a truth value and a text that is not numeric the numbers are that of the truth value. -/
theorem numericValues_truth (b : Bool) :
    numericValues [.bool b, .text "n/a"] = [Binary64.ofInt (if b then 1 else 0)] := by
  have hfinite : (Binary64.ofInt (if b then 1 else 0)).isFinite = true := by
    rw [Binary64.ofInt_eq (Binary64.fits_whole (by cases b <;> decide))]
    rfl
  have htext : numericText? "n/a" = none := by decide
  have hnan : Binary64.nan.isFinite ≠ true := by decide
  simp only [numericValues, List.map_cons, List.map_nil, Value.toNumber, htext, Option.getD_none,
    List.filter_cons_of_pos hfinite, List.filter_cons_of_neg hnan, List.filter_nil]

/-! ### Cells that stand for no finite number -/

/-- A cell that statistics leave out: a null, text that is not numeric, what is not a number, or one that is not
    finite, which numeric text and large whole numbers can be as well. -/
inductive IsIrrelevant : Value → Prop where
  | null : IsIrrelevant .null
  | text {s : String} (h : ¬IsNumeric (trimChars s.toList)) : IsIrrelevant (.text s)
  | nan : IsIrrelevant (.number (.float .nan))
  | infinite {v : Value} {negative : Bool} (h : v.toNumber = .infinite negative) : IsIrrelevant v

theorem IsIrrelevant.isFinite_toNumber {v : Value} (h : IsIrrelevant v) : v.toNumber.isFinite = false := by
  cases h with
  | null => rfl
  | text h =>
    rw [Value.toNumber_of_not_numeric h]
    rfl
  | nan => rfl
  | infinite h =>
    rw [h]
    rfl

/-- A list with members inserted anywhere that satisfy `p`. -/
inductive Inserted {α : Type} (p : α → Prop) : List α → List α → Prop where
  | nil : Inserted p [] []
  | keep {x : α} {xs ys : List α} (h : Inserted p xs ys) : Inserted p (x :: xs) (x :: ys)
  | insert {x : α} {xs ys : List α} (hx : p x) (h : Inserted p xs ys) : Inserted p xs (x :: ys)

theorem numericValues_inserted {α : Type} (cell : α → Value) {xs ys : List α}
    (h : Inserted (fun x => IsIrrelevant (cell x)) xs ys) :
    numericValues (ys.map cell) = numericValues (xs.map cell) := by
  induction h with
  | nil => rfl
  | @keep x xs ys _ ih =>
    rw [List.map_cons, List.map_cons, ← List.singleton_append, numericValues_append, ih, ← numericValues_append]
    rfl
  | insert hx _ ih =>
    rw [List.map_cons, numericValues, List.map_cons, List.filter_cons_of_neg (by simp [hx.isFinite_toNumber])]
    exact ih

namespace Dataset
variable {d : Dataset} {column : String}

/-- The cell of a column is not null at some row. -/
def HasCell (d : Dataset) (column : String) : Prop := ∃ i < d.size, ∃ v, d.cell i column = .ok v ∧ v ≠ .null

/-- The cell of a column in a row is irrelevant. -/
def IsIrrelevantRow (d : Dataset) (column : String) (row : Option (List Value)) : Prop :=
  IsIrrelevant (readCell (d.columns.idxOf column) row)

/-- What a minimum or a maximum is of two parts: one of the parts' that is related to both of them. A part that has none
    for want of numbers is left out, and there is none if both have none. -/
inductive Joined (R : Binary64 → Binary64 → Prop) (s : Statistic) (column : String) :
    Except MetricError Number → Except MetricError Number → Except MetricError Number → Prop where
  | neither : Joined R s column (.error (.emptyColumn s column)) (.error (.emptyColumn s column))
    (.error (.emptyColumn s column))
  | first (x : Binary64) : Joined R s column (.ok (.float x)) (.error (.emptyColumn s column)) (.ok (.float x))
  | second (y : Binary64) : Joined R s column (.error (.emptyColumn s column)) (.ok (.float y)) (.ok (.float y))
  | both {x y z : Binary64} (h : IsExtreme R [x, y] z) :
    Joined R s column (.ok (.float x)) (.ok (.float y)) (.ok (.float z))

theorem Joined.exists_isExtreme {R : Binary64 → Binary64 → Prop} {s : Statistic} {x y : Binary64}
    {whole : Except MetricError Number} (h : Joined R s column (.ok (.float x)) (.ok (.float y)) whole) :
    ∃ z, whole = .ok (.float z) ∧ IsExtreme R [x, y] z := by
  cases h with
  | both h => exact ⟨_, rfl, h⟩

section Parts
variable (d : Dataset) (column : String) (first second : List (Option (List Value)))

theorem cells_append : (d.withRows (first ++ second)).cells column =
    (d.withRows first).cells column ++ (d.withRows second).cells column := List.map_append

theorem numbers_append : (d.withRows (first ++ second)).numbers column =
    (d.withRows first).numbers column ++ (d.withRows second).numbers column := by
  rw [numbers, cells_append, numericValues_append]
  rfl

end Parts

section Column
variable (h : column ∈ d.columns)
include h

theorem toFinset_columnKeys {ks : List String} (hks : d.columnKeys column = .ok ks) :
    ks.toFinset = (distinctKeys (d.cells column)).toFinset := by
  rw [columnKeys, columnValues_eq h] at hks
  cases hks
  exact List.toFinset_eq_of_perm _ _ (List.mergeSort_perm ..)

theorem exists_columnKeys : ∃ ks, d.columnKeys column = .ok ks ∧ ↑ks.toFinset = keys (d.cells column) ∧
    d.aggregate .countDistinct column = .ok (.integer ks.toFinset.card) := by
  let ks := (distinctKeys (d.cells column)).mergeSort fun s t => decide (s ≤ t)
  have hperm : ks.Perm (distinctKeys (d.cells column)) := List.mergeSort_perm ..
  refine ⟨ks, by rw [columnKeys, columnValues_eq h]; rfl, ?_, ?_⟩
  · ext k
    rw [List.coe_toFinset, Set.mem_ofPred_eq, hperm.mem_iff, mem_distinctKeys]
  · rw [aggregate_countDistinct h, List.toFinset_card_of_nodup (hperm.nodup_iff.mpr (nodup_distinctKeys _)), hperm.length_eq]

section Append
variable (first second : List (Option (List Value)))

theorem aggregate_count_append : ∃ m n : ℕ, (d.withRows first).aggregate .count column = .ok (.integer m) ∧
    (d.withRows second).aggregate .count column = .ok (.integer n) ∧
    (d.withRows (first ++ second)).aggregate .count column = .ok (.integer (m + n)) := by
  have hmem : ∀ rows, column ∈ (d.withRows rows).columns := fun _ => h
  refine ⟨_, _, aggregate_count (hmem _), aggregate_count (hmem _), ?_⟩
  rw [aggregate_count (hmem _), cells_append d column first second, List.filter_append, List.length_append, Nat.cast_add]

/-- The keys are united, so that those of both parts count once. -/
theorem aggregate_countDistinct_append : ∃ ks ks' all, (d.withRows first).columnKeys column = .ok ks ∧
    (d.withRows second).columnKeys column = .ok ks' ∧ (d.withRows (first ++ second)).columnKeys column = .ok all ∧
    all.toFinset = ks.toFinset ∪ ks'.toFinset ∧
    (d.withRows first).aggregate .countDistinct column = .ok (.integer ks.toFinset.card) ∧
    (d.withRows second).aggregate .countDistinct column = .ok (.integer ks'.toFinset.card) ∧
    (d.withRows (first ++ second)).aggregate .countDistinct column =
      .ok (.integer (ks.toFinset.card + ks'.toFinset.card - (ks.toFinset ∩ ks'.toFinset).card)) := by
  have hmem : ∀ rows, column ∈ (d.withRows rows).columns := fun _ => h
  obtain ⟨ks, hks, hkeys, hcount⟩ := exists_columnKeys (hmem first)
  obtain ⟨ks', hks', hkeys', hcount'⟩ := exists_columnKeys (hmem second)
  obtain ⟨all, hall, hkeysAll, hcountAll⟩ := exists_columnKeys (hmem (first ++ second))
  have hunion : all.toFinset = ks.toFinset ∪ ks'.toFinset := by
    rw [← Finset.coe_inj, Finset.coe_union, hkeys, hkeys', hkeysAll, cells_append d column first second, keys_append]
  have hcard := Finset.card_union_add_card_inter ks.toFinset ks'.toFinset
  refine ⟨ks, ks', all, hks, hks', hall, hunion, hcount, hcount', ?_⟩
  rw [hcountAll, hunion]
  congr 2
  omega

end Append

theorem aggregate_statistic_inserted {rows rows' : List (Option (List Value))}
    (hrows : Inserted (d.IsIrrelevantRow column) rows rows') (s : Statistic) :
    (d.withRows rows').aggregate (.statistic s) column = (d.withRows rows).aggregate (.statistic s) column := by
  have hmem : ∀ rows, column ∈ (d.withRows rows).columns := fun _ => h
  have hnumbers : (d.withRows rows').numbers column = (d.withRows rows).numbers column :=
    numericValues_inserted (readCell (d.columns.idxOf column)) hrows
  exact aggregate_statistic_congr (hmem _) (hmem _) hnumbers s

/-- What is least or greatest of the numbers of two parts is so of those of each. -/
theorem joined {s : Statistic} {R : Binary64 → Binary64 → Prop} {choose : Binary64 → Binary64 → Binary64}
    {key : Binary64 → Int} (hs : s.Chooses R choose key) (first second : List (Option (List Value))) :
    Joined R s column ((d.withRows first).aggregate (.statistic s) column)
      ((d.withRows second).aggregate (.statistic s) column)
      ((d.withRows (first ++ second)).aggregate (.statistic s) column) := by
  have hmem : ∀ rows, column ∈ (d.withRows rows).columns := fun _ => h
  have happend := numbers_append d column first second
  cases hx : (d.withRows first).numbers column with
  | nil =>
    rw [hx, List.nil_append] at happend
    rw [aggregate_of_nil (hmem _) s hx, aggregate_statistic_congr (hmem _) (hmem _) happend]
    cases hy : (d.withRows second).numbers column with
    | nil =>
      rw [aggregate_of_nil (hmem _) s hy]
      exact .neither
    | cons y ys =>
      rw [aggregate_of_cons (hmem _) s hy]
      exact .second _
  | cons x xs =>
    rw [aggregate_of_cons (hmem _) s hx]
    cases hy : (d.withRows second).numbers column with
    | nil =>
      rw [hx, hy, List.append_nil] at happend
      rw [aggregate_of_nil (hmem _) s hy, aggregate_of_cons (hmem _) s happend]
      exact .first _
    | cons y ys =>
      rw [hx, hy, List.cons_append] at happend
      have hfinite : ∀ z ∈ x :: xs, z.isFinite = true := fun z hz => isFinite_of_mem_numbers (hx ▸ hz)
      have hfinite' : ∀ z ∈ y :: ys, z.isFinite = true := fun z hz => isFinite_of_mem_numbers (hy ▸ hz)
      rw [aggregate_of_cons (hmem _) s hy, aggregate_of_cons (hmem _) s happend, hs.of_eq, hs.of_eq,
        hs.of_eq, hs.selects.foldl_append hfinite hfinite']
      refine .both (hs.selects.isExtreme hs.related ?_)
      exact List.forall_mem_cons.mpr ⟨hs.selects.isFinite_foldl hfinite,
        List.forall_mem_singleton.mpr (hs.selects.isFinite_foldl hfinite')⟩

end Column

end Dataset

/-! ### A column without a row -/

namespace Expr
variable {d : Dataset} {column : String} {e : Expr}

/-- A column by itself, or the text of it. -/
inductive ReadsColumn (column : String) : Expr → Prop where
  | column : ReadsColumn column (.column column)
  | text {f : String} (hf : Function.ofName? f = some .text) : ReadsColumn column (.call f [.column column])

/-- Without a row a column is the text of the first of its cells that is not null. -/
theorem ReadsColumn.eval_eq (he : ReadsColumn column e) (h : column ∈ d.columns) :
    eval d none e = .ok (.text (firstNonNull (d.cells column)).toText) := by
  have htext : columnText d.view none column = .ok (.text (firstNonNull (d.cells column)).toText) := by
    rw [columnText, columnCell_first, Dataset.firstValue, Dataset.columnValues_eq h]
    rfl
  cases he with
  | column => rw [eval_column, columnValue, htext]
  | text hf =>
    rw [eval_text hf, columnArgument_column, Dataset.columnIndex_of_mem h]
    exact htext

/-- The first part is decisive, unless all of its cells are null. -/
theorem ReadsColumn.eval_append (he : ReadsColumn column e) (h : column ∈ d.columns)
    (first second : List (Option (List Value))) :
    ((d.withRows first).HasCell column → eval (d.withRows (first ++ second)) none e = eval (d.withRows first) none e) ∧
      (¬(d.withRows first).HasCell column →
        eval (d.withRows (first ++ second)) none e = eval (d.withRows second) none e) := by
  have hmem : ∀ rows, column ∈ (d.withRows rows).columns := fun _ => h
  rw [he.eval_eq (hmem _), he.eval_eq (hmem _), he.eval_eq (hmem _), Dataset.cells_append, Dataset.HasCell,
    Dataset.exists_cell_iff (hmem _)]
  refine ⟨fun hcell => ?_, fun hcell => ?_⟩
  · rw [firstNonNull_append_of_exists _ hcell]
  · rw [firstNonNull_append_of_not_exists _ hcell]

end Expr

namespace Dataset
variable {column : String}

/-- What aggregates say about the rows of two parts behind one another, and about rows that are inserted. -/
theorem aggregate_append (d : Dataset) (first second : List (Option (List Value))) (h : column ∈ d.columns) :
    (∃ m n : ℕ, (d.withRows first).aggregate .count column = .ok (.integer m) ∧
      (d.withRows second).aggregate .count column = .ok (.integer n) ∧
      (d.withRows (first ++ second)).aggregate .count column = .ok (.integer (m + n))) ∧
    (∃ ks ks' all, (d.withRows first).columnKeys column = .ok ks ∧ (d.withRows second).columnKeys column = .ok ks' ∧
      (d.withRows (first ++ second)).columnKeys column = .ok all ∧ all.toFinset = ks.toFinset ∪ ks'.toFinset ∧
      (d.withRows first).aggregate .countDistinct column = .ok (.integer ks.toFinset.card) ∧
      (d.withRows second).aggregate .countDistinct column = .ok (.integer ks'.toFinset.card) ∧
      (d.withRows (first ++ second)).aggregate .countDistinct column =
        .ok (.integer (ks.toFinset.card + ks'.toFinset.card - (ks.toFinset ∩ ks'.toFinset).card))) ∧
    Joined AtMost .minimum column ((d.withRows first).aggregate (.statistic .minimum) column)
      ((d.withRows second).aggregate (.statistic .minimum) column)
      ((d.withRows (first ++ second)).aggregate (.statistic .minimum) column) ∧
    Joined AtLeast .maximum column ((d.withRows first).aggregate (.statistic .maximum) column)
      ((d.withRows second).aggregate (.statistic .maximum) column)
      ((d.withRows (first ++ second)).aggregate (.statistic .maximum) column) ∧
    (∀ e, Expr.ReadsColumn column e →
      ((d.withRows first).HasCell column →
        Expr.eval (d.withRows (first ++ second)) none e = Expr.eval (d.withRows first) none e) ∧
      (¬(d.withRows first).HasCell column →
        Expr.eval (d.withRows (first ++ second)) none e = Expr.eval (d.withRows second) none e)) ∧
    ∀ rows rows', Inserted (d.IsIrrelevantRow column) rows rows' → ∀ s,
      (d.withRows rows').aggregate (.statistic s) column = (d.withRows rows).aggregate (.statistic s) column := by
  refine ⟨aggregate_count_append h first second, aggregate_countDistinct_append h first second, ?_, ?_, ?_, ?_⟩
  · exact joined h chooses_minimum first second
  · exact joined h chooses_maximum first second
  · exact fun e he => he.eval_append h first second
  · exact fun rows rows' hrows s => aggregate_statistic_inserted h hrows s

/-- Both parts have the text, which is counted once, and each has a number of its own. The first one has the cell that
    a reference to the column is the text of. -/
theorem aggregate_append_ragged :
    let first := [some [.bool true], some [.text "n/a"]]
    let second := [none, some [.bool false, .null], some [.text "n/a"]]
    let whole := ragged.withRows (first ++ second)
    "a" ∈ ragged.columns ∧ whole.aggregate .count "a" = .ok (.integer 4) ∧
      whole.aggregate .countDistinct "a" = .ok (.integer 3) ∧
      (∃ lo, whole.aggregate (.statistic .minimum) "a" = .ok (.float lo) ∧
        IsExtreme AtMost [Binary64.ofInt 1, Binary64.ofInt 0] lo) ∧
      (∃ hi, whole.aggregate (.statistic .maximum) "a" = .ok (.float hi) ∧
        IsExtreme AtLeast [Binary64.ofInt 1, Binary64.ofInt 0] hi) ∧
      Expr.eval whole none (.column "a") = Expr.eval (ragged.withRows first) none (.column "a") ∧
      whole.aggregate (.statistic .deviation) "a" =
        (ragged.withRows [some [.bool true], some [.bool false, .null]]).aggregate (.statistic .deviation) "a" := by
  intro first second whole
  have hmem : "a" ∈ ragged.columns := List.mem_cons_self ..
  have hnull : ragged.IsIrrelevantRow "a" none := .null
  have htext : ragged.IsIrrelevantRow "a" (some [.text "n/a"]) := .text (ofChars?_eq_none_iff.mp (by decide))
  have hmem' : ∀ rows, "a" ∈ (ragged.withRows rows).columns := fun _ => hmem
  have hcells : (ragged.withRows first).cells "a" = [.bool true, .text "n/a"] := rfl
  have hcells' : (ragged.withRows second).cells "a" = [.null] ++ [.bool false, .text "n/a"] := rfl
  have hone : (ragged.withRows first).numbers "a" = [Binary64.ofInt 1] := by
    rw [numbers, hcells, numericValues_truth, if_pos rfl]
  have hzero : (ragged.withRows second).numbers "a" = [Binary64.ofInt 0] := by
    rw [numbers, hcells', numericValues_append, numericValues_truth, if_neg Bool.false_ne_true]
    rfl
  have hfirst : ∀ s, (ragged.withRows first).aggregate (.statistic s) "a" = .ok (.float (s.of (Binary64.ofInt 1) [])) :=
    fun s => aggregate_of_cons (hmem' _) s hone
  have hsecond : ∀ s, (ragged.withRows second).aggregate (.statistic s) "a" = .ok (.float (s.of (Binary64.ofInt 0) [])) :=
    fun s => aggregate_of_cons (hmem' _) s hzero
  obtain ⟨⟨m, n, hm, hn, hcount⟩, ⟨ks, ks', -, hks, hks', -, -, hkeys, hkeys', hdistinct⟩, hlo, hhi, hreads, hinserted⟩ :=
    aggregate_append ragged first second hmem
  refine ⟨hmem, ?_, ?_, ?_, ?_, ?_, ?_⟩
  · cases hm
    cases hn
    exact hcount
  · have htrue : distinctKeys [.bool true, .text "n/a"] = ["true", "n/a"] := rfl
    have hfalse : distinctKeys ([.null] ++ [.bool false, .text "n/a"]) = ["false", "n/a"] := rfl
    rw [toFinset_columnKeys (hmem' _) hks, toFinset_columnKeys (hmem' _) hks', hcells, hcells', htrue, hfalse] at hdistinct
    exact hdistinct
  · simp only [hfirst, hsecond, chooses_minimum.of_eq, List.foldl_nil] at hlo
    exact hlo.exists_isExtreme
  · simp only [hfirst, hsecond, chooses_maximum.of_eq, List.foldl_nil] at hhi
    exact hhi.exists_isExtreme
  · exact (hreads _ .column).1 ⟨0, by decide, .bool true, rfl, by decide⟩
  · exact hinserted _ (first ++ second) (.keep (.insert htext (.insert hnull (.keep (.insert htext .nil))))) .deviation

end Dataset
end TableMetrics
