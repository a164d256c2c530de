import TableMetrics.Proofs.Dataset.Keys
import TableMetrics.Proofs.Dataset.Lookup
import TableMetrics.Proofs.Dataset.Rows
import TableMetrics.Proofs.Number.ExactSum

/-! A column as the list of its cells, and its aggregates as functions of that list. A statistic is one of the finite
    numbers that the cells stand for, and there is none if there are none of these. The minimum and the maximum are the
    first least and the first greatest of the numbers. -/

namespace TableMetrics

/-! ### Cells -/

namespace Dataset
variable {d : Dataset} {column : String}

/-- The cells of a column, in the order of the rows. -/
def cells (d : Dataset) (column : String) : List Value := d.rows.map (readCell (d.columns.idxOf column))

/-- The finite numbers that the cells of a column stand for, in the order of the rows. -/
def numbers (d : Dataset) (column : String) : List Binary64 := numericValues (d.cells column)

/-- The cell of a column stands for a finite number at some row. -/
def HasNumber (d : Dataset) (column : String) : Prop :=
  ∃ i < d.size, ∃ v, d.cell i column = .ok v ∧ v.toNumber.isFinite = true

theorem isFinite_of_mem_numbers {x : Binary64} (h : x ∈ d.numbers column) : x.isFinite = true :=
  (List.mem_filter.mp h).2

section Column
variable (h : column ∈ d.columns)
include h

theorem columnValues_eq : d.columnValues column = .ok (d.cells column) := columnValues_of_mem h

theorem columnNumbers_eq : d.columnNumbers column = .ok (d.numbers column) := by
  rw [columnNumbers, columnValues_eq h]
  rfl

theorem cell_eq_getElem? (i : Nat) : d.cell i column = .ok ((d.cells column)[i]?.getD .null) := by
  have hnonneg : ¬(i : Int) < 0 := by omega
  rw [cell_eq, columnValues_eq h]
  simp only [Except.map, if_neg hnonneg, Int.toNat_natCast]

/-- What holds of the cell at some row holds of one of the cells. -/
theorem exists_cell_iff (P : Value → Prop) :
    (∃ i < d.size, ∃ v, d.cell i column = .ok v ∧ P v) ↔ ∃ v ∈ d.cells column, P v := by
  have hsize : (d.cells column).length = d.size := List.length_map _
  simp only [cell_eq_getElem? h, Except.ok.injEq]
  constructor
  · rintro ⟨i, hi, v, rfl, hv⟩
    rw [← hsize] at hi
    rw [List.getElem?_eq_getElem hi, Option.getD_some] at hv
    exact ⟨_, List.getElem_mem hi, hv⟩
  · rintro ⟨v, hmem, hv⟩
    obtain ⟨i, hi, rfl⟩ := List.mem_iff_getElem.mp hmem
    refine ⟨i, by rwa [← hsize], _, rfl, ?_⟩
    rwa [List.getElem?_eq_getElem hi, Option.getD_some]

theorem hasNumber_iff : d.HasNumber column ↔ d.numbers column ≠ [] := by
  rw [HasNumber, exists_cell_iff h, numbers, numericValues, Ne, List.filter_eq_nil_iff]
  simp

theorem aggregate_count : d.aggregate .count column = .ok (.integer ((d.cells column).filter (!·.isNull)).length) := by
  rw [aggregate_eq, columnValues_eq h]
  rfl

theorem aggregate_countDistinct : d.aggregate .countDistinct column = .ok (.integer (distinctKeys (d.cells column)).length) := by
  rw [aggregate_eq, columnValues_eq h]
  rfl

theorem aggregate_statistic (s : Statistic) : d.aggregate (.statistic s) column =
    ((MetricError.emptyColumn s column).require (s.ofCells? (d.cells column))).map .float := by
  rw [aggregate_eq, columnValues_eq h]
  rfl

theorem aggregate_of_nil (s : Statistic) (hnumbers : d.numbers column = []) :
    d.aggregate (.statistic s) column = .error (.emptyColumn s column) := by
  rw [numbers] at hnumbers
  rw [aggregate_statistic h, Statistic.ofCells?, hnumbers]
  rfl

theorem aggregate_of_cons (s : Statistic) {x : Binary64} {xs : List Binary64} (hnumbers : d.numbers column = x :: xs) :
    d.aggregate (.statistic s) column = .ok (.float (s.of x xs)) := by
  rw [numbers] at hnumbers
  rw [aggregate_statistic h, Statistic.ofCells?, hnumbers]
  rfl

/-- A statistic fails if and only if no cell of the column stands for a finite number. -/
theorem aggregate_eq_error_iff (s : Statistic) :
    d.aggregate (.statistic s) column = .error (.emptyColumn s column) ↔ ¬d.HasNumber column := by
  rw [hasNumber_iff h, not_not]
  cases hnumbers : d.numbers column with
  | nil => exact iff_of_true (aggregate_of_nil h s hnumbers) rfl
  | cons x xs =>
    rw [aggregate_of_cons h s hnumbers]
    exact iff_of_false (by rintro ⟨⟩) (List.cons_ne_nil x xs)

theorem exists_aggregate (hnumber : d.HasNumber column) (s : Statistic) :
    ∃ x, d.aggregate (.statistic s) column = .ok (.float x) := by
  rw [hasNumber_iff h] at hnumber
  cases hnumbers : d.numbers column with
  | nil => exact absurd hnumbers hnumber
  | cons x xs => exact ⟨_, aggregate_of_cons h s hnumbers⟩

end Column

/-- The statistics of a column depend on its numbers alone. -/
theorem aggregate_statistic_congr {d' : Dataset} (h : column ∈ d.columns) (h' : column ∈ d'.columns)
    (hnumbers : d'.numbers column = d.numbers column) (s : Statistic) :
    d'.aggregate (.statistic s) column = d.aggregate (.statistic s) column := by
  cases hx : d.numbers column with
  | nil => rw [aggregate_of_nil h s hx, aggregate_of_nil h' s (hnumbers.trans hx)]
  | cons x xs => rw [aggregate_of_cons h s hx, aggregate_of_cons h' s (hnumbers.trans hx)]

/-- Cells of several kinds, a row that is null, and short ones. -/
def ragged : Dataset where
  columns := ["a", "c"]
  rows := [some [.number (.integer 3)], none, some [.bool true, .null], some [.text "n/a"]]
  distinct := by decide

theorem numbers_ragged : ragged.numbers "a" = [Binary64.ofInt 3, Binary64.ofInt 1] := by
  have hthree := Binary64.ofInt_eq (Binary64.fits_whole (show (3 : Int).natAbs ≤ 2 ^ 53 by decide))
  have hone := Binary64.ofInt_eq (Binary64.fits_whole (show (1 : Int).natAbs ≤ 2 ^ 53 by decide))
  have htext : numericText? "n/a" = none := by decide
  have hcells : ragged.cells "a" = [.number (.integer 3), .null, .bool true, .text "n/a"] := rfl
  simp [numbers, hcells, numericValues, Value.toNumber, Number.toBinary64, hthree, hone, htext, Binary64.isFinite]

end Dataset

/-! ### The least and the greatest of numbers -/

namespace Binary64
variable {x y : Binary64}

theorem rank?_of_finite (h : x.isFinite = true) : x.rank? = some x.signedUnits := by
  obtain ⟨s, u, hu, rfl⟩ := exists_eq_finite h
  rfl

theorem order?_of_finite (hx : x.isFinite = true) (hy : y.isFinite = true) :
    x.order? y = some (compare x.signedUnits y.signedUnits) := by
  rw [order?, rank?_of_finite hx, rank?_of_finite hy]
  rfl

/-- A number is less than another one or equal to it, as the comparison of the language has it. -/
def AtMost (x y : Binary64) : Prop := CompareOp.lessEqual.holds (x.order? y) = true

def AtLeast (x y : Binary64) : Prop := y.AtMost x

/-- Numbers are equal as the comparison of the language has it, in which the two zeros are. -/
def Same (x y : Binary64) : Prop := CompareOp.equal.holds (x.order? y) = true

theorem atMost_iff (hx : x.isFinite = true) (hy : y.isFinite = true) : x.AtMost y ↔ x.signedUnits ≤ y.signedUnits := by
  rw [AtMost, order?_of_finite hx hy]
  simp only [CompareOp.holds, Option.some_beq_some, Bool.or_eq_true, beq_iff_eq, compare_lt_iff_lt, compare_eq_iff_eq]
  omega

theorem atLeast_iff (hx : x.isFinite = true) (hy : y.isFinite = true) :
    x.AtLeast y ↔ -x.signedUnits ≤ -y.signedUnits := by
  rw [AtLeast, atMost_iff hy hx, Int.neg_le_neg_iff]

theorem same_of_atMost (hx : x.isFinite = true) (hy : y.isFinite = true) (h : x.AtMost y) (h' : y.AtMost x) :
    x.Same y := by
  rw [atMost_iff hx hy] at h
  rw [atMost_iff hy hx] at h'
  rw [Same, order?_of_finite hx hy]
  simp only [CompareOp.holds, Option.some_beq_some, beq_iff_eq, compare_eq_iff_eq]
  omega

/-- One of the numbers that is related to all of them. -/
structure IsExtreme (R : Binary64 → Binary64 → Prop) (xs : List Binary64) (x : Binary64) : Prop where
  mem : x ∈ xs
  all : ∀ y ∈ xs, R x y

theorem IsExtreme.of_perm {R : Binary64 → Binary64 → Prop} {xs ys : List Binary64} (h : IsExtreme R ys x)
    (hperm : ys.Perm xs) : IsExtreme R xs x :=
  ⟨hperm.mem_iff.mp h.mem, fun y hy => h.all y (hperm.mem_iff.mpr hy)⟩

end Binary64

open Binary64 (signedUnits IsExtreme AtMost AtLeast)

/-- Of two finite numbers that with the lesser key is chosen, the first if the keys are equal. -/
def Selects (choose : Binary64 → Binary64 → Binary64) (key : Binary64 → Int) : Prop :=
  ∀ x y, x.isFinite = true → y.isFinite = true → choose x y = if key y < key x then y else x

theorem selects_lesser : Selects Statistic.lesser signedUnits := by
  intro x y hx hy
  simp only [Statistic.lesser, Binary64.order?_of_finite hy hx, Option.some.injEq, compare_lt_iff_lt]

theorem selects_greater : Selects Statistic.greater (fun x => -signedUnits x) := by
  intro x y hx hy
  simp only [Statistic.greater, Binary64.order?_of_finite hy hx, Option.some.injEq, compare_gt_iff_gt, Int.neg_lt_neg_iff]

namespace Selects
variable {choose : Binary64 → Binary64 → Binary64} {key : Binary64 → Int} (h : Selects choose key)
  {x y : Binary64} {xs ys : List Binary64}
include h

theorem cases (hx : x.isFinite = true) (hy : y.isFinite = true) :
    choose x y = x ∧ key x ≤ key y ∨ choose x y = y ∧ key y < key x := by
  rw [h x y hx hy]
  split
  · next hlt => exact Or.inr ⟨rfl, hlt⟩
  · next hge => exact Or.inl ⟨rfl, by omega⟩

/-- One choice after the other leads to a number with the least key. -/
theorem foldl_least (hfinite : ∀ y ∈ x :: xs, y.isFinite = true) :
    xs.foldl choose x ∈ x :: xs ∧ ∀ y ∈ x :: xs, key (xs.foldl choose x) ≤ key y := by
  induction xs generalizing x with
  | nil => simp
  | cons y xs ih =>
    obtain ⟨hx, hrest⟩ := List.forall_mem_cons.mp hfinite
    obtain ⟨hy, hxs⟩ := List.forall_mem_cons.mp hrest
    rw [List.foldl_cons]
    rcases h.cases hx hy with ⟨hchoice, hle⟩ | ⟨hchoice, hlt⟩
    · rw [hchoice]
      obtain ⟨hmem, hleast⟩ := ih (List.forall_mem_cons.mpr ⟨hx, hxs⟩)
      obtain ⟨hself, hothers⟩ := List.forall_mem_cons.mp hleast
      refine ⟨?_, List.forall_mem_cons.mpr ⟨hself, List.forall_mem_cons.mpr ⟨by omega, hothers⟩⟩⟩
      rcases List.mem_cons.mp hmem with heq | hmem
      · exact List.mem_cons.mpr (Or.inl heq)
      · exact List.mem_cons_of_mem _ (List.mem_cons_of_mem _ hmem)
    · rw [hchoice]
      obtain ⟨hmem, hleast⟩ := ih (List.forall_mem_cons.mpr ⟨hy, hxs⟩)
      obtain ⟨hself, hothers⟩ := List.forall_mem_cons.mp hleast
      exact ⟨List.mem_cons_of_mem _ hmem, List.forall_mem_cons.mpr ⟨by omega, hleast⟩⟩

theorem isExtreme {R : Binary64 → Binary64 → Prop}
    (hR : ∀ x y, x.isFinite = true → y.isFinite = true → (R x y ↔ key x ≤ key y))
    (hfinite : ∀ y ∈ x :: xs, y.isFinite = true) : IsExtreme R (x :: xs) (xs.foldl choose x) := by
  obtain ⟨hmem, hleast⟩ := h.foldl_least hfinite
  exact ⟨hmem, fun y hy => (hR _ y (hfinite _ hmem) (hfinite y hy)).mpr (hleast y hy)⟩

theorem isFinite_foldl (hfinite : ∀ y ∈ x :: xs, y.isFinite = true) : (xs.foldl choose x).isFinite = true :=
  hfinite _ (h.foldl_least hfinite).1

theorem assoc {z : Binary64} (hx : x.isFinite = true) (hy : y.isFinite = true) (hz : z.isFinite = true) :
    choose (choose x y) z = choose x (choose y z) := by
  rcases h.cases hx hy with ⟨hxy, hle⟩ | ⟨hxy, hlt⟩
  · rcases h.cases hy hz with ⟨hyz, hle'⟩ | ⟨hyz, hlt'⟩
    · rw [hxy, hyz, hxy, h x z hx hz, if_neg (by omega)]
    · rw [hxy, hyz]
  · rcases h.cases hy hz with ⟨hyz, hle'⟩ | ⟨hyz, hlt'⟩
    · rw [hxy, hyz, hxy]
    · rw [hxy, hyz, h x z hx hz, if_pos (by omega)]

/-- The choice among the numbers of two lists is that between the choices among those of each. -/
theorem foldl_append (hfinite : ∀ z ∈ x :: xs, z.isFinite = true) (hfinite' : ∀ z ∈ y :: ys, z.isFinite = true) :
    (xs ++ y :: ys).foldl choose x = choose (xs.foldl choose x) (ys.foldl choose y) := by
  have hx := h.isFinite_foldl hfinite
  rw [List.foldl_append, List.foldl_cons]
  generalize xs.foldl choose x = m at hx ⊢
  induction ys generalizing y with
  | nil => rfl
  | cons z ys ih =>
    obtain ⟨hy, hrest⟩ := List.forall_mem_cons.mp hfinite'
    obtain ⟨hz, hys⟩ := List.forall_mem_cons.mp hrest
    have hchoice : (choose y z).isFinite = true := by
      rcases h.cases hy hz with ⟨heq, -⟩ | ⟨heq, -⟩ <;> rwa [heq]
    rw [List.foldl_cons, List.foldl_cons, h.assoc hx hy hz]
    exact ih (List.forall_mem_cons.mpr ⟨hchoice, hys⟩)

end Selects

/-- A statistic that chooses one number after the other, so that what it has chosen is related to all of them. -/
structure Statistic.Chooses (s : Statistic) (R : Binary64 → Binary64 → Prop) (choose : Binary64 → Binary64 → Binary64)
    (key : Binary64 → Int) : Prop where
  of_eq : ∀ x xs, s.of x xs = xs.foldl choose x
  selects : Selects choose key
  related : ∀ x y, x.isFinite = true → y.isFinite = true → (R x y ↔ key x ≤ key y)
  /-- Numbers that are related both ways are equal. -/
  same : ∀ x y, x.isFinite = true → y.isFinite = true → R x y → R y x → x.Same y

theorem chooses_minimum : Statistic.minimum.Chooses AtMost Statistic.lesser signedUnits where
  of_eq _ _ := rfl
  selects := selects_lesser
  related _ _ := Binary64.atMost_iff
  same _ _ := Binary64.same_of_atMost

theorem chooses_maximum : Statistic.maximum.Chooses AtLeast Statistic.greater fun x => -signedUnits x where
  of_eq _ _ := rfl
  selects := selects_greater
  related _ _ := Binary64.atLeast_iff
  same _ _ hx hy h h' := Binary64.same_of_atMost hx hy h' h

namespace Dataset
variable {d : Dataset} {column : String} {x : Binary64} (h : column ∈ d.columns)
include h

/-- A statistic that there is is that of the first number and the others. -/
theorem exists_of_aggregate {s : Statistic} (hx : d.aggregate (.statistic s) column = .ok (.float x)) :
    ∃ y ys, d.numbers column = y :: ys ∧ x = s.of y ys := by
  cases hnumbers : d.numbers column with
  | nil =>
    rw [aggregate_of_nil h s hnumbers] at hx
    cases hx
  | cons y ys =>
    rw [aggregate_of_cons h s hnumbers] at hx
    cases hx
    exact ⟨y, ys, rfl, rfl⟩

theorem isExtreme_of_aggregate {s : Statistic} {R : Binary64 → Binary64 → Prop}
    {choose : Binary64 → Binary64 → Binary64} {key : Binary64 → Int} (hs : s.Chooses R choose key)
    (hx : d.aggregate (.statistic s) column = .ok (.float x)) : IsExtreme R (d.numbers column) x := by
  obtain ⟨y, ys, hnumbers, rfl⟩ := exists_of_aggregate h hx
  rw [hnumbers, hs.of_eq]
  refine hs.selects.isExtreme hs.related fun z hz => ?_
  exact isFinite_of_mem_numbers (hnumbers ▸ hz)

end Dataset
end TableMetrics
