import Mathlib.Algebra.Order.Field.Basic
import Mathlib.Tactic.NormNum
import TableMetrics.Proofs.Dataset.Column

/-! The order of rows. Aggregates of a column do not depend on it: counts and failures never do, the minimum and the
    maximum up to equality, and sums and means as long as the numbers are not so large that a partial sum could
    overflow. -/

namespace TableMetrics

open Binary64 (signedUnits IsExtreme AtMost AtLeast restBits)

/-- The exact sum of the magnitudes of numbers that are finite. -/
def totalMagnitude (xs : List Binary64) : ℚ := ((xs.filterMap fun x => (Number.float x).value?).map abs).sum

section Sums
variable {xs ys : List Binary64}

theorem totalMagnitude_eq (h : ∀ x ∈ xs, x.isFinite = true) :
    totalMagnitude xs = (((xs.map signedUnits).map Int.natAbs).sum : ℕ) / unitsOfOne := by
  induction xs with
  | nil =>
    have hzero : totalMagnitude [] = 0 := rfl
    rw [hzero, List.map_nil, List.map_nil, List.sum_nil, Nat.cast_zero, zero_div]
  | cons x xs ih =>
    obtain ⟨hx, hxs⟩ := List.forall_mem_cons.mp h
    obtain ⟨s, u, hu, rfl⟩ := Binary64.exists_eq_finite hx
    have hsum : totalMagnitude (.finite s u hu :: xs) =
        |(Binary64.signed s u : ℚ) / unitsOfOne| + totalMagnitude xs := List.sum_cons
    have habs : |(Binary64.signed s u : ℚ)| = ((Binary64.signed s u).natAbs : ℕ) := by
      rw [← Int.cast_abs, Nat.cast_natAbs]
    have hunits : signedUnits (.finite s u hu) = Binary64.signed s u := rfl
    rw [hsum, ih hxs, abs_div, habs, Nat.abs_cast, ← add_div, List.map_cons, List.map_cons, List.sum_cons, Nat.cast_add,
      hunits]

/-- Below 2^1023 the magnitudes come to less than half of the magnitude at which numbers end. -/
theorem le_of_totalMagnitude_lt (hfinite : ∀ x ∈ xs, x.isFinite = true) (h : totalMagnitude xs < 2 ^ 1023) :
    ((xs.map signedUnits).map Int.natAbs).sum ≤ 2 ^ (restBits + 52) := by
  have hbits : 1023 + fractionBits = restBits + 52 := by
    unfold restBits
    decide
  have hhalf : (2 ^ 1023 : ℚ) * unitsOfOne = (2 ^ (restBits + 52) : ℕ) := by
    rw [← hbits]
    unfold unitsOfOne
    rw [Nat.pow_eq, Nat.cast_pow, Nat.cast_pow, Nat.cast_ofNat, pow_add]
  have hpos : (0 : ℚ) < unitsOfOne := Nat.cast_pos.mpr unitsOfOne_pos
  rw [totalMagnitude_eq hfinite, div_lt_iff₀ hpos, hhalf, Nat.cast_lt] at h
  exact Nat.le_of_lt h

/-- Sums of the same numbers in another order are the same as long as their magnitudes come to less than 2^1023. -/
theorem sum_of_perm (hperm : ys.Perm xs) (hfinite : ∀ x ∈ xs, x.isFinite = true) (h : totalMagnitude xs < 2 ^ 1023) :
    Binary64.sum ys = Binary64.sum xs := by
  have hunits := hperm.map signedUnits
  have hbound := le_of_totalMagnitude_lt hfinite h
  have hbound' : ((ys.map signedUnits).map Int.natAbs).sum ≤ 2 ^ (restBits + 52) := by
    rwa [(hunits.map Int.natAbs).sum_eq]
  rw [Binary64.sum, Binary64.sum, Binary64.exactSum?_of_le hfinite hbound,
    Binary64.exactSum?_of_le (fun y hy => hfinite y (hperm.mem_iff.mp hy)) hbound', hunits.sum_eq]

end Sums

namespace Dataset
variable {d d' : Dataset} {column : String} (hcolumns : d'.columns = d.columns) (hrows : d'.rows.Perm d.rows)
include hcolumns hrows

theorem cells_perm : (d'.cells column).Perm (d.cells column) := by
  rw [cells, cells, hcolumns]
  exact hrows.map _

theorem numbers_perm : (d'.numbers column).Perm (d.numbers column) :=
  ((cells_perm hcolumns hrows).map _).filter _

theorem length_distinctKeys_of_perm : (distinctKeys (d'.cells column)).length = (distinctKeys (d.cells column)).length := by
  have hkeys : keys (d'.cells column) = keys (d.cells column) := by
    ext k
    simp only [keys, (cells_perm hcolumns hrows).mem_iff]
  rw [length_distinctKeys, length_distinctKeys, hkeys]

variable (h : column ∈ d.columns)
include h

theorem hasNumber_of_perm : d'.HasNumber column ↔ d.HasNumber column := by
  rw [hasNumber_iff h, hasNumber_iff (hcolumns ▸ h), Ne, Ne, ← List.length_eq_zero_iff,
    (numbers_perm hcolumns hrows).length_eq, List.length_eq_zero_iff]

/-- What is least or greatest is so in both orders, so that each is related to the other. -/
theorem extreme_of_perm {s : Statistic} {R : Binary64 → Binary64 → Prop} {choose : Binary64 → Binary64 → Binary64}
    {key : Binary64 → Int} (hs : s.Chooses R choose key) {x x' : Binary64}
    (hx : d.aggregate (.statistic s) column = .ok (.float x))
    (hx' : d'.aggregate (.statistic s) column = .ok (.float x')) :
    x.Same x' ∧ IsExtreme R (d.numbers column) x ∧ IsExtreme R (d.numbers column) x' := by
  have hextreme := isExtreme_of_aggregate h hs hx
  have hextreme' := (isExtreme_of_aggregate (hcolumns ▸ h) hs hx').of_perm (numbers_perm hcolumns hrows)
  refine ⟨hs.same x x' ?_ ?_ (hextreme.all _ hextreme'.mem) (hextreme'.all _ hextreme.mem), hextreme, hextreme'⟩
  · exact isFinite_of_mem_numbers hextreme.mem
  · exact isFinite_of_mem_numbers hextreme'.mem

/-- Sums and means of the same numbers in another order are the same as long as their magnitudes come to less than
    2^1023. -/
theorem aggregate_of_perm (hbound : totalMagnitude (d.numbers column) < 2 ^ 1023) :
    d'.aggregate (.statistic .sum) column = d.aggregate (.statistic .sum) column ∧
      d'.aggregate (.statistic .mean) column = d.aggregate (.statistic .mean) column := by
  have h' : column ∈ d'.columns := hcolumns ▸ h
  have hperm : (d'.numbers column).Perm (d.numbers column) := numbers_perm hcolumns hrows
  have hsum := sum_of_perm hperm (fun x hx => isFinite_of_mem_numbers hx) hbound
  have hlength := hperm.length_eq
  cases hx : d.numbers column with
  | nil =>
    have hy := List.Perm.eq_nil (hx ▸ hperm)
    rw [aggregate_of_nil h _ hx, aggregate_of_nil h _ hx, aggregate_of_nil h' _ hy, aggregate_of_nil h' _ hy]
    exact ⟨rfl, rfl⟩
  | cons x xs =>
    cases hy : d'.numbers column with
    | nil => rw [hx, hy] at hperm; cases hperm.symm.eq_nil
    | cons y ys =>
      rw [hx, hy] at hsum hlength
      rw [aggregate_of_cons h _ hx, aggregate_of_cons h _ hx, aggregate_of_cons h' _ hy, aggregate_of_cons h' _ hy]
      simp only [Statistic.of, Statistic.average, hsum, hlength, and_self]

/-- What aggregates say about a column when the rows come in another order. The counts are the same; the statistics
    fail together, when no cell stands for a finite number; and the minima and the maxima are extreme among the numbers
    of the column and equal, though one may be the other zero. -/
theorem aggregate_perm :
    (∃ n : ℕ, d.aggregate .count column = .ok (.integer n) ∧ d'.aggregate .count column = .ok (.integer n)) ∧
    (∃ n : ℕ, d.aggregate .countDistinct column = .ok (.integer n) ∧
      d'.aggregate .countDistinct column = .ok (.integer n)) ∧
    (∀ s, (d.aggregate (.statistic s) column = .error (.emptyColumn s column) ↔ ¬d.HasNumber column) ∧
      (d'.aggregate (.statistic s) column = .error (.emptyColumn s column) ↔ ¬d.HasNumber column) ∧
      (d.HasNumber column → ∃ x x', d.aggregate (.statistic s) column = .ok (.float x) ∧
        d'.aggregate (.statistic s) column = .ok (.float x'))) ∧
    ∃ xs, d.columnNumbers column = .ok xs ∧
      (∀ lo lo', d.aggregate (.statistic .minimum) column = .ok (.float lo) →
        d'.aggregate (.statistic .minimum) column = .ok (.float lo') →
        lo.Same lo' ∧ IsExtreme AtMost xs lo ∧ IsExtreme AtMost xs lo') ∧
      (∀ hi hi', d.aggregate (.statistic .maximum) column = .ok (.float hi) →
        d'.aggregate (.statistic .maximum) column = .ok (.float hi') →
        hi.Same hi' ∧ IsExtreme AtLeast xs hi ∧ IsExtreme AtLeast xs hi') ∧
      (totalMagnitude xs < 2 ^ 1023 →
        d'.aggregate (.statistic .sum) column = d.aggregate (.statistic .sum) column ∧
        d'.aggregate (.statistic .mean) column = d.aggregate (.statistic .mean) column) := by
  have h' : column ∈ d'.columns := hcolumns ▸ h
  have hhas : d'.HasNumber column ↔ d.HasNumber column := hasNumber_of_perm hcolumns hrows h
  refine ⟨⟨_, aggregate_count h, ?_⟩, ⟨_, aggregate_countDistinct h, ?_⟩, fun s => ⟨aggregate_eq_error_iff h s, ?_, ?_⟩,
    d.numbers column, columnNumbers_eq h, fun _ _ => extreme_of_perm hcolumns hrows h chooses_minimum,
    fun _ _ => extreme_of_perm hcolumns hrows h chooses_maximum, aggregate_of_perm hcolumns hrows h⟩
  · rw [aggregate_count h', ((cells_perm hcolumns hrows).filter _).length_eq]
  · rw [aggregate_countDistinct h', length_distinctKeys_of_perm hcolumns hrows]
  · exact (aggregate_eq_error_iff h' s).trans (not_congr hhas)
  · intro hnumber
    obtain ⟨x, hx⟩ := exists_aggregate h hnumber s
    obtain ⟨x', hx'⟩ := exists_aggregate h' (hhas.mpr hnumber) s
    exact ⟨x, x', hx, hx'⟩

omit hcolumns hrows h in
theorem aggregate_perm_ragged :
    (ragged.withRows ragged.rows.reverse).columns = ragged.columns ∧ ragged.rows.reverse.Perm ragged.rows ∧
      "a" ∈ ragged.columns ∧
      (ragged.withRows ragged.rows.reverse).aggregate (.statistic .sum) "a" = ragged.aggregate (.statistic .sum) "a" := by
  have hmem : "a" ∈ ragged.columns := List.mem_cons_self ..
  have hperm := List.reverse_perm ragged.rows
  obtain ⟨-, -, -, xs, hxs, -, -, hsum⟩ := aggregate_perm (withRows_columns ragged ragged.rows.reverse) hperm hmem
  refine ⟨rfl, hperm, hmem, (hsum ?_).1⟩
  rw [columnNumbers_eq hmem, numbers_ragged] at hxs
  cases hxs
  have hthree := value?_ofInt (show (3 : Int).natAbs ≤ 2 ^ 53 by decide)
  have hone := value?_ofInt (show (1 : Int).natAbs ≤ 2 ^ 53 by decide)
  simp only [totalMagnitude, List.filterMap_cons, List.filterMap_nil, hthree, hone]
  have hfour : (4 : ℚ) < 2 ^ 3 := by norm_num
  have hpow : (2 : ℚ) ^ 3 ≤ 2 ^ 1023 := pow_le_pow_right₀ one_le_two (by decide)
  norm_num [Number.value?]
  exact hfour.trans_le hpow

end Dataset
end TableMetrics
