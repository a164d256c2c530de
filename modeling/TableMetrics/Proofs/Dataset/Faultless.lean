import Mathlib.Tactic.Linarith
import TableMetrics.Proofs.Dataset.Column
import TableMetrics.Proofs.Number.Fault

/-! Statistics without faults. Whatever overflows on the way, of the numbers of a column no statistic is a NaN: a sum that
    overflows makes the mean infinite, the distances from it are infinite too, and so are their squares, which are never
    of two signs. So the operations that can fail do not. -/

namespace TableMetrics

namespace Statistic

/-- What a statistic of finite numbers can be. -/
def Admits : Statistic → Binary64 → Prop
  | .minimum, y => y.isFinite = true
  | .maximum, y => y.isFinite = true
  | .mean, y => y ≠ .nan
  | .sum, y => y ≠ .nan
  | .deviation, y => y.NonNegative

/-- Whether a statistic divides by the count of the numbers. -/
def Divides (s : Statistic) : Prop := s = .mean ∨ s = .deviation

/-- The root of the mean square distance from the mean, by operations that can fail. -/
def attemptSpread (xs : List Binary64) : Except Attempt.Fault Binary64 := do
  let mean ← Attempt.average xs
  let variance ← Attempt.average (xs.map fun x => (x.sub mean).mul (x.sub mean))
  Attempt.sqrt variance

/-- The statistic of the numbers `x` and `xs`, by operations that can fail. -/
def attempt (s : Statistic) (x : Binary64) (xs : List Binary64) : Except Attempt.Fault Binary64 :=
  match s with
  | .mean => Attempt.average (x :: xs) >>= Attempt.roundPlaces places
  | .sum => Attempt.sum (x :: xs) >>= Attempt.roundPlaces places
  | .minimum => .ok (xs.foldl lesser x)
  | .maximum => .ok (xs.foldl greater x)
  | .deviation =>
    if xs.isEmpty then .ok (.zero false) else attemptSpread (x :: xs) >>= Attempt.roundPlaces places

/-- The statistic of the numbers that cells stand for, if there are any, by operations that can fail. -/
def attemptOfCells? (s : Statistic) (cells : List Value) : Except Attempt.Fault (Option Binary64) := do
  let numbers ← (cells.filter (!·.isNull)).mapM Attempt.number
  match numbers.filter (·.isFinite) with
  | [] => return none
  | x :: xs => return some (← s.attempt x xs)

variable {s : Statistic} {x : Binary64} {xs : List Binary64}

theorem average_ne_nan (h : ∀ y ∈ xs, y.isFinite = true) (hlength : (Binary64.ofInt xs.length).Positive) :
    average xs ≠ .nan :=
  Binary64.div_ne_nan (Binary64.sum_ne_nan h) hlength

theorem nonNegative_average (h : ∀ y ∈ xs, y.NonNegative) (hlength : (Binary64.ofInt xs.length).Positive) :
    (average xs).NonNegative :=
  (Binary64.nonNegative_sum h).div hlength

/-- The squares of the distances from what is no NaN are not negative. -/
theorem nonNegative_squares (h : ∀ y ∈ xs, y.isFinite = true) {mean : Binary64} (hmean : mean ≠ .nan) :
    ∀ y ∈ xs.map fun y => (y.sub mean).mul (y.sub mean), y.NonNegative := by
  intro y hy
  obtain ⟨z, hz, rfl⟩ := List.mem_map.mp hy
  exact Binary64.nonNegative_square (Binary64.sub_ne_nan (h z hz) hmean)

section Spread
variable (h : ∀ y ∈ xs, y.isFinite = true) (hlength : (Binary64.ofInt xs.length).Positive)
include h hlength

/-- The mean may be infinite, and then so are all the distances from it, and the spread. -/
theorem nonNegative_spread : (spread xs).NonNegative := by
  have hsquares := nonNegative_squares h (average_ne_nan h hlength)
  exact (nonNegative_average hsquares (by rwa [List.length_map])).sqrt

theorem attemptSpread_eq : attemptSpread xs = .ok (spread xs) := by
  have hsquares := nonNegative_squares h (average_ne_nan h hlength)
  have hlength' : (Binary64.ofInt (xs.map fun y => (y.sub (average xs)).mul (y.sub (average xs))).length).Positive := by
    rwa [List.length_map]
  have hmean := Attempt.average_eq (Attempt.sum_of_finite h) hlength
  have hvariance := Attempt.average_eq (Attempt.sum_of_nonNegative hsquares) hlength'
  have hroot := Attempt.sqrt_eq (nonNegative_average hsquares hlength')
  exact bind_eq_ok_iff.mpr ⟨_, hmean, bind_eq_ok_iff.mpr ⟨_, hvariance, hroot⟩⟩

end Spread

section Numbers
variable (h : ∀ y ∈ x :: xs, y.isFinite = true)
  (hlength : s.Divides → (Binary64.ofInt (x :: xs).length).Positive)
include h hlength

theorem admits_of : s.Admits (s.of x xs) := by
  cases s with
  | minimum => exact selects_lesser.isFinite_foldl h
  | maximum => exact selects_greater.isFinite_foldl h
  | sum => exact Binary64.roundPlaces_ne_nan places (Binary64.sum_ne_nan h)
  | mean => exact Binary64.roundPlaces_ne_nan places (average_ne_nan h (hlength (Or.inl rfl)))
  | deviation =>
    cases xs with
    | nil => exact .finite _
    | cons y ys => exact (nonNegative_spread h (hlength (Or.inr rfl))).roundPlaces places

/-- No operation fails. -/
theorem attempt_eq : s.attempt x xs = .ok (s.of x xs) := by
  have hsum := Attempt.sum_of_finite h
  cases s with
  | minimum => rfl
  | maximum => rfl
  | sum => exact bind_eq_ok_iff.mpr ⟨_, hsum, Attempt.roundPlaces_eq places _⟩
  | mean =>
    have hmean := Attempt.average_eq hsum (hlength (Or.inl rfl))
    exact bind_eq_ok_iff.mpr ⟨_, hmean, Attempt.roundPlaces_eq places _⟩
  | deviation =>
    cases xs with
    | nil => rfl
    | cons y ys =>
      have hspread := attemptSpread_eq h (hlength (Or.inr rfl))
      exact bind_eq_ok_iff.mpr ⟨_, hspread, Attempt.roundPlaces_eq places _⟩

end Numbers

/-! ### Cells -/

theorem mapM_number (cells : List Value) : cells.mapM Attempt.number = .ok (cells.map (·.toNumber)) := by
  have hnumber : Attempt.number = fun v => pure v.toNumber := funext Attempt.number_eq
  rw [hnumber, List.mapM_pure]
  rfl

/-- A null stands for no finite number. -/
theorem filter_isFinite_map (cells : List Value) :
    ((cells.filter (!·.isNull)).map (·.toNumber)).filter (·.isFinite) = numericValues cells := by
  rw [numericValues, List.filter_map, List.filter_map, List.filter_filter]
  refine congrArg _ (List.filter_congr fun v _ => ?_)
  cases v with
  | null => rfl
  | _ => exact Bool.and_true _

/-- No operation on the cells of a column fails, whether any of them stands for a number or none does. -/
theorem attemptOfCells?_eq (cells : List Value)
    (hlength : s.Divides → ((numericValues cells).length : ℚ) < overflowThreshold) :
    s.attemptOfCells? cells = .ok (s.ofCells? cells) := by
  unfold attemptOfCells? ofCells?
  refine bind_eq_ok_iff.mpr ⟨_, mapM_number _, ?_⟩
  rw [filter_isFinite_map]
  have hfinite : ∀ y ∈ numericValues cells, y.isFinite = true := fun y hy => (List.mem_filter.mp hy).2
  cases hnumbers : numericValues cells with
  | nil => rfl
  | cons x xs =>
    rw [hnumbers] at hfinite hlength
    have hattempt := attempt_eq hfinite fun hs => Binary64.positive_ofInt (Nat.succ_pos _) (hlength hs)
    exact bind_eq_ok_iff.mpr ⟨_, hattempt, rfl⟩

end Statistic

namespace Dataset
variable {d : Dataset} {column : String}

theorem length_numbers_le (d : Dataset) (column : String) : (d.numbers column).length ≤ d.size := by
  refine Nat.le_trans (List.length_filter_le _ _) ?_
  rw [List.length_map, cells, List.length_map]
  exact Nat.le_refl _

/-- Of a column with a finite number, no statistic is a NaN: minimum and maximum are finite and in order, sum and mean
    are finite or infinite, and the deviation is not negative. Operations that can fail do not, and come to the same. A
    mean and a deviation divide by the count of the numbers, which is infinite itself from the threshold on; no list that
    memory holds comes near it. -/
theorem aggregate_faultless (h : column ∈ d.columns) (hnumber : d.HasNumber column) :
    (∀ s : Statistic, (s.Divides → (d.size : ℚ) < overflowThreshold) →
      ∃ y cells, d.aggregate (.statistic s) column = .ok (.float y) ∧ s.Admits y ∧
        d.columnValues column = .ok cells ∧ s.attemptOfCells? cells = .ok (some y)) ∧
    ∃ lo hi, d.aggregate (.statistic .minimum) column = .ok (.float lo) ∧
      d.aggregate (.statistic .maximum) column = .ok (.float hi) ∧ lo.AtMost hi := by
  constructor
  · intro s hsize
    have hcount : s.Divides → ((d.numbers column).length : ℚ) < overflowThreshold := fun hs =>
      (Nat.cast_le.mpr (length_numbers_le d column)).trans_lt (hsize hs)
    have hattempt := Statistic.attemptOfCells?_eq (d.cells column) hcount
    cases hnumbers : d.numbers column with
    | nil => exact absurd hnumbers ((hasNumber_iff h).mp hnumber)
    | cons x xs =>
      have hfinite : ∀ y ∈ x :: xs, y.isFinite = true := fun y hy => isFinite_of_mem_numbers (hnumbers ▸ hy)
      have hsome : s.ofCells? (d.cells column) = some (s.of x xs) := by
        rw [numbers] at hnumbers
        rw [Statistic.ofCells?, hnumbers]
      rw [hnumbers] at hcount
      refine ⟨s.of x xs, d.cells column, aggregate_of_cons h s hnumbers, ?_, columnValues_eq h, hsome ▸ hattempt⟩
      exact Statistic.admits_of hfinite fun hs => Binary64.positive_ofInt (Nat.succ_pos _) (hcount hs)
  · obtain ⟨lo, hlo⟩ := exists_aggregate h hnumber .minimum
    obtain ⟨hi, hhi⟩ := exists_aggregate h hnumber .maximum
    have hleast := isExtreme_of_aggregate h chooses_minimum hlo
    have hgreatest := isExtreme_of_aggregate h chooses_maximum hhi
    exact ⟨lo, hi, hlo, hhi, hleast.all hi hgreatest.mem⟩

theorem aggregate_faultless_ragged :
    "a" ∈ ragged.columns ∧ ragged.HasNumber "a" ∧
      ∃ y cells, ragged.aggregate (.statistic .deviation) "a" = .ok (.float y) ∧ y.NonNegative ∧
        ragged.columnValues "a" = .ok cells ∧ Statistic.deviation.attemptOfCells? cells = .ok (some y) := by
  have hmem : "a" ∈ ragged.columns := List.mem_cons_self ..
  have hnumber : ragged.HasNumber "a" := by
    rw [hasNumber_iff hmem, numbers_ragged]
    exact List.cons_ne_nil _ _
  have hsize : (ragged.size : ℚ) < overflowThreshold := by
    have hone : (1 : ℚ) ≤ 2 ^ 970 := one_le_pow₀ one_le_two
    have hfour : (ragged.size : ℚ) = 4 := rfl
    rw [overflowThreshold_eq, hfour]
    generalize (2 : ℚ) ^ 970 = p at hone ⊢
    linarith
  exact ⟨hmem, hnumber, (aggregate_faultless hmem hnumber).1 .deviation fun _ => hsize⟩

end Dataset
end TableMetrics
