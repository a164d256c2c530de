import Mathlib.Algebra.Order.BigOperators.Group.List
import TableMetrics.Dataset.Aggregate
import TableMetrics.Proofs.Number.ExactSum
import TableMetrics.Proofs.Number.RoundedValue

/-! What arithmetic keeps. No sum of finite numbers is a NaN, whatever overflows on the way, and no difference between a
    finite number and one that is no NaN; squares are not negative, and neither are sums, quotients, roots and roundings
    of numbers that are not. -/

namespace TableMetrics
namespace Binary64

/-- A number that is neither negative nor a NaN, nor the negative zero. -/
inductive NonNegative : Binary64 → Prop where
  | finite {units : Nat} (h : Fits units) : NonNegative (.finite false units h)
  | infinite : NonNegative (.infinite false)

/-- A finite number above zero. -/
inductive Positive : Binary64 → Prop where
  | mk {units : Nat} (h : Fits units) (hpos : units ≠ 0) : Positive (.finite false units h)

variable {x y : Binary64} {xs : List Binary64}

theorem NonNegative.ne_nan (h : x.NonNegative) : x ≠ .nan := by
  cases h <;> rintro ⟨⟩

/-! ### Rounding -/

theorem nonNegative_ofUnits (num den : Nat) : (ofUnits false num den).NonNegative := by
  unfold ofUnits
  split
  · exact .finite _
  · exact .infinite

theorem ofTotal_ne_nan (zeroNegative : Bool) (total : Int) : ofTotal zeroNegative total ≠ .nan := ofUnits_ne_nan _ _ _

theorem nonNegative_ofTotal {total : Int} (h : 0 ≤ total) : (ofTotal false total).NonNegative := by
  have hsign : (if total = 0 then false else decide (total < 0)) = false := by
    split
    · rfl
    · exact decide_eq_false (by omega)
  rw [ofTotal, hsign]
  exact nonNegative_ofUnits _ _

/-! ### Sums -/

theorem add_ne_nan (hx : x ≠ .nan) (hy : y.isFinite = true) : x.add y ≠ .nan := by
  obtain ⟨t, v, hv, rfl⟩ := exists_eq_finite hy
  cases x with
  | nan => exact absurd rfl hx
  | infinite s => rintro ⟨⟩
  | finite s u hu => exact ofTotal_ne_nan _ _

theorem NonNegative.add (hx : x.NonNegative) (hy : y.NonNegative) : (x.add y).NonNegative := by
  cases hx with
  | infinite => cases hy <;> exact .infinite
  | finite hu =>
    cases hy with
    | infinite => exact .infinite
    | finite hv => exact nonNegative_ofTotal (by rw [signed_false, signed_false]; omega)

theorem foldl_add_ne_nan (hx : x ≠ .nan) (hxs : ∀ y ∈ xs, y.isFinite = true) : xs.foldl add x ≠ .nan := by
  induction xs generalizing x with
  | nil => exact hx
  | cons y xs ih =>
    obtain ⟨hy, hxs⟩ := List.forall_mem_cons.mp hxs
    exact ih (add_ne_nan hx hy) hxs

theorem NonNegative.foldl_add (hx : x.NonNegative) (hxs : ∀ y ∈ xs, y.NonNegative) : (xs.foldl Binary64.add x).NonNegative := by
  induction xs generalizing x with
  | nil => exact hx
  | cons y xs ih =>
    obtain ⟨hy, hxs⟩ := List.forall_mem_cons.mp hxs
    exact ih (hx.add hy) hxs

theorem sum_ne_nan (h : ∀ x ∈ xs, x.isFinite = true) : sum xs ≠ .nan := by
  unfold sum
  split
  · exact ofTotal_ne_nan _ _
  · exact foldl_add_ne_nan (by rintro ⟨⟩) h

theorem isFinite_of_units? {u : Int} (h : x.units? = some u) : x.isFinite = true := by
  cases x with
  | nan => cases h
  | infinite s => cases h
  | finite s u hu => rfl

theorem isFinite_of_mapM_units? {units : List Int} (h : xs.mapM units? = some units) : ∀ x ∈ xs, x.isFinite = true := by
  induction xs generalizing units with
  | nil => exact List.forall_mem_nil _
  | cons x xs ih =>
    rw [List.mapM_cons] at h
    obtain ⟨u, hu, hrest⟩ := Option.bind_eq_some_iff.mp h
    obtain ⟨units, hunits, -⟩ := Option.bind_eq_some_iff.mp hrest
    exact List.forall_mem_cons.mpr ⟨isFinite_of_units? hu, ih hunits⟩

/-- Only finite numbers have an exact sum. -/
theorem isFinite_of_exactSum? {total : Int} (h : exactSum? xs = some total) : ∀ x ∈ xs, x.isFinite = true := by
  obtain ⟨units, hunits, -⟩ := Option.bind_eq_some_iff.mp h
  exact isFinite_of_mapM_units? hunits

theorem NonNegative.signedUnits_nonneg (h : x.NonNegative) : 0 ≤ x.signedUnits := by
  cases h with
  | finite hu => exact Int.natCast_nonneg _
  | infinite => exact Int.le_refl 0

theorem nonNegative_sum (h : ∀ x ∈ xs, x.NonNegative) : (sum xs).NonNegative := by
  unfold sum
  split
  · next total htotal =>
    rw [exactSum?_eq (isFinite_of_exactSum? htotal) htotal]
    refine nonNegative_ofTotal (List.sum_nonneg fun u hu => ?_)
    obtain ⟨x, hx, rfl⟩ := List.mem_map.mp hu
    exact (h x hx).signedUnits_nonneg
  · exact (NonNegative.finite fits_zero).foldl_add h

/-! ### Differences, squares, quotients and roots -/

theorem sub_ne_nan (hx : x.isFinite = true) (hy : y ≠ .nan) : x.sub y ≠ .nan := by
  obtain ⟨s, u, hu, rfl⟩ := exists_eq_finite hx
  cases y with
  | nan => exact absurd rfl hy
  | infinite t => rintro ⟨⟩
  | finite t v hv =>
    rw [sub, neg, add]
    exact ofTotal_ne_nan _ _

theorem nonNegative_square (h : x ≠ .nan) : (x.mul x).NonNegative := by
  cases x with
  | nan => exact absurd rfl h
  | infinite s =>
    rw [mul, bne_self_eq_false]
    exact .infinite
  | finite s u hu =>
    rw [mul, bne_self_eq_false]
    exact nonNegative_ofUnits _ _

theorem div_ne_nan (hx : x ≠ .nan) (hy : y.Positive) : x.div y ≠ .nan := by
  obtain ⟨hv, hpos⟩ := hy
  cases x with
  | nan => exact absurd rfl hx
  | infinite s => rintro ⟨⟩
  | finite s u hu =>
    rw [div, if_neg hpos]
    exact ofUnits_ne_nan _ _ _

theorem NonNegative.div (hx : x.NonNegative) (hy : y.Positive) : (x.div y).NonNegative := by
  obtain ⟨hv, hpos⟩ := hy
  cases hx with
  | infinite => exact .infinite
  | finite hu =>
    rw [Binary64.div, if_neg hpos]
    exact nonNegative_ofUnits _ _

theorem NonNegative.sqrt (hx : x.NonNegative) : x.sqrt.NonNegative := by
  cases hx with
  | infinite => exact .infinite
  | @finite u hu =>
    rw [Binary64.sqrt]
    split
    · exact .finite hu
    · rw [if_neg Bool.false_ne_true]
      dsimp only
      split
      · exact nonNegative_ofUnits _ _
      · exact nonNegative_ofUnits _ _

/-! ### Rounding to decimal places -/

theorem roundPlaces_ne_nan (places : Nat) (hx : x ≠ .nan) : x.roundPlaces places ≠ .nan := by
  cases x with
  | nan => exact absurd rfl hx
  | infinite s => rintro ⟨⟩
  | finite s u hu =>
    rw [roundPlaces, ofRatio]
    exact ofUnits_ne_nan _ _ _

theorem NonNegative.roundPlaces (places : Nat) (hx : x.NonNegative) : (x.roundPlaces places).NonNegative := by
  cases hx with
  | infinite => exact .infinite
  | finite hu =>
    rw [Binary64.roundPlaces, ofRatio]
    exact nonNegative_ofUnits _ _

/-- A finite number stays finite, since the largest one is whole. -/
theorem isFinite_roundPlaces (places : Nat) (hx : x.isFinite = true) : (x.roundPlaces places).isFinite = true := by
  obtain ⟨s, u, hu, rfl⟩ := exists_eq_finite hx
  obtain ⟨w, hprecise, hlt, hlargest⟩ := exists_largest
  have hpow := tenPow_pos places
  have hbelow : u * Nat.pow 10 places ≤ w * Nat.pow 10 places * unitsOfOne := by
    rw [Nat.mul_right_comm]
    exact Nat.mul_le_mul_right _ (hlargest u hu)
  have hround := Nat.mul_le_mul_right unitsOfOne (roundHalfEven_le_of_le unitsOfOne_pos hbelow)
  rw [Nat.mul_right_comm w] at hround
  have hle := roundPrecise_le hpow hprecise hround
  rw [roundPlaces, ofRatio, ofUnits, dif_pos (Nat.lt_of_le_of_lt hle hlt)]
  rfl

/-! ### Counts -/

/-- A count that is not too large for a floating-point number is a positive one. -/
theorem positive_ofInt {n : Nat} (hpos : 0 < n) (h : (n : ℚ) < overflowThreshold) : (ofInt n).Positive := by
  have hunits : ofInt n = ofUnits false (n * unitsOfOne) 1 := by
    rw [ofInt_eq_ofUnits, Int.natAbs_natCast, decide_eq_false (by omega)]
  have hround : roundPrecise (n * unitsOfOne) 1 < unitsOfInfinity := by
    rw [roundPrecise_lt_unitsOfInfinity_iff Nat.one_pos, Nat.cast_one, div_one]
    exact h
  have hone : unitsOfOne ≤ roundPrecise (n * unitsOfOne) 1 := by
    unfold unitsOfOne
    refine twoPow_le_roundPrecise ?_
    rw [Nat.div_one]
    exact Nat.le_mul_of_pos_left _ hpos
  rw [hunits, ofUnits, dif_pos hround]
  exact .mk _ (Nat.ne_of_gt (Nat.lt_of_lt_of_le unitsOfOne_pos hone))

end Binary64
end TableMetrics
