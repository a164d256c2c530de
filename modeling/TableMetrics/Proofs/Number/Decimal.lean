import TableMetrics.Number.Decimal
import TableMetrics.Proofs.Number.Rounding

/-! The floating-point number of a decimal is the rounding of its exact value, so that decimals of equal value
    have the same one. -/

namespace TableMetrics

theorem tenPow_pos (n : Nat) : 0 < Nat.pow 10 n := Nat.pow_pos (by decide)

theorem tenPow_add (m n : Nat) : Nat.pow 10 (m + n) = Nat.pow 10 m * Nat.pow 10 n := Nat.pow_add 10 m n

theorem tenPow_zero : Nat.pow 10 0 = 1 := rfl

theorem tenPow_le {m n : Nat} (h : m ≤ n) : Nat.pow 10 m ≤ Nat.pow 10 n := Nat.pow_le_pow_right (by decide) h

namespace Decimal

def num (d : Decimal) : Nat := d.digits * Nat.pow 10 d.exponent.toNat

def den (d : Decimal) : Nat := Nat.pow 10 (-d.exponent).toNat

theorem den_pos (d : Decimal) : 0 < d.den := tenPow_pos _

/-- Two decimals have the same value. -/
def SameValue (d e : Decimal) : Prop := d.num * e.den = e.num * d.den

/-- From a power of ten on, 10^310 at the latest, there are no finite numbers. -/
theorem exists_tenPow_infinite : ∃ n ≤ 310, unitsOfInfinity ≤ Nat.pow 10 n * unitsOfOne :=
  ⟨310, Nat.le_refl 310, by decide +kernel⟩

/-- Twice a power of ten, 10^-401 at the least, is below half of the least positive number. -/
theorem exists_tenPow_zero : ∃ n ≤ 401, 2 * (2 * unitsOfOne) < Nat.pow 10 n :=
  ⟨401, Nat.le_refl 401, by decide +kernel⟩

theorem ofUnits_of_large {d : Decimal} (negative : Bool) (hdigits : d.digits ≠ 0) (h : 310 ≤ d.exponent) :
    Binary64.ofUnits negative (d.num * unitsOfOne) d.den = .infinite negative := by
  have hden : d.den = 1 := by rw [den, Int.toNat_of_nonpos (by omega : -d.exponent ≤ 0), tenPow_zero]
  obtain ⟨n, hn, hbound⟩ := exists_tenPow_infinite
  have hpow : Nat.pow 10 n ≤ Nat.pow 10 d.exponent.toNat := tenPow_le (by omega)
  have hnum : Nat.pow 10 n ≤ d.num := Nat.le_trans hpow (Nat.le_mul_of_pos_left _ (Nat.pos_of_ne_zero hdigits))
  refine Binary64.ofUnits_eq_infinite negative ?_
  rw [hden, Nat.div_one]
  exact Nat.le_trans hbound (Nat.mul_le_mul_right unitsOfOne hnum)

theorem ofUnits_of_small {d : Decimal} (negative : Bool) (h : d.exponent + d.digits.log2 < -400) :
    Binary64.ofUnits negative (d.num * unitsOfOne) d.den = .zero negative := by
  have hnum : d.num = d.digits := by
    rw [num, Int.toNat_of_nonpos (by omega : d.exponent ≤ 0), tenPow_zero, Nat.mul_one]
  have hdigits : d.digits < Nat.pow 2 d.digits.log2 * 2 := Nat.lt_log2_self
  have hlog : Nat.pow 2 d.digits.log2 ≤ Nat.pow 10 d.digits.log2 := Nat.pow_le_pow_left (by decide) _
  obtain ⟨n, hn, hbound⟩ := exists_tenPow_zero
  have hden : Nat.pow 10 (d.digits.log2 + n) ≤ d.den := tenPow_le (by omega)
  rw [tenPow_add] at hden
  refine Binary64.ofUnits_eq_finite negative (roundPrecise_eq_zero ?_) fits_zero
  rw [hnum]
  calc 2 * (d.digits * unitsOfOne) ≤ 2 * (Nat.pow 2 d.digits.log2 * 2 * unitsOfOne) :=
        Nat.mul_le_mul_left _ (Nat.mul_le_mul_right _ (Nat.le_of_lt hdigits))
    _ = Nat.pow 2 d.digits.log2 * (2 * (2 * unitsOfOne)) := by rw [Nat.mul_assoc, Nat.mul_left_comm]
    _ < Nat.pow 2 d.digits.log2 * Nat.pow 10 n := Nat.mul_lt_mul_of_pos_left hbound (twoPow_pos _)
    _ ≤ Nat.pow 10 d.digits.log2 * Nat.pow 10 n := Nat.mul_le_mul_right _ hlog
    _ ≤ d.den := hden

/-- The floating-point number of a decimal is the rounding of its value: the bounds on the exponent only save the
    computation of the power. -/
theorem toBinary64_eq_ofUnits (negative : Bool) (d : Decimal) :
    d.toBinary64 negative = .ofUnits negative (d.num * unitsOfOne) d.den := by
  unfold toBinary64
  split
  · next h =>
    have hzero : roundPrecise (d.num * unitsOfOne) d.den = 0 := by
      rw [num, h, Nat.zero_mul, Nat.zero_mul]
      exact roundPrecise_eq_zero d.den_pos
    exact (Binary64.ofUnits_eq_finite negative hzero fits_zero).symm
  · next hdigits =>
    split
    · next h => exact (ofUnits_of_large negative hdigits h).symm
    · split
      · next h => exact (ofUnits_of_small negative h).symm
      · split
        · next h =>
          rw [Binary64.ofRatio, num, den, Int.toNat_of_nonpos (by omega : d.exponent ≤ 0), tenPow_zero, Nat.mul_one]
        · next h =>
          rw [Binary64.ofRatio, num, den, Int.toNat_of_nonpos (by omega : -d.exponent ≤ 0), tenPow_zero]

theorem toBinary64_congr (negative : Bool) {d e : Decimal} (h : d.SameValue e) :
    d.toBinary64 negative = e.toBinary64 negative := by
  rw [toBinary64_eq_ofUnits, toBinary64_eq_ofUnits]
  refine Binary64.ofUnits_congr negative d.den_pos e.den_pos ?_
  rw [Nat.mul_right_comm, h, Nat.mul_right_comm]

/-- A decimal whose value is that of a floating-point number is read as that number. -/
theorem toBinary64_exact (negative : Bool) {d : Decimal} {units : Nat} (h : Fits units)
    (hvalue : d.num * unitsOfOne = units * d.den) : d.toBinary64 negative = .finite negative units h := by
  rw [toBinary64_eq_ofUnits]
  refine Binary64.ofUnits_eq_finite negative ?_ h
  rw [roundPrecise_congr d.den_pos Nat.one_pos (by rw [Nat.mul_one]; exact hvalue)]
  exact roundPrecise_self h.2

end Decimal
end TableMetrics
