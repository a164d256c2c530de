import Mathlib.Algebra.Order.Field.Basic
import Mathlib.Data.Nat.Digits.Defs
import Mathlib.Tactic.FieldSimp
import Mathlib.Tactic.Ring
import TableMetrics.Number.Numeral
import TableMetrics.Proofs.Number.Decimal
import TableMetrics.Proofs.Number.Nearest

/-! The floating-point number to which a rational magnitude is rounded: a nearest one, if there is another one as near
    that with the even significand, and infinity from half a step behind the largest one on. -/

namespace TableMetrics

/-! ### Where numbers end -/

section Largest
variable {k v : Nat}

theorem precise_largest (k : Nat) : Precise ((2 ^ 53 - 1) * Nat.pow 2 k) := precise_mul_two_pow (by decide)

theorem Precise.le_largest (h : Precise v) (hlt : v < 2 ^ 53 * Nat.pow 2 k) : v ≤ (2 ^ 53 - 1) * Nat.pow 2 k := by
  by_cases hdvd : Nat.pow 2 k ∣ v
  · obtain ⟨m, rfl⟩ := hdvd
    rw [Nat.mul_comm _ m] at hlt ⊢
    have hm : m < 2 ^ 53 := Nat.lt_of_mul_lt_mul_right hlt
    exact Nat.mul_le_mul_right _ (by omega)
  · have hbelow : v < 2 ^ 52 * Nat.pow 2 k := h.lt_of_not_dvd hdvd
    exact Nat.le_trans (Nat.le_of_lt hbelow) (Nat.mul_le_mul_right _ (by decide))

theorem not_hasEvenSignificand_largest (k : Nat) : ¬HasEvenSignificand ((2 ^ 53 - 1) * Nat.pow 2 k) := by
  intro heven
  have hpos := twoPow_pos k
  have hle : Nat.pow 2 (52 + k) ≤ (2 ^ 53 - 1) * Nat.pow 2 k := by
    rw [Nat.pow_eq, Nat.pow_eq, Nat.pow_add]
    exact Nat.mul_le_mul_right _ (by decide)
  have hlog := (Nat.le_log2 (by omega)).mpr hle
  have hbits : k ≤ droppedBits ((2 ^ 53 - 1) * Nat.pow 2 k) := by
    unfold droppedBits
    omega
  have hdvd := Nat.dvd_trans (Nat.mul_dvd_mul_left 2 (Nat.pow_dvd_pow 2 hbits)) heven
  have htwo : 2 ∣ 2 ^ 53 - 1 := Nat.dvd_of_mul_dvd_mul_right hpos hdvd
  omega

end Largest

/-- Below the middle between the largest number and the next power of two nothing is rounded to that power, and
    everything is from there on. -/
theorem roundPrecise_lt_iff {num den : Nat} (hden : 0 < den) (k : Nat) :
    roundPrecise num den < 2 ^ 53 * Nat.pow 2 (k + 1) ↔ num < (2 ^ 54 - 1) * Nat.pow 2 k * den := by
  have hstep : Nat.pow 2 (k + 1) = 2 * Nat.pow 2 k := by
    rw [Nat.pow_eq, Nat.pow_eq, Nat.pow_succ']
  have hprecise : Precise (2 ^ 53 * Nat.pow 2 (k + 1)) := precise_mul_two_pow (Nat.le_refl _)
  obtain ⟨hlarge, -⟩ := roundPrecise_nearest num hden (precise_largest (k + 1))
  obtain ⟨hnext, htie⟩ := roundPrecise_nearest num hden hprecise
  have hassoc : (2 ^ 54 - 1) * Nat.pow 2 k * den = (2 ^ 54 - 1) * (Nat.pow 2 k * den) := Nat.mul_assoc _ _ _
  have hassoc' : ∀ c, c * Nat.pow 2 (k + 1) * den = 2 * (c * (Nat.pow 2 k * den)) := fun c => by
    rw [hstep]
    ring
  have hunit : 0 < Nat.pow 2 k * den := Nat.mul_pos (twoPow_pos k) hden
  constructor
  · intro hlt
    have hle := (precise_roundPrecise num den).le_largest hlt
    have hbelow := Nat.mul_le_mul_right den hle
    refine Nat.lt_of_not_le fun hge => ?_
    rw [hassoc'] at hbelow hnext htie
    rw [hassoc] at hge
    unfold Nat.dist at hnext htie
    rcases htie (by omega) with heq | heven
    · omega
    · have heq : roundPrecise num den * den = (2 ^ 53 - 1) * Nat.pow 2 (k + 1) * den := by
        rw [hassoc']
        omega
      rw [Nat.eq_of_mul_eq_mul_right hden heq] at heven
      exact not_hasEvenSignificand_largest (k + 1) heven
  · intro hlt
    refine Nat.lt_of_not_le fun hge => ?_
    have habove := Nat.mul_le_mul_right den hge
    rw [hassoc'] at habove hlarge
    rw [hassoc] at hlt
    unfold Nat.dist at hlarge
    omega

/-! ### Rational magnitudes -/

/-- The middle between the largest finite number and the power of two behind it. -/
def overflowThreshold : ℚ := 2 ^ 1024 - 2 ^ 970

theorem overflowThreshold_eq : overflowThreshold = (2 ^ 54 - 1) * 2 ^ 970 := by
  have hsplit : (2 : ℚ) ^ 1024 = 2 ^ 54 * 2 ^ 970 := by rw [← pow_add]
  rw [overflowThreshold, hsplit, sub_mul, one_mul]

theorem exists_threshold : ∃ k, unitsOfInfinity = 2 ^ 53 * Nat.pow 2 (k + 1) ∧ unitsOfOne ∣ Nat.pow 2 (k + 1) ∧
    overflowThreshold * unitsOfOne = ((2 ^ 54 - 1) * Nat.pow 2 k : ℕ) := by
  have hbits : allBits = 53 + (970 + fractionBits + 1) := by decide
  refine ⟨970 + fractionBits, ?_, ?_, ?_⟩
  · unfold unitsOfInfinity
    generalize allBits = l, fractionBits = n at hbits ⊢
    subst hbits
    exact Nat.pow_add 2 53 _
  · unfold unitsOfOne
    generalize fractionBits = n
    exact Nat.pow_dvd_pow 2 (by omega)
  · rw [overflowThreshold_eq]
    unfold unitsOfOne
    simp only [Nat.pow_eq]
    generalize fractionBits = n, 970 = m
    push_cast
    rw [pow_add]
    ring

/-- There is a largest number, and it is whole. -/
theorem exists_largest : ∃ w, Precise (w * unitsOfOne) ∧ w * unitsOfOne < unitsOfInfinity ∧
    ∀ u, Fits u → u ≤ w * unitsOfOne := by
  obtain ⟨k, hinfinity, ⟨c, hc⟩, -⟩ := exists_threshold
  have hlargest : (2 ^ 53 - 1) * c * unitsOfOne = (2 ^ 53 - 1) * Nat.pow 2 (k + 1) := by
    rw [hc, Nat.mul_assoc, Nat.mul_comm c]
  refine ⟨(2 ^ 53 - 1) * c, ?_, ?_, ?_⟩
  · rw [hlargest]
    exact precise_largest (k + 1)
  · rw [hlargest, hinfinity]
    exact Nat.mul_lt_mul_of_pos_right (by decide) (twoPow_pos (k + 1))
  · rintro u ⟨hlt, hprecise⟩
    rw [hinfinity] at hlt
    rw [hlargest]
    exact hprecise.le_largest hlt

/-- The magnitude of a number of units. -/
def magnitude (units : Nat) : ℚ := units / unitsOfOne

theorem cast_unitsOfOne_pos : (0 : ℚ) < unitsOfOne := Nat.cast_pos.mpr unitsOfOne_pos

theorem abs_magnitude_sub {den : Nat} (hden : 0 < den) (units num : Nat) :
    |magnitude units - num / den| = (Nat.dist (units * den) (num * unitsOfOne) : ℕ) / (unitsOfOne * den) := by
  have hone := cast_unitsOfOne_pos
  have hden' : (0 : ℚ) < den := Nat.cast_pos.mpr hden
  have hdiff : magnitude units - num / den = (units * den - num * unitsOfOne) / (unitsOfOne * den) := by
    unfold magnitude
    generalize (unitsOfOne : ℚ) = one at hone ⊢
    field_simp
  have hdist : |(units * den - num * unitsOfOne : ℚ)| = (Nat.dist (units * den) (num * unitsOfOne) : ℕ) := by
    rcases Nat.le_total (units * den) (num * unitsOfOne) with hle | hle
    · rw [Nat.dist_eq_sub_of_le hle, Nat.cast_sub hle, abs_sub_comm]
      push_cast
      exact abs_of_nonneg (sub_nonneg.mpr (by exact_mod_cast hle))
    · rw [Nat.dist_eq_sub_of_le_right hle, Nat.cast_sub hle]
      push_cast
      exact abs_of_nonneg (sub_nonneg.mpr (by exact_mod_cast hle))
  rw [hdiff, abs_div, hdist, abs_of_pos (mul_pos hone hden')]

theorem roundPrecise_lt_unitsOfInfinity_iff {den : Nat} (hden : 0 < den) (num : Nat) :
    roundPrecise (num * unitsOfOne) den < unitsOfInfinity ↔ (num / den : ℚ) < overflowThreshold := by
  obtain ⟨k, hinfinity, -, hthreshold⟩ := exists_threshold
  have hden' : (0 : ℚ) < den := Nat.cast_pos.mpr hden
  rw [hinfinity, roundPrecise_lt_iff hden, div_lt_iff₀ hden', ← mul_lt_mul_iff_of_pos_right cast_unitsOfOne_pos,
    mul_right_comm overflowThreshold, hthreshold]
  exact_mod_cast Iff.rfl

namespace Binary64

/-- A rational magnitude with a sign is rounded to a number: to a finite one that is nearest, with an even significand
    if another one is as near; but to an infinite one from the threshold on. -/
inductive Rounds (negative : Bool) (q : ℚ) : Binary64 → Prop where
  | finite {units : Nat} (h : Fits units) (hrange : q < overflowThreshold)
    (hnearest : ∀ v, Fits v → |magnitude units - q| ≤ |magnitude v - q|)
    (htie : ∀ v, Fits v → |magnitude units - q| = |magnitude v - q| → v = units ∨ HasEvenSignificand units) :
    Rounds negative q (.finite negative units h)
  | infinite (hrange : overflowThreshold ≤ q) : Rounds negative q (.infinite negative)

theorem rounds_ofUnits (negative : Bool) (num : Nat) {den : Nat} (hden : 0 < den) :
    Rounds negative (num / den) (ofUnits negative (num * unitsOfOne) den) := by
  have hone := cast_unitsOfOne_pos
  have hden' : (0 : ℚ) < den := Nat.cast_pos.mpr hden
  have hrange := roundPrecise_lt_unitsOfInfinity_iff hden num
  have hscale : (0 : ℚ) < unitsOfOne * den := mul_pos hone hden'
  unfold ofUnits
  split
  · next hlt =>
    refine .finite _ (hrange.mp hlt) ?_ ?_
    · intro v hv
      rw [abs_magnitude_sub hden, abs_magnitude_sub hden]
      exact div_le_div_of_nonneg_right (Nat.cast_le.mpr (roundPrecise_nearest _ hden hv.2).1) hscale.le
    · intro v hv heq
      rw [abs_magnitude_sub hden, abs_magnitude_sub hden, div_left_inj' hscale.ne', Nat.cast_inj] at heq
      exact (roundPrecise_nearest _ hden hv.2).2 heq
  · next hge => exact .infinite (not_lt.mp (mt hrange.mpr hge))

end Binary64

/-! ### Decimals and numerals -/

def Decimal.value (d : Decimal) : ℚ := d.digits * 10 ^ d.exponent

theorem Decimal.value_eq (d : Decimal) : d.value = d.num / d.den := by
  unfold value num den
  rcases Int.le_total 0 d.exponent with hle | hle
  · obtain ⟨k, hk⟩ := Int.eq_ofNat_of_zero_le hle
    have hnonpos : (-d.exponent).toNat = 0 := by omega
    rw [hnonpos, hk]
    simp
  · obtain ⟨k, hk⟩ := Int.eq_ofNat_of_zero_le (Int.neg_nonneg_of_nonpos hle)
    have hneg : d.exponent = -k := by omega
    have hnonpos : d.exponent.toNat = 0 := by omega
    rw [hnonpos, hk, hneg, zpow_neg, div_eq_mul_inv]
    simp

theorem Decimal.rounds (negative : Bool) (d : Decimal) : Binary64.Rounds negative d.value (d.toBinary64 negative) := by
  rw [toBinary64_eq_ofUnits, value_eq]
  exact Binary64.rounds_ofUnits negative d.num d.den_pos

end TableMetrics
