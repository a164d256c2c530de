import Mathlib.Data.Nat.Dist
import TableMetrics.Proofs.Number.Rounding

/-! Rounding goes to a nearest number of at most 53 significant bits, and of two equally near ones to that with the even
    significand. The distance of a whole number from a quotient is measured in parts of the denominator. -/

namespace TableMetrics

variable {num den : Nat}

/-! ### Whole numbers -/

theorem roundHalfEven_cases (num den : Nat) :
    roundHalfEven num den = num / den ∧ 2 * (num % den) ≤ den ∧ (2 * (num % den) = den → num / den % 2 = 0) ∨
    roundHalfEven num den = num / den + 1 ∧ den ≤ 2 * (num % den) ∧ (2 * (num % den) = den → (num / den + 1) % 2 = 0) := by
  simp only [roundHalfEven]
  split
  · next hlow => exact Or.inl ⟨rfl, by omega, by omega⟩
  · next hlow =>
    split
    · next hhigh => exact Or.inr ⟨rfl, by omega, by omega⟩
    · next hhigh =>
      split
      · next heven => exact Or.inl ⟨rfl, by omega, fun _ => heven⟩
      · next hodd => exact Or.inr ⟨rfl, by omega, fun _ => by omega⟩

/-- The result of rounding is at most a half away, and even if it is a half away. -/
theorem roundHalfEven_near (num : Nat) (hden : 0 < den) :
    2 * Nat.dist (roundHalfEven num den * den) num ≤ den ∧
      (2 * Nat.dist (roundHalfEven num den * den) num = den → roundHalfEven num den % 2 = 0) := by
  have hnum : num / den * den + num % den = num := Nat.div_add_mod' num den
  have hrest : num % den < den := Nat.mod_lt num hden
  unfold Nat.dist
  rcases roundHalfEven_cases num den with ⟨hround, hle, heven⟩ | ⟨hround, hle, heven⟩
  · rw [hround]
    constructor
    · omega
    · intro h
      exact heven (by omega)
  · have hnext : (num / den + 1) * den = num / den * den + den := Nat.succ_mul _ _
    rw [hround, hnext]
    constructor
    · omega
    · intro h
      exact heven (by omega)

/-- No whole number is nearer than the result of rounding, and another one is as near only if the result is even. -/
theorem roundHalfEven_nearest (num : Nat) (hden : 0 < den) (k : Nat) :
    Nat.dist (roundHalfEven num den * den) num ≤ Nat.dist (k * den) num ∧
      (Nat.dist (roundHalfEven num den * den) num = Nat.dist (k * den) num →
        k = roundHalfEven num den ∨ roundHalfEven num den % 2 = 0) := by
  obtain ⟨hhalf, heven⟩ := roundHalfEven_near num hden
  by_cases hk : k = roundHalfEven num den
  · subst hk
    exact ⟨Nat.le_refl _, fun _ => Or.inl rfl⟩
  · have hapart : den ≤ Nat.dist (roundHalfEven num den * den) (k * den) := by
      rw [Nat.dist_mul_right]
      exact Nat.le_mul_of_pos_left den (Nat.dist_pos_of_ne (Ne.symm hk))
    have htriangle := Nat.dist.triangle_inequality (roundHalfEven num den * den) num (k * den)
    rw [Nat.dist_comm num] at htriangle
    exact ⟨by omega, fun h => Or.inr (heven (by omega))⟩

/-- Rounding does not go beyond a whole number. -/
theorem roundHalfEven_le_of_le (hden : 0 < den) {k : Nat} (h : num ≤ k * den) : roundHalfEven num den ≤ k := by
  obtain ⟨hnear, -⟩ := roundHalfEven_nearest num hden k
  unfold Nat.dist at hnear
  exact Nat.le_of_mul_le_mul_right (by omega) hden

/-! ### Numbers of at most 53 significant bits -/

/-- The significand of a number, of 53 bits at most, is even. -/
def HasEvenSignificand (n : Nat) : Prop := 2 * Nat.pow 2 (droppedBits n) ∣ n

theorem droppedBits_mul_le {m bits : Nat} (h : m < Nat.pow 2 53) : droppedBits (m * Nat.pow 2 bits) ≤ bits := by
  unfold droppedBits
  rcases Nat.eq_zero_or_pos m with rfl | hm
  · rw [Nat.zero_mul, Nat.log2_zero]
    omega
  · have hpos : m * Nat.pow 2 bits ≠ 0 := Nat.ne_of_gt (Nat.mul_pos hm (twoPow_pos bits))
    have hlog : (m * Nat.pow 2 bits).log2 < 53 + bits := by
      rw [Nat.log2_lt hpos, Nat.pow_add]
      exact Nat.mul_lt_mul_of_pos_right h (twoPow_pos bits)
    omega

theorem hasEvenSignificand_mul {m bits : Nat} (h : m ≤ Nat.pow 2 53) (heven : m % 2 = 0) :
    HasEvenSignificand (m * Nat.pow 2 bits) := by
  rcases Nat.lt_or_eq_of_le h with hlt | rfl
  · exact Nat.mul_dvd_mul (Nat.dvd_of_mod_eq_zero heven) (Nat.pow_dvd_pow 2 (droppedBits_mul_le hlt))
  · -- A significand of 2^53 is one of 2^52 with one more bit left out.
    have hpow : Nat.pow 2 53 * Nat.pow 2 bits = 2 ^ (53 + bits) := (Nat.pow_add 2 53 bits).symm
    have hdropped : 2 * Nat.pow 2 (53 + bits - 52) = 2 ^ (bits + 2) := by
      rw [Nat.pow_eq, ← Nat.pow_succ']
      exact congrArg (2 ^ ·) (by omega)
    rw [hpow, HasEvenSignificand, droppedBits, Nat.log2_two_pow, hdropped]
    exact Nat.pow_dvd_pow 2 (by omega)

theorem two_pow_le_of_droppedBits {n : Nat} (h : droppedBits n ≠ 0) : Nat.pow 2 52 * Nat.pow 2 (droppedBits n) ≤ n := by
  have hlog : 52 + droppedBits n = n.log2 := by
    unfold droppedBits at h ⊢
    omega
  have hn : n ≠ 0 := by
    rintro rfl
    simp [droppedBits] at h
  have hpow : Nat.pow 2 52 * Nat.pow 2 (droppedBits n) = 2 ^ (52 + droppedBits n) := (Nat.pow_add 2 52 _).symm
  rw [hpow, hlog]
  exact Nat.log2_self_le hn

/-- A precise number that is no multiple of the power of two which a larger one is rounded to is below all of them that
    have 53 bits. -/
theorem Precise.lt_of_not_dvd {v bits : Nat} (h : Precise v) (hdvd : ¬Nat.pow 2 bits ∣ v) :
    v < Nat.pow 2 52 * Nat.pow 2 bits := by
  have hlt : droppedBits v < bits := by
    refine Nat.lt_of_not_le fun hle => hdvd ?_
    exact Nat.dvd_trans (Nat.pow_dvd_pow 2 hle) h
  have hpow : Nat.pow 2 (53 + droppedBits v) ≤ Nat.pow 2 (52 + bits) := Nat.pow_le_pow_right (by decide) (by omega)
  have hadd : Nat.pow 2 (52 + bits) = Nat.pow 2 52 * Nat.pow 2 bits := Nat.pow_add 2 52 bits
  rw [← hadd]
  exact Nat.lt_of_lt_of_le (lt_two_pow_droppedBits v) hpow

/-- The significand that rounding comes to has 53 bits, or is the next power of two. -/
theorem roundHalfEven_droppedBits_le (num den : Nat) :
    roundHalfEven num (den * Nat.pow 2 (droppedBits (num / den))) ≤ Nat.pow 2 53 := by
  refine Nat.le_trans (roundHalfEven_le _ _) ?_
  rw [← Nat.div_div_eq_div_mul]
  have hlt := lt_two_pow_droppedBits (num / den)
  have hadd : Nat.pow 2 (53 + droppedBits (num / den)) = Nat.pow 2 (droppedBits (num / den)) * Nat.pow 2 53 := by
    rw [Nat.mul_comm]
    exact Nat.pow_add 2 53 _
  rw [hadd] at hlt
  exact Nat.div_lt_of_lt_mul hlt

/-- No precise number is nearer than the result of rounding, and another one is as near only if the significand of the
    result is even. -/
theorem roundPrecise_nearest (num : Nat) (hden : 0 < den) {v : Nat} (hv : Precise v) :
    Nat.dist (roundPrecise num den * den) num ≤ Nat.dist (v * den) num ∧
      (Nat.dist (roundPrecise num den * den) num = Nat.dist (v * den) num →
        v = roundPrecise num den ∨ HasEvenSignificand (roundPrecise num den)) := by
  let bits := droppedBits (num / den)
  have hunit : 0 < den * Nat.pow 2 bits := Nat.mul_pos hden (twoPow_pos bits)
  have hmul : ∀ k, k * Nat.pow 2 bits * den = k * (den * Nat.pow 2 bits) := fun k => by
    rw [Nat.mul_assoc, Nat.mul_comm den]
  have hle : roundHalfEven num (den * Nat.pow 2 bits) ≤ Nat.pow 2 53 := roundHalfEven_droppedBits_le num den
  have hround : roundPrecise num den = roundHalfEven num (den * Nat.pow 2 bits) * Nat.pow 2 bits := rfl
  rw [hround, hmul]
  by_cases hdvd : Nat.pow 2 bits ∣ v
  · obtain ⟨k, rfl⟩ := hdvd
    obtain ⟨hnear, htie⟩ := roundHalfEven_nearest num hunit k
    rw [Nat.mul_comm _ k, hmul]
    refine ⟨hnear, fun h => ?_⟩
    rcases htie h with rfl | heven
    · exact Or.inl rfl
    · exact Or.inr (hasEvenSignificand_mul hle heven)
  · have hlt := hv.lt_of_not_dvd hdvd
    obtain ⟨hnear, -⟩ := roundHalfEven_nearest num hunit (Nat.pow 2 52)
    have hbits : droppedBits (num / den) ≠ 0 := fun hzero => hdvd (by
      show Nat.pow 2 (droppedBits (num / den)) ∣ v
      rw [hzero]
      exact Nat.one_dvd v)
    have hbelow : Nat.pow 2 52 * (den * Nat.pow 2 bits) ≤ num := by
      rw [← hmul]
      exact (Nat.le_div_iff_mul_le hden).mp (two_pow_le_of_droppedBits hbits)
    have hfar : v * den < Nat.pow 2 52 * (den * Nat.pow 2 bits) := by
      rw [← hmul]
      exact Nat.mul_lt_mul_of_pos_right hlt hden
    unfold Nat.dist at *
    exact ⟨by omega, fun h => by omega⟩

/-- Rounding does not go beyond a precise number. -/
theorem roundPrecise_le (hden : 0 < den) {v : Nat} (hv : Precise v) (h : num ≤ v * den) : roundPrecise num den ≤ v := by
  obtain ⟨hnear, -⟩ := roundPrecise_nearest num hden hv
  unfold Nat.dist at hnear
  exact Nat.le_of_mul_le_mul_right (by omega) hden

end TableMetrics
