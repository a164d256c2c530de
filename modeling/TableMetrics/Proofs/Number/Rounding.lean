import TableMetrics.Number.Binary64

/-! Rounding depends on the value of a quotient alone, and leaves what is precise as it is. -/

namespace TableMetrics

variable {num den num' den' : Nat}

theorem roundHalfEven_mul (num den : Nat) {k : Nat} (hk : 0 < k) :
    roundHalfEven (num * k) (den * k) = roundHalfEven num den := by
  simp only [roundHalfEven, Nat.mul_div_mul_right _ _ hk, Nat.mul_mod_mul_right, ← Nat.mul_assoc,
    Nat.mul_lt_mul_right hk]

theorem div_congr (hden : 0 < den) (hden' : 0 < den') (h : num * den' = num' * den) : num / den = num' / den' := by
  calc num / den = num * den' / (den * den') := (Nat.mul_div_mul_right num den hden').symm
    _ = num' * den / (den' * den) := by rw [h, Nat.mul_comm den den']
    _ = num' / den' := Nat.mul_div_mul_right num' den' hden

theorem roundHalfEven_congr (hden : 0 < den) (hden' : 0 < den') (h : num * den' = num' * den) :
    roundHalfEven num den = roundHalfEven num' den' := by
  calc roundHalfEven num den = roundHalfEven (num * den') (den * den') := (roundHalfEven_mul num den hden').symm
    _ = roundHalfEven (num' * den) (den' * den) := by rw [h, Nat.mul_comm den den']
    _ = roundHalfEven num' den' := roundHalfEven_mul num' den' hden

theorem roundHalfEven_exact (n : Nat) (hden : 0 < den) : roundHalfEven (n * den) den = n := by
  simp [roundHalfEven, Nat.mul_div_cancel n hden, hden]

theorem roundPrecise_congr (hden : 0 < den) (hden' : 0 < den') (h : num * den' = num' * den) :
    roundPrecise num den = roundPrecise num' den' := by
  simp only [roundPrecise, div_congr hden hden' h]
  have hpow := twoPow_pos (droppedBits (num' / den'))
  rw [roundHalfEven_congr (Nat.mul_pos hden hpow) (Nat.mul_pos hden' hpow)]
  rw [← Nat.mul_assoc, ← Nat.mul_assoc, h]

theorem roundPrecise_self {n : Nat} (h : Precise n) : roundPrecise n 1 = n := by
  obtain ⟨m, hm⟩ := h
  have hpow := twoPow_pos (droppedBits n)
  have hexact : roundHalfEven n (Nat.pow 2 (droppedBits n)) = m := by
    rw [Nat.mul_comm] at hm
    have hround := roundHalfEven_exact m hpow
    rw [← hm] at hround
    exact hround
  simp only [roundPrecise, Nat.div_one, Nat.one_mul]
  rw [hexact, Nat.mul_comm]
  exact hm.symm

/-- What is not below a power of two is not rounded below it. -/
theorem twoPow_le_roundPrecise {k : Nat} (h : Nat.pow 2 k ≤ num / den) : Nat.pow 2 k ≤ roundPrecise num den := by
  let bits := droppedBits (num / den)
  have hlow : num / den / Nat.pow 2 bits * Nat.pow 2 bits ≤ roundPrecise num den := by
    rw [Nat.div_div_eq_div_mul]
    exact Nat.mul_le_mul_right _ (le_roundHalfEven _ _)
  refine Nat.le_trans ?_ hlow
  rcases Nat.le_total bits k with hbits | hbits
  · have hsplit : Nat.pow 2 k = Nat.pow 2 (k - bits) * Nat.pow 2 bits := by
      have hadd := Nat.pow_add 2 (k - bits) bits
      rw [Nat.sub_add_cancel hbits] at hadd
      exact hadd
    rw [hsplit] at h ⊢
    exact Nat.mul_le_mul_right _ ((Nat.le_div_iff_mul_le (twoPow_pos bits)).mpr h)
  · have hpos : num / den ≠ 0 := Nat.ne_of_gt (Nat.lt_of_lt_of_le (twoPow_pos k) h)
    have hbits' : Nat.pow 2 bits ≤ num / den := by
      refine Nat.le_trans (Nat.pow_le_pow_right (by omega) ?_) (Nat.log2_self_le hpos)
      exact Nat.sub_le _ 52
    have hone : 1 ≤ num / den / Nat.pow 2 bits := (Nat.le_div_iff_mul_le (twoPow_pos bits)).mpr (by rwa [Nat.one_mul])
    have hpow : Nat.pow 2 k ≤ Nat.pow 2 bits := Nat.pow_le_pow_right (by omega) hbits
    exact Nat.le_trans hpow (Nat.le_mul_of_pos_left _ hone)

/-- Less than half of the least positive number rounds to zero. -/
theorem roundPrecise_eq_zero (h : 2 * num < den) : roundPrecise num den = 0 := by
  have hdiv : num / den = 0 := Nat.div_eq_of_lt (by omega)
  have hmod : num % den = num := Nat.mod_eq_of_lt (by omega)
  have hbits : droppedBits 0 = 0 := by simp [droppedBits]
  have hden : den * Nat.pow 2 0 = den := Nat.mul_one den
  simp only [roundPrecise, hdiv, hbits, hden, roundHalfEven, hmod, if_pos h, Nat.zero_mul]

namespace Binary64

theorem ofUnits_congr (negative : Bool) (hden : 0 < den) (hden' : 0 < den') (h : num * den' = num' * den) :
    ofUnits negative num den = ofUnits negative num' den' := by
  have hround := roundPrecise_congr hden hden' h
  simp only [ofUnits, hround]

theorem ofUnits_eq_finite (negative : Bool) {units : Nat} (hround : roundPrecise num den = units) (h : Fits units) :
    ofUnits negative num den = .finite negative units h := by
  subst hround
  rw [ofUnits, dif_pos h.1]

theorem ofUnits_eq_infinite (negative : Bool) (h : unitsOfInfinity ≤ num / den) :
    ofUnits negative num den = .infinite negative := by
  have hround : unitsOfInfinity ≤ roundPrecise num den := by
    unfold unitsOfInfinity at h ⊢
    exact twoPow_le_roundPrecise h
  rw [ofUnits, dif_neg (Nat.not_lt.mpr hround)]

theorem ofUnits_ne_nan (negative : Bool) (num den : Nat) : ofUnits negative num den ≠ .nan := by
  unfold ofUnits
  split <;> rintro ⟨⟩

end Binary64
end TableMetrics
