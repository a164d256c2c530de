/-! Rounding of exact quotients: to the nearest whole number, and to the nearest whole number of at most 53
    significant bits. In both a half goes to the even neighbour. -/

namespace TableMetrics

theorem twoPow_pos (n : Nat) : 0 < Nat.pow 2 n := Nat.two_pow_pos n

/-- The whole number nearest to `num / den`; a half goes to the even neighbour. -/
def roundHalfEven (num den : Nat) : Nat :=
  let low := num / den
  let rest := 2 * (num % den)
  if rest < den then low
  else if den < rest then low + 1
  else if low % 2 = 0 then low else low + 1

theorem le_roundHalfEven (num den : Nat) : num / den ≤ roundHalfEven num den := by
  simp only [roundHalfEven]
  split
  · omega
  · split
    · omega
    · split <;> omega

theorem roundHalfEven_le (num den : Nat) : roundHalfEven num den ≤ num / den + 1 := by
  simp only [roundHalfEven]
  split
  · omega
  · split
    · omega
    · split <;> omega

/-- The number of low bits that a significand of 53 bits leaves out at the size of `n`. -/
def droppedBits (n : Nat) : Nat := n.log2 - 52

/-- Whether a whole number has at most 53 significant bits. -/
def Precise (n : Nat) : Prop := Nat.pow 2 (droppedBits n) ∣ n

instance (n : Nat) : Decidable (Precise n) := inferInstanceAs (Decidable (_ ∣ _))

/-- The number of at most 53 significant bits nearest to `num / den`; a half goes to the neighbour with the even
    significand. -/
def roundPrecise (num den : Nat) : Nat :=
  let bits := droppedBits (num / den)
  roundHalfEven num (den * Nat.pow 2 bits) * Nat.pow 2 bits

theorem lt_two_pow_droppedBits (n : Nat) : n < Nat.pow 2 (53 + droppedBits n) := by
  have h : n < 2 ^ (n.log2 + 1) := Nat.lt_log2_self
  have h' : 2 ^ (n.log2 + 1) ≤ 2 ^ (53 + droppedBits n) :=
    Nat.pow_le_pow_right (by omega) (by unfold droppedBits; omega)
  exact Nat.lt_of_lt_of_le h h'

theorem precise_mul_two_pow {m bits : Nat} (h : m ≤ Nat.pow 2 53) : Precise (m * Nat.pow 2 bits) := by
  rcases Nat.lt_or_eq_of_le h with hlt | rfl
  · refine Nat.dvd_trans (Nat.pow_dvd_pow 2 ?_) (Nat.dvd_mul_left (2 ^ bits) m)
    rcases Nat.eq_zero_or_pos m with rfl | hm
    · simp [droppedBits]
    · have hpos : m * 2 ^ bits ≠ 0 := Nat.ne_of_gt (Nat.mul_pos hm (Nat.two_pow_pos bits))
      have hlog : (m * 2 ^ bits).log2 < 53 + bits := by
        rw [Nat.log2_lt hpos, Nat.pow_add]
        exact Nat.mul_lt_mul_of_pos_right hlt (Nat.two_pow_pos bits)
      simp only [droppedBits, Nat.pow_eq]
      omega
  · simp only [Precise, droppedBits, Nat.pow_eq]
    rw [← Nat.pow_add, Nat.log2_two_pow]
    exact Nat.pow_dvd_pow 2 (by omega)

theorem precise_roundPrecise (num den : Nat) : Precise (roundPrecise num den) := by
  refine precise_mul_two_pow (Nat.le_trans (roundHalfEven_le _ _) ?_)
  rw [← Nat.div_div_eq_div_mul]
  have h := lt_two_pow_droppedBits (num / den)
  simp only [Nat.pow_eq] at h ⊢
  rw [Nat.pow_add, Nat.mul_comm] at h
  exact Nat.div_lt_of_lt_mul h

end TableMetrics
