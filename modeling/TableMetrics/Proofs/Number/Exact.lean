import Mathlib.Algebra.Field.Rat
import Mathlib.Data.Rat.Cast.CharZero
import TableMetrics.Proofs.Number.Readback

/-! Exact numbers: the finite floating-point numbers, and the whole numbers up to 2^53, all of which are floating-point
    numbers too. Their place in the order is their exact value, and their text tells it. -/

namespace TableMetrics

theorem unitsOfOne_ne_zero : (unitsOfOne : ℚ) ≠ 0 := Nat.cast_ne_zero.mpr (Nat.ne_of_gt unitsOfOne_pos)

/-- The exact value of a number that is finite. -/
def Number.value? : Number → Option ℚ
  | .integer n => some n
  | .float (.finite negative units _) => some (Binary64.signed negative units / unitsOfOne)
  | .float _ => none

/-- A finite floating-point number, or a whole number of a magnitude of at most 2^53. -/
inductive Number.IsExact : Number → Prop where
  | integer {n : Int} (h : n.natAbs ≤ 2 ^ 53) : IsExact (.integer n)
  | float (negative : Bool) (units : Nat) (h : Fits units) : IsExact (.float (.finite negative units h))

namespace Binary64
variable {s t : Bool} {u v : Nat}

/-! ### Whole numbers -/

theorem signed_mul (s : Bool) (u k : Nat) : signed s (u * k) = signed s u * k := by
  cases s <;> simp

theorem natAbs_signed (s : Bool) (u : Nat) : (signed s u).natAbs = u := by
  cases s <;> simp

theorem signed_natAbs (n : Int) : signed (decide (n < 0)) n.natAbs = n := by
  by_cases hneg : n < 0
  · rw [decide_eq_true hneg, signed_true]
    omega
  · rw [decide_eq_false hneg, signed_false]
    omega

theorem signed_inj (h : signed s u = signed t v) : u = v ∧ (u = 0 ∨ s = t) := by
  cases s <;> cases t <;> simp at h ⊢ <;> omega

theorem fits_whole {n : Nat} (h : n ≤ 2 ^ 53) : Fits (n * unitsOfOne) := by
  have hbits : 53 + fractionBits < allBits := by decide
  unfold unitsOfOne
  refine ⟨?_, precise_mul_two_pow h⟩
  unfold unitsOfInfinity
  generalize fractionBits = k at hbits ⊢
  generalize allBits = l at hbits ⊢
  calc n * 2 ^ k ≤ 2 ^ 53 * 2 ^ k := Nat.mul_le_mul_right _ h
    _ = 2 ^ (53 + k) := (Nat.pow_add 2 53 k).symm
    _ < 2 ^ l := Nat.pow_lt_pow_right (by decide) hbits

theorem ofInt_eq_ofUnits (n : Int) : ofInt n = ofUnits (decide (n < 0)) (n.natAbs * unitsOfOne) 1 := by
  have hunits : (0 : Int) < unitsOfOne := Int.natCast_pos.mpr unitsOfOne_pos
  have habs : (n * unitsOfOne : Int).natAbs = n.natAbs * unitsOfOne := by rw [Int.natAbs_mul, Int.natAbs_natCast]
  have hsign : (if n * unitsOfOne = 0 then false else decide (n * (unitsOfOne : Int) < 0)) = decide (n < 0) := by
    rcases Int.lt_trichotomy n 0 with hneg | rfl | hpos
    · have htotal := Int.mul_neg_of_neg_of_pos hneg hunits
      rw [if_neg (by omega), decide_eq_true htotal, decide_eq_true hneg]
    · rw [Int.zero_mul, if_pos rfl, decide_eq_false (Int.lt_irrefl 0)]
    · have htotal := Int.mul_pos hpos hunits
      rw [if_neg (by omega), decide_eq_false (by omega), decide_eq_false (by omega)]
  rw [ofInt, ofTotal, hsign, habs]

theorem ofInt_eq {n : Int} (h : Fits (n.natAbs * unitsOfOne)) :
    ofInt n = .finite (decide (n < 0)) (n.natAbs * unitsOfOne) h := by
  rw [ofInt_eq_ofUnits]
  exact ofUnits_eq_finite _ (roundPrecise_self h.2) h

end Binary64

/-! ### Texts -/

open Binary64

section Texts
variable {s t : Bool} {u v : Nat}

theorem plainText_finite (s : Bool) (h : Fits u) :
    (Number.float (.finite s u h)).plainText = (Number.float (.finite s u h)).literal := rfl

/-- A whole number has one text, whichever kind it is of. -/
theorem plainText_ofInt {n : Int} (h : n.natAbs ≤ 2 ^ 53) :
    (Number.float (ofInt n)).plainText = (Number.integer n).plainText := by
  have hdiv : n.natAbs * unitsOfOne / unitsOfOne = n.natAbs := Nat.mul_div_cancel _ unitsOfOne_pos
  rw [ofInt_eq (fits_whole h), plainText_finite, literal_whole _ _ (Nat.mul_mod_left ..), hdiv, signed_natAbs]
  rfl

theorem value?_ofInt {n : Int} (h : n.natAbs ≤ 2 ^ 53) : (Number.float (ofInt n)).value? = (Number.integer n).value? := by
  rw [ofInt_eq (fits_whole h), Number.value?, Number.value?, signed_mul, signed_natAbs, Int.cast_mul, Int.cast_natCast,
    mul_div_cancel_right₀ _ unitsOfOne_ne_zero]

/-- Finite numbers in one place have one text; so do the two zeros. -/
theorem plainText_congr (hu : Fits u) (hv : Fits v) (h : signed s u = signed t v) :
    (Number.float (.finite s u hu)).plainText = (Number.float (.finite t v hv)).plainText := by
  obtain ⟨rfl, hzero | rfl⟩ := signed_inj h
  · have hwhole : u % unitsOfOne = 0 := by rw [hzero, Nat.zero_mod]
    have hdiv : u / unitsOfOne = u := by rw [hzero, Nat.zero_div]
    rw [plainText_finite, plainText_finite, literal_whole s hu hwhole, literal_whole t hv hwhole, hdiv, h]
  · rfl

/-- The text of a finite number denotes a number in its place. -/
theorem numericText?_plainText (s : Bool) (h : Fits u) : ∃ x, numericText? (Number.float (.finite s u h)).plainText = some x ∧
    x.rank? = some (signed s u) := by
  rw [plainText_finite]
  by_cases hwhole : u % unitsOfOne = 0
  · have hunits := Nat.div_mul_cancel (Nat.dvd_of_mod_eq_zero hwhole)
    rw [literal_whole s h hwhole]
    generalize u / unitsOfOne = k at hunits ⊢
    have hfits : Fits ((signed s k).natAbs * unitsOfOne) := by rwa [natAbs_signed, hunits]
    refine ⟨_, numericText?_integerText (signed s k) hfits, ?_⟩
    rw [rank?, signed_mul, signed_natAbs, ← signed_mul, hunits]
  · rw [literal_fraction s h hwhole]
    exact ⟨.finite s u h, numericText?_text s h, rfl⟩

end Texts

/-! ### Exact numbers -/

namespace Number.IsExact
variable {m n : Number}

/-- An exact number is a finite one, with the same text and value. -/
theorem exists_finite (h : m.IsExact) : ∃ s u hu, m.toBinary64 = .finite s u hu ∧
    m.plainText = (Number.float (.finite s u hu)).plainText ∧ m.value? = some (signed s u / unitsOfOne : ℚ) := by
  cases h with
  | @integer n hn =>
    have hfinite := ofInt_eq (fits_whole hn)
    refine ⟨_, _, _, hfinite, ?_, ?_⟩
    · rw [← hfinite, plainText_ofInt hn]
    · rw [← value?_ofInt hn, hfinite, Number.value?]
  | float s u hu => exact ⟨s, u, hu, rfl, rfl, rfl⟩

/-- The texts of exact numbers are equal if their places in the order are. -/
theorem plainText_eq_iff (hm : m.IsExact) (hn : n.IsExact) :
    m.plainText = n.plainText ↔ m.toBinary64.rank? = n.toBinary64.rank? := by
  obtain ⟨s, u, hu, hm, htext, -⟩ := hm.exists_finite
  obtain ⟨t, v, hv, hn, htext', -⟩ := hn.exists_finite
  rw [hm, hn, htext, htext']
  constructor
  · intro h
    obtain ⟨x, hx, hrank⟩ := numericText?_plainText s hu
    obtain ⟨y, hy, hrank'⟩ := numericText?_plainText t hv
    rw [h, hy] at hx
    cases hx
    exact hrank.symm.trans hrank'
  · exact fun h => plainText_congr hu hv (Option.some.inj h)

/-- The places of exact numbers in the order are equal if their values are. -/
theorem rank?_eq_iff (hm : m.IsExact) (hn : n.IsExact) :
    m.toBinary64.rank? = n.toBinary64.rank? ↔ m.value? = n.value? := by
  obtain ⟨s, u, hu, hm, -, hvalue⟩ := hm.exists_finite
  obtain ⟨t, v, hv, hn, -, hvalue'⟩ := hn.exists_finite
  rw [hm, hn, hvalue, hvalue', Option.some_inj, div_left_inj' unitsOfOne_ne_zero, Int.cast_inj]
  exact Option.some_inj

end Number.IsExact
end TableMetrics
