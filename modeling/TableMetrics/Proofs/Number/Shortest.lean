import TableMetrics.Number.Shortest
import TableMetrics.Proofs.Number.Decimal

/-! The shortest decimal of a number reads back as that number, and its value is close to it. -/

namespace TableMetrics
namespace Binary64

open Decimal

variable {units : Nat}

theorem num_mul_unitsOfOne (units : Nat) :
    num ⟨units * Nat.pow 5 fractionBits, -fractionBits⟩ * unitsOfOne =
      units * den ⟨units * Nat.pow 5 fractionBits, -fractionBits⟩ := by
  have hten : ∀ n : Nat, Nat.pow 5 n * Nat.pow 2 n = Nat.pow 10 n := fun n => (Nat.mul_pow 5 2 n).symm
  unfold num den unitsOfOne
  rw [Int.toNat_of_nonpos (by omega : -(fractionBits : Int) ≤ 0), Int.neg_neg, Int.toNat_natCast, tenPow_zero,
    Nat.mul_one, Nat.mul_assoc, hten]

theorem shortest_readsBack (h : Fits units) : ReadsBack units h (shortest units h) := by
  unfold shortest
  simp only
  cases hfind : List.find? _ _ with
  | some d =>
    have hread := List.find?_some hfind
    exact of_decide_eq_true hread
  | none => exact toBinary64_exact false h (num_mul_unitsOfOne units)

/-- The shortest decimal is one of the neighbours of the number with 1 to 17 digits, or its exact expansion. -/
theorem shortest_cases (h : Fits units) :
    (∃ i : Nat, shortest units h ∈ neighbours units (decimalPoint units - (i + 1 : Nat))) ∨
      shortest units h = ⟨units * Nat.pow 5 fractionBits, -fractionBits⟩ := by
  unfold shortest
  simp only
  cases hfind : List.find? _ _ with
  | some d =>
    obtain ⟨i, -, hmem⟩ := List.mem_flatMap.mp (List.mem_of_find?_eq_some hfind)
    exact Or.inl ⟨i, hmem⟩
  | none => exact Or.inr rfl

theorem scaled_eq (units : Nat) (e : Int) :
    scaled units e = (units * Nat.pow 10 (-e).toNat, unitsOfOne * Nat.pow 10 e.toNat) := by
  unfold scaled
  split
  · next h => rw [Int.toNat_of_nonpos (by omega : e ≤ 0), tenPow_zero, Nat.mul_one]
  · next h => rw [Int.toNat_of_nonpos (by omega : -e ≤ 0), tenPow_zero, Nat.mul_one]

/-- The multiples of a power of ten around a number are the one below it and the next. -/
theorem neighbours_cases {e : Int} {d : Decimal} (h : d ∈ neighbours units e) :
    d.exponent = e ∧ ∃ low, low = units * Nat.pow 10 (-e).toNat / (unitsOfOne * Nat.pow 10 e.toNat) ∧
      (d.digits = low ∨ d.digits = low + 1) := by
  unfold neighbours at h
  simp only [scaled_eq] at h
  split at h <;> simp only [List.mem_cons, List.not_mem_nil, or_false] at h <;> rcases h with rfl | rfl
  · exact ⟨rfl, _, rfl, Or.inl rfl⟩
  · exact ⟨rfl, _, rfl, Or.inr rfl⟩
  · exact ⟨rfl, _, rfl, Or.inr rfl⟩
  · exact ⟨rfl, _, rfl, Or.inl rfl⟩

theorem lt_tenPow_length (n : Nat) : n < Nat.pow 10 (Nat.toDigits 10 n).length :=
  (Nat.length_toDigits_le_iff (by decide) Nat.length_toDigits_pos).mp (Nat.le_refl _)

theorem tenPow_length_le {n : Nat} (hn : 0 < n) : Nat.pow 10 ((Nat.toDigits 10 n).length - 1) ≤ n := by
  rcases Nat.eq_zero_or_pos ((Nat.toDigits 10 n).length - 1) with hzero | hpos
  · rw [hzero]
    exact hn
  · refine Nat.le_of_not_lt fun hlt => ?_
    have hle := (Nat.length_toDigits_le_iff (by decide) hpos).mpr hlt
    omega

/-- The decimal point of a number from 10^-4 on stands so that the number has at least the given power of ten. -/
theorem decimalPoint_spec (hlow : unitsOfOne ≤ units * Nat.pow 10 4) :
    ∃ m n : Nat, decimalPoint units = (m : Int) + 1 - n ∧ n ≤ m + 4 ∧
      Nat.pow 10 m * unitsOfOne ≤ units * Nat.pow 10 n := by
  -- The bound on the exponent stays a variable, so that its power is never computed.
  obtain ⟨n, hn⟩ : ∃ n : Nat, n = 400 := ⟨400, rfl⟩
  have hpoint : decimalPoint units = (Nat.toDigits 10 (units * Nat.pow 10 n / unitsOfOne)).length - (n : Int) := by
    rw [decimalPoint, (by omega : (400 : Int) = n), scaled_eq, Int.toNat_of_nonpos (by omega : -(n : Int) ≤ 0),
      Int.neg_neg, Int.toNat_natCast, tenPow_zero, Nat.mul_one]
  have hdigits : Nat.pow 10 (n - 4) ≤ units * Nat.pow 10 n / unitsOfOne := by
    rw [Nat.le_div_iff_mul_le unitsOfOne_pos]
    calc Nat.pow 10 (n - 4) * unitsOfOne ≤ Nat.pow 10 (n - 4) * (units * Nat.pow 10 4) := Nat.mul_le_mul_left _ hlow
      _ = units * (Nat.pow 10 (n - 4) * Nat.pow 10 4) := Nat.mul_left_comm ..
      _ = units * Nat.pow 10 n := by rw [← tenPow_add, Nat.sub_add_cancel (by omega)]
  generalize hquotient : units * Nat.pow 10 n / unitsOfOne = q at hpoint hdigits
  have hq : 0 < q := Nat.lt_of_lt_of_le (tenPow_pos _) hdigits
  have hlength : n - 4 < (Nat.toDigits 10 q).length := by
    refine (Nat.pow_lt_pow_iff_right (by decide : 1 < 10)).mp ?_
    exact Nat.lt_of_le_of_lt hdigits (lt_tenPow_length q)
  refine ⟨(Nat.toDigits 10 q).length - 1, n, by omega, by omega, ?_⟩
  refine (Nat.le_div_iff_mul_le unitsOfOne_pos).mp ?_
  rw [hquotient]
  exact tenPow_length_le hq

/-- A neighbour with at least one digit is not below the power of ten that the number has, and at most twice the
    number. -/
theorem neighbours_bounds {m n i : Nat} {d : Decimal} (hd : d ∈ neighbours units ((m : Int) + 1 - n - (i + 1 : Nat)))
    (hpoint : n ≤ m + 4) (hpow : Nat.pow 10 m * unitsOfOne ≤ units * Nat.pow 10 n) :
    d.den ≤ d.num * Nat.pow 10 4 ∧ d.num * unitsOfOne ≤ 2 * (units * d.den) := by
  obtain ⟨he, low, hlow, hdigits⟩ := neighbours_cases hd
  rw [num, den, he]
  have hexponent : m + (-((m : Int) + 1 - n - (i + 1 : Nat))).toNat = n + i + ((m : Int) + 1 - n - (i + 1 : Nat)).toNat := by
    omega
  -- The number of places before the point and behind it that the exponent stands for; one of them is zero.
  generalize ((m : Int) + 1 - n - (i + 1 : Nat)).toNat = p at *
  generalize (-((m : Int) + 1 - n - (i + 1 : Nat))).toNat = q at *
  have hone : Nat.pow 10 i ≤ low := by
    rw [hlow, Nat.le_div_iff_mul_le (Nat.mul_pos unitsOfOne_pos (tenPow_pos p))]
    refine Nat.le_of_mul_le_mul_left ?_ (tenPow_pos n)
    calc Nat.pow 10 n * (Nat.pow 10 i * (unitsOfOne * Nat.pow 10 p)) = Nat.pow 10 (n + i + p) * unitsOfOne := by
          rw [tenPow_add, tenPow_add]
          simp only [Nat.mul_assoc, Nat.mul_comm, Nat.mul_left_comm]
      _ = Nat.pow 10 q * (Nat.pow 10 m * unitsOfOne) := by
          rw [← hexponent, Nat.add_comm, tenPow_add, Nat.mul_assoc]
      _ ≤ Nat.pow 10 q * (units * Nat.pow 10 n) := Nat.mul_le_mul_left _ hpow
      _ = Nat.pow 10 n * (units * Nat.pow 10 q) := by rw [Nat.mul_comm, Nat.mul_assoc, Nat.mul_left_comm]
  have hbelow : low * (unitsOfOne * Nat.pow 10 p) ≤ units * Nat.pow 10 q := by
    rw [hlow]
    exact Nat.div_mul_le_self ..
  have hpos : 1 ≤ low := Nat.le_trans (tenPow_pos i) hone
  constructor
  · calc Nat.pow 10 q ≤ Nat.pow 10 (i + p + 4) := tenPow_le (by omega)
      _ = Nat.pow 10 i * Nat.pow 10 p * Nat.pow 10 4 := by rw [tenPow_add, tenPow_add]
      _ ≤ d.digits * Nat.pow 10 p * Nat.pow 10 4 :=
          Nat.mul_le_mul_right _ (Nat.mul_le_mul_right _ (Nat.le_trans hone (by omega)))
  · calc d.digits * Nat.pow 10 p * unitsOfOne ≤ 2 * low * Nat.pow 10 p * unitsOfOne :=
          Nat.mul_le_mul_right _ (Nat.mul_le_mul_right _ (by omega))
      _ = 2 * (low * (unitsOfOne * Nat.pow 10 p)) := by
          rw [Nat.mul_assoc, Nat.mul_assoc, Nat.mul_comm unitsOfOne]
      _ ≤ 2 * (units * Nat.pow 10 q) := Nat.mul_le_mul_left 2 hbelow

/-- The shortest decimal of a number from 10^-4 on is not below 10^-4, and at most twice the number. -/
theorem shortest_bounds (h : Fits units) (hlow : unitsOfOne ≤ units * Nat.pow 10 4) :
    (shortest units h).den ≤ (shortest units h).num * Nat.pow 10 4 ∧
      (shortest units h).num * unitsOfOne ≤ 2 * (units * (shortest units h).den) := by
  obtain ⟨m, n, hpoint, hle, hpow⟩ := decimalPoint_spec hlow
  rcases shortest_cases h with ⟨i, hmem⟩ | hexact
  · rw [hpoint] at hmem
    exact neighbours_bounds hmem hle hpow
  · have hvalue := num_mul_unitsOfOne units
    rw [← hexact] at hvalue
    generalize (shortest units h).num = a at *
    generalize (shortest units h).den = b at *
    refine ⟨Nat.le_of_mul_le_mul_right ?_ unitsOfOne_pos, by omega⟩
    calc b * unitsOfOne ≤ b * (units * Nat.pow 10 4) := Nat.mul_le_mul_left b hlow
      _ = units * b * Nat.pow 10 4 := by rw [← Nat.mul_assoc, Nat.mul_comm b]
      _ = a * Nat.pow 10 4 * unitsOfOne := by rw [← hvalue, Nat.mul_right_comm]

end Binary64
end TableMetrics
