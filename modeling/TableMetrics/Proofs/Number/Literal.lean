import TableMetrics.Number
import TableMetrics.Proofs.Lexer.Scan
import TableMetrics.Proofs.Number.Shortest

/-! Numbers as literals. The text of a number that is zero or not below 10^-4 has no exponent, and denotes that
    number. -/

namespace TableMetrics

open Decimal Lexer

namespace Decimal.SameValue
variable {d e f : Decimal}

theorem refl (d : Decimal) : d.SameValue d := rfl

theorem symm (h : d.SameValue e) : e.SameValue d := Eq.symm h

theorem trans (h : d.SameValue e) (h' : e.SameValue f) : d.SameValue f := by
  unfold SameValue at *
  refine Nat.eq_of_mul_eq_mul_right e.den_pos ?_
  rw [Nat.mul_right_comm, h, Nat.mul_right_comm, h', Nat.mul_right_comm]

/-- Zeros at the end of the digits are worth nothing if the exponent makes up for them. -/
theorem shift (n : Nat) (e : Int) (k : Nat) : SameValue ⟨Nat.pow 10 k * n, e - k⟩ ⟨n, e⟩ := by
  have hexponent : k + (e - k).toNat + (-e).toNat = e.toNat + (-(e - k)).toNat := by omega
  have hpow := congrArg (Nat.pow 10) hexponent
  rw [tenPow_add, tenPow_add, tenPow_add] at hpow
  simp only [SameValue, num, den]
  rw [Nat.mul_comm _ n, Nat.mul_assoc n, Nat.mul_assoc n, hpow, Nat.mul_assoc]

end Decimal.SameValue

/-- The characters are a number of the language with the value of a decimal. -/
def WritesDecimal (cs : List Char) (d : Decimal) : Prop :=
  ∃ ds fs, IsNumber cs ds fs ∧ SameValue ⟨Nat.ofDigitChars 10 (ds ++ fs) 0, -(fs.length : Int)⟩ d

theorem ofDigits_map_digitValue (cs : List Char) : ofDigits (cs.map digitValue) = Nat.ofDigitChars 10 cs 0 := by
  rw [Nat.ofDigitChars_eq_foldl, ofDigits, List.foldl_map]
  rfl

theorem toDecimal_digits (negative : Bool) (ds fs : List Char) (e : Int) :
    Numeral.toDecimal ⟨negative, ds.map digitValue, fs.map digitValue, e⟩ =
      ⟨Nat.ofDigitChars 10 (ds ++ fs) 0, e - fs.length⟩ := by
  rw [Numeral.toDecimal, ← List.map_append, ofDigits_map_digitValue, List.length_map]

/-- A text with the value of a decimal, with a sign before it or without one, denotes the number of that decimal. -/
theorem numericText?_of_writes {cs : List Char} {d : Decimal} (h : WritesDecimal cs d) (negative : Bool) :
    numericText? (String.ofList (signChars negative ++ cs)) = some (d.toBinary64 negative) := by
  obtain ⟨ds, fs, hnumber, hvalue⟩ := h
  rw [numericText?_number hnumber negative, Numeral.toBinary64, toDecimal_digits, Int.zero_sub,
    toBinary64_congr negative hvalue]

/-! ### Digits -/

theorem isAsciiDigit_toDigits {n : Nat} {c : Char} (h : c ∈ Nat.toDigits 10 n) : isAsciiDigit c = true := by
  have hdigit := Nat.isDigit_of_mem_toDigits (by decide) (by decide) h
  rw [isAsciiDigit_iff]
  exact Char.isDigit_iff_toNat.mp hdigit

theorem toDigits_writes (n : Nat) : WritesDecimal (Nat.toDigits 10 n) ⟨n, 0⟩ := by
  refine ⟨Nat.toDigits 10 n, [], .whole Nat.toDigits_ne_nil fun c hc => isAsciiDigit_toDigits hc, ?_⟩
  rw [List.append_nil, Nat.ofDigitChars_ten_toDigits]
  exact .refl _

theorem exists_dropTrailingZeros (cs : List Char) :
    ∃ k, cs = Binary64.dropTrailingZeros cs ++ List.replicate k '0' := by
  refine ⟨(cs.reverse.takeWhile (· == '0')).length, ?_⟩
  have hzeros : cs.reverse.takeWhile (· == '0') = List.replicate (cs.reverse.takeWhile (· == '0')).length '0' := by
    refine List.eq_replicate_iff.mpr ⟨rfl, fun c hc => ?_⟩
    exact eq_of_beq (List.all_eq_true.mp List.all_takeWhile c hc)
  rw [Binary64.dropTrailingZeros, ← List.reverse_inj, List.reverse_append, List.reverse_reverse, List.reverse_replicate,
    ← hzeros, List.takeWhile_append_dropWhile]

theorem isAsciiDigit_zeros {n : Nat} {c : Char} (h : c ∈ List.replicate n '0') : isAsciiDigit c = true := by
  rw [List.eq_of_mem_replicate h]
  decide

section Positional
variable {cs : List Char} {point : Int}

theorem positional_before (hall : ∀ c ∈ cs, isAsciiDigit c = true) (hpoint : point ≤ 0) :
    WritesDecimal ('0' :: '.' :: List.replicate (-point).toNat '0' ++ cs)
      ⟨Nat.ofDigitChars 10 cs 0, point - cs.length⟩ := by
  refine ⟨['0'], List.replicate (-point).toNat '0' ++ cs, .point (by simp) (fun c => isAsciiDigit_zeros (n := 1)) ?_, ?_⟩
  · intro c hc
    rcases List.mem_append.mp hc with hc | hc
    · exact isAsciiDigit_zeros hc
    · exact hall c hc
  · have hvalue : Nat.ofDigitChars 10 (['0'] ++ (List.replicate (-point).toNat '0' ++ cs)) 0 =
        Nat.ofDigitChars 10 cs 0 := by
      simp [Nat.ofDigitChars_append, Nat.ofDigitChars_cons]
    have hexponent : -((List.replicate (-point).toNat '0' ++ cs).length : Int) = point - cs.length := by
      rw [List.length_append, List.length_replicate]
      omega
    rw [hvalue, hexponent]
    exact .refl _

theorem positional_inside (hne : cs ≠ []) (hall : ∀ c ∈ cs, isAsciiDigit c = true) (hpoint : 0 < point)
    (hinside : point.toNat < cs.length) :
    WritesDecimal (cs.take point.toNat ++ '.' :: cs.drop point.toNat)
      ⟨Nat.ofDigitChars 10 cs 0, point - cs.length⟩ := by
  have htake : cs.take point.toNat ≠ [] := by
    rw [Ne, List.take_eq_nil_iff]
    simp only [hne, or_false]
    omega
  refine ⟨cs.take point.toNat, cs.drop point.toNat, .point htake ?_ ?_, ?_⟩
  · exact fun c hc => hall c (List.mem_of_mem_take hc)
  · exact fun c hc => hall c (List.mem_of_mem_drop hc)
  · have hexponent : -((cs.drop point.toNat).length : Int) = point - cs.length := by
      rw [List.length_drop]
      omega
    rw [List.take_append_drop, hexponent]
    exact .refl _

theorem positional_behind (hne : cs ≠ []) (hall : ∀ c ∈ cs, isAsciiDigit c = true) (hpoint : 0 < point)
    (hbehind : cs.length ≤ point.toNat) :
    WritesDecimal (cs ++ List.replicate (point.toNat - cs.length) '0' ++ ['.', '0'])
      ⟨Nat.ofDigitChars 10 cs 0, point - cs.length⟩ := by
  refine ⟨cs ++ List.replicate (point.toNat - cs.length) '0', ['0'], .point (by simp [hne]) ?_
    (fun c => isAsciiDigit_zeros (n := 1)), ?_⟩
  · intro c hc
    rcases List.mem_append.mp hc with hc | hc
    · exact hall c hc
    · exact isAsciiDigit_zeros hc
  · have hvalue : Nat.ofDigitChars 10 (cs ++ List.replicate (point.toNat - cs.length) '0' ++ ['0']) 0 =
        Nat.pow 10 (point.toNat - cs.length + 1) * Nat.ofDigitChars 10 cs 0 := by
      rw [List.append_assoc, ← List.replicate_succ', Nat.ofDigitChars_append, Nat.ofDigitChars_replicate_zero]
      rfl
    have hexponent : -((['0'] : List Char).length : Int) =
        point - cs.length - (point.toNat - cs.length + 1 : Nat) := by
      rw [List.length_singleton]
      omega
    rw [hvalue, hexponent]
    exact .shift ..

/-- Digits with a point before them, among them or behind them. -/
theorem positional_writes (hne : cs ≠ []) (hall : ∀ c ∈ cs, isAsciiDigit c = true) (point : Int) :
    WritesDecimal (Binary64.positional cs point) ⟨Nat.ofDigitChars 10 cs 0, point - cs.length⟩ := by
  unfold Binary64.positional
  split
  · next hpoint => exact positional_before hall hpoint
  · next hpoint =>
    have hpositive : 0 < point := by omega
    rcases Nat.lt_or_ge point.toNat cs.length with hinside | hbehind
    · have hdrop : (cs.drop point.toNat).isEmpty = false := by
        rw [List.isEmpty_eq_false_iff, Ne, List.drop_eq_nil_iff]
        omega
      have hpad : point.toNat - cs.length = 0 := by omega
      simp only [hpad, hdrop, List.replicate_zero, List.append_nil]
      exact positional_inside hne hall hpositive hinside
    · have htake : cs.take point.toNat = cs := List.take_of_length_le hbehind
      have hdrop : cs.drop point.toNat = [] := List.drop_of_length_le hbehind
      simp only [htake, hdrop, List.isEmpty_nil, if_true]
      exact positional_behind hne hall hpositive hbehind

end Positional

namespace Decimal
variable {d : Decimal}

/-- The digits of a decimal without the zeros at their end. -/
def significant (d : Decimal) : List Char := Binary64.dropTrailingZeros (Nat.toDigits 10 d.digits)

/-- The number of digits before the point of a decimal, negative if there are zeros behind it first. -/
def point (d : Decimal) : Int := (Nat.toDigits 10 d.digits).length + d.exponent

theorem point_bounds (hdigits : 0 < d.digits) (hlow : d.den ≤ d.num * Nat.pow 10 4)
    (hhigh : d.num < d.den * Nat.pow 10 16) : -4 < d.point ∧ d.point ≤ 16 := by
  have hupper := Binary64.lt_tenPow_length d.digits
  have hlower := Binary64.tenPow_length_le hdigits
  have hlength : 0 < (Nat.toDigits 10 d.digits).length := Nat.length_toDigits_pos
  unfold point
  generalize (Nat.toDigits 10 d.digits).length = l at *
  rw [num, den] at *
  constructor
  · refine Int.lt_of_not_ge fun hsmall => ?_
    rw [Int.toNat_of_nonpos (by omega : d.exponent ≤ 0), tenPow_zero, Nat.mul_one] at hlow
    have hpow : Nat.pow 10 (l + 4) ≤ Nat.pow 10 (-d.exponent).toNat := tenPow_le (by omega)
    rw [tenPow_add] at hpow
    have hlt := Nat.mul_lt_mul_of_pos_right hupper (tenPow_pos 4)
    exact absurd (Nat.le_trans hpow hlow) (Nat.not_le.mpr hlt)
  · refine Int.le_of_not_gt fun hlarge => ?_
    have hpow : Nat.pow 10 ((-d.exponent).toNat + 16) ≤ Nat.pow 10 (l - 1 + d.exponent.toNat) := tenPow_le (by omega)
    rw [tenPow_add, tenPow_add] at hpow
    exact absurd (Nat.le_trans hpow (Nat.mul_le_mul_right _ hlower)) (Nat.not_le.mpr hhigh)

/-- The digits without the zeros at their end have the value of the decimal, with the point where it was. -/
theorem significant_spec (hdigits : 0 < d.digits) :
    d.significant ≠ [] ∧ (∀ c ∈ d.significant, isAsciiDigit c = true) ∧
      SameValue ⟨Nat.ofDigitChars 10 d.significant 0, d.point - d.significant.length⟩ d := by
  obtain ⟨k, hk⟩ := exists_dropTrailingZeros (Nat.toDigits 10 d.digits)
  have hvalue : Nat.ofDigitChars 10 (Nat.toDigits 10 d.digits) 0 = d.digits := Nat.ofDigitChars_ten_toDigits
  have hlength := congrArg List.length hk
  have hall : ∀ c ∈ Nat.toDigits 10 d.digits, isAsciiDigit c = true := fun c hc => isAsciiDigit_toDigits hc
  rw [List.length_append, List.length_replicate] at hlength
  rw [hk] at hall
  rw [hk, Nat.ofDigitChars_append, Nat.ofDigitChars_replicate_zero] at hvalue
  unfold significant point
  generalize (Nat.toDigits 10 d.digits).length = l at hlength ⊢
  generalize Binary64.dropTrailingZeros (Nat.toDigits 10 d.digits) = cs at *
  refine ⟨?_, fun c hc => hall c (List.mem_append_left _ hc), ?_⟩
  · rintro rfl
    rw [Nat.ofDigitChars_nil, Nat.mul_zero] at hvalue
    omega
  · have hexponent : d.exponent = l + d.exponent - cs.length - k := by omega
    have hshift := SameValue.shift (Nat.ofDigitChars 10 cs 0) (l + d.exponent - cs.length) k
    rw [Nat.pow_eq, hvalue, ← hexponent] at hshift
    exact hshift.symm

theorem decimalText_eq (hdigits : 0 < d.digits) : Binary64.decimalText d =
    if -4 < d.point ∧ d.point ≤ 16 then Binary64.positional d.significant d.point
    else Binary64.scientific d.significant (d.point - 1) := by
  rw [Binary64.decimalText, if_neg (Nat.ne_of_gt hdigits)]
  rfl

theorem positional_significant (hdigits : 0 < d.digits) :
    WritesDecimal (Binary64.positional d.significant d.point) d := by
  obtain ⟨hne, hall, hvalue⟩ := significant_spec hdigits
  obtain ⟨ds, fs, hnumber, hsame⟩ := positional_writes hne hall d.point
  exact ⟨ds, fs, hnumber, hsame.trans hvalue⟩

theorem decimalText_writes (hdigits : 0 < d.digits) (hlow : d.den ≤ d.num * Nat.pow 10 4)
    (hhigh : d.num < d.den * Nat.pow 10 16) : WritesDecimal (Binary64.decimalText d) d := by
  rw [decimalText_eq hdigits, if_pos (point_bounds hdigits hlow hhigh)]
  exact positional_significant hdigits

end Decimal

/-! ### Literals -/

/-- Whether the language can read the literal of a number: those of zero and of the finite numbers from 10^-4 on. -/
def isReadable : Binary64 → Bool
  | .finite false units _ => units == 0 || unitsOfOne ≤ 10000 * units
  | _ => false

/-- A number of 2^52 or more is whole. -/
theorem lt_of_not_whole {units : Nat} (h : Precise units) (hfraction : units % unitsOfOne ≠ 0) :
    units < Nat.pow 2 52 * unitsOfOne := by
  refine Nat.lt_of_not_le fun hle => hfraction (Nat.mod_eq_zero_of_dvd (Nat.dvd_trans ?_ h))
  unfold unitsOfOne at hle ⊢
  generalize fractionBits = n at hle ⊢
  -- So large a number leaves out all the bits behind the point.
  have hpow : Nat.pow 2 (52 + n) ≤ units := Nat.le_trans (Nat.le_of_eq (Nat.pow_add 2 52 n)) hle
  have hpos : units ≠ 0 := Nat.ne_of_gt (Nat.lt_of_lt_of_le (twoPow_pos _) hpow)
  have hlog : 52 + n ≤ units.log2 := (Nat.le_log2 hpos).mpr hpow
  refine Nat.pow_dvd_pow 2 ?_
  unfold droppedBits
  omega

theorem integerText_writes (n : Nat) : WritesDecimal (integerText n).toList ⟨n, 0⟩ := by
  rw [integerText, String.toList_ofList, if_neg (by omega), Int.natAbs_natCast]
  exact toDigits_writes n

theorem shortest_writes {units : Nat} (h : Fits units) (hfraction : units % unitsOfOne ≠ 0)
    (hlow : unitsOfOne ≤ units * Nat.pow 10 4) :
    WritesDecimal (Binary64.decimalText (Binary64.shortest units h)) (Binary64.shortest units h) := by
  obtain ⟨hbelow, habove⟩ := Binary64.shortest_bounds h hlow
  have hlt := lt_of_not_whole h.2 hfraction
  generalize Binary64.shortest units h = d at *
  refine decimalText_writes ?_ hbelow ?_
  · refine Nat.pos_of_ne_zero fun hzero => ?_
    have hden := d.den_pos
    rw [num, hzero] at hbelow
    omega
  · refine Nat.lt_of_mul_lt_mul_right (a := unitsOfOne) ?_
    calc d.num * unitsOfOne ≤ 2 * (units * d.den) := habove
      _ < 2 * (Nat.pow 2 52 * unitsOfOne * d.den) :=
          Nat.mul_lt_mul_of_pos_left (Nat.mul_lt_mul_of_pos_right hlt d.den_pos) (by decide)
      _ = d.den * (2 * Nat.pow 2 52) * unitsOfOne := by
          rw [Nat.mul_comm _ d.den, Nat.mul_left_comm, ← Nat.mul_assoc 2, ← Nat.mul_assoc]
      _ ≤ d.den * Nat.pow 10 16 * unitsOfOne := Nat.mul_le_mul_right _ (Nat.mul_le_mul_left _ (by decide))

theorem literal_whole (negative : Bool) {units : Nat} (h : Fits units) (hwhole : units % unitsOfOne = 0) :
    (Number.float (.finite negative units h)).literal = integerText (Binary64.signed negative (units / unitsOfOne)) := by
  rw [Number.literal, Binary64.whole?, if_pos hwhole]

theorem literal_fraction (negative : Bool) {units : Nat} (h : Fits units) (hfraction : units % unitsOfOne ≠ 0) :
    (Number.float (.finite negative units h)).literal = (Binary64.finite negative units h).text := by
  have hnone : (Binary64.finite negative units h).whole? = none := by rw [Binary64.whole?, if_neg hfraction]
  rw [Number.literal, hnone]

theorem text_of_ne_zero (negative : Bool) {units : Nat} (h : Fits units) (hne : units ≠ 0) :
    (Binary64.finite negative units h).text =
      String.ofList (signChars negative ++ Binary64.decimalText (Binary64.shortest units h)) := by
  rw [Binary64.text, if_neg hne]
  rfl

theorem finite_of_isReadable {x : Binary64} (h : isReadable x = true) : ∃ units hfits, x = .finite false units hfits ∧
    (units % unitsOfOne ≠ 0 → unitsOfOne ≤ units * Nat.pow 10 4) := by
  unfold isReadable at h
  split at h
  · next units hfits =>
    refine ⟨units, hfits, rfl, fun hfraction => ?_⟩
    rcases Bool.or_eq_true_iff.mp h with hzero | hlow
    · rw [eq_of_beq hzero, Nat.zero_mod] at hfraction
      exact absurd rfl hfraction
    · rw [Nat.mul_comm]
      exact of_decide_eq_true hlow
  · cases h

/-- The literal of a number that the language can read denotes that number. -/
theorem literal_writes {x : Binary64} (h : isReadable x = true) :
    ∃ d, WritesDecimal (Number.float x).literal.toList d ∧ d.toBinary64 false = x := by
  obtain ⟨units, hfits, rfl, hlow⟩ := finite_of_isReadable h
  by_cases hwhole : units % unitsOfOne = 0
  · rw [literal_whole false hfits hwhole]
    have hunits := Nat.div_mul_cancel (Nat.dvd_of_mod_eq_zero hwhole)
    generalize units / unitsOfOne = n at hunits ⊢
    refine ⟨⟨n, 0⟩, integerText_writes n, toBinary64_exact false hfits ?_⟩
    simp only [num, den, Int.toNat_zero, Int.neg_zero, tenPow_zero, Nat.mul_one]
    exact hunits
  · have hne : units ≠ 0 := fun hzero => hwhole (by rw [hzero, Nat.zero_mod])
    have hsign : signChars false = [] := rfl
    rw [literal_fraction false hfits hwhole, text_of_ne_zero false hfits hne, String.toList_ofList, hsign,
      List.nil_append]
    exact ⟨Binary64.shortest units hfits, shortest_writes hfits hwhole (hlow hwhole),
      Binary64.shortest_readsBack hfits⟩

end TableMetrics
