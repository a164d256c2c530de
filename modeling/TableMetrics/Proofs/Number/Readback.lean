import TableMetrics.Proofs.Number.Literal

/-! Finite numbers read back. The text of a floating-point number, with an exponent or without one, denotes that number,
    and so do the digits of a whole number that is a floating-point one. -/

namespace TableMetrics

open Decimal Lexer

@[simp] theorem Binary64.signed_true (n : Nat) : signed true n = -n := rfl

@[simp] theorem Binary64.signed_false (n : Nat) : signed false n = n := rfl

/-! ### Exponents -/

theorem exponent?_digits {sign : Char} {cs : List Char} {negative : Bool}
    (hsign : Numeral.takeSign (sign :: cs) = (negative, cs)) (hne : cs ≠ []) (hall : ∀ c ∈ cs, isAsciiDigit c = true) :
    Numeral.exponent? ('e' :: sign :: cs) = some (Binary64.signed negative (Nat.ofDigitChars 10 cs 0)) := by
  have hdigits := takeDigits_append hall [] (by simp)
  rw [List.append_nil] at hdigits
  rw [← ofDigits_map_digitValue]
  obtain ⟨c, cs, rfl⟩ := List.exists_cons_of_ne_nil hne
  simp only [Numeral.exponent?, hsign, hdigits]
  rfl

/-- An exponent is a sign and digits, with a zero before a single one. -/
theorem exponentText_eq (e : Int) : ∃ cs, Binary64.exponentText e = (if e < 0 then '-' else '+') :: cs ∧ cs ≠ [] ∧
    (∀ c ∈ cs, isAsciiDigit c = true) ∧ Nat.ofDigitChars 10 cs 0 = e.natAbs := by
  refine ⟨List.replicate (2 - (Nat.toDigits 10 e.natAbs).length) '0' ++ Nat.toDigits 10 e.natAbs, rfl, ?_, ?_, ?_⟩
  · exact List.append_ne_nil_of_right_ne_nil _ Nat.toDigits_ne_nil
  · intro c hc
    rcases List.mem_append.mp hc with hc | hc
    · exact isAsciiDigit_zeros hc
    · exact isAsciiDigit_toDigits hc
  · rw [Nat.ofDigitChars_append, Nat.ofDigitChars_replicate_zero, Nat.mul_zero, Nat.ofDigitChars_ten_toDigits]

theorem exponent?_exponentText (e : Int) : Numeral.exponent? ('e' :: Binary64.exponentText e) = some e := by
  obtain ⟨cs, htext, hne, hall, hvalue⟩ := exponentText_eq e
  rw [htext]
  split
  · next hneg =>
    rw [exponent?_digits rfl hne hall, hvalue]
    exact congrArg some (by rw [Binary64.signed_true]; omega)
  · next hneg =>
    rw [exponent?_digits rfl hne hall, hvalue]
    exact congrArg some (by rw [Binary64.signed_false]; omega)

theorem isBlank_exponentText {e : Int} {c : Char} (h : c ∈ Binary64.exponentText e) : isBlank c = false := by
  obtain ⟨cs, htext, -, hall, -⟩ := exponentText_eq e
  rw [htext] at h
  rcases List.mem_cons.mp h with rfl | h
  · split <;> decide
  · exact isBlank_of_digit (hall c h)

/-! ### Decimals -/

section Scientific
variable {cs : List Char} (hne : cs ≠ []) (hall : ∀ c ∈ cs, isAsciiDigit c = true)
include hne hall

theorem exists_scientific (e : Int) : ∃ ms, Binary64.scientific cs e = ms ++ 'e' :: Binary64.exponentText e ∧
    IsNumber ms (cs.take 1) (cs.drop 1) := by
  obtain ⟨c, cs, rfl⟩ := List.exists_cons_of_ne_nil hne
  have hhead : ∀ d ∈ [c], isAsciiDigit d = true := fun d hd => hall d (List.mem_of_mem_take (i := 1) hd)
  cases cs with
  | nil => exact ⟨[c], rfl, .whole (by simp) hhead⟩
  | cons d ds => exact ⟨[c] ++ '.' :: d :: ds, by simp [Binary64.scientific], .point (by simp) hhead
      fun x hx => hall x (List.mem_cons_of_mem c hx)⟩

theorem numericText?_scientific (e : Int) (negative : Bool) :
    numericText? (String.ofList (signChars negative ++ Binary64.scientific cs e)) =
      some (toBinary64 negative ⟨Nat.ofDigitChars 10 cs 0, e + 1 - cs.length⟩) := by
  obtain ⟨ms, htext, hnumber⟩ := exists_scientific hne hall e
  have hread := ofChars?_append hnumber negative ('e' :: Binary64.exponentText e) (by
    rintro c ⟨⟩
    decide)
  rw [exponent?_exponentText, Option.map_some, ← htext] at hread
  have hblank : ∀ c ∈ signChars negative ++ Binary64.scientific cs e, isBlank c = false := by
    intro c hc
    rw [htext] at hc
    rcases List.mem_append.mp hc with hc | hc
    · exact isBlank_signChars hc
    · rcases List.mem_append.mp hc with hc | hc
      · exact hnumber.isBlank c hc
      · rcases List.mem_cons.mp hc with rfl | hc
        · decide
        · exact isBlank_exponentText hc
  have hlength := List.length_pos_iff.mpr hne
  have hexponent : e - ((cs.drop 1).length : Int) = e + 1 - cs.length := by
    rw [List.length_drop]
    omega
  rw [numericText?_of_numeral hblank hread, Numeral.toBinary64, toDecimal_digits, List.take_append_drop, hexponent]

end Scientific

/-- The text of a decimal denotes the number of that decimal. -/
theorem numericText?_decimalText (d : Decimal) (negative : Bool) :
    numericText? (String.ofList (signChars negative ++ Binary64.decimalText d)) = some (d.toBinary64 negative) := by
  rcases Nat.eq_zero_or_pos d.digits with hzero | hdigits
  · rw [Binary64.decimalText, if_pos hzero]
    have hdigit : ∀ c ∈ ['0'], isAsciiDigit c = true := List.forall_mem_singleton.mpr (by decide)
    refine numericText?_of_writes ⟨['0'], ['0'], .point (by simp) hdigit hdigit, ?_⟩ negative
    have hvalue : Nat.ofDigitChars 10 (['0'] ++ ['0']) 0 = 0 := by decide
    rw [SameValue, num, num, hvalue, hzero, Nat.zero_mul, Nat.zero_mul, Nat.zero_mul, Nat.zero_mul]
  · rw [decimalText_eq hdigits]
    split
    · exact numericText?_of_writes (positional_significant hdigits) negative
    · obtain ⟨hne, hall, hvalue⟩ := significant_spec hdigits
      rw [numericText?_scientific hne hall, Int.sub_add_cancel, toBinary64_congr negative hvalue]

/-! ### Numbers -/

theorem toBinary64_signed {d : Decimal} {units : Nat} {h : Fits units} (hd : d.toBinary64 false = .finite false units h)
    (negative : Bool) : d.toBinary64 negative = .finite negative units h := by
  rw [toBinary64_eq_ofUnits, Binary64.ofUnits] at hd ⊢
  split at hd
  · next hfits =>
    cases hd
    rw [dif_pos hfits]
  · cases hd

/-- The text of a finite number denotes that number. -/
theorem numericText?_text (negative : Bool) {units : Nat} (h : Fits units) :
    numericText? (Binary64.finite negative units h).text = some (.finite negative units h) := by
  by_cases hzero : units = 0
  · subst hzero
    have hread := numericText?_decimalText ⟨0, 0⟩ negative
    rw [Binary64.decimalText, if_pos rfl, toBinary64, if_pos rfl] at hread
    exact hread
  · rw [text_of_ne_zero negative h hzero, numericText?_decimalText,
      toBinary64_signed (Binary64.shortest_readsBack h)]

/-- The digits of a whole number denote it, if it is a floating-point number. -/
theorem numericText?_integerText (n : Int) (h : Fits (n.natAbs * unitsOfOne)) :
    numericText? (integerText n) = some (.finite (decide (n < 0)) (n.natAbs * unitsOfOne) h) := by
  have hsign : (if n < 0 then ['-'] else []) = signChars (decide (n < 0)) := by simp [signChars]
  rw [integerText, hsign, numericText?_of_writes (toDigits_writes n.natAbs)]
  refine congrArg some (toBinary64_exact _ h ?_)
  simp only [num, den, Int.toNat_zero, Int.neg_zero, tenPow_zero, Nat.mul_one]

end TableMetrics
