import Mathlib.Data.List.DropRight
import TableMetrics.Proofs.Number.NumericText
import TableMetrics.Proofs.Number.RoundedValue
import TableMetrics.Text.Case
import TableMetrics.Value

/-! Text as a number. A converter reads more than the grammar of numeric text: underscores between digits, the names of
    infinity and of what is not a number, and digits of all scripts as those of ASCII. It reads all that the grammar
    writes, as the number nearest to the value that is written. -/

namespace TableMetrics

open Numeral Lexer

/-! ### A converter with a larger grammar -/

/-- A decimal digit as the one of ASCII with its value. -/
def asciiDigit (c : Char) : Char := ((decimalDigit? c).map Nat.digitChar).getD c

/-- The text without its underscores; each of them stands between digits. -/
def withoutUnderscores? (previous : Char) : List Char → Option (List Char)
  | [] => if previous = '_' then none else some []
  | c :: cs =>
    if c = '_' then (if isAsciiDigit previous then withoutUnderscores? c cs else none)
    else if previous = '_' && !isAsciiDigit c then none
    else (withoutUnderscores? c cs).map (c :: ·)

/-- The names of numbers that are not finite, in any case, with a sign or without one. -/
def named? (cs : List Char) : Option Binary64 :=
  let (negative, cs) := takeSign cs
  let name := lowerAscii (String.ofList cs)
  if name = "inf" ∨ name = "infinity" then some (.infinite negative)
  else if name = "nan" then some .nan
  else none

/-- The number that a text is converted to, unless the conversion fails. -/
def convert? (cs : List Char) : Option Binary64 := do
  let cs ← withoutUnderscores? '\x00' (trimChars (cs.map asciiDigit))
  match ofChars? cs with
  | some n => some n.toBinary64
  | none => named? cs

theorem decimalDigit?_digitChar {d : Nat} (h : d < 10) : decimalDigit? (Nat.digitChar d) = some d := by
  have hall : ∀ d < 10, decimalDigit? (Nat.digitChar d) = some d := by decide
  exact hall d h

theorem decimalDigit?_asciiDigit (c : Char) : decimalDigit? (asciiDigit c) = decimalDigit? c := by
  unfold asciiDigit
  cases hc : decimalDigit? c with
  | none => exact hc
  | some d => exact decimalDigit?_digitChar (decimalDigit?_lt hc)

theorem withoutUnderscores?_eq_self {cs : List Char} (h : '_' ∉ cs) {previous : Char} (hprevious : previous ≠ '_') :
    withoutUnderscores? previous cs = some cs := by
  induction cs generalizing previous with
  | nil => exact if_neg hprevious
  | cons c cs ih =>
    rw [List.mem_cons, not_or] at h
    obtain ⟨hc, hcs⟩ := h
    simp [withoutUnderscores?, Ne.symm hc, hprevious, ih hcs (Ne.symm hc)]

/-! ### What the grammar writes -/

/-- No decimal digit is a blank. -/
theorem isBlank_of_decimalDigit? {c : Char} {d : Nat} (h : decimalDigit? c = some d) : isBlank c = false := by
  obtain ⟨first, hfirst, -⟩ := Option.map_eq_some_iff.mp h
  have hrange := List.find?_some hfirst
  have hapart :
      zeroDigits.all (fun first => blankRanges.all fun range => first + 9 < range.1 || range.2 < first) = true := by
    decide
  have hblanks := List.all_eq_true.mp hapart first (List.mem_of_find?_eq_some hfirst)
  rw [Bool.eq_false_iff]
  intro hblank
  obtain ⟨⟨low, high⟩, hmem, hin⟩ := List.any_eq_true.mp hblank
  have hout := List.all_eq_true.mp hblanks (low, high) hmem
  simp only [Bool.and_eq_true, Bool.or_eq_true, decide_eq_true_eq] at hrange hin hout
  omega

/-- What stays of a text when each of its digits becomes one of ASCII: a digit or one of the marks of the grammar. -/
def IsNumericChar (c : Char) : Prop := (∃ d, decimalDigit? c = some d) ∨ c ∈ ['+', '-', '.', 'e', 'E']

namespace IsNumericChar
variable {c : Char}

theorem isBlank_eq_false (h : IsNumericChar c) : isBlank c = false := by
  rcases h with ⟨d, hd⟩ | hmark
  · exact isBlank_of_decimalDigit? hd
  · have hall : ['+', '-', '.', 'e', 'E'].all (fun c => !isBlank c) = true := by decide
    simpa using List.all_eq_true.mp hall c hmark

theorem ne_underscore (h : IsNumericChar c) : c ≠ '_' := by
  rintro rfl
  rcases h with ⟨d, hd⟩ | hmark
  · have hnone : decimalDigit? '_' = none := by decide
    rw [hnone] at hd
    cases hd
  · exact absurd hmark (by decide)

end IsNumericChar

namespace DigitsOf
variable {ds : List Nat} {cs : List Char}

theorem isNumericChar (h : DigitsOf ds cs) : ∀ c ∈ cs, IsNumericChar c := fun _ hc => Or.inl (h.exists_digit hc)

theorem map_asciiDigit (h : DigitsOf ds cs) : DigitsOf ds (cs.map asciiDigit) := by
  rw [DigitsOf, List.map_map, ← h]
  exact List.map_congr_left fun c _ => decimalDigit?_asciiDigit c

end DigitsOf

theorem SignOf.isNumericChar {negative : Bool} {cs : List Char} (h : SignOf negative cs) : ∀ c ∈ cs, IsNumericChar c := by
  cases h with
  | absent => exact List.forall_mem_nil _
  | plus => exact List.forall_mem_singleton.mpr (Or.inr (by decide))
  | minus => exact List.forall_mem_singleton.mpr (Or.inr (by decide))

theorem SignOf.map_asciiDigit {negative : Bool} {cs : List Char} (h : SignOf negative cs) :
    SignOf negative (cs.map asciiDigit) := by
  cases h with
  | absent => exact .absent
  | plus => exact .plus
  | minus => exact .minus

theorem MantissaOf.isNumericChar {ds fs : List Nat} {cs : List Char} (h : MantissaOf ds fs cs) :
    ∀ c ∈ cs, IsNumericChar c := by
  have hpoint : IsNumericChar '.' := Or.inr (by decide)
  cases h with
  | whole _ h => exact h.isNumericChar
  | point _ h h' => exact List.forall_mem_append.mpr ⟨h.isNumericChar, List.forall_mem_cons.mpr ⟨hpoint, h'.isNumericChar⟩⟩
  | fraction _ h => exact List.forall_mem_cons.mpr ⟨hpoint, h.isNumericChar⟩

theorem MantissaOf.map_asciiDigit {ds fs : List Nat} {cs : List Char} (h : MantissaOf ds fs cs) :
    MantissaOf ds fs (cs.map asciiDigit) := by
  cases h with
  | whole hne h => exact .whole hne h.map_asciiDigit
  | point hne h h' =>
    rw [List.map_append]
    exact .point hne h.map_asciiDigit h'.map_asciiDigit
  | fraction hne h => exact .fraction hne h.map_asciiDigit

theorem ExponentOf.isNumericChar {e : Int} {cs : List Char} (h : ExponentOf e cs) : ∀ c ∈ cs, IsNumericChar c := by
  cases h with
  | absent => exact List.forall_mem_nil _
  | @power letter _ _ _ _ he hsign _ h =>
    have hletter : IsNumericChar letter := Or.inr (by rcases he with rfl | rfl <;> decide)
    exact List.forall_mem_cons.mpr ⟨hletter, List.forall_mem_append.mpr ⟨hsign.isNumericChar, h.isNumericChar⟩⟩

theorem ExponentOf.map_asciiDigit {e : Int} {cs : List Char} (h : ExponentOf e cs) : ExponentOf e (cs.map asciiDigit) := by
  cases h with
  | absent => exact .absent
  | @power letter _ sign _ _ he hsign hne h =>
    have hletter : asciiDigit letter = letter := by rcases he with rfl | rfl <;> decide
    rw [List.map_cons, List.map_append, hletter]
    exact .power he hsign.map_asciiDigit hne h.map_asciiDigit

namespace Numeral
variable {n : Numeral} {cs : List Char}

/-- The magnitude of the number that a numeral writes. -/
def value (n : Numeral) : ℚ :=
  Nat.ofDigits 10 (n.whole ++ n.fraction).reverse * 10 ^ (n.exponent - n.fraction.length)

/-- A numeral denotes the number that its value is rounded to. -/
theorem rounds (n : Numeral) : Binary64.Rounds n.negative n.value n.toBinary64 := by
  have hvalue : n.toDecimal.value = n.value := by
    simp only [Decimal.value, toDecimal, ofDigits_eq, value, Nat.coe_ofDigits, Nat.cast_ofNat]
  rw [← hvalue]
  exact n.toDecimal.rounds n.negative

theorem Writes.isNumericChar (h : n.Writes cs) : ∀ c ∈ cs, IsNumericChar c := by
  obtain ⟨hsign, hmantissa, hexponent⟩ := h
  exact List.forall_mem_append.mpr ⟨hsign.isNumericChar,
    List.forall_mem_append.mpr ⟨hmantissa.isNumericChar, hexponent.isNumericChar⟩⟩

/-- Digits of ASCII write the same numeral. -/
theorem Writes.map_asciiDigit (h : n.Writes cs) : n.Writes (cs.map asciiDigit) := by
  obtain ⟨hsign, hmantissa, hexponent⟩ := h
  rw [List.map_append, List.map_append]
  exact ⟨hsign.map_asciiDigit, hmantissa.map_asciiDigit, hexponent.map_asciiDigit⟩

theorem Writes.trimChars_eq (h : n.Writes cs) : trimChars cs = cs :=
  trimChars_eq_self fun c hc => (h.isNumericChar c hc).isBlank_eq_false

theorem Writes.numericText? (h : n.Writes cs) : numericText? (String.ofList cs) = some n.toBinary64 :=
  numericText?_of_numeral (fun c hc => (h.isNumericChar c hc).isBlank_eq_false) (ofChars?_eq_some_iff.mpr h)

/-- The converter reads what the grammar writes. -/
theorem Writes.convert? (h : n.Writes cs) : convert? cs = some n.toBinary64 := by
  have hascii := h.map_asciiDigit
  have hunderscore : '_' ∉ cs.map asciiDigit := fun hmem => (hascii.isNumericChar _ hmem).ne_underscore rfl
  rw [TableMetrics.convert?, hascii.trimChars_eq, withoutUnderscores?_eq_self hunderscore (by decide)]
  show (match ofChars? (cs.map asciiDigit) with
    | some n => some n.toBinary64
    | none => named? (cs.map asciiDigit)) = some n.toBinary64
  rw [ofChars?_eq_some_iff.mpr hascii]

end Numeral

theorem Binary64.Rounds.ne_nan {negative : Bool} {q : ℚ} {x : Binary64} (h : Rounds negative q x) : x ≠ .nan := by
  cases h <;> rintro ⟨⟩

/-! ### White space -/

section Trim
variable {cs : List Char}

theorem trimChars_eq (cs : List Char) : trimChars cs = (cs.dropWhile isBlank).rdropWhile isBlank := rfl

theorem trimChars_eq_nil_iff : trimChars cs = [] ↔ cs.all isBlank = true := by
  rw [trimChars_eq, List.rdropWhile_eq_nil_iff, List.all_eq_true]
  constructor
  · intro h
    have hnil : cs.dropWhile isBlank = [] := by
      by_contra hne
      have hhead := List.head_dropWhile_not isBlank hne
      rw [h _ (List.head_mem hne)] at hhead
      cases hhead
    exact List.dropWhile_eq_nil_iff.mp hnil
  · exact fun h c hc => h c ((List.dropWhile_sublist isBlank).subset hc)

/-- No line end follows a text without white space around it. -/
theorem trimChars_ne_append {ws : List Char} {c : Char} (hc : isBlank c = true) : trimChars cs ≠ ws ++ [c] := by
  intro h
  rw [trimChars_eq] at h
  have hne : (cs.dropWhile isBlank).rdropWhile isBlank ≠ [] := by
    rw [h]
    exact List.append_ne_nil_of_right_ne_nil ws (List.cons_ne_nil c [])
  have hlast := List.rdropWhile_last_not isBlank _ hne
  simp only [h, List.getLast_append_singleton] at hlast
  exact hlast hc

theorem mem_pattern_trimChars : trimChars cs ∈ Pattern.numeric ↔ IsNumeric (trimChars cs) := by
  rw [Pattern.mem_numeric]
  refine or_iff_left ?_
  rintro ⟨ws, h, -⟩
  exact trimChars_ne_append (by decide) h

end Trim

/-! ### Texts -/

namespace Value
variable {s : String}

theorem toNumber_of_writes {n : Numeral} (h : n.Writes (trimChars s.toList)) : (text s).toNumber = n.toBinary64 := by
  rw [toNumber, numericText?, ofChars?_eq_some_iff.mpr h]
  rfl

theorem toNumber_of_not_numeric (h : ¬IsNumeric (trimChars s.toList)) : (text s).toNumber = .nan := by
  rw [toNumber, numericText?, ofChars?_eq_none_iff.mpr h]
  rfl

theorem toNumber_ne_nan_iff : (text s).toNumber ≠ .nan ↔ IsNumeric (trimChars s.toList) := by
  constructor
  · intro h
    by_contra hnot
    exact h (toNumber_of_not_numeric hnot)
  · rintro ⟨n, hn⟩
    rw [toNumber_of_writes hn]
    exact n.rounds.ne_nan

/-- Text stands for a number if and only if the grammar writes it, white space around it left out. A pattern lets through
    the same texts; the converter reads each of them as that number, which is the nearest to the value that is written,
    with digits of ASCII as with those of another script. Text counts as true if it is blank or numeric. -/
theorem toNumber_text_exact (s : String) :
    ((text s).toNumber ≠ .nan ↔ IsNumeric (trimChars s.toList)) ∧
    (trimChars s.toList ∈ Pattern.numeric ↔ IsNumeric (trimChars s.toList)) ∧
    (∀ n : Numeral, n.Writes (trimChars s.toList) →
      convert? (trimChars s.toList) = some (text s).toNumber ∧
      Binary64.Rounds n.negative n.value (text s).toNumber ∧
      (text (String.ofList ((trimChars s.toList).map asciiDigit))).toNumber = (text s).toNumber) ∧
    ((text s).isTruthy = true ↔ trimChars s.toList = [] ∨ IsNumeric (trimChars s.toList)) := by
  refine ⟨toNumber_ne_nan_iff, mem_pattern_trimChars, ?_, ?_⟩
  · intro n hn
    have hascii : n.Writes (trimChars (String.ofList ((trimChars s.toList).map asciiDigit)).toList) := by
      rw [String.toList_ofList, hn.map_asciiDigit.trimChars_eq]
      exact hn.map_asciiDigit
    rw [toNumber_of_writes hn, toNumber_of_writes hascii]
    exact ⟨hn.convert?, n.rounds, rfl⟩
  · have hnan : (text s).toNumber.isNaN = false ↔ (text s).toNumber ≠ .nan := by
      cases (text s).toNumber <;> simp [Binary64.isNaN]
    rw [isTruthy, Bool.or_eq_true, Bool.not_eq_true', hnan, toNumber_ne_nan_iff, trimChars_eq_nil_iff]
    rfl

end Value
end TableMetrics
