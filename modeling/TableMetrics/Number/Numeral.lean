import TableMetrics.Number.Decimal
import TableMetrics.Text.Blank
import TableMetrics.Text.Digit

/-! Numeric text: an optional sign, digits with an optional point among or around them, and an optional exponent.
    Digits may be of any script. -/

namespace TableMetrics

structure Numeral where
  negative : Bool
  whole : List Nat
  fraction : List Nat
  exponent : Int

namespace Numeral

/-- The most digits with which a whole number is read, from JSON or as a setting. The limit is one on reading whole
    numbers: floating-point numbers are read with any number of digits, and a whole number is written with all that it
    has. -/
def maxDigits : Nat := 4300

def takeSign : List Char → Bool × List Char
  | '-' :: cs => (true, cs)
  | '+' :: cs => (false, cs)
  | cs => (false, cs)

/-- The values of the digits that a text begins with, and what follows them. -/
def takeDigits : List Char → List Nat × List Char
  | [] => ([], [])
  | c :: cs =>
    match decimalDigit? c with
    | some d => (d :: (takeDigits cs).1, (takeDigits cs).2)
    | none => ([], c :: cs)

/-- The digits behind a point, if there is one, and what follows them. -/
def takeFraction : List Char → List Nat × List Char
  | '.' :: cs => takeDigits cs
  | cs => ([], cs)

/-- The exponent that the rest of a numeric text holds: zero if there is no rest. -/
def exponent? : List Char → Option Int
  | [] => some 0
  | e :: cs =>
    if e = 'e' ∨ e = 'E' then
      let (negative, cs) := takeSign cs
      match takeDigits cs with
      | (d :: ds, []) => some (Binary64.signed negative (Decimal.ofDigits (d :: ds)))
      | _ => none
    else none

/-- Reads a numeric text without white space around it. There is a digit before the point or behind it. -/
def ofChars? (cs : List Char) : Option Numeral :=
  let (negative, cs) := takeSign cs
  let (whole, cs) := takeDigits cs
  let (fraction, cs) := takeFraction cs
  if whole.isEmpty && fraction.isEmpty then none
  else (exponent? cs).map fun exponent => ⟨negative, whole, fraction, exponent⟩

def toDecimal (n : Numeral) : Decimal :=
  ⟨Decimal.ofDigits (n.whole ++ n.fraction), n.exponent - n.fraction.length⟩

def toBinary64 (n : Numeral) : Binary64 := n.toDecimal.toBinary64 n.negative

end Numeral

/-- The number that a numeric text denotes; white space around it is left out. -/
def numericText? (s : String) : Option Binary64 :=
  (Numeral.ofChars? (trimChars s.toList)).map Numeral.toBinary64

/-- Reads the text of a number: a numeral, or one of `inf`, `-inf` and `nan`. -/
def Binary64.ofText? (s : String) : Option Binary64 :=
  match s with
  | "nan" => some .nan
  | "inf" => some (.infinite false)
  | "-inf" => some (.infinite true)
  | s => numericText? s

end TableMetrics
