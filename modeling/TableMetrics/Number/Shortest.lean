import TableMetrics.Number.Decimal

/-! The shortest decimal that reads back as a given number, and its text: positional for decimal exponents from
    -4 to 15, with an exponent of at least two digits beyond. -/

namespace TableMetrics
namespace Binary64

/-- The quotient of a number of units by `10^exponent`, as numerator and denominator. -/
def scaled (units : Nat) (exponent : Int) : Nat × Nat :=
  if exponent < 0 then (units * Nat.pow 10 (-exponent).toNat, unitsOfOne)
  else (units, unitsOfOne * Nat.pow 10 exponent.toNat)

/-- The two multiples of `10^exponent` around a magnitude, the nearer first; of two equally near ones the even
    one is first. -/
def neighbours (units : Nat) (exponent : Int) : List Decimal :=
  let (num, den) := scaled units exponent
  let low := num / den
  if roundHalfEven num den = low then [⟨low, exponent⟩, ⟨low + 1, exponent⟩]
  else [⟨low + 1, exponent⟩, ⟨low, exponent⟩]

/-- Whether a decimal reads back as the number with this magnitude. -/
def ReadsBack (units : Nat) (h : Fits units) (d : Decimal) : Prop :=
  d.toBinary64 false = .finite false units h

instance (units : Nat) (h : Fits units) (d : Decimal) : Decidable (ReadsBack units h d) :=
  inferInstanceAs (Decidable (_ = _))

/-- The exponent `k` for which a magnitude that is not zero lies between `10^(k-1)` and `10^k`. No number is as
    small as 10^-400, so the digits of the multiple of 10^-400 below it are as many as those of the number. -/
def decimalPoint (units : Nat) : Int :=
  let (num, den) := scaled units (-400)
  (Nat.toDigits 10 (num / den)).length - 400

/-- The decimal with the fewest digits that reads back as the magnitude, and the nearest of these. At most 17
    digits are needed; the exact decimal expansion always reads back. -/
def shortest (units : Nat) (h : Fits units) : Decimal :=
  let point := decimalPoint units
  let candidates := (List.range 17).flatMap fun i => neighbours units (point - (i + 1 : Nat))
  (candidates.find? fun d => decide (ReadsBack units h d)).getD ⟨units * Nat.pow 5 fractionBits, -fractionBits⟩

/-! ### Text -/

def dropTrailingZeros (cs : List Char) : List Char := (cs.reverse.dropWhile (· == '0')).reverse

/-- Digits with a point after the first `point` of them, padded with zeros; one digit at least stands on either
    side of the point. -/
def positional (digits : List Char) (point : Int) : List Char :=
  if point ≤ 0 then '0' :: '.' :: List.replicate (-point).toNat '0' ++ digits
  else
    let whole := digits.take point.toNat
    let fraction := digits.drop point.toNat
    whole ++ List.replicate (point.toNat - digits.length) '0' ++ '.' ::
      (if fraction.isEmpty then ['0'] else fraction)

def exponentText (e : Int) : List Char :=
  let digits := Nat.toDigits 10 e.natAbs
  (if e < 0 then '-' else '+') :: List.replicate (2 - digits.length) '0' ++ digits

def scientific (digits : List Char) (exponent : Int) : List Char :=
  digits.take 1 ++ (if digits.length ≤ 1 then [] else '.' :: digits.drop 1) ++ 'e' :: exponentText exponent

/-- The text of a decimal: positional from `0.0001` up to 16 digits before the point. -/
def decimalText (d : Decimal) : List Char :=
  if d.digits = 0 then ['0', '.', '0']
  else
    let all := Nat.toDigits 10 d.digits
    let point := all.length + d.exponent
    let digits := dropTrailingZeros all
    if -4 < point ∧ point ≤ 16 then positional digits point else scientific digits (point - 1)

def text : Binary64 → String
  | .nan => "nan"
  | .infinite negative => if negative then "-inf" else "inf"
  | .finite negative units h =>
    String.ofList ((if negative then ['-'] else []) ++
      if units = 0 then ['0', '.', '0'] else decimalText (shortest units h))

end Binary64

end TableMetrics
