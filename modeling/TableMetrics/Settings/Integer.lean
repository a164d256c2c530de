import TableMetrics.Number.Numeral

/-! Whole numbers as settings write them. The plain form is an optional minus sign and digits of ASCII, no zero before
    other digits; no number has more than `Numeral.maxDigits` digits. Other forms are brought to the plain one first:
    there may be white space around the number, a plus sign and zeros before it, a point with nothing but zeros behind
    it, and single underscores among its digits. -/

namespace TableMetrics

inductive IntegerFault where
  | malformed
  | tooLong
  deriving DecidableEq, Inhabited

namespace SettingInteger

/-! ### The plain form -/

/-- The number that a text in plain form writes. A text that begins with too long a number is too long, whatever
    follows. -/
def ofPlain (cs : List Char) : Except IntegerFault Int :=
  let negative := cs.head? = some '-'
  let unsigned := if negative then cs.drop 1 else cs
  let digits := unsigned.takeWhile isAsciiDigit
  if digits.head? = some '0' then
    if unsigned.length = 1 then .ok 0 else .error .malformed
  else if digits.isEmpty then .error .malformed
  else if Numeral.maxDigits < digits.length then .error .tooLong
  else if digits.length < unsigned.length then .error .malformed
  else .ok (Binary64.signed negative (Decimal.ofDigits (digits.map fun c => c.toNat - '0'.toNat)))

/-! ### Other forms -/

/-- Without the white space at either end; the information separators count as text here. -/
def trimValue (cs : List Char) : List Char :=
  let blank (c : Char) : Bool := isBlank c && !(0x1c ≤ c.toNat && c.toNat ≤ 0x1f)
  ((cs.dropWhile blank).reverse.dropWhile blank).reverse

/-- Without the point and the zeros behind it, if there is one at least and nothing else. -/
def dropZeroPlaces (cs : List Char) : List Char :=
  let places := (cs.dropWhile (· != '.')).drop 1
  if !places.isEmpty && places.all (· == '0') then cs.takeWhile (· != '.') else cs

/-- Whether a number, or the sign of one, begins with a character. -/
def beginsNumber (c : Char) : Bool := c == '-' || ('1' ≤ c && c ≤ '9')

/-- Without the zeros before the number, and the underscores among these; behind a zero a minus sign may follow. Of
    nothing but zeros and underscores the last is left. -/
def dropLeadingZeros? (cs : List Char) : Option (List Char) :=
  match cs with
  | '0' :: _ =>
    match cs.dropWhile fun c => c == '0' || c == '_' with
    | [] => some (cs.drop (cs.length - 1))
    | c :: rest => if beginsNumber c then some (c :: rest) else none
  | c :: _ => if beginsNumber c then some cs else none
  | [] => none

/-- Without the underscores, unless one is first or last or two are neighbours. -/
def dropUnderscores (cs : List Char) : List Char :=
  if cs.head? = some '_' ∨ cs.getLast? = some '_' ∨ (cs.zip (cs.drop 1)).any (· == ('_', '_')) then cs
  else cs.filter (· != '_')

def plainUnsigned? (cs : List Char) : Option (List Char) :=
  (dropLeadingZeros? (dropZeroPlaces cs)).map dropUnderscores

/-- The plain form of a number. It has one sign at most. -/
def plain? (cs : List Char) : Option (List Char) :=
  match trimValue cs with
  | '+' :: '-' :: _ => none
  | '+' :: cs => plainUnsigned? cs
  | '-' :: cs => (plainUnsigned? cs).map ('-' :: ·)
  | cs => plainUnsigned? cs

def ofText (s : String) : Except IntegerFault Int :=
  match plain? s.toList with
  | some cs => ofPlain cs
  | none => .error .malformed

end SettingInteger

end TableMetrics
