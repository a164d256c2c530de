import TableMetrics.Json
import TableMetrics.Text.Digit

/-! Reading the text of a JSON value. Beyond the standard the words `NaN`, `Infinity` and `-Infinity` are numbers, and
    whole numbers have at most `Numeral.maxDigits` digits. -/

namespace TableMetrics
namespace Json
namespace Reader

/-- What follows the white space that a text begins with. -/
def skipBlanks (cs : List Char) : List Char :=
  cs.dropWhile fun c => c == ' ' || c == '\t' || c == '\n' || c == '\r'

def hexValue? (c : Char) : Option Nat :=
  if isAsciiDigit c then some (c.toNat - '0'.toNat)
  else if 'a' ≤ c && c ≤ 'f' then some (c.toNat - 'a'.toNat + 10)
  else if 'A' ≤ c && c ≤ 'F' then some (c.toNat - 'A'.toNat + 10)
  else none

def hexUnit? (a b c d : Char) : Option Nat := do
  return (((← hexValue? a) * 16 + (← hexValue? b)) * 16 + (← hexValue? c)) * 16 + (← hexValue? d)

def escape? : Char → Option Char
  | '"' => some '"'
  | '\\' => some '\\'
  | '/' => some '/'
  | 'b' => some '\x08'
  | 'f' => some '\x0c'
  | 'n' => some '\n'
  | 'r' => some '\r'
  | 't' => some '\t'
  | _ => none

/-- The code units of a string up to its closing quote, and what follows that quote. -/
def units? : List Char → Option (List Nat × List Char)
  | [] => none
  | '"' :: cs => some ([], cs)
  | '\\' :: 'u' :: a :: b :: c :: d :: cs => do
    let unit ← hexUnit? a b c d
    let (units, rest) ← units? cs
    return (unit :: units, rest)
  | '\\' :: c :: cs => do
    let escaped ← escape? c
    let (units, rest) ← units? cs
    return (escaped.toNat :: units, rest)
  | c :: cs => do
    if c.toNat < 0x20 then none
    let (units, rest) ← units? cs
    return (c.toNat :: units, rest)

/-- The characters of code units: a high surrogate and a low one behind it are one character, and a surrogate
    without its partner is the replacement character. -/
def ofUnits : List Nat → List Char
  | [] => []
  | high :: low :: units =>
    if 0xd800 ≤ high && high < 0xdc00 && 0xdc00 ≤ low && low < 0xe000 then
      Char.ofNat (0x10000 + (high - 0xd800) * 0x400 + (low - 0xdc00)) :: ofUnits units
    else (if high.isValidChar then Char.ofNat high else '\ufffd') :: ofUnits (low :: units)
  | [unit] => [if unit.isValidChar then Char.ofNat unit else '\ufffd']

def string? (cs : List Char) : Option (String × List Char) := do
  let (units, rest) ← units? cs
  return (String.ofList (ofUnits units), rest)

/-- The digits that a text begins with, at least one, and what follows them. -/
def digits? (cs : List Char) : Option (List Nat × List Char) :=
  match cs.takeWhile isAsciiDigit with
  | [] => none
  | ds => some (ds.map fun c => c.toNat - '0'.toNat, cs.dropWhile isAsciiDigit)

/-- The digits behind a point, and what follows them; without digits the point does not belong to the number. -/
def fraction (cs : List Char) : List Nat × List Char :=
  match cs with
  | '.' :: rest => (digits? rest).getD ([], cs)
  | _ => ([], cs)

/-- The exponent, and what follows it; without digits the letter does not belong to the number. -/
def exponent? (cs : List Char) : Option (Int × List Char) :=
  match cs with
  | e :: rest =>
    if e = 'e' ∨ e = 'E' then do
      let (negative, rest) := Numeral.takeSign rest
      let (ds, rest) ← digits? rest
      return (Binary64.signed negative (Decimal.ofDigits ds), rest)
    else none
  | [] => none

/-- The number that a text begins with, and what follows it. A leading zero stands alone before the point. A whole
    number with too many digits is refused. -/
def number? (cs : List Char) : Option (Number × List Char) := do
  let (negative, cs) := match cs with
    | '-' :: rest => (true, rest)
    | _ => (false, cs)
  let (whole, rest) ← match cs with
    | '0' :: rest => some ([0], rest)
    | _ => digits? cs
  let (places, rest) := fraction rest
  match places, exponent? rest with
  | [], none =>
    if Numeral.maxDigits < whole.length then none
    else return (.integer (Binary64.signed negative (Decimal.ofDigits whole)), rest)
  | _, none => return (.float (Numeral.toBinary64 ⟨negative, whole, places, 0⟩), rest)
  | _, some (e, rest) => return (.float (Numeral.toBinary64 ⟨negative, whole, places, e⟩), rest)

/-- The word or number that a text begins with, and what follows it. -/
def scalar? : List Char → Option (Json × List Char)
  | 'n' :: 'u' :: 'l' :: 'l' :: cs => some (.null, cs)
  | 't' :: 'r' :: 'u' :: 'e' :: cs => some (.bool true, cs)
  | 'f' :: 'a' :: 'l' :: 's' :: 'e' :: cs => some (.bool false, cs)
  | 'N' :: 'a' :: 'N' :: cs => some (.number (.float .nan), cs)
  | 'I' :: 'n' :: 'f' :: 'i' :: 'n' :: 'i' :: 't' :: 'y' :: cs => some (.number (.float (.infinite false)), cs)
  | '-' :: 'I' :: 'n' :: 'f' :: 'i' :: 'n' :: 'i' :: 't' :: 'y' :: cs =>
    some (.number (.float (.infinite true)), cs)
  | cs => (number? cs).map fun (n, rest) => (.number n, rest)

mutual

/-- The value that a text begins with, white space before it left out, and what follows it. Each level of nesting
    and each item uses up one unit of `fuel`. -/
def value? (fuel : Nat) (cs : List Char) : Option (Json × List Char) :=
  match fuel with
  | 0 => none
  | fuel + 1 =>
    match skipBlanks cs with
    | '"' :: cs => (string? cs).map fun (s, rest) => (.text s, rest)
    | '[' :: cs =>
      match skipBlanks cs with
      | ']' :: rest => some (.array [], rest)
      | cs => (items? fuel cs).map fun (items, rest) => (.array items, rest)
    | '\x7b' :: cs =>
      match skipBlanks cs with
      | '\x7d' :: rest => some (.object [], rest)
      | cs => (fields? fuel cs).map fun (fields, rest) => (.object fields, rest)
    | cs => scalar? cs

def items? (fuel : Nat) (cs : List Char) : Option (List Json × List Char) :=
  match fuel with
  | 0 => none
  | fuel + 1 => do
    let (item, rest) ← value? fuel cs
    match skipBlanks rest with
    | ',' :: rest => (items? fuel rest).map fun (items, rest) => (item :: items, rest)
    | ']' :: rest => some ([item], rest)
    | _ => none

def fields? (fuel : Nat) (cs : List Char) : Option (List (String × Json) × List Char) :=
  match fuel with
  | 0 => none
  | fuel + 1 =>
    match skipBlanks cs with
    | '"' :: cs => do
      let (name, rest) ← string? cs
      match skipBlanks rest with
      | ':' :: rest => do
        let (item, rest) ← value? fuel rest
        match skipBlanks rest with
        | ',' :: rest => (fields? fuel rest).map fun (fields, rest) => ((name, item) :: fields, rest)
        | '\x7d' :: rest => some ([(name, item)], rest)
        | _ => none
      | _ => none
    | _ => none

end

end Reader

/-- The value that a text writes, with nothing but white space around it. Each item and each level of nesting has a
    character of its own, so that the length of the text is fuel enough. -/
def ofText? (s : String) : Option Json :=
  match Reader.value? (s.length + 1) s.toList with
  | some (value, rest) => if (Reader.skipBlanks rest).isEmpty then some value else none
  | none => none

end Json

end TableMetrics
