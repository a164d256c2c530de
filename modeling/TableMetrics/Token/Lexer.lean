import TableMetrics.Number.Numeral
import TableMetrics.Token

/-! Cutting the text of an expression into tokens. White space separates words and means nothing else; every word
    is as long as it can be. A minus sign belongs to the number behind it where no operand stands before it. -/

namespace TableMetrics

/-- Why a text cannot be cut into tokens: at `position` no word can begin, or a string begins that has no end. -/
inductive LexError where
  | unexpectedChar (c : Char) (position : Nat)
  | unclosedString (position : Nat)
  deriving DecidableEq, Inhabited

namespace LexError

def message : LexError → String
  | .unexpectedChar c position =>
    "Unexpected character '" ++ c.toString ++ "' at position " ++ integerText position
  | .unclosedString position => "Unclosed string literal starting at position " ++ integerText position

end LexError

namespace Lexer

/-- Whether a name can begin with a character: a letter of ASCII or an underscore. -/
def isNameStart (c : Char) : Bool := c.isAlpha || c == '_'

/-- Whether a character can stand in a name behind its first. -/
def isNameChar (c : Char) : Bool := isNameStart c || isAsciiDigit c

def digits (cs : List Char) : List Char := cs.takeWhile isAsciiDigit

def digitValue (c : Char) : Nat := c.toNat - '0'.toNat

/-- The number that a text begins with, digits with at most one point after the first of them, and the count of
    its characters. -/
def number (negative : Bool) (cs : List Char) : Binary64 × Nat :=
  let whole := digits cs
  match cs.drop whole.length with
  | '.' :: rest =>
    let fraction := digits rest
    (Numeral.toBinary64 ⟨negative, whole.map digitValue, fraction.map digitValue, 0⟩,
      whole.length + 1 + fraction.length)
  | _ => (Numeral.toBinary64 ⟨negative, whole.map digitValue, [], 0⟩, whole.length)

def unescape (c : Char) : Char :=
  if c = 'n' then '\n' else if c = 't' then '\t' else c

/-- The content of a string that ends with the given quote, and the count of characters up to and including that
    quote. A backslash takes the meaning of a quote from the character behind it. -/
def string? (quote : Char) : List Char → Option (List Char × Nat)
  | [] => none
  | c :: cs =>
    if c = quote then some ([], 1)
    else if c = '\\' then
      match cs with
      | [] => none
      | e :: cs => (string? quote cs).map fun (content, n) => (unescape e :: content, n + 2)
    else (string? quote cs).map fun (content, n) => (c :: content, n + 1)

/-- The comparison that begins with `c`, and the count of its characters behind `c`. -/
def comparison? (c : Char) (next : Option Char) : Option (CompareOp × Nat) :=
  match c, next with
  | '>', some '=' => some (.greaterEqual, 1)
  | '<', some '=' => some (.lessEqual, 1)
  | '=', some '=' => some (.doubleEqual, 1)
  | '!', some '=' => some (.notEqual, 1)
  | '>', _ => some (.greater, 0)
  | '<', _ => some (.less, 0)
  | '=', _ => some (.equal, 0)
  | _, _ => none

/-- The arithmetic operator or punctuation mark that a character is. -/
def mark? : Char → Option Lexeme
  | '+' => some (.arith .plus)
  | '-' => some (.arith .minus)
  | '*' => some (.arith .times)
  | '/' => some (.arith .divide)
  | '(' => some .opening
  | ')' => some .closing
  | ',' => some .comma
  | _ => none

/-- Whether a minus sign behind the given word is the sign of a number: at the beginning, after an opening
    parenthesis and after an arithmetic operator. -/
def takesSign : Option Lexeme → Bool
  | none => true
  | some .opening => true
  | some (.arith _) => true
  | some _ => false

/-- The word that begins with the character `c`, which is no white space, and the count of its characters behind
    `c`. -/
def word (previous : Option Lexeme) (position : Nat) (c : Char) (cs : List Char) :
    Except LexError (Lexeme × Nat) :=
  if isAsciiDigit c then
    let (x, n) := number false (c :: cs)
    .ok (.number x, n - 1)
  else if c = '-' && cs.head?.any isAsciiDigit && takesSign previous then
    let (x, n) := number true cs
    .ok (.number x, n)
  else if c = '"' || c = '\'' then
    match string? c cs with
    | some (content, n) => .ok (.text (String.ofList content), n)
    | none => .error (.unclosedString position)
  else
    match comparison? c cs.head?, mark? c with
    | some (op, n), _ => .ok (.compare op, n)
    | none, some mark => .ok (mark, 0)
    | none, none =>
      if isNameStart c then
        let rest := cs.takeWhile isNameChar
        .ok (.name (String.ofList (c :: rest)), rest.length)
      else .error (.unexpectedChar c position)

/-- The tokens of a text that stands behind `position` characters, the last word among them `previous`. -/
def tokensFrom (previous : Option Lexeme) (position : Nat) (cs : List Char) : Except LexError (List Token) :=
  match cs with
  | [] => .ok []
  | c :: cs =>
    if isBlank c then tokensFrom previous (position + 1) cs
    else do
      let (lexeme, n) ← word previous position c cs
      let rest ← tokensFrom (some lexeme) (position + 1 + n) (cs.drop n)
      return ⟨lexeme, position⟩ :: rest
termination_by cs.length
decreasing_by all_goals simp; try omega

end Lexer

def Token.ofText (expression : String) : Except LexError (List Token) :=
  Lexer.tokensFrom none 0 expression.toList

end TableMetrics
