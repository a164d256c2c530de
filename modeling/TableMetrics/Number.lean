import TableMetrics.Number.Numeral
import TableMetrics.Number.Shortest

/-! The numbers of the language: whole numbers of any size, and floating-point numbers. -/

namespace TableMetrics

inductive Number where
  | integer (n : Int)
  | float (x : Binary64)
  deriving DecidableEq, Inhabited

/-- The decimal digits of a whole number, with its sign if it is negative. All of them are written, since
    `Numeral.maxDigits` is a limit on what is read. -/
def integerText (n : Int) : String :=
  String.ofList ((if n < 0 then ['-'] else []) ++ Nat.toDigits 10 n.natAbs)

namespace Number

def toBinary64 : Number → Binary64
  | .integer n => .ofInt n
  | .float x => x

/-- Text that tells a whole number from a floating-point one. -/
def text : Number → String
  | .integer n => integerText n
  | .float x => x.text

/-- Text in which a number that is whole has no point, whichever kind it is of. -/
def literal : Number → String
  | .integer n => integerText n
  | .float x =>
    match x.whole? with
    | some n => integerText n
    | none => x.text

/-- Text for the reader of a result: that of a literal, but infinity and what is not a number are spelt out. -/
def plainText : Number → String
  | .float .nan => "NaN"
  | .float (.infinite negative) => if negative then "-Infinity" else "Infinity"
  | n => n.literal

/-! ### Arithmetic: whole numbers stay whole, except in quotients -/

def add : Number → Number → Number
  | .integer m, .integer n => .integer (m + n)
  | m, n => .float (m.toBinary64.add n.toBinary64)

def sub : Number → Number → Number
  | .integer m, .integer n => .integer (m - n)
  | m, n => .float (m.toBinary64.sub n.toBinary64)

def mul : Number → Number → Number
  | .integer m, .integer n => .integer (m * n)
  | m, n => .float (m.toBinary64.mul n.toBinary64)

def div (m n : Number) : Number := .float (m.toBinary64.div n.toBinary64)

/-- Whether a number is zero, of either kind and sign. -/
def isZero (n : Number) : Bool := n.toBinary64.isZero

end Number

end TableMetrics
