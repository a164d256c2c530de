import TableMetrics.Number
import TableMetrics.Text.Quoted

/-! Values: what a cell of a table holds and what an expression evaluates to. -/

namespace TableMetrics

inductive Value where
  | null
  | bool (b : Bool)
  | number (n : Number)
  | text (s : String)
  deriving DecidableEq, Inhabited

namespace Value

def isNull : Value → Bool
  | .null => true
  | _ => false

/-- The number that a value stands for: text stands for the number it denotes, truth for one and falsehood for
    zero. Null and other text stand for none. -/
def toNumber : Value → Binary64
  | .null => .nan
  | .bool b => .ofInt (if b then 1 else 0)
  | .number n => n.toBinary64
  | .text s => (numericText? s).getD .nan

/-- The text that a value stands for, which is also its key among distinct values. -/
def toText : Value → String
  | .null => ""
  | .bool b => if b then "true" else "false"
  | .number n => n.plainText
  | .text s => s

/-- Whether a value counts as true in a condition. Text does when it is blank or numeric, zero included; a number
    when it is neither zero nor a NaN; null never. -/
def isTruthy : Value → Bool
  | .null => false
  | .text s => isBlankText s || !(Value.text s).toNumber.isNaN
  | v => !v.toNumber.isNaN && !v.toNumber.isZero

def shown : Value → String
  | .null => "None"
  | .bool b => if b then "True" else "False"
  | .number n => n.text
  | .text s => quoted s

end Value

end TableMetrics
