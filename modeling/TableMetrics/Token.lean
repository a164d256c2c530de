import TableMetrics.Number
import TableMetrics.Operator

/-! Tokens: the words of an expression and the places they begin at. -/

namespace TableMetrics

inductive Lexeme where
  | number (x : Binary64)
  | text (s : String)
  | name (s : String)
  | compare (op : CompareOp)
  | arith (op : ArithOp)
  | opening
  | closing
  | comma
  deriving DecidableEq, Inhabited

def Lexeme.describe : Lexeme → String
  | .number x => "'" ++ x.text ++ "'"
  | .text s => "string \"" ++ s ++ "\""
  | .name s => "'" ++ s ++ "'"
  | .compare op => "'" ++ op.symbol ++ "'"
  | .arith op => "'" ++ op.symbol ++ "'"
  | .opening => "'('"
  | .closing => "')'"
  | .comma => "','"

/-- A word and the number of characters before it. -/
structure Token where
  lexeme : Lexeme
  position : Nat
  deriving DecidableEq, Inhabited

namespace Token

def located (t : Token) : String := t.lexeme.describe ++ " at position " ++ integerText t.position

end Token

end TableMetrics
