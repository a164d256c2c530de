import TableMetrics.Number

/-! Expressions as trees. -/

namespace TableMetrics

/-- An expression. Operators and function names are kept as they are written; evaluation decides which of them
    it knows. -/
inductive Expr where
  | number (n : Number)
  | text (s : String)
  | null
  | column (name : String)
  | call (function : String) (args : List Expr)
  | arith (op : String) (left right : Expr)
  | compare (op : String) (left right : Expr)
  deriving Inhabited

namespace Expr

mutual

/-- The expression and all its parts, each before its own parts and these from left to right. -/
def walk : Expr → List Expr
  | .call f args => .call f args :: walkAll args
  | .arith op l r => .arith op l r :: (walk l ++ walk r)
  | .compare op l r => .compare op l r :: (walk l ++ walk r)
  | e => [e]

def walkAll : List Expr → List Expr
  | [] => []
  | e :: es => walk e ++ walkAll es

end

/-- A string literal, in double quotes; a backslash stands before each backslash and double quote in it. -/
def textLiteral (s : String) : String :=
  String.ofList ('"' :: s.toList.flatMap (fun c => if c = '\\' ∨ c = '"' then ['\\', c] else [c]) ++ ['"'])

mutual

/-- The text of an expression. There are no parentheses but those of calls, so that it reads back as the
    expression only where precedence makes up for them. -/
def describe : Expr → String
  | .number n => n.literal
  | .text s => textLiteral s
  | .null => "NULL"
  | .column name => name
  | .call f args => f ++ "(" ++ ", ".intercalate (describeAll args) ++ ")"
  | .arith op l r => describe l ++ " " ++ op ++ " " ++ describe r
  | .compare op l r => describe l ++ " " ++ op ++ " " ++ describe r

def describeAll : List Expr → List String
  | [] => []
  | e :: es => describe e :: describeAll es

end

end Expr

end TableMetrics
