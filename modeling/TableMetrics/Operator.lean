/-! The operators of the language and their symbols. -/

namespace TableMetrics

inductive ArithOp where
  | plus
  | minus
  | times
  | divide
  deriving DecidableEq, Inhabited

namespace ArithOp

def symbol : ArithOp → String
  | .plus => "+"
  | .minus => "-"
  | .times => "*"
  | .divide => "/"

def all : List ArithOp := [.plus, .minus, .times, .divide]

def ofSymbol? (symbol : String) : Option ArithOp := all.find? (·.symbol == symbol)

theorem ofSymbol?_symbol (op : ArithOp) : ofSymbol? op.symbol = some op := by
  cases op <;> decide

/-- Whether an operator binds its operands as closely as a product does. -/
def isProduct : ArithOp → Bool
  | .plus | .minus => false
  | .times | .divide => true

end ArithOp

/-- Equality has two symbols. -/
inductive CompareOp where
  | greater
  | less
  | greaterEqual
  | lessEqual
  | doubleEqual
  | notEqual
  | equal
  deriving DecidableEq, Inhabited

namespace CompareOp

def symbol : CompareOp → String
  | .greater => ">"
  | .less => "<"
  | .greaterEqual => ">="
  | .lessEqual => "<="
  | .doubleEqual => "=="
  | .notEqual => "!="
  | .equal => "="

def all : List CompareOp := [.greater, .less, .greaterEqual, .lessEqual, .doubleEqual, .notEqual, .equal]

def ofSymbol? (symbol : String) : Option CompareOp := all.find? (·.symbol == symbol)

theorem ofSymbol?_symbol (op : CompareOp) : ofSymbol? op.symbol = some op := by
  cases op <;> decide

/-- Whether a comparison holds of two values in the given order; values without an order are only unequal. -/
def holds : CompareOp → Option Ordering → Bool
  | .greater, o => o == some .gt
  | .less, o => o == some .lt
  | .greaterEqual, o => o == some .gt || o == some .eq
  | .lessEqual, o => o == some .lt || o == some .eq
  | .doubleEqual, o => o == some .eq
  | .equal, o => o == some .eq
  | .notEqual, o => o != some .eq

end CompareOp

end TableMetrics
