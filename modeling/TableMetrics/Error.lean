import TableMetrics.Expr.Parser
import TableMetrics.Function
import TableMetrics.Token.Lexer
import TableMetrics.Value

/-! The causes for which a metric has no value, the kinds they are reported under, and their messages. -/

namespace TableMetrics

inductive ErrorKind where
  | parse
  | unexpectedChar
  | unclosedString
  | divisionByZero
  | type
  | invalidArgument
  | missingColumn
  | emptyColumn
  | unknownFunction
  deriving DecidableEq, Inhabited

def ErrorKind.name : ErrorKind → String
  | .parse => "ParseError"
  | .unexpectedChar => "UnexpectedChar"
  | .unclosedString => "UnclosedString"
  | .divisionByZero => "DivisionByZero"
  | .type => "TypeError"
  | .invalidArgument => "InvalidArgument"
  | .missingColumn => "MissingColumn"
  | .emptyColumn => "EmptyColumn"
  | .unknownFunction => "UnknownFunction"

inductive Side where
  | left
  | right
  deriving DecidableEq, Inhabited

def Side.name : Side → String
  | .left => "left"
  | .right => "right"

/-- Names as a message lists them; a list without any text reads as none. -/
def listing (names : List String) : String :=
  let list := ", ".intercalate names
  if list.isEmpty then "none" else list

inductive MetricError where
  /-- The expression holds nothing but white space. -/
  | blank
  | lexical (e : LexError)
  | syntactic (e : ParseError)
  | divisionByZero
  /-- An operand stands for no number. -/
  | notNumeric (op : String) (side : Side) (operand : Value)
  | unknownOperator (op : String)
  | unknownComparison (op : String)
  | unknownFunction (name : String)
  /-- A function of one column has another number of arguments. -/
  | columnArity (function : String) (count : Nat)
  /-- A function of one column has another argument. -/
  | notAColumn (function : String) (argument : Expr) (available : List String)
  | distinctArity (function : String) (count : Nat)
  | chooseArity
  /-- A dataset without columns or without rows. -/
  | malformedDataset
  | duplicateColumn (name : String)
  | missingColumn (name : String) (available : List String)
  /-- No cell of a column stands for a number. -/
  | emptyColumn (s : Statistic) (column : String)
  /-- A calculation is asked for without an operation. -/
  | operationTypeRequired
  | unsupportedOperation (operation : String)
  /-- A metric has neither an expression nor an operation. -/
  | operationRequired
  /-- A metric has an operation and no column. -/
  | columnRequired
  deriving Inhabited

namespace MetricError

def kind : MetricError → ErrorKind
  | .blank => .parse
  | .lexical (.unexpectedChar ..) => .unexpectedChar
  | .lexical (.unclosedString ..) => .unclosedString
  | .syntactic _ => .parse
  | .divisionByZero => .divisionByZero
  | .notNumeric .. => .type
  | .unknownFunction _ => .unknownFunction
  | .missingColumn .. => .missingColumn
  | .emptyColumn .. => .emptyColumn
  | _ => .invalidArgument

def message : MetricError → String
  | .blank => "Metric expression is required"
  | .lexical e => e.message
  | .syntactic e => e.message
  | .divisionByZero => "Division by zero"
  | .notNumeric op side operand =>
    "Cannot apply '" ++ op ++ "' to non-numeric " ++ side.name ++ " operand: " ++ operand.shown
  | .unknownOperator op => "Unknown operator: " ++ op
  | .unknownComparison op => "Unknown comparison operator: " ++ op
  | .unknownFunction name =>
    "Unknown function: " ++ name ++ ". Supported functions: " ++
      ", ".intercalate Function.supportedNames
  | .columnArity function count =>
    "Function " ++ function ++ " expects exactly 1 argument (column name), got " ++ integerText count
  | .notAColumn function argument available =>
    "Function " ++ function ++ " expects a bare column name as argument, got '" ++ argument.describe ++
      "'. Available columns: " ++ listing available
  | .distinctArity function count =>
    "Function " ++ function ++ " expects exactly 1 argument (column name or expression), got " ++
      integerText count
  | .chooseArity =>
    "IF function expects 2 or 3 arguments: IF(condition, value_if_true, [value_if_false])"
  | .malformedDataset => "Dataset must provide 'columns' and 'rows'"
  | .duplicateColumn name => "Duplicate column name: '" ++ name ++ "'"
  | .missingColumn name available =>
    "Column \"" ++ name ++ "\" not found in dataset. Available columns: " ++ listing available
  | .emptyColumn s column =>
    "Cannot calculate " ++ s.label ++ ": column \"" ++ column ++ "\" contains no numeric values"
  | .operationTypeRequired => "Operation type is required"
  | .unsupportedOperation operation =>
    "Unsupported operation: \"" ++ operation ++ "\". Supported operations: " ++
      ", ".intercalate Aggregate.operationNames
  | .operationRequired => "Metric operation is required"
  | .columnRequired => "Metric column is required"

def require {α : Type} (e : MetricError) : Option α → Except MetricError α
  | some a => .ok a
  | none => .error e

/-- The kind and the message, as lists of problems show a failure. -/
def report (e : MetricError) : String := e.kind.name ++ ": " ++ e.message

end MetricError

end TableMetrics
