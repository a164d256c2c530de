import TableMetrics.Error

/-! What the execution of metrics writes to the log. -/

namespace TableMetrics

/-- The levels of the log, from the most severe down. -/
inductive LogLevel where
  | critical
  | error
  | warning
  | info
  | debug
  | unset
  deriving DecidableEq, Inhabited

namespace LogLevel

/-- The rank of a level: a log shows what ranks as high as its level or higher. -/
def rank : LogLevel → Nat
  | .critical => 50
  | .error => 40
  | .warning => 30
  | .info => 20
  | .debug => 10
  | .unset => 0

def name : LogLevel → String
  | .critical => "CRITICAL"
  | .error => "ERROR"
  | .warning => "WARNING"
  | .info => "INFO"
  | .debug => "DEBUG"
  | .unset => "NOTSET"

/-- Every name of a level; two levels have a second one. -/
def names : List (String × LogLevel) :=
  [("CRITICAL", .critical), ("FATAL", .critical), ("ERROR", .error), ("WARN", .warning),
    ("WARNING", .warning), ("INFO", .info), ("DEBUG", .debug), ("NOTSET", .unset)]

end LogLevel

inductive LogEvent where
  | executing (operation column : String) (rows : Nat)
  | executed (operation column : String) (result : Number)
  | executionFailed (operation column : String) (e : MetricError)
  | evaluating (expression : String)
  | evaluationFailed (expression : String) (e : MetricError)
  /-- A request to evaluate an expression was answered with a failure. -/
  | answeredFailure (expression : String) (kind : ErrorKind)
  deriving Inhabited

namespace LogEvent

def level : LogEvent → LogLevel
  | .executing .. | .executed .. | .evaluating _ => .debug
  | .executionFailed .. | .evaluationFailed .. => .warning
  | .answeredFailure .. => .info

def message : LogEvent → String
  | .executing operation column rows =>
    "Executing metric " ++ operation ++ "(" ++ column ++ ") over " ++ integerText rows ++ " rows"
  | .executed operation column result => "Metric " ++ operation ++ "(" ++ column ++ ") = " ++ result.text
  | .executionFailed operation column e =>
    "Metric " ++ operation ++ "(" ++ column ++ ") failed: " ++ e.report
  | .evaluating expression => "Evaluating metric expression " ++ quoted expression
  | .evaluationFailed expression e =>
    "Metric expression " ++ quoted expression ++ " failed: " ++ e.report
  | .answeredFailure expression kind => "Expression " ++ quoted expression ++ " failed: " ++ kind.name

end LogEvent

end TableMetrics
