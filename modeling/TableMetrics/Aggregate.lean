import TableMetrics.Text.Blank
import TableMetrics.Text.Case

/-! The aggregates, by which a column becomes one number: the statistics of its numbers, and the counts of its
    cells. -/

namespace TableMetrics

/-- A statistic of numbers; the deviation is that of a whole population. -/
inductive Statistic where
  | mean
  | sum
  | minimum
  | maximum
  | deviation
  deriving DecidableEq, Inhabited

def Statistic.label : Statistic → String
  | .mean => "mean"
  | .sum => "sum"
  | .minimum => "minimum"
  | .maximum => "maximum"
  | .deviation => "standard deviation"

inductive Aggregate where
  | statistic (s : Statistic)
  | count
  | countDistinct
  deriving DecidableEq, Inhabited

namespace Aggregate

/-- All aggregates, in the order in which lists of operations show them. -/
def all : List Aggregate :=
  [.statistic .mean, .statistic .sum, .statistic .minimum, .statistic .maximum, .statistic .deviation, .count,
    .countDistinct]

def operationName : Aggregate → String
  | .statistic .mean => "mean"
  | .statistic .sum => "sum"
  | .statistic .minimum => "min"
  | .statistic .maximum => "max"
  | .statistic .deviation => "stdev"
  | .count => "count"
  | .countDistinct => "count_distinct"

def operationNames : List String := all.map operationName

/-- The aggregate that an operation names, in any case and with white space around it; the distinct count has a
    second name. -/
def ofOperation? (operation : String) : Option Aggregate :=
  let name := lowerAscii (trim operation)
  if name = "countdistinct" then some .countDistinct else all.find? (·.operationName == name)

end Aggregate

end TableMetrics
