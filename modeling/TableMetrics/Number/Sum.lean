import TableMetrics.Number.Binary64

/-! Sums of many numbers: exact and rounded once, as long as no partial sum on the way overflows. -/

namespace TableMetrics
namespace Binary64

def units? : Binary64 → Option Int
  | .finite s u _ => some (signed s u)
  | _ => none

/-- The nearest whole number of units with at most 53 significant bits. -/
def roundTotal (total : Int) : Int := signed (total < 0) (roundPrecise total.natAbs 1)

/-- Adds `x` to a sum that is kept as a list of parts. Each part in turn takes `x` in: the rounded sum of the two
    goes on, and what the rounding leaves over stays behind as a part. There is no result if a rounded sum is
    not finite. -/
def accumulate (x : Int) : List Int → Option (List Int)
  | [] => some (if x = 0 then [] else [x])
  | part :: parts =>
    let total := x + part
    let high := roundTotal total
    if high.natAbs < unitsOfInfinity then
      (accumulate high parts).map fun rest => if total = high then rest else (total - high) :: rest
    else none

/-- The exact sum of finite numbers, in units, unless a partial sum on the way overflows. -/
def exactSum? (xs : List Binary64) : Option Int := do
  let units ← xs.mapM units?
  let parts ← units.foldlM (fun parts x => accumulate x parts) []
  return parts.foldl (· + ·) 0

/-- The sum of numbers: the exact sum, rounded; from left to right with a rounding at each step if a partial sum
    overflows or a summand is not finite. -/
def sum (xs : List Binary64) : Binary64 :=
  match exactSum? xs with
  | some total => ofTotal false total
  | none => xs.foldl add (zero false)

end Binary64

end TableMetrics
