import TableMetrics.Number.Binary64

/-! Decimal numbers, and the floating-point number nearest to one. -/

namespace TableMetrics

structure Decimal where
  digits : Nat
  exponent : Int
  deriving DecidableEq

namespace Decimal

/-- The number that a sequence of digits writes, the first digit weighing most. -/
def ofDigits (ds : List Nat) : Nat := ds.foldl (fun n d => 10 * n + d) 0

/-- The floating-point number nearest to a decimal. From 10^310 on it is infinite and below 10^-400 zero, which
    the bounds on the exponent decide without computing the power. -/
def toBinary64 (negative : Bool) (d : Decimal) : Binary64 :=
  if d.digits = 0 then .zero negative
  else if 310 ≤ d.exponent then .infinite negative
  else if d.exponent + d.digits.log2 < -400 then .zero negative
  else if d.exponent < 0 then .ofRatio negative d.digits (Nat.pow 10 (-d.exponent).toNat)
  else .ofRatio negative (d.digits * Nat.pow 10 d.exponent.toNat) 1

end Decimal

end TableMetrics
