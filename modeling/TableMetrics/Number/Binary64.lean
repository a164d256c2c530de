import TableMetrics.Number.Rounding

/-! Binary floating-point numbers of 64 bits. A finite one is a sign and a whole number of units of 2^-1074,
    the least positive number, so that every operation is exact whole-number arithmetic rounded once. -/

namespace TableMetrics

/-- The number of binary places behind the point of the least positive number. -/
def fractionBits : Nat := 1074

/-- The number of binary places of the largest number. -/
def allBits : Nat := 2098

def unitsOfOne : Nat := Nat.pow 2 fractionBits

/-- The magnitude at which numbers end, in units: what rounds to it or beyond is infinite. -/
def unitsOfInfinity : Nat := Nat.pow 2 allBits

/-- Whether a number of units is the magnitude of a finite number. -/
def Fits (units : Nat) : Prop := units < unitsOfInfinity ∧ Precise units

instance (units : Nat) : Decidable (Fits units) := inferInstanceAs (Decidable (_ ∧ _))

theorem unitsOfOne_pos : 0 < unitsOfOne := by
  unfold unitsOfOne
  exact twoPow_pos fractionBits

theorem unitsOfInfinity_pos : 0 < unitsOfInfinity := by
  unfold unitsOfInfinity
  exact twoPow_pos allBits

theorem fits_zero : Fits 0 := ⟨unitsOfInfinity_pos, Nat.dvd_zero _⟩

/-- A floating-point number; zero has two signs, and all that is not a number is one value. -/
inductive Binary64 where
  | nan
  | infinite (negative : Bool)
  | finite (negative : Bool) (units : Nat) (fits : Fits units)
  deriving DecidableEq

namespace Binary64

def zero (negative : Bool) : Binary64 := .finite negative 0 fits_zero

instance : Inhabited Binary64 := ⟨zero false⟩

def isNaN : Binary64 → Bool
  | .nan => true
  | _ => false

def isFinite : Binary64 → Bool
  | .finite .. => true
  | _ => false

def isZero : Binary64 → Bool
  | .finite _ units _ => units == 0
  | _ => false

/-! ### Rounding -/

/-- The number nearest to `num / den` units with the given sign. -/
def ofUnits (negative : Bool) (num den : Nat) : Binary64 :=
  if h : roundPrecise num den < unitsOfInfinity then
    .finite negative (roundPrecise num den) ⟨h, precise_roundPrecise num den⟩
  else .infinite negative

def signed (negative : Bool) (units : Nat) : Int := if negative then -units else units

/-- The whole number that a number is, if it is one. -/
def whole? : Binary64 → Option Int
  | .finite negative units _ =>
    if units % unitsOfOne = 0 then some (signed negative (units / unitsOfOne)) else none
  | _ => none

/-- The number nearest to a whole number of units; `zeroNegative` is the sign of an exact zero. -/
def ofTotal (zeroNegative : Bool) (total : Int) : Binary64 :=
  ofUnits (if total = 0 then zeroNegative else total < 0) total.natAbs 1

/-- The number nearest to a whole number, infinite when that is too large. -/
def ofInt (n : Int) : Binary64 := ofTotal false (n * unitsOfOne)

def ofRatio (negative : Bool) (num den : Nat) : Binary64 := ofUnits negative (num * unitsOfOne) den

/-! ### Arithmetic -/

def neg : Binary64 → Binary64
  | .nan => .nan
  | .infinite s => .infinite !s
  | .finite s u h => .finite (!s) u h

/-- The exact sum, rounded; a sum of zeros is negative when both are. -/
def add : Binary64 → Binary64 → Binary64
  | .nan, _ => .nan
  | _, .nan => .nan
  | .infinite s, .infinite t => if s = t then .infinite s else .nan
  | .infinite s, .finite .. => .infinite s
  | .finite .., .infinite t => .infinite t
  | .finite s u _, .finite t v _ => ofTotal (s && t) (signed s u + signed t v)

def sub (x y : Binary64) : Binary64 := x.add y.neg

def mul : Binary64 → Binary64 → Binary64
  | .nan, _ => .nan
  | _, .nan => .nan
  | .infinite s, .infinite t => .infinite (s != t)
  | .infinite s, .finite t v _ => if v = 0 then .nan else .infinite (s != t)
  | .finite s u _, .infinite t => if u = 0 then .nan else .infinite (s != t)
  | .finite s u _, .finite t v _ => ofUnits (s != t) (u * v) unitsOfOne

def div : Binary64 → Binary64 → Binary64
  | .nan, _ => .nan
  | _, .nan => .nan
  | .infinite _, .infinite _ => .nan
  | .infinite s, .finite t _ _ => .infinite (s != t)
  | .finite s _ _, .infinite t => zero (s != t)
  | .finite s u _, .finite t v _ =>
    if v = 0 then (if u = 0 then .nan else .infinite (s != t)) else ofUnits (s != t) (u * unitsOfOne) v

/-- The largest whole number whose square is at most `n`. -/
def wholeSqrt (n : Nat) : Nat :=
  if n = 0 then 0
  else
    let root := 2 * wholeSqrt (n / 4)
    if (root + 1) * (root + 1) ≤ n then root + 1 else root
termination_by n
decreasing_by omega

/-- The exact square root, rounded. An inexact root lies strictly between two whole numbers of units, and is
    large enough that the point halfway between them rounds as it does. -/
def sqrt : Binary64 → Binary64
  | .nan => .nan
  | .infinite s => if s then .nan else .infinite false
  | .finite s u h =>
    if u = 0 then .finite s u h
    else if s then .nan
    else
      let root := wholeSqrt (u * unitsOfOne)
      if root * root = u * unitsOfOne then ofUnits false root 1 else ofUnits false (2 * root + 1) 2

/-- The multiple of 10^-places nearest to a number, a half going to the even neighbour, as the number nearest to
    it. Infinities stay as they are, and a result of zero keeps the sign. -/
def roundPlaces (places : Nat) : Binary64 → Binary64
  | .finite s u _ =>
    ofRatio s (roundHalfEven (u * Nat.pow 10 places) unitsOfOne) (Nat.pow 10 places)
  | x => x

/-! ### Order -/

/-- The place of a number in the order of all numbers, in units; that which is not a number has none. -/
def rank? : Binary64 → Option Int
  | .nan => none
  | .infinite s => some (signed s unitsOfInfinity)
  | .finite s u _ => some (signed s u)

/-- The order of two numbers, in which both zeros are equal; there is none if one of the two is not a number. -/
def order? (x y : Binary64) : Option Ordering := do
  return compare (← x.rank?) (← y.rank?)

end Binary64

end TableMetrics
