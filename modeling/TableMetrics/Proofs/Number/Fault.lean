import TableMetrics.Proofs.Number.Conversion
import TableMetrics.Proofs.Number.Sign
import TableMetrics.Proofs.Outcome

/-! Arithmetic that can fail: for a result that is too large, or for an argument outside of the domain. Sums of finite
    numbers and of those that are not negative do not fail, though partial sums may overflow; and where the others do not
    fail, their results are those of the operations that never do. -/

namespace TableMetrics

open Binary64 (signedUnits zero)

namespace Attempt

inductive Fault where
  | overflow
  | domain
  | divisionByZero
  | malformed
  deriving DecidableEq

/-- The rest of an exact sum. Finite numbers go into the parts, until a partial sum overflows; the others are added up
    apart, and so are the infinite ones alone, to tell infinities of both signs. -/
def exactSum (parts : List Int) (special infinities : Binary64) : List Binary64 → Except Fault Binary64
  | [] =>
    if special.isZero then .ok (.ofTotal false parts.sum)
    else if infinities.isNaN then .error .domain
    else .ok special
  | .finite s u _ :: xs =>
    match Binary64.accumulate (Binary64.signed s u) parts with
    | some parts => exactSum parts special infinities xs
    | none => .error .overflow
  | .infinite s :: xs => exactSum [] (special.add (.infinite s)) (infinities.add (.infinite s)) xs
  | .nan :: xs => exactSum [] .nan infinities xs

/-- The exact sum, or that from left to right if a partial sum overflows. -/
def sum (xs : List Binary64) : Except Fault Binary64 :=
  match exactSum [] (zero false) (zero false) xs with
  | .error .overflow => .ok (xs.foldl .add (zero false))
  | r => r

/-- A whole number as a floating-point one, unless it is too large. -/
def ofInt (n : Int) : Except Fault Binary64 :=
  if (Binary64.ofInt n).isFinite then .ok (.ofInt n) else .error .overflow

def quotient (x : Binary64) (n : Nat) : Except Fault Binary64 := do
  let y ← ofInt n
  if y.isZero then .error .divisionByZero else .ok (x.div y)

def average (xs : List Binary64) : Except Fault Binary64 := do
  quotient (← sum xs) xs.length

def sqrt : Binary64 → Except Fault Binary64
  | .nan => .ok .nan
  | .infinite s => if s then .error .domain else .ok (.infinite false)
  | .finite s u h => if s && u != 0 then .error .domain else .ok (Binary64.finite s u h).sqrt

def roundPlaces (places : Nat) (x : Binary64) : Except Fault Binary64 :=
  if x.isFinite && !(x.roundPlaces places).isFinite then .error .overflow else .ok (x.roundPlaces places)

/-- A whole number as a floating-point one, infinite if it is too large. -/
def ofIntOrInfinity (n : Int) : Except Fault Binary64 :=
  match ofInt n with
  | .error .overflow => .ok (.infinite (decide (n < 0)))
  | r => r

/-- What a text is converted to if it is numeric. -/
def ofText (s : String) : Except Fault Binary64 :=
  match Numeral.ofChars? (trimChars s.toList), convert? (trimChars s.toList) with
  | none, _ => .ok .nan
  | some _, some x => .ok x
  | some _, none => .error .malformed

/-- The number that a value stands for. -/
def number : Value → Except Fault Binary64
  | .null => .ok .nan
  | .bool b => .ok (.ofInt (if b then 1 else 0))
  | .number (.integer n) => ofIntOrInfinity n
  | .number (.float x) => .ok x
  | .text s => ofText s

variable {x : Binary64} {xs : List Binary64} {parts : List Int}

/-! ### Sums -/

/-- Of finite numbers the sum fails if and only if there is none. -/
theorem exactSum_of_finite (h : ∀ x ∈ xs, x.isFinite = true) : exactSum parts (zero false) (zero false) xs =
    match (xs.map signedUnits).foldlM (fun parts u => Binary64.accumulate u parts) parts with
    | some parts => .ok (.ofTotal false parts.sum)
    | none => .error .overflow := by
  induction xs generalizing parts with
  | nil => rfl
  | cons x xs ih =>
    obtain ⟨hx, hxs⟩ := List.forall_mem_cons.mp h
    obtain ⟨s, u, hu, rfl⟩ := Binary64.exists_eq_finite hx
    have hunits : signedUnits (.finite s u hu) = Binary64.signed s u := rfl
    rw [exactSum, List.map_cons, List.foldlM_cons, hunits]
    cases Binary64.accumulate (Binary64.signed s u) parts with
    | none => rfl
    | some parts => exact ih hxs

theorem sum_of_finite (h : ∀ x ∈ xs, x.isFinite = true) : sum xs = .ok (Binary64.sum xs) := by
  rw [sum, exactSum_of_finite h, Binary64.sum, Binary64.exactSum?_of_finite h]
  cases (xs.map signedUnits).foldlM (fun parts u => Binary64.accumulate u parts) [] with
  | none => rfl
  | some parts => rfl

section NonNegative
variable (h : ∀ x ∈ xs, x.NonNegative)
include h

theorem foldl_add_infinite : xs.foldl Binary64.add (.infinite false) = .infinite false := by
  induction xs with
  | nil => rfl
  | cons x xs ih =>
    obtain ⟨hx, hxs⟩ := List.forall_mem_cons.mp h
    cases hx with
    | finite hu => exact ih hxs
    | infinite => exact ih hxs

theorem foldl_add_of_mem (hx : x.NonNegative) (hmem : .infinite false ∈ xs) :
    xs.foldl Binary64.add x = .infinite false := by
  induction xs generalizing x with
  | nil => cases hmem
  | cons y xs ih =>
    obtain ⟨hy, hxs⟩ := List.forall_mem_cons.mp h
    rw [List.foldl_cons]
    rcases List.mem_cons.mp hmem with rfl | hmem
    · have hinfinite : x.add (.infinite false) = .infinite false := by cases hx <;> rfl
      rw [hinfinite, foldl_add_infinite hxs]
    · exact ih hxs (hx.add hy) hmem

theorem exactSum_infinite (parts : List Int) : exactSum parts (.infinite false) (.infinite false) xs = .ok (.infinite false) ∨
    exactSum parts (.infinite false) (.infinite false) xs = .error .overflow := by
  induction xs generalizing parts with
  | nil => exact Or.inl rfl
  | cons x xs ih =>
    obtain ⟨hx, hxs⟩ := List.forall_mem_cons.mp h
    cases hx with
    | infinite => exact ih hxs []
    | @finite u hu =>
      rw [exactSum]
      cases Binary64.accumulate (Binary64.signed false u) parts with
      | none => exact Or.inr rfl
      | some parts => exact ih hxs parts

theorem exactSum_of_mem (parts : List Int) (hmem : .infinite false ∈ xs) :
    exactSum parts (zero false) (zero false) xs = .ok (.infinite false) ∨
      exactSum parts (zero false) (zero false) xs = .error .overflow := by
  induction xs generalizing parts with
  | nil => cases hmem
  | cons x xs ih =>
    obtain ⟨hx, hxs⟩ := List.forall_mem_cons.mp h
    cases hx with
    | infinite => exact exactSum_infinite hxs []
    | @finite u hu =>
      rcases List.mem_cons.mp hmem with heq | hmem
      · cases heq
      · rw [exactSum]
        cases Binary64.accumulate (Binary64.signed false u) parts with
        | none => exact Or.inr rfl
        | some parts => exact ih hxs parts hmem

/-- Infinity among numbers that are not negative is their sum, in whichever way it is formed. -/
theorem sum_of_nonNegative : sum xs = .ok (Binary64.sum xs) := by
  by_cases hfinite : ∀ x ∈ xs, x.isFinite = true
  · exact sum_of_finite hfinite
  · have hmem : .infinite false ∈ xs := by
      simp only [not_forall] at hfinite
      obtain ⟨x, hx, hnot⟩ := hfinite
      cases h x hx with
      | finite hu => exact absurd rfl hnot
      | infinite => exact hx
    have hnone : Binary64.exactSum? xs = none :=
      Option.eq_none_iff_forall_ne_some.mpr fun total htotal => hfinite (Binary64.isFinite_of_exactSum? htotal)
    have hfold := foldl_add_of_mem h (.finite fits_zero) hmem
    rw [sum, Binary64.sum, hnone]
    rcases exactSum_of_mem h [] hmem with hsum | hsum
    · rw [hsum]
      exact congrArg Except.ok hfold.symm
    · rw [hsum]

end NonNegative

/-! ### The other operations -/

theorem quotient_eq {n : Nat} (x : Binary64) (hn : (Binary64.ofInt n).Positive) :
    quotient x n = .ok (x.div (.ofInt n)) := by
  unfold quotient ofInt
  generalize Binary64.ofInt n = y at hn
  obtain ⟨hu, hpos⟩ := hn
  refine bind_eq_ok_iff.mpr ⟨_, if_pos rfl, if_neg ?_⟩
  rw [Binary64.isZero, beq_iff_eq]
  exact hpos

theorem average_eq (hsum : sum xs = .ok (Binary64.sum xs)) (hlength : (Binary64.ofInt xs.length).Positive) :
    average xs = .ok (Statistic.average xs) := by
  unfold average
  exact bind_eq_ok_iff.mpr ⟨_, hsum, quotient_eq _ hlength⟩

theorem sqrt_eq (h : x.NonNegative) : sqrt x = .ok x.sqrt := by
  cases h with
  | infinite => rfl
  | finite hu => rw [sqrt, Bool.false_and, if_neg Bool.false_ne_true]

theorem roundPlaces_eq (places : Nat) (x : Binary64) : roundPlaces places x = .ok (x.roundPlaces places) := by
  rw [roundPlaces, if_neg]
  rw [Bool.and_eq_true, not_and, Bool.not_eq_true', Bool.not_eq_false]
  exact Binary64.isFinite_roundPlaces places

theorem ofInt_eq_infinite {n : Int} (h : ¬(Binary64.ofInt n).isFinite = true) :
    Binary64.ofInt n = .infinite (decide (n < 0)) := by
  rw [Binary64.ofInt_eq_ofUnits, Binary64.ofUnits] at h ⊢
  split at h
  · exact absurd rfl h
  · next hlarge => rw [dif_neg hlarge]

theorem ofIntOrInfinity_eq (n : Int) : ofIntOrInfinity n = .ok (.ofInt n) := by
  unfold ofIntOrInfinity ofInt
  by_cases h : (Binary64.ofInt n).isFinite = true
  · rw [if_pos h]
  · rw [if_neg h, ofInt_eq_infinite h]

theorem ofText_eq (s : String) : ofText s = .ok ((numericText? s).getD .nan) := by
  unfold ofText numericText?
  cases hread : Numeral.ofChars? (trimChars s.toList) with
  | none => rfl
  | some n =>
    rw [(ofChars?_eq_some_iff.mp hread).convert?]
    rfl

/-- The conversion of a value does not fail: a whole number that is too large becomes infinite, and numeric text is never
    malformed. -/
theorem number_eq (v : Value) : number v = .ok v.toNumber := by
  cases v with
  | null => rfl
  | bool b => rfl
  | text s => exact ofText_eq s
  | number n =>
    cases n with
    | integer n => exact ofIntOrInfinity_eq n
    | float x => rfl

end Attempt
end TableMetrics
