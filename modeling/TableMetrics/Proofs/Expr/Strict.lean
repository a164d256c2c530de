import Mathlib.Logic.Relation
import TableMetrics.Proofs.Expr.Call
import TableMetrics.Proofs.Grammar
import TableMetrics.Proofs.Outcome

/-! Strict positions. An evaluation needs those of both operands, of the condition of a choice and of the arm that the
    condition selects, and of the argument of a distinct count at every row: if one of these fails, it fails. The arm
    that is not selected is not needed, and can be any expression. -/

namespace TableMetrics
namespace Expr

/-- An evaluation, given by its row, if there is one, and by its expression, needs another one at once. -/
inductive Needs (d : Dataset) : Option Int × Expr → Option Int × Expr → Prop where
  | arithLeft (row : Option Int) (op : String) (l r : Expr) : Needs d (row, .arith op l r) (row, l)
  | arithRight (row : Option Int) (op : String) (l r : Expr) : Needs d (row, .arith op l r) (row, r)
  | compareLeft (row : Option Int) (op : String) (l r : Expr) : Needs d (row, .compare op l r) (row, l)
  | compareRight (row : Option Int) (op : String) (l r : Expr) : Needs d (row, .compare op l r) (row, r)
  | condition {f : String} (hf : Function.ofName? f = some .choose) (row : Option Int) (condition : Expr)
    (arms : List Expr) : Needs d (row, .call f (condition :: arms)) (row, condition)
  | yes {f : String} (hf : Function.ofName? f = some .choose) {row : Option Int} {condition : Expr} {v : Value}
    (hv : condition.eval d row = .ok v) (htrue : v.isTruthy = true) (yes : Expr) (arms : List Expr) :
    Needs d (row, .call f (condition :: yes :: arms)) (row, yes)
  | no {f : String} (hf : Function.ofName? f = some .choose) {row : Option Int} {condition : Expr} {v : Value}
    (hv : condition.eval d row = .ok v) (hfalse : v.isTruthy = false) (yes no : Expr) (arms : List Expr) :
    Needs d (row, .call f (condition :: yes :: no :: arms)) (row, no)
  | counted {f : String} (hf : Function.ofName? f = some (.aggregate .countDistinct)) (row : Option Int)
    {argument : Expr} (hargument : ∀ name, argument ≠ .column name) {i : Nat} (hi : i < d.size) :
    Needs d (row, .call f [argument]) (some (i : Int), argument)

/-- The second evaluation stands in a strict position of the first one. -/
def Strict (d : Dataset) (a b : Option Int × Expr) : Prop := Relation.ReflTransGen (Needs d) a b

section Steps
variable {d : Dataset} {row : Option Int} {v : Value}

/-- An arithmetic expression with a value has operands with values that stand for numbers. -/
theorem eval_arith_inv {op : String} {l r : Expr} (h : eval d row (.arith op l r) = .ok v) :
    ∃ a m b n k, l.eval d row = .ok a ∧ operand op .left a = .ok m ∧ r.eval d row = .ok b ∧
      operand op .right b = .ok n ∧ calculate op m n = .ok k ∧ v = .number k := by
  rw [eval_arith] at h
  obtain ⟨a, ha, h⟩ := bind_eq_ok_iff.mp h
  obtain ⟨m, hm, h⟩ := bind_eq_ok_iff.mp h
  obtain ⟨b, hb, h⟩ := bind_eq_ok_iff.mp h
  obtain ⟨n, hn, h⟩ := bind_eq_ok_iff.mp h
  obtain ⟨k, hk, h⟩ := bind_eq_ok_iff.mp h
  cases h
  exact ⟨a, m, b, n, k, ha, hm, hb, hn, hk, rfl⟩

theorem eval_compare_inv {op : String} {l r : Expr} (h : eval d row (.compare op l r) = .ok v) :
    ∃ a b, l.eval d row = .ok a ∧ r.eval d row = .ok b ∧ compareValues op a b = .ok v := by
  rw [eval_compare] at h
  obtain ⟨a, ha, h⟩ := bind_eq_ok_iff.mp h
  obtain ⟨b, hb, h⟩ := bind_eq_ok_iff.mp h
  exact ⟨a, b, ha, hb, h⟩

/-- A choice with a value has a condition with a value, and has that of the arm that the condition selects, or is null
    where there is no such arm. -/
theorem eval_choose_inv {f : String} {args : List Expr} (hf : Function.ofName? f = some .choose)
    (h : eval d row (.call f args) = .ok v) : ∃ condition yes arms w, args = condition :: yes :: arms ∧
      condition.eval d row = .ok w ∧ (w.isTruthy = true → yes.eval d row = .ok v) ∧
      (w.isTruthy = false → ∀ no rest, arms = no :: rest → no.eval d row = .ok v) ∧
      (w.isTruthy = false → arms = [] → v = .null) := by
  rcases args with _ | ⟨condition, _ | ⟨yes, _ | ⟨no, _ | ⟨more, rest⟩⟩⟩⟩
  · rw [eval_choose_arity hf (by simp) (by simp)] at h
    cases h
  · rw [eval_choose_arity hf (by simp) (by simp)] at h
    cases h
  · rw [eval_choose_two hf] at h
    obtain ⟨w, hw, h⟩ := bind_eq_ok_iff.mp h
    refine ⟨condition, yes, [], w, rfl, hw, fun htrue => ?_, fun _ no rest harms => (nomatch harms), fun hfalse _ => ?_⟩
    · rwa [if_pos htrue] at h
    · rw [if_neg (Bool.eq_false_iff.mp hfalse)] at h
      cases h
      rfl
  · rw [eval_choose_three hf] at h
    obtain ⟨w, hw, h⟩ := bind_eq_ok_iff.mp h
    refine ⟨condition, yes, [no], w, rfl, hw, fun htrue => ?_, fun hfalse no' rest harms => ?_, fun _ harms => ?_⟩
    · rwa [if_pos htrue] at h
    · cases harms
      rwa [if_neg (Bool.eq_false_iff.mp hfalse)] at h
    · cases harms
  · rw [eval_choose_arity hf (by simp) (by simp)] at h
    cases h

/-- A quotient with a value has a divisor that is neither null nor stands for zero. -/
theorem eval_divide_inv {l r : Expr} (h : eval d row (.arith "/" l r) = .ok v) :
    ∃ w, r.eval d row = .ok w ∧ w ≠ .null ∧ w.toNumber.isZero = false := by
  obtain ⟨a, m, b, n, k, -, -, hb, hn, hk, -⟩ := eval_arith_inv h
  have hop : ArithOp.ofSymbol? "/" = some .divide := ArithOp.ofSymbol?_symbol .divide
  have hnonzero : n.isZero = false := by
    simp only [calculate, hop] at hk
    split at hk
    · cases hk
    · next hzero => exact Bool.eq_false_iff.mpr hzero
  refine ⟨b, hb, ?_, ?_⟩
  · rintro rfl
    cases hn
    exact absurd hnonzero (by decide +kernel)
  · unfold operand at hn
    split at hn
    · rfl
    · split at hn
      · cases hn
      · cases hn
        exact hnonzero

/-- Zero of either sign, falsehood and the text of a zero stand for zero. -/
example : [Value.number (.float (.zero true)), .bool false, .text " -0.0"].all (·.toNumber.isZero) = true := by
  decide +kernel

end Steps

/-! ### What is needed -/

section Strict
variable {d : Dataset} {a b : Option Int × Expr}

/-- What an evaluation with a value needs at once has a value. -/
theorem exists_eval_of_needs (h : Needs d a b) (ha : ∃ v, a.2.eval d a.1 = .ok v) : ∃ v, b.2.eval d b.1 = .ok v := by
  obtain ⟨v, hv⟩ := ha
  cases h with
  | arithLeft row op l r =>
    obtain ⟨x, -, -, -, -, hx, -⟩ := eval_arith_inv hv
    exact ⟨x, hx⟩
  | arithRight row op l r =>
    obtain ⟨-, -, x, -, -, -, -, hx, -⟩ := eval_arith_inv hv
    exact ⟨x, hx⟩
  | compareLeft row op l r =>
    obtain ⟨x, -, hx, -⟩ := eval_compare_inv hv
    exact ⟨x, hx⟩
  | compareRight row op l r =>
    obtain ⟨-, x, -, hx, -⟩ := eval_compare_inv hv
    exact ⟨x, hx⟩
  | condition hf row condition arms =>
    obtain ⟨c, yes, rest, w, hargs, hw, -⟩ := eval_choose_inv hf hv
    cases hargs
    exact ⟨w, hw⟩
  | yes hf hw htrue yes arms =>
    obtain ⟨c, yes', rest, w, hargs, hw', hyes, -⟩ := eval_choose_inv hf hv
    cases hargs
    cases hw.symm.trans hw'
    exact ⟨v, hyes htrue⟩
  | no hf hw hfalse yes no arms =>
    obtain ⟨c, yes', rest, w, hargs, hw', -, hno, -⟩ := eval_choose_inv hf hv
    cases hargs
    cases hw.symm.trans hw'
    exact ⟨v, hno hfalse no arms rfl⟩
  | counted hf row hargument hi =>
    rw [eval_countDistinct hf hargument] at hv
    obtain ⟨values, hvalues, -⟩ := map_eq_ok_iff.mp hv
    exact exists_of_mapM_eq_ok hvalues _ (List.mem_range.mpr hi)

/-- What stands in a strict position of an evaluation with a value has a value. -/
theorem exists_eval_of_strict (h : Strict d a b) (ha : ∃ v, a.2.eval d a.1 = .ok v) : ∃ v, b.2.eval d b.1 = .ok v := by
  induction h with
  | refl => exact ha
  | tail _ hneeds ih => exact exists_eval_of_needs hneeds ih

end Strict

/-! ### What is not needed -/

section Choose
variable {d : Dataset} {row : Option Int} {f : String} (hf : Function.ofName? f = some .choose) {condition : Expr}
include hf

/-- A choice of one arm has null for the other one. -/
theorem eval_choose_null (yes : Expr) :
    eval d row (.call f [condition, yes]) = eval d row (.call f [condition, yes, .null]) := by
  rw [eval_choose_two hf, eval_choose_three hf, eval_null]

theorem eval_choose_true {v : Value} (hv : condition.eval d row = .ok v) (htrue : v.isTruthy = true) (yes no : Expr) :
    eval d row (.call f [condition, yes, no]) = yes.eval d row := by
  rw [eval_choose_three hf, hv]
  exact if_pos htrue

theorem eval_choose_false {v : Value} (hv : condition.eval d row = .ok v) (hfalse : v.isTruthy = false)
    (yes no : Expr) : eval d row (.call f [condition, yes, no]) = no.eval d row := by
  rw [eval_choose_three hf, hv]
  exact if_neg (Bool.eq_false_iff.mp hfalse)

theorem eval_choose_error {x : MetricError} (hx : condition.eval d row = .error x) (yes no : Expr) :
    eval d row (.call f [condition, yes, no]) = .error x := by
  rw [eval_choose_three hf, hx]
  rfl

end Choose

/-- The words of a choice of one arm, of one whose other arm is left out, and of one whose other arm is null. -/
theorem derives_choose {us vs : List Lexeme} {condition yes : Expr} (hcondition : Derives .slot us condition)
    (hyes : Derives .slot vs yes) (f : String) {null : String} (hnull : upper null = "NULL") :
    Derives .expression (.name f :: .opening :: us ++ .comma :: vs ++ [.closing]) (.call (upper f) [condition, yes]) ∧
    Derives .expression (.name f :: .opening :: us ++ .comma :: vs ++ [.comma, .closing])
      (.call (upper f) [condition, yes, .null]) ∧
    Derives .expression (.name f :: .opening :: us ++ .comma :: vs ++ [.comma, .name null, .closing])
      (.call (upper f) [condition, yes, .null]) := by
  have hcall : ∀ slots : List (List Lexeme × Expr), (∀ x ∈ slots, Derives .slot x.1 x.2) →
      slots.map Prod.fst ≠ [[]] →
      Derives .expression (.name f :: .opening :: [.comma].intercalate (slots.map Prod.fst) ++ [.closing])
        (.call (upper f) (slots.map Prod.snd)) :=
    fun slots hslots hone => .expression (.sum (.product (.call f slots hslots hone)))
  have htwo := hcall [(us, condition), (vs, yes)] (by simp [hcondition, hyes]) (by simp)
  have homitted := hcall [(us, condition), (vs, yes), ([], .null)] (by simp [hcondition, hyes, Derives.omitted])
    (by simp)
  have hword : Derives .slot [.name null] .null := .filled (.expression (.sum (.product (.null hnull))))
  have hthree := hcall [(us, condition), (vs, yes), ([.name null], .null)] (by simp [hcondition, hyes, hword]) (by simp)
  refine ⟨?_, ?_, ?_⟩
  · simpa [List.intercalate_cons_of_ne_nil] using htwo
  · simpa [List.intercalate_cons_of_ne_nil] using homitted
  · simpa [List.intercalate_cons_of_ne_nil] using hthree

/-- An evaluation with a value has values in all strict positions, and no divisor there is null or stands for zero; a
    quotient by such a divisor in a strict position makes the evaluation fail. The arm of a choice that is not
    selected can be any expression, and so can both if the condition fails. A choice of one arm comes to what it
    comes to with null for the other one, be it written or left out. -/
theorem eval_strict (d : Dataset) :
    (∀ row e row' x, (∃ v, e.eval d row = .ok v) → Strict d (row, e) (row', x) → ∃ v, x.eval d row' = .ok v) ∧
    (∀ row e row' l r, (∃ v, e.eval d row = .ok v) → Strict d (row, e) (row', .arith "/" l r) →
      ∃ w, r.eval d row' = .ok w ∧ w ≠ .null ∧ w.toNumber.isZero = false) ∧
    (∀ row e row' l r w, Strict d (row, e) (row', .arith "/" l r) → r.eval d row' = .ok w →
      w = .null ∨ w.toNumber.isZero = true → ∃ x, e.eval d row = .error x) ∧
    (∀ f condition row, Function.ofName? f = some .choose →
      (∀ v, condition.eval d row = .ok v → v.isTruthy = true → ∀ yes no no',
        eval d row (.call f [condition, yes, no]) = eval d row (.call f [condition, yes, no'])) ∧
      (∀ v, condition.eval d row = .ok v → v.isTruthy = false → ∀ yes yes',
        (∀ no, eval d row (.call f [condition, yes, no]) = eval d row (.call f [condition, yes', no])) ∧
        eval d row (.call f [condition, yes]) = eval d row (.call f [condition, yes'])) ∧
      (∀ x, condition.eval d row = .error x → ∀ yes yes',
        (∀ no no', eval d row (.call f [condition, yes, no]) = eval d row (.call f [condition, yes', no'])) ∧
        eval d row (.call f [condition, yes]) = eval d row (.call f [condition, yes'])) ∧
      ∀ yes, eval d row (.call f [condition, yes]) = eval d row (.call f [condition, yes, .null])) ∧
    ∀ f null us vs condition yes, Function.ofName? (upper f) = some .choose → upper null = "NULL" →
      Derives .slot us condition → Derives .slot vs yes → ∃ two three,
        Derives .expression (.name f :: .opening :: us ++ .comma :: vs ++ [.closing]) two ∧
        Derives .expression (.name f :: .opening :: us ++ .comma :: vs ++ [.comma, .closing]) three ∧
        Derives .expression (.name f :: .opening :: us ++ .comma :: vs ++ [.comma, .name null, .closing]) three ∧
        ∀ row, two.eval d row = three.eval d row := by
  refine ⟨fun row e row' x h hstrict => exists_eval_of_strict hstrict h, fun row e row' l r h hstrict => ?_,
    fun row e row' l r w hstrict hw hzero => ?_, fun f condition row hf => ⟨?_, ?_, ?_, ?_⟩, ?_⟩
  · obtain ⟨v, hv⟩ := exists_eval_of_strict hstrict h
    exact eval_divide_inv hv
  · cases he : e.eval d row with
    | error x => exact ⟨x, rfl⟩
    | ok v =>
      obtain ⟨q, hq⟩ := exists_eval_of_strict hstrict ⟨v, he⟩
      obtain ⟨w', hw', hnull, hnonzero⟩ := eval_divide_inv hq
      cases hw.symm.trans hw'
      rcases hzero with hzero | hzero
      · exact absurd hzero hnull
      · rw [hnonzero] at hzero
        cases hzero
  · intro v hv htrue yes no no'
    rw [eval_choose_true hf hv htrue, eval_choose_true hf hv htrue]
  · intro v hv hfalse yes yes'
    have hno : ∀ no, eval d row (.call f [condition, yes, no]) = eval d row (.call f [condition, yes', no]) :=
      fun no => by rw [eval_choose_false hf hv hfalse, eval_choose_false hf hv hfalse]
    exact ⟨hno, by rw [eval_choose_null hf, eval_choose_null hf, hno]⟩
  · intro x hx yes yes'
    have hno : ∀ no no', eval d row (.call f [condition, yes, no]) = eval d row (.call f [condition, yes', no']) :=
      fun no no' => by rw [eval_choose_error hf hx, eval_choose_error hf hx]
    exact ⟨hno, by rw [eval_choose_null hf, eval_choose_null hf, hno]⟩
  · exact eval_choose_null hf
  · intro f null us vs condition yes hf hnull hcondition hyes
    obtain ⟨htwo, homitted, hthree⟩ := derives_choose hcondition hyes f hnull
    exact ⟨_, _, htwo, homitted, hthree, fun row => eval_choose_null hf yes⟩

/-- In the null row the condition does not hold and the divisor is null, and so the count fails; in the other row the
    same quotient is not needed. -/
theorem eval_strict_ragged :
    let d : Dataset := ⟨⟨["a", "b"], [some [.bool true], none]⟩, by decide⟩
    let quotient : Expr := .arith "/" (.number (.integer 1)) (.column "b")
    let count : Expr := .call "COUNT_DISTINCT" [.call "IF" [.column "a", .text "x", quotient]]
    Strict d (none, count) (some (1 : Nat), quotient) ∧ (∃ x, count.eval d none = .error x) ∧
    eval d (some 0) (.call "IF" [.column "a", .text "x", quotient]) =
      eval d (some 0) (.call "IF" [.column "a", .text "x", .call "RATIO" []]) := by
  intro d quotient count
  have hchoose : Function.ofName? "IF" = some .choose := by decide +kernel
  have hcount : Function.ofName? "COUNT_DISTINCT" = some (.aggregate .countDistinct) := by decide +kernel
  have hnull : eval d (some (1 : Nat)) (.column "a") = .ok .null := rfl
  have htrue : eval d (some 0) (.column "a") = .ok (.bool true) := rfl
  have hstrict : Strict d (none, count) (some (1 : Nat), quotient) :=
    .tail (.single (.counted hcount none (by simp) (by decide))) (.no hchoose hnull rfl (.text "x") quotient [])
  refine ⟨hstrict, ?_, ?_⟩
  · exact (eval_strict d).2.2.1 none count _ _ _ .null hstrict rfl (Or.inl rfl)
  · exact ((eval_strict d).2.2.2.1 "IF" (.column "a") (some 0) hchoose).1 _ htrue (by decide +kernel) _ _ _

end Expr
end TableMetrics
