import TableMetrics.Proofs.Dataset.Keys
import TableMetrics.Proofs.Expr.Strict
import TableMetrics.Proofs.Expr.Walk

/-! The values that an expression may have without a row. Whole numbers come from null, comparisons and counts only, so
    they are few; the cells of a table are seen as texts. -/

namespace TableMetrics

/-- Null, a text, a floating-point number, or a whole number that is not negative and is at most one or `size`. -/
def Value.InDomain (size : Nat) : Value → Prop
  | .null => True
  | .text _ => True
  | .number (.float _) => True
  | .number (.integer n) => 0 ≤ n ∧ n ≤ max 1 (size : Int)
  | .bool _ => False

/-- The whole numbers among operands are zero. -/
def Number.IsOperand (n : Number) : Prop := n = .integer 0 ∨ ∃ x, n = .float x

/-- Whole numbers stay whole in sums, differences and products, and zeros stay zero. -/
theorem Number.IsOperand.arith {m n : Number} (hm : m.IsOperand) (hn : n.IsOperand) :
    (m.add n).IsOperand ∧ (m.sub n).IsOperand ∧ (m.mul n).IsOperand := by
  rcases hm with rfl | ⟨x, rfl⟩
  · rcases hn with rfl | ⟨y, rfl⟩
    · exact ⟨Or.inl rfl, Or.inl rfl, Or.inl rfl⟩
    · exact ⟨Or.inr ⟨_, rfl⟩, Or.inr ⟨_, rfl⟩, Or.inr ⟨_, rfl⟩⟩
  · exact ⟨Or.inr ⟨_, rfl⟩, Or.inr ⟨_, rfl⟩, Or.inr ⟨_, rfl⟩⟩

namespace Expr
variable {d : Dataset} {op : String} {v : Value} {size : Nat}

theorem isOperand_of_operand {side : Side} {n : Number} (h : operand op side v = .ok n) : n.IsOperand := by
  unfold operand at h
  split at h
  · cases h
    exact Or.inl rfl
  · split at h
    · cases h
    · cases h
      exact Or.inr ⟨_, rfl⟩

theorem isOperand_of_calculate {m n k : Number} (hm : m.IsOperand) (hn : n.IsOperand) (h : calculate op m n = .ok k) :
    k.IsOperand := by
  obtain ⟨hadd, hsub, hmul⟩ := hm.arith hn
  unfold calculate at h
  split at h
  · cases h
    exact hadd
  · cases h
    exact hsub
  · cases h
    exact hmul
  · split at h
    · cases h
    · cases h
      exact Or.inr ⟨_, rfl⟩
  · cases h

theorem inDomain_of_isOperand {n : Number} (h : n.IsOperand) : (Value.number n).InDomain size := by
  rcases h with rfl | ⟨x, rfl⟩
  · exact ⟨Int.le_refl 0, by omega⟩
  · trivial

theorem inDomain_of_decideOrder {o : Option Ordering} (h : decideOrder op o = .ok v) : v.InDomain size := by
  unfold decideOrder at h
  split at h
  · cases h
    split <;> exact ⟨by decide, by omega⟩
  · cases h

theorem inDomain_of_compareValues {l r : Value} (h : compareValues op l r = .ok v) : v.InDomain size := by
  unfold compareValues at h
  split at h
  · exact inDomain_of_decideOrder h
  · exact inDomain_of_decideOrder h
  · obtain ⟨m, -, h⟩ := bind_eq_ok_iff.mp h
    obtain ⟨n, -, h⟩ := bind_eq_ok_iff.mp h
    exact inDomain_of_decideOrder h

theorem inDomain_of_columnText {name : String} (h : columnText d.view none name = .ok v) : v.InDomain size := by
  obtain ⟨w, -, rfl⟩ := map_eq_ok_iff.mp h
  trivial

theorem inDomain_count {n : Nat} (h : n ≤ size) : (Value.number (.integer n)).InDomain size := ⟨by omega, by omega⟩

theorem inDomain_of_aggregate {a : Aggregate} {name : String} {n : Number} (h : d.aggregate a name = .ok n) :
    (Value.number n).InDomain d.size := by
  rw [Dataset.aggregate_eq] at h
  obtain ⟨cells, hcells, h⟩ := bind_eq_ok_iff.mp h
  have hlength : (cells.filter (!·.isNull)).length ≤ d.size := by
    obtain ⟨i, -, rfl⟩ := map_eq_ok_iff.mp hcells
    exact (List.length_filter_le ..).trans (Nat.le_of_eq (List.length_map _))
  cases a with
  | count =>
    cases h
    exact inDomain_count hlength
  | countDistinct =>
    cases h
    exact inDomain_count ((length_distinctKeys_le cells).trans hlength)
  | statistic s =>
    obtain ⟨x, -, rfl⟩ := map_eq_ok_iff.mp h
    trivial

theorem inDomain_of_countDistinct {f : String} {args : List Expr} {row : Option Int}
    (hf : Function.ofName? f = some (.aggregate .countDistinct)) (hv : eval d row (.call f args) = .ok v) :
    v.InDomain d.size := by
  by_cases hone : ∃ argument, args = [argument]
  · obtain ⟨argument, rfl⟩ := hone
    rcases eq_column_or_ne argument with ⟨name, rfl⟩ | hargument
    · rw [eval_countDistinct_column hf] at hv
      obtain ⟨n, hn, rfl⟩ := map_eq_ok_iff.mp hv
      exact inDomain_of_aggregate hn
    · rw [eval_countDistinct hf hargument] at hv
      obtain ⟨values, hvalues, rfl⟩ := map_eq_ok_iff.mp hv
      have hlength : values.length = d.size := by
        rw [length_of_mapM_eq_ok hvalues, List.length_range]
      refine inDomain_count (((length_distinctKeys_le values).trans (List.length_filter_le ..)).trans ?_)
      exact Nat.le_of_eq hlength
  · rw [eval_countDistinct_arity hf fun argument hargs => hone ⟨argument, hargs⟩] at hv
    cases hv

/-- Without a row, an expression whose numbers are floating-point numbers has a value of few kinds. Only a choice passes
    the value of a part on; what a distinct count finds in the rows it only counts. -/
theorem inDomain_of_eval (e : Expr) (hnumber : ∀ n, .number n ∈ e.walk → ∃ x, n = .float x)
    (hv : e.eval d none = .ok v) : v.InDomain d.size := by
  induction e using inductionParts with
  | step e ih =>
    have hpart : ∀ x ∈ e.parts, x.eval d none = .ok v → v.InDomain d.size := fun x hx =>
      ih x hx fun n hn => hnumber n (mem_walk_part hx hn)
    cases e with
    | number n =>
      obtain ⟨x, rfl⟩ := hnumber n (mem_walk_self _)
      rw [eval_number] at hv
      cases hv
      trivial
    | text s =>
      rw [eval_literal] at hv
      cases hv
      trivial
    | null =>
      rw [eval_null] at hv
      cases hv
      trivial
    | column name =>
      rw [eval_column] at hv
      exact inDomain_of_columnText hv
    | arith op l r =>
      obtain ⟨a, m, b, n, k, -, hm, -, hn, hk, rfl⟩ := eval_arith_inv hv
      exact inDomain_of_isOperand (isOperand_of_calculate (isOperand_of_operand hm) (isOperand_of_operand hn) hk)
    | compare op l r =>
      obtain ⟨a, b, -, -, hcompare⟩ := eval_compare_inv hv
      exact inDomain_of_compareValues hcompare
    | call f args =>
      cases hf : Function.ofName? f with
      | none =>
        rw [eval_unknown hf] at hv
        cases hv
      | some g =>
        cases g with
        | choose =>
          obtain ⟨condition, yes, arms, w, rfl, -, hyes, hno, hnull⟩ := eval_choose_inv hf hv
          cases htruthy : w.isTruthy with
          | true => exact hpart yes (by simp [parts]) (hyes htruthy)
          | false =>
            cases arms with
            | nil =>
              obtain rfl := hnull htruthy rfl
              trivial
            | cons no rest => exact hpart no (by simp [parts]) (hno htruthy no rest rfl)
        | text =>
          rw [eval_text hf] at hv
          obtain ⟨name, -, htext⟩ := bind_eq_ok_iff.mp hv
          exact inDomain_of_columnText htext
        | aggregate a =>
          by_cases ha : a = .countDistinct
          · subst ha
            exact inDomain_of_countDistinct hf hv
          · rw [eval_aggregate hf ha] at hv
            obtain ⟨name, -, haggregate⟩ := bind_eq_ok_iff.mp hv
            obtain ⟨n, hn, rfl⟩ := map_eq_ok_iff.mp haggregate
            exact inDomain_of_aggregate hn

end Expr
end TableMetrics
