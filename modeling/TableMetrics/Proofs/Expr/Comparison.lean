import TableMetrics.Proofs.Expr.Strict

/-! The laws of the seven comparisons. Two values are in one order or in none, whatever the comparison: as texts if one
    of them is a text, and as numbers otherwise. In no order all seven fail alike, and in an order each of them reads
    off it whether it holds. -/

namespace TableMetrics

/-- The place of a value among the numbers. Null stands for zero, and text has no place. -/
def Value.rank? : Value → Option Int
  | .null => some 0
  | .text _ => none
  | v => v.toNumber.rank?

/-- The order of two values in a comparison. A text is in the order of code points with the text of any value; other
    values are in the order of floating-point numbers, which a NaN has no place in. -/
inductive Ordered : Value → Value → Ordering → Prop where
  | texts {a b : Value} (htext : ∃ s, a = .text s ∨ b = .text s) : Ordered a b (compare a.toText b.toText)
  | numbers {a b : Value} {i j : Int} (hi : a.rank? = some i) (hj : b.rank? = some j) : Ordered a b (compare i j)

namespace Ordered
variable {a b : Value} {o : Ordering}

theorem swap (h : Ordered a b o) : Ordered b a o.swap := by
  cases h with
  | texts htext =>
    rw [← Std.OrientedOrd.eq_swap]
    obtain ⟨s, h | h⟩ := htext
    · exact .texts ⟨s, Or.inr h⟩
    · exact .texts ⟨s, Or.inl h⟩
  | numbers hi hj =>
    rw [← Std.OrientedOrd.eq_swap]
    exact .numbers hj hi

theorem self (h : Ordered a a o) : o = .eq := by
  cases h with
  | texts => exact Std.ReflCmp.compare_self
  | numbers hi hj =>
    cases hi.symm.trans hj
    exact Std.ReflCmp.compare_self

end Ordered

namespace CompareOp

/-- The comparison of the sides the other way round. -/
def swap : CompareOp → CompareOp
  | .greater => .less
  | .less => .greater
  | .greaterEqual => .lessEqual
  | .lessEqual => .greaterEqual
  | op => op

/-- What a comparison of values in an order comes to. -/
def outcome (op : CompareOp) (o : Ordering) : Int := if op.holds (some o) then 1 else 0

theorem outcome_swap (op : CompareOp) (o : Ordering) : op.swap.outcome o.swap = op.outcome o := by
  cases op <;> cases o <;> rfl

end CompareOp

/-- The laws of what the seven comparisons of values in an order come to. -/
structure ComparisonLaws (o : Ordering) (c : CompareOp → Int) : Prop where
  zero_or_one : ∀ op, c op = 0 ∨ c op = 1
  doubleEqual : c .doubleEqual = c .equal
  trichotomy : c .less + c .equal + c .greater = 1
  notEqual : c .notEqual = 1 - c .equal
  lessEqual : c .lessEqual = 1 - c .greater
  greaterEqual : c .greaterEqual = 1 - c .less
  less : c .less = 1 ↔ o = .lt
  greater : c .greater = 1 ↔ o = .gt

theorem comparisonLaws (o : Ordering) : ComparisonLaws o (·.outcome o) where
  zero_or_one op := by
    unfold CompareOp.outcome
    split
    · exact Or.inr rfl
    · exact Or.inl rfl
  doubleEqual := rfl
  trichotomy := by cases o <;> rfl
  notEqual := by cases o <;> rfl
  lessEqual := by cases o <;> rfl
  greaterEqual := by cases o <;> rfl
  less := by cases o <;> decide
  greater := by cases o <;> decide

namespace Expr

theorem decideOrder_symbol (op : CompareOp) (o : Ordering) :
    decideOrder op.symbol (some o) = .ok (.number (.integer (op.outcome o))) := by
  unfold decideOrder
  rw [CompareOp.ofSymbol?_symbol]
  rfl

section Values
variable {a b : Value}

theorem operand_of_ne_null (hnull : a ≠ .null) (op : String) (side : Side) : operand op side a =
    if a.toNumber.isNaN then .error (.notNumeric op side a) else .ok (.float a.toNumber) := by
  cases a with
  | null => exact absurd rfl hnull
  | bool | number | text => rfl

theorem rank?_of_ne (hnull : a ≠ .null) (htext : ∀ s, a ≠ .text s) : a.rank? = a.toNumber.rank? := by
  cases a with
  | null => exact absurd rfl hnull
  | text s => exact absurd rfl (htext s)
  | bool | number => rfl

/-- An operand with a place among the numbers stands for a number in that place. -/
theorem operand_of_rank? {i : Int} (h : a.rank? = some i) :
    ∃ m : Number, m.toBinary64.rank? = some i ∧ ∀ op side, operand op side a = .ok m := by
  by_cases hnull : a = .null
  · subst hnull
    cases h
    exact ⟨.integer 0, by decide +kernel, fun _ _ => rfl⟩
  have htext : ∀ s, a ≠ .text s := by
    rintro s rfl
    cases h
  rw [rank?_of_ne hnull htext] at h
  refine ⟨.float a.toNumber, h, fun op side => ?_⟩
  have hnumber : a.toNumber.isNaN = false := by
    generalize a.toNumber = x at h
    cases x with
    | nan => cases h
    | infinite | finite => rfl
  rw [operand_of_ne_null hnull, hnumber]
  rfl

theorem operand_of_rank?_none (htext : ∀ s, a ≠ .text s) (h : a.rank? = none) (op : String) (side : Side) :
    operand op side a = .error (.notNumeric op side a) := by
  have hnull : a ≠ .null := by
    rintro rfl
    cases h
  rw [rank?_of_ne hnull htext] at h
  rw [operand_of_ne_null hnull]
  generalize a.toNumber = x at h
  cases x with
  | nan => rfl
  | infinite | finite => cases h

theorem compareValues_texts (htext : ∃ s, a = .text s ∨ b = .text s) (op : String) :
    compareValues op a b = decideOrder op (some (Ord.compare a.toText b.toText)) := by
  obtain ⟨s, rfl | rfl⟩ := htext
  · rfl
  · cases a with
    | null | bool | number | text => rfl

theorem compareValues_numbers (htext : ¬∃ s, a = .text s ∨ b = .text s) (op : String) :
    compareValues op a b = (operand op .left a >>= fun m => operand op .right b >>= fun n =>
      decideOrder op (m.toBinary64.order? n.toBinary64)) := by
  cases a with
  | text s => exact absurd ⟨s, Or.inl rfl⟩ htext
  | null | bool | number =>
    cases b with
    | text s => exact absurd ⟨s, Or.inr rfl⟩ htext
    | null | bool | number => rfl

theorem compareValues_of_ordered {o : Ordering} (h : Ordered a b o) (op : CompareOp) :
    compareValues op.symbol a b = .ok (.number (.integer (op.outcome o))) := by
  cases h with
  | texts htext => rw [compareValues_texts htext, decideOrder_symbol]
  | @numbers i j hi hj =>
    have htext : ¬∃ s, a = .text s ∨ b = .text s := by
      rintro ⟨s, rfl | rfl⟩
      · cases hi
      · cases hj
    obtain ⟨m, hm, hleft⟩ := operand_of_rank? hi
    obtain ⟨n, hn, hright⟩ := operand_of_rank? hj
    have horder : m.toBinary64.order? n.toBinary64 = some (Ord.compare i j) := by
      unfold Binary64.order?
      rw [hm, hn]
      rfl
    rw [compareValues_numbers htext, hleft, hright, ← decideOrder_symbol, ← horder]
    rfl

/-- Values in no order are no operands of any comparison. -/
theorem compareValues_of_unordered (h : ∀ o, ¬Ordered a b o) :
    ∃ side v, ∀ op, compareValues op a b = .error (.notNumeric op side v) := by
  have htext : ¬∃ s, a = .text s ∨ b = .text s := fun htext => h _ (.texts htext)
  simp only [compareValues_numbers htext]
  cases hi : a.rank? with
  | none =>
    refine ⟨.left, a, fun op => ?_⟩
    rw [operand_of_rank?_none (fun s hs => htext ⟨s, Or.inl hs⟩) hi]
    rfl
  | some i =>
    obtain ⟨m, -, hleft⟩ := operand_of_rank? hi
    have hj : b.rank? = none := Option.eq_none_iff_forall_ne_some.mpr fun j hj => h _ (.numbers hi hj)
    refine ⟨.right, b, fun op => ?_⟩
    rw [hleft, operand_of_rank?_none (fun s hs => htext ⟨s, Or.inr hs⟩) hj]
    rfl

end Values

theorem eval_compare_of_ordered {d : Dataset} {row : Option Int} {l r : Expr} {a b : Value} {o : Ordering}
    (hl : l.eval d row = .ok a) (hr : r.eval d row = .ok b) (h : Ordered a b o) (op : CompareOp) :
    eval d row (.compare op.symbol l r) = .ok (.number (.integer (op.outcome o))) := by
  rw [eval_compare, hl, hr]
  exact compareValues_of_ordered h op

/-- For all expressions on the sides, over every dataset and at every row: the seven comparisons fail as one kind, or
    their sides have values in an order, and they come to zeros and ones that obey the laws of that order. Then the
    comparisons with the sides exchanged come to the same zeros and ones, each for the other one, and an expression is
    equal to itself. -/
theorem eval_compare_laws (d : Dataset) (row : Option Int) (l r : Expr) :
    (∃ kind, ∀ op : CompareOp, ∃ e, eval d row (.compare op.symbol l r) = .error e ∧ e.kind = kind) ∨
    ∃ (a b : Value) (o : Ordering) (c : CompareOp → Int),
      l.eval d row = .ok a ∧ r.eval d row = .ok b ∧ Ordered a b o ∧ ComparisonLaws o c ∧
      (∀ op, eval d row (.compare op.symbol l r) = .ok (.number (.integer (c op)))) ∧
      (∀ op, eval d row (.compare op.swap.symbol r l) = .ok (.number (.integer (c op)))) ∧
      (l = r → c .equal = 1) := by
  cases hl : l.eval d row with
  | error x =>
    refine Or.inl ⟨x.kind, fun op => ⟨x, ?_, rfl⟩⟩
    rw [eval_compare, hl]
    rfl
  | ok a =>
    cases hr : r.eval d row with
    | error x =>
      refine Or.inl ⟨x.kind, fun op => ⟨x, ?_, rfl⟩⟩
      rw [eval_compare, hl, hr]
      rfl
    | ok b =>
      by_cases h : ∃ o, Ordered a b o
      · obtain ⟨o, h⟩ := h
        refine Or.inr ⟨a, b, o, (·.outcome o), rfl, rfl, h, comparisonLaws o, eval_compare_of_ordered hl hr h,
          fun op => ?_, ?_⟩
        · rw [eval_compare_of_ordered hr hl h.swap, CompareOp.outcome_swap]
        · rintro rfl
          cases hl.symm.trans hr
          rw [h.self]
          rfl
      · obtain ⟨side, v, hfails⟩ := compareValues_of_unordered (not_exists.mp h)
        refine Or.inl ⟨.type, fun op => ⟨.notNumeric op.symbol side v, ?_, rfl⟩⟩
        rw [eval_compare, hl, hr]
        exact hfails op.symbol

end Expr
end TableMetrics
