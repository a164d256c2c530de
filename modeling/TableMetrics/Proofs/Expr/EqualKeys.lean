import Mathlib.Data.Setoid.Basic
import TableMetrics.Proofs.Dataset.Keys
import TableMetrics.Proofs.Dataset.Lookup
import TableMetrics.Proofs.Expr.Call
import TableMetrics.Proofs.Expr.Comparison
import TableMetrics.Proofs.Number.Exact

/-! Equality of cells is equality of their keys. Texts and exact numbers are equal in a comparison if their texts are,
    and so the distinct count of a column of them counts its cells up to equality. -/

namespace TableMetrics

/-- A text or an exact number. -/
inductive Value.IsExact : Value → Prop where
  | text (s : String) : IsExact (.text s)
  | number {n : Number} (h : n.IsExact) : IsExact (.number n)

/-- Exact values are in an order, in which they are equal if their texts are. -/
theorem exists_ordered {a b : Value} (ha : a.IsExact) (hb : b.IsExact) :
    ∃ o, Ordered a b o ∧ (o = .eq ↔ a.toText = b.toText) := by
  cases ha with
  | text s => exact ⟨_, .texts ⟨s, Or.inl rfl⟩, Std.LawfulEqCmp.compare_eq_iff_eq⟩
  | @number m hm =>
    cases hb with
    | text s => exact ⟨_, .texts ⟨s, Or.inr rfl⟩, Std.LawfulEqCmp.compare_eq_iff_eq⟩
    | @number n hn =>
      have hkeys := hm.plainText_eq_iff hn
      obtain ⟨s, u, hu, hi, -⟩ := hm.exists_finite
      obtain ⟨t, v, hv, hj, -⟩ := hn.exists_finite
      rw [hi, hj] at hkeys
      refine ⟨_, .numbers (congrArg Binary64.rank? hi) (congrArg Binary64.rank? hj), ?_⟩
      rw [Std.LawfulEqCmp.compare_eq_iff_eq]
      exact (hkeys.trans Option.some_inj).symm

namespace Expr

/-- A comparison for equality of exact values compares their texts. -/
theorem eval_equal {a b : Value} (ha : a.IsExact) (hb : b.IsExact) {d : Dataset} {row : Option Int} {l r : Expr}
    (hl : l.eval d row = .ok a) (hr : r.eval d row = .ok b) :
    eval d row (.compare "=" l r) = .ok (.number (.integer (if a.toText = b.toText then 1 else 0))) := by
  obtain ⟨o, ho, hkeys⟩ := exists_ordered ha hb
  have hcompare := eval_compare_of_ordered hl hr ho .equal
  have houtcome : CompareOp.equal.outcome o = if a.toText = b.toText then 1 else 0 := by
    simp only [← hkeys, CompareOp.outcome, CompareOp.holds, Option.some_beq_some, beq_iff_eq]
  rwa [houtcome] at hcompare

/-- Two cells of one row are equal there. -/
def EqualInRow (a b : Value) : Prop :=
  eval ⟨⟨["a", "b"], [some [a, b]]⟩, (by decide : ["a", "b"].Nodup)⟩ (some 0) (.compare "=" (.column "a") (.column "b")) =
    .ok (.number (.integer 1))

theorem equalInRow_iff {a b : Value} (ha : a.IsExact) (hb : b.IsExact) : EqualInRow a b ↔ a.toText = b.toText := by
  unfold EqualInRow
  rw [eval_equal ha hb rfl rfl]
  split
  · next h => exact iff_of_true rfl h
  · next h => exact iff_of_false (by simp) h

/-- The cells of a column that are not null. -/
abbrev NonNull (cells : List Value) : Type := {v : Value // v ∈ cells ∧ v ≠ .null}

def NonNull.Equal {cells : List Value} (a b : NonNull cells) : Prop := EqualInRow a.1 b.1

/-- A relation that a function decides has as many classes as the function has values. -/
theorem card_quot {α β : Type} {R : α → α → Prop} {f : α → β} (h : ∀ a b, R a b ↔ f a = f b) :
    Nat.card (Quot R) = (Set.range f).ncard := by
  obtain rfl : R = Setoid.ker f := funext fun a => funext fun b => propext (h a b)
  exact Nat.card_congr (Setoid.quotientKerEquivRange f)

section Cells
variable {cells : List Value} (h : ∀ v ∈ cells, v = .null ∨ v.IsExact)
include h

theorem NonNull.equal_iff (a b : NonNull cells) : a.Equal b ↔ a.1.toText = b.1.toText :=
  equalInRow_iff ((h a.1 a.2.1).resolve_left a.2.2) ((h b.1 b.2.1).resolve_left b.2.2)

theorem NonNull.equivalence : Equivalence (@NonNull.Equal cells) where
  refl a := (equal_iff h a a).mpr rfl
  symm hab := (equal_iff h _ _).mpr ((equal_iff h _ _).mp hab).symm
  trans hab hbc := (equal_iff h _ _).mpr (((equal_iff h _ _).mp hab).trans ((equal_iff h _ _).mp hbc))

/-- There are as many keys as classes of equal cells. -/
theorem NonNull.card_quot_equal : Nat.card (Quot (@NonNull.Equal cells)) = (keys cells).ncard := by
  rw [card_quot (equal_iff h)]
  congr 1
  ext k
  simp [keys, and_assoc]

end Cells

/-- For texts and exact numbers, in whatever expressions and rows: they are equal if their texts are, and numbers are if
    their values are. So equality sorts the cells of a column of them, null left out, into classes, which the distinct
    count of the column counts. -/
theorem eval_equal_iff_key :
    (∀ a b : Value, a.IsExact → b.IsExact →
      (∀ d row l r, eval d row l = .ok a → eval d row r = .ok b →
        eval d row (.compare "=" l r) = .ok (.number (.integer (if a.toText = b.toText then 1 else 0)))) ∧
      ∀ m n, a = .number m → b = .number n → (a.toText = b.toText ↔ m.value? = n.value?)) ∧
    ∀ (d : Dataset) (name : String) (cells : List Value), d.columnValues name = .ok cells →
      (∀ v ∈ cells, v = .null ∨ v.IsExact) →
      Equivalence (@NonNull.Equal cells) ∧
      ∀ f row, Function.ofName? f = some (.aggregate .countDistinct) →
        eval d row (.call f [.column name]) = .ok (.number (.integer (Nat.card (Quot (@NonNull.Equal cells))))) := by
  refine ⟨fun a b ha hb => ⟨fun d row l r hl hr => eval_equal ha hb hl hr, ?_⟩, ?_⟩
  · rintro m n rfl rfl
    cases ha with
    | number hm =>
      cases hb with
      | number hn => exact (hm.plainText_eq_iff hn).trans (hm.rank?_eq_iff hn)
  · intro d name cells hcells hexact
    refine ⟨NonNull.equivalence hexact, fun f row hf => ?_⟩
    rw [NonNull.card_quot_equal hexact, ← length_distinctKeys, eval_countDistinct_column hf, Dataset.aggregate_eq, hcells]
    rfl

/-- Both zeros are the whole number zero, and as a text it is that text: they are one cell, as far as equality tells. -/
theorem eval_equal_iff_key_zeros :
    eval ⟨⟨["a", "b"], [some [.number (.float (.zero true)), .number (.integer 0)]]⟩, by decide⟩ (some 0)
      (.compare "=" (.column "a") (.column "b")) = .ok (.number (.integer 1)) ∧
    (Number.float (.zero true)).value? = (Number.integer 0).value? ∧
    Equivalence (@NonNull.Equal [.number (.float (.zero true)), .null, .text "0"]) ∧
    eval ⟨⟨["a"], [some [.number (.float (.zero true))], none, some [.text "0"]]⟩, by decide⟩ none
      (.call "COUNT_DISTINCT" [.column "a"]) =
        .ok (.number (.integer (Nat.card (Quot (@NonNull.Equal [.number (.float (.zero true)), .null, .text "0"]))))) := by
  have hzero : (Value.number (.float (.zero true))).IsExact := .number (.float true 0 fits_zero)
  have hinteger : (Value.number (.integer 0)).IsExact := .number (.integer (by decide))
  have hkey : (Value.number (.float (.zero true))).toText = (Value.number (.integer 0)).toText := by decide +kernel
  have hcells : ∀ v ∈ [Value.number (.float (.zero true)), .null, .text "0"], v = .null ∨ v.IsExact := by
    simp [hzero, Value.IsExact.text]
  have hcount : Function.ofName? "COUNT_DISTINCT" = some (.aggregate .countDistinct) :=
    Function.ofName?_of_mem (by decide)
  obtain ⟨hequal, hvalue⟩ := eval_equal_iff_key.1 _ _ hzero hinteger
  obtain ⟨hequivalence, hdistinct⟩ := eval_equal_iff_key.2
    ⟨⟨["a"], [some [.number (.float (.zero true))], none, some [.text "0"]]⟩, by decide⟩ "a" _ rfl hcells
  refine ⟨?_, (hvalue _ _ rfl rfl).mp hkey, hequivalence, hdistinct _ _ hcount⟩
  rw [hequal _ _ _ _ rfl rfl, if_pos hkey]

end Expr
end TableMetrics
