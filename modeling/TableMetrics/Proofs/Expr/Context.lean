import Mathlib.Data.List.Forall2
import TableMetrics.Proofs.Expr.Call

/-! Expressions with a hole. What stands in the hole matters only for what it evaluates to, unless it is an argument of a
    function that takes a column: there it matters whether it is a column, and which one. -/

namespace TableMetrics

/-- An expression with a hole in the place of one of its parts, or of itself. -/
inductive Context where
  | hole
  | call (function : String) (before : List Expr) (inside : Context) (after : List Expr)
  | arithLeft (op : String) (inside : Context) (right : Expr)
  | arithRight (op : String) (left : Expr) (inside : Context)
  | compareLeft (op : String) (inside : Context) (right : Expr)
  | compareRight (op : String) (left : Expr) (inside : Context)

namespace Context

def fill (e : Expr) : Context → Expr
  | .hole => e
  | .call f before inside after => .call f (before ++ inside.fill e :: after)
  | .arithLeft op inside r => .arith op (inside.fill e) r
  | .arithRight op l inside => .arith op l (inside.fill e)
  | .compareLeft op inside r => .compare op (inside.fill e) r
  | .compareRight op l inside => .compare op l (inside.fill e)

/-- The hole is no argument of a call of a function other than the choice. -/
def IsOpen : Context → Prop
  | .hole => True
  | .call f _ inside _ => (inside = .hole → ∀ g, Function.ofName? f = some g → g = .choose) ∧ inside.IsOpen
  | .arithLeft _ inside _ => inside.IsOpen
  | .arithRight _ _ inside => inside.IsOpen
  | .compareLeft _ inside _ => inside.IsOpen
  | .compareRight _ _ inside => inside.IsOpen

/-- A context that is not the hole alone is no column, whatever stands in the hole. -/
theorem fill_ne_column {C : Context} (h : C ≠ .hole) (e : Expr) (name : String) : C.fill e ≠ .column name := by
  cases C with
  | hole => exact absurd rfl h
  | _ => simp [fill]

end Context

namespace Expr
variable {d : Dataset}

/-- Two expressions come to the same at every row and without one: to one value, or to failures of one kind. -/
def SameValue (d : Dataset) (e e' : Expr) : Prop := ∀ row, Agree False (e.eval d row) (e'.eval d row)

/-- Two expressions are the same column, or neither of them is a column. -/
def SameColumn (e e' : Expr) : Prop := ∀ name, e = .column name ↔ e' = .column name

theorem SameValue.refl (e : Expr) : SameValue d e e := fun _ => .refl _

theorem SameColumn.refl (e : Expr) : SameColumn e e := fun _ => Iff.rfl

theorem SameValue.arith {l l' r r' : Expr} (hl : SameValue d l l') (hr : SameValue d r r') (op : String) :
    SameValue d (.arith op l r) (.arith op l' r') := fun row => by
  rw [eval_arith, eval_arith]
  refine (hl row).bind fun left _ => (Agree.refl _).bind fun m _ => ?_
  exact (hr row).bind fun right _ => .refl _

theorem SameValue.compare {l l' r r' : Expr} (hl : SameValue d l l') (hr : SameValue d r r') (op : String) :
    SameValue d (.compare op l r) (.compare op l' r') := fun row => by
  rw [eval_compare, eval_compare]
  exact (hl row).bind fun left _ => (hr row).bind fun right _ => .refl _

/-! ### Calls

By two names, which may be one, that denote the same function or none. -/

section Call
variable {f g : String} {args args' : List Expr}

/-- A choice comes to the same for arguments that do. -/
theorem SameValue.choose (hf : Function.ofName? f = some .choose) (hg : Function.ofName? g = some .choose)
    (h : List.Forall₂ (SameValue d) args args') : SameValue d (.call f args) (.call g args') := fun row => by
  rcases h with _ | ⟨hcondition, _ | ⟨hyes, _ | ⟨hno, _ | ⟨-, -⟩⟩⟩⟩
  · rw [eval_choose_arity hf (by simp) (by simp), eval_choose_arity hg (by simp) (by simp)]
    exact .refl _
  · rw [eval_choose_arity hf (by simp) (by simp), eval_choose_arity hg (by simp) (by simp)]
    exact .refl _
  · rw [eval_choose_two hf, eval_choose_two hg]
    refine (hcondition row).bind fun v _ => ?_
    split
    · exact hyes row
    · exact .refl _
  · rw [eval_choose_three hf, eval_choose_three hg]
    refine (hcondition row).bind fun v _ => ?_
    split
    · exact hyes row
    · exact hno row
  · rw [eval_choose_arity hf (by simp) (by simp), eval_choose_arity hg (by simp) (by simp)]
    exact .refl _

/-- The column that is the only argument is the same, and otherwise there is none. The messages may differ: they show
    the name of the function and the argument. -/
theorem columnArgument_of_sameColumn (h : List.Forall₂ SameColumn args args') :
    Agree False (columnArgument d.view f args) (columnArgument d.view g args') := by
  rcases h with _ | ⟨hcolumn, _ | ⟨-, hrest⟩⟩
  · exact .error rfl False.elim
  · next e e' =>
    rcases e.eq_column_or_ne with ⟨name, rfl⟩ | hne
    · obtain rfl := (hcolumn name).mp rfl
      exact .refl _
    · rw [columnArgument_of_ne hne, columnArgument_of_ne fun name heq => hne name ((hcolumn name).mpr heq)]
      exact .error rfl False.elim
  · rw [columnArgument_arity (by simp), columnArgument_arity (by simp)]
    exact .error rfl False.elim

/-- A distinct count comes to the same for arguments that do, if they are the same columns. -/
theorem SameValue.countDistinct (hf : Function.ofName? f = some (.aggregate .countDistinct))
    (hg : Function.ofName? g = some (.aggregate .countDistinct)) (h : List.Forall₂ (SameValue d) args args')
    (hcolumn : List.Forall₂ SameColumn args args') : SameValue d (.call f args) (.call g args') := fun row => by
  rcases h with _ | ⟨hvalue, _ | ⟨-, -⟩⟩
  · rw [eval_countDistinct_arity hf (by simp), eval_countDistinct_arity hg (by simp)]
    exact .error rfl False.elim
  · next e e' =>
    obtain ⟨hcolumn, -⟩ := List.forall₂_cons.mp hcolumn
    rcases e.eq_column_or_ne with ⟨name, rfl⟩ | hne
    · obtain rfl := (hcolumn name).mp rfl
      rw [eval_countDistinct_column hf, eval_countDistinct_column hg]
      exact .refl _
    · rw [eval_countDistinct hf hne, eval_countDistinct hg fun name heq => hne name ((hcolumn name).mpr heq)]
      exact (Agree.mapM fun i _ => hvalue _).map _
  · rw [eval_countDistinct_arity hf (by simp), eval_countDistinct_arity hg (by simp)]
    exact .error rfl False.elim

/-- A call comes to the same for arguments that do, if they are the same columns where its function takes one. -/
theorem SameValue.call (hname : Function.ofName? f = Function.ofName? g) (h : List.Forall₂ (SameValue d) args args')
    (hcolumn : (∀ function, Function.ofName? f = some function → function = .choose) ∨
      List.Forall₂ SameColumn args args') : SameValue d (.call f args) (.call g args') := by
  cases hf : Function.ofName? f with
  | none =>
    intro row
    rw [eval_unknown hf, eval_unknown (hname ▸ hf)]
    exact .error rfl False.elim
  | some function =>
    have hg : Function.ofName? g = some function := hname ▸ hf
    rcases hcolumn with hchoose | hcolumn
    · obtain rfl := hchoose function hf
      exact .choose hf hg h
    · match function, hf, hg with
      | .choose, hf, hg => exact .choose hf hg h
      | .aggregate a, hf, hg =>
        by_cases ha : a = .countDistinct
        · subst ha
          exact .countDistinct hf hg h hcolumn
        · intro row
          rw [eval_aggregate hf ha, eval_aggregate hg ha]
          exact (columnArgument_of_sameColumn hcolumn).bind fun _ _ => .refl _
      | .text, hf, hg =>
        intro row
        rw [eval_text hf, eval_text hg]
        exact (columnArgument_of_sameColumn hcolumn).bind fun _ _ => .refl _

end Call

/-- Lists that differ in one member are related member by member if these two are. -/
theorem forall₂_replace {R : Expr → Expr → Prop} (hrefl : ∀ x, R x x) {e e' : Expr} (h : R e e')
    (before after : List Expr) : List.Forall₂ R (before ++ e :: after) (before ++ e' :: after) :=
  List.rel_append (List.forall₂_same.mpr fun x _ => hrefl x) (.cons h (List.forall₂_same.mpr fun x _ => hrefl x))

/-- Around an open hole, what comes to the same can be replaced. The induction is on the context: only a call looks at
    its arguments themselves, and what is not the hole alone is the same column with either filling, namely none. -/
theorem SameValue.fill {e e' : Expr} (h : SameValue d e e') {C : Context} (hC : C.IsOpen) :
    SameValue d (C.fill e) (C.fill e') := by
  induction C with
  | hole => exact h
  | call f before inside after ih =>
    obtain ⟨hhole, hinside⟩ := hC
    refine .call rfl (forall₂_replace .refl (ih hinside) before after) ?_
    by_cases hinside : inside = .hole
    · exact Or.inl (hhole hinside)
    · refine Or.inr (forall₂_replace .refl (fun name => ?_) before after)
      exact iff_of_false (Context.fill_ne_column hinside e name) (Context.fill_ne_column hinside e' name)
  | arithLeft op inside r ih => exact (ih hC).arith (.refl r) op
  | arithRight op l inside ih => exact (SameValue.refl l).arith (ih hC) op
  | compareLeft op inside r ih => exact (ih hC).compare (.refl r) op
  | compareRight op l inside ih => exact (SameValue.refl l).compare (ih hC) op

/-- Expressions that come to the same at every row and without one can stand for each other wherever the hole of a context
    is no argument of a function that takes a column: the contexts filled with them come to one value, or to failures
    of one kind. In the place of a null that a choice has for its second arm there can be any expression that is
    always null. -/
theorem eval_fill (d : Dataset) :
    (∀ e e', (∀ row, Agree False (e.eval d row) (e'.eval d row)) → ∀ C : Context, C.IsOpen →
      ∀ row, Agree False ((C.fill e).eval d row) ((C.fill e').eval d row)) ∧
    ∀ f condition yes no, Function.ofName? f = some .choose → (∀ row, no.eval d row = .ok .null) →
      ∀ row, eval d row (.call f [condition, yes, no]) = eval d row (.call f [condition, yes, .null]) := by
  refine ⟨fun e e' h C hC => SameValue.fill h hC, fun f condition yes no hf hno row => ?_⟩
  rw [eval_choose_three hf, eval_choose_three hf, hno, eval_null]

/-- A choice that is never made is null, although its column is not there, and stands for null below a distinct count. -/
theorem eval_fill_unmade :
    let d : Dataset := ⟨⟨["a"], [some [.text "x"], none]⟩, by decide⟩
    let unmade : Expr := .call "IF" [.null, .column "b"]
    let C : Context := .call "COUNT_DISTINCT" [] (.call "IF" [.column "a", .text "y"] .hole []) []
    C.IsOpen ∧ (∀ row, Agree False (unmade.eval d row) (eval d row .null)) ∧
    Agree False ((C.fill unmade).eval d none) ((C.fill .null).eval d none) := by
  intro d unmade C
  have hchoose : Function.ofName? "IF" = some .choose := by decide +kernel
  have hC : C.IsOpen := by simp [C, Context.IsOpen, hchoose]
  have hunmade : ∀ row, Agree False (unmade.eval d row) (eval d row .null) := fun row => by
    rw [eval_choose_two hchoose, eval_null]
    exact .refl _
  exact ⟨hC, hunmade, (eval_fill d).1 unmade .null hunmade C hC none⟩

end Expr
end TableMetrics
