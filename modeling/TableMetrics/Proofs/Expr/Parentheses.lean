import Mathlib.Data.List.Forall2
import TableMetrics.Proofs.Expr.Source

/-! Texts put together with parentheses. The text of an expression means the same in parentheses as it does alone,
    whatever it begins with, so that texts in parentheses are the operands of operators and the arguments of calls. -/

namespace TableMetrics

open Lexer

namespace Expr

/-! ### Words -/

/-- A text in parentheses is spelt by words that write its expression as an operand. -/
theorem exists_operand {s : String} {e : Expr} (h : ofText s = .ok e) : ∃ ws, Derives .operand ws e ∧
    ∀ previous rest vs, Spells (some .closing) rest vs →
      Spells previous ('(' :: s.toList ++ ')' :: rest) (ws ++ vs) := by
  obtain ⟨ws, hspells, hderives⟩ := ofText_eq_ok_iff.mp h
  refine ⟨.opening :: ws ++ [.closing], .group hderives, fun previous rest vs hrest => ?_⟩
  rw [List.append_assoc]
  exact hspells.group hrest previous

/-- Texts in parentheses with an operator between them are spelt by words that write the operation. -/
theorem ofText_operator {s s' symbol : String} {e l r : Expr} {w : Lexeme} (hl : ofText s = .ok l)
    (hr : ofText s' = .ok r) (hw : Writes symbol.toList w)
    (hs : ∀ previous cs, Stands previous symbol.toList w (' ' :: cs))
    (hrule : ∀ us vs, Derives .operand us l → Derives .operand vs r → Derives .expression (us ++ w :: vs) e) :
    ofText ("(" ++ s ++ ") " ++ symbol ++ " (" ++ s' ++ ")") = .ok e := by
  obtain ⟨us, hus, hleft⟩ := exists_operand hl
  obtain ⟨vs, hvs, hright⟩ := exists_operand hr
  refine ofText_eq_ok_iff.mpr ⟨us ++ w :: vs, ?_, hrule us vs hus hvs⟩
  have hlast := hright (some w) [] [] (.nil _)
  have hmiddle := Spells.word hw (hs (some .closing) _) (.blank (c := ' ') (by decide) hlast)
  simpa using hleft none _ _ (.blank (c := ' ') (by decide) hmiddle)

/-- Texts in parentheses with commas between them are spelt by the words of operands with commas between them. -/
theorem exists_slots {ss : List String} {es : List Expr} (h : List.Forall₂ (fun s e => ofText s = .ok e) ss es)
    (hne : ss ≠ []) : ∃ slots : List (List Lexeme × Expr), slots.map Prod.snd = es ∧
      (∀ x ∈ slots, Derives .operand x.1 x.2) ∧ ∀ previous rest vs, Spells (some .closing) rest vs →
        Spells previous ('(' :: ("),(".intercalate ss).toList ++ ')' :: rest)
          ([.comma].intercalate (slots.map Prod.fst) ++ vs) := by
  induction h with
  | nil => exact absurd rfl hne
  | @cons s e ss es hs hss ih =>
    obtain ⟨ws, hws, hspells⟩ := exists_operand hs
    cases hss with
    | nil =>
      refine ⟨[(ws, e)], rfl, List.forall_mem_singleton.mpr hws, fun previous rest vs hrest => ?_⟩
      simpa using hspells previous rest vs hrest
    | @cons s' e' ss es hs' hss =>
      obtain ⟨slots, hslots, hall, htail⟩ := ih (List.cons_ne_nil _ _)
      cases slots with
      | nil => cases hslots
      | cons x slots =>
        refine ⟨(ws, e) :: x :: slots, by rw [List.map_cons, hslots], List.forall_mem_cons.mpr ⟨hws, hall⟩, ?_⟩
        intro previous rest vs hrest
        have hargs := hspells previous _ _ (.word .comma trivial (htail (some .comma) rest vs hrest))
        simpa [String.intercalate_cons_cons, List.intercalate_cons_cons] using hargs

/-! ### Texts -/

theorem ofText_group {s : String} {e : Expr} (h : ofText s = .ok e) : ofText ("(" ++ s ++ ")") = .ok e := by
  obtain ⟨ws, hws, hspells⟩ := exists_operand h
  refine ofText_eq_ok_iff.mpr ⟨ws, ?_, .expression (.sum (.product hws))⟩
  simpa using hspells none [] [] (.nil _)

section Operators
variable {s s' : String} {l r : Expr} (hl : ofText s = .ok l) (hr : ofText s' = .ok r)
include hl hr

theorem ofText_arith (op : ArithOp) :
    ofText ("(" ++ s ++ ") " ++ op.symbol ++ " (" ++ s' ++ ")") = .ok (.arith op.symbol l r) := by
  refine ofText_operator hl hr (.arith op) (stands_arith op) fun us vs hus hvs => ?_
  cases hop : op.isProduct with
  | true => exact .expression (.sum (.times hop (.product hus) hvs))
  | false => exact .expression (.plus hop (.sum (.product hus)) (.product hvs))

theorem ofText_compare (op : CompareOp) :
    ofText ("(" ++ s ++ ") " ++ op.symbol ++ " (" ++ s' ++ ")") = .ok (.compare op.symbol l r) := by
  refine ofText_operator hl hr (.compare op) (fun _ _ _ => by simp) fun us vs hus hvs => ?_
  exact .compare op (.sum (.product hus)) (.sum (.product hvs))

end Operators

theorem ofText_call {f : String} (hf : isName f = true) {ss : List String} {es : List Expr} (hne : ss ≠ [])
    (h : List.Forall₂ (fun s e => ofText s = .ok e) ss es) :
    ofText (f ++ "((" ++ "),(".intercalate ss ++ "))") = .ok (.call (upper f) es) := by
  obtain ⟨slots, rfl, hall, hspells⟩ := exists_slots h hne
  have hone : slots.map Prod.fst ≠ [[]] := by
    intro heq
    obtain ⟨x, hx, hnil⟩ := List.mem_map.mp (by rw [heq]; exact List.mem_cons_self .. : [] ∈ slots.map Prod.fst)
    exact (hall x hx).ne_nil (by simp) hnil
  have hcall := Derives.call f slots (fun x hx => .filled (.expression (.sum (.product (hall x hx))))) hone
  refine ofText_eq_ok_iff.mpr ⟨_, ?_, .expression (.sum (.product hcall))⟩
  have hargs := hspells (some .opening) _ _ (.word .closing trivial (.nil _))
  have hstands : Stands none f.toList (.name f) (['('] ++ ('(' :: ("),(".intercalate ss).toList ++ ')' :: [')'])) := by
    rintro c ⟨⟩
    decide
  simpa using Spells.word (writes_name hf) hstands (.word .opening trivial hargs)

/-- The text of an expression in parentheses is that expression. Two texts in parentheses with an operator between
    them are the operation on their expressions, and one text or more in the parentheses of a call, each in parentheses
    of its own, are the call with their expressions. -/
theorem ofText_parentheses :
    (∀ s e, ofText s = .ok e → ofText ("(" ++ s ++ ")") = .ok e) ∧
    (∀ s s' l r, ofText s = .ok l → ofText s' = .ok r →
      (∀ op : ArithOp, ofText ("(" ++ s ++ ") " ++ op.symbol ++ " (" ++ s' ++ ")") = .ok (.arith op.symbol l r)) ∧
      ∀ op : CompareOp, ofText ("(" ++ s ++ ") " ++ op.symbol ++ " (" ++ s' ++ ")") = .ok (.compare op.symbol l r)) ∧
    ∀ f ss es, isName f = true → ss ≠ [] → List.Forall₂ (fun s e => ofText s = .ok e) ss es →
      ofText (f ++ "((" ++ "),(".intercalate ss ++ "))") = .ok (.call (upper f) es) := by
  refine ⟨fun _ _ h => ofText_group h, fun _ _ _ _ hl hr => ⟨?_, ?_⟩, fun _ _ _ hf hne h => ofText_call hf hne h⟩
  · exact fun op => ofText_arith hl hr op
  · exact fun op => ofText_compare hl hr op

/-- A number with a sign, which is no operand behind a name, and a comparison with a text. -/
theorem ofText_parentheses_signed : ∃ x, numericText? "-1" = some x ∧
    ofText "-1" = .ok (.number (.float x)) ∧
    ofText "\"a\" < b" = .ok (.compare "<" (.text "a") (.column "b")) ∧
    ofText "(-1)" = .ok (.number (.float x)) ∧
    ofText "(-1) - (\"a\" < b)" =
      .ok (.arith "-" (.number (.float x)) (.compare "<" (.text "a") (.column "b"))) ∧
    ofText "IF((\"a\" < b),(-1))" =
      .ok (.call "IF" [.compare "<" (.text "a") (.column "b"), .number (.float x)]) := by
  have hnumber : IsNumber ['1'] ['1'] [] := .whole (by simp) (List.forall_mem_singleton.mpr (by decide))
  obtain ⟨x, hx⟩ : ∃ x, numericText? "-1" = some x := ⟨_, numericText?_number hnumber true⟩
  have hsigned : ofText "-1" = .ok (.number (.float x)) := by
    refine ofText_eq_ok_iff.mpr ⟨[.number x], ?_, .expression (.sum (.product (.number x)))⟩
    exact .word (.number true hnumber hx) ⟨by simp, fun _ => Or.inl rfl⟩ (.nil _)
  have hless : ofText "\"a\" < b" = .ok (.compare "<" (.text "a") (.column "b")) := by
    have hcolumn : Plain (.column "b") := .column rfl (by decide +kernel)
    have hread := ofText_describe (.compare .less (.text "a") hcolumn rfl rfl)
    have hdescribe : describe (.compare "<" (.text "a") (.column "b")) = "\"a\" < b" := by decide
    rw [← hdescribe]
    exact hread
  have hupper : upper "IF" = "IF" := upper_eq_self (by decide)
  refine ⟨x, hx, hsigned, hless, ofText_parentheses.1 _ _ hsigned, ?_, ?_⟩
  · exact (ofText_parentheses.2.1 _ _ _ _ hsigned hless).1 .minus
  · have hcall := ofText_parentheses.2.2 "IF" _ _ (by decide) (by decide) (.cons hless (.cons hsigned .nil))
    rw [hupper] at hcall
    exact hcall

end Expr
end TableMetrics
