import TableMetrics.Expr.Parser

/-! The grammar of expressions: which words write which tree. An expression is a sum, or two sums with one
    comparison between them. Sums and products are chains that associate to the left; a product binds closer. An
    operand is a literal, a name, an expression in parentheses, or a call. -/

namespace TableMetrics

/-- The parts of the grammar, from the weakest binding to the closest, and the place of an argument. -/
inductive Nonterminal where
  | expression
  | sum
  | product
  | operand
  | slot

/-- The words write the tree as the given part of the grammar. -/
inductive Derives : Nonterminal → List Lexeme → Expr → Prop where
  | number (x : Binary64) : Derives .operand [.number x] (.number (.float x))
  | text (s : String) : Derives .operand [.text s] (.text s)
  | null {s : String} (h : upper s = "NULL") : Derives .operand [.name s] .null
  | column {s : String} (h : upper s ≠ "NULL") : Derives .operand [.name s] (.column s)
  | group {ws : List Lexeme} {e : Expr} (h : Derives .expression ws e) :
    Derives .operand (.opening :: ws ++ [.closing]) e
  /-- Each argument has its words and its tree, and commas stand between them. Parentheses with nothing in them
      hold no argument; they do not hold one that is left out. -/
  | call (f : String) (slots : List (List Lexeme × Expr)) (h : ∀ x ∈ slots, Derives .slot x.1 x.2)
    (hone : slots.map Prod.fst ≠ [[]]) :
    Derives .operand (.name f :: .opening :: [.comma].intercalate (slots.map Prod.fst) ++ [.closing])
      (.call (upper f) (slots.map Prod.snd))
  | product {ws : List Lexeme} {e : Expr} (h : Derives .operand ws e) : Derives .product ws e
  | times {us vs : List Lexeme} {l r : Expr} {op : ArithOp} (hop : op.isProduct = true)
    (hl : Derives .product us l) (hr : Derives .operand vs r) :
    Derives .product (us ++ .arith op :: vs) (.arith op.symbol l r)
  | sum {ws : List Lexeme} {e : Expr} (h : Derives .product ws e) : Derives .sum ws e
  | plus {us vs : List Lexeme} {l r : Expr} {op : ArithOp} (hop : op.isProduct = false)
    (hl : Derives .sum us l) (hr : Derives .product vs r) :
    Derives .sum (us ++ .arith op :: vs) (.arith op.symbol l r)
  | expression {ws : List Lexeme} {e : Expr} (h : Derives .sum ws e) : Derives .expression ws e
  | compare {us vs : List Lexeme} {l r : Expr} (op : CompareOp) (hl : Derives .sum us l)
    (hr : Derives .sum vs r) : Derives .expression (us ++ .compare op :: vs) (.compare op.symbol l r)
  /-- An argument that is left out is null. -/
  | omitted : Derives .slot [] .null
  | filled {ws : List Lexeme} {e : Expr} (h : Derives .expression ws e) : Derives .slot ws e

namespace Derives

/-- A name that no parenthesis follows is the operand that the parser takes it for. -/
theorem nameOperand (s : String) : Derives .operand [.name s] (Parser.State.nameOperand s) := by
  unfold Parser.State.nameOperand
  split
  · next h => exact .null h
  · next h => exact .column h

/-- Only an argument can be left out. -/
theorem ne_nil {n : Nonterminal} {ws : List Lexeme} {e : Expr} (h : Derives n ws e) (hn : n ≠ .slot) : ws ≠ [] := by
  induction h with
  | product _ ih => exact ih (by simp)
  | sum _ ih => exact ih (by simp)
  | expression _ ih => exact ih (by simp)
  | omitted => exact absurd rfl hn
  | filled => exact absurd rfl hn
  | _ => simp

end Derives

/-- Parts that each end with a comma, and one part behind them, are all the parts with commas between them. -/
theorem intercalate_comma_append (parts : List (List Lexeme)) (last : List Lexeme) :
    [.comma].intercalate (parts ++ [last]) = parts.flatMap (· ++ [.comma]) ++ last := by
  induction parts with
  | nil => simp
  | cons part parts ih =>
    rw [List.cons_append, List.intercalate_cons_of_ne_nil (by simp), ih]
    simp

/-- Parts with commas between them hold the words of each. -/
theorem mem_intercalate {part : List Lexeme} {parts : List (List Lexeme)} {w : Lexeme} (hpart : part ∈ parts)
    (hw : w ∈ part) : w ∈ [.comma].intercalate parts := by
  induction parts with
  | nil => cases hpart
  | cons first parts ih =>
    cases parts with
    | nil =>
      obtain rfl := List.mem_singleton.mp hpart
      rwa [List.intercalate_singleton]
    | cons second parts =>
      rw [List.intercalate_cons_cons, List.mem_append, List.mem_append]
      rcases List.mem_cons.mp hpart with rfl | hpart
      · exact Or.inl (Or.inl hw)
      · exact Or.inr (ih hpart)

end TableMetrics
