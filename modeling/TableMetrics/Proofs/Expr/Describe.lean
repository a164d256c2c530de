import TableMetrics.Evaluation
import TableMetrics.Proofs.Lexer.Quote
import TableMetrics.Proofs.Number.Literal
import TableMetrics.Proofs.Parser.Complete

/-! The text of an expression that needs no parentheses reads back as that expression. -/

namespace TableMetrics

open Lexer

/-! ### Reading what is printed -/

/-- The text is cut into the words, whatever stands before it. -/
def Reads (cs : List Char) (ws : List Lexeme) : Prop :=
  ∀ previous position, ∃ ts, tokensFrom previous position cs = .ok ts ∧ ts.map (·.lexeme) = ws

/-- What follows the text of an expression: nothing, or a character that no word goes on with. -/
def Delimits (rest : List Char) : Prop := ∀ c ∈ rest.head?, c = ' ' ∨ c = ',' ∨ c = ')'

namespace Reads
variable {rest : List Char} {ws : List Lexeme}

theorem nil : Reads [] [] := fun _ _ => ⟨[], by rw [tokensFrom], rfl⟩

theorem blank (h : Reads rest ws) : Reads (' ' :: rest) ws := by
  intro previous position
  rw [tokensFrom_blank (by decide)]
  exact h previous (position + 1)

theorem word {cs : List Char} {w : Lexeme} (hw : Writes cs w) (hs : ∀ previous, Stands previous cs w rest)
    (h : Reads rest ws) : Reads (cs ++ rest) (w :: ws) := by
  intro previous position
  obtain ⟨c, ds, rfl, hvisible⟩ := hw.head_not_blank
  obtain ⟨ts, hts, hmap⟩ := h (some w) (position + (c :: ds).length)
  refine ⟨⟨w, position⟩ :: ts, ?_, by rw [List.map_cons, hmap]⟩
  rw [tokensFrom_word hvisible hw (hs previous), hts]
  rfl

end Reads

theorem Delimits.head {rest : List Char} (h : Delimits rest) :
    ∀ c ∈ rest.head?, isNameChar c = false ∧ isAsciiDigit c = false ∧ c ≠ '.' := by
  intro c hc
  rcases h c hc with rfl | rfl | rfl <;> decide

/-- The text of an expression reads as words that write the expression. -/
def Prints (n : Nonterminal) (e : Expr) : Prop :=
  ∃ ws, Derives n ws e ∧ ∀ rest vs, Delimits rest → Reads rest vs → Reads (e.describe.toList ++ rest) (ws ++ vs)

/-- Whether a text is a name of the language. -/
def isName (s : String) : Bool := s.toList.head?.any isNameStart && s.toList.all isNameChar

theorem writes_name {s : String} (h : isName s = true) : Writes s.toList (.name s) := by
  obtain ⟨hstart, hall⟩ := Bool.and_eq_true_iff.mp h
  cases heq : s.toList with
  | nil =>
    rw [heq] at hstart
    cases hstart
  | cons c cs =>
    rw [heq] at hstart hall
    have hwrites := Writes.name hstart fun d hd => List.all_eq_true.mp hall d (List.mem_cons_of_mem c hd)
    rw [← heq, String.ofList_toList] at hwrites
    rw [← heq]
    exact hwrites

/-- The text of an operand that is one word. -/
theorem prints_word {e : Expr} {w : Lexeme} (hderives : Derives .operand [w] e) (hw : Writes e.describe.toList w)
    (hs : ∀ previous rest, Delimits rest → Stands previous e.describe.toList w rest) : Prints .operand e :=
  ⟨[w], hderives, fun rest _ hrest h => .word hw (fun previous => hs previous rest hrest) h⟩

theorem prints_number {x : Binary64} (h : isReadable x = true) : Prints .operand (.number (.float x)) := by
  obtain ⟨d, hwrites, hread⟩ := literal_writes h
  have hvalue := numericText?_of_writes hwrites false
  obtain ⟨ds, fs, hnumber, -⟩ := hwrites
  rw [hread] at hvalue
  refine prints_word (.number x) (.number false hnumber hvalue) fun previous rest hrest => ⟨fun c hc => ?_, fun hsign => ?_⟩
  · obtain ⟨-, hdigit, hpoint⟩ := hrest.head c hc
    exact ⟨hdigit, fun heq => absurd heq hpoint⟩
  · obtain ⟨c, cs, heq, hc⟩ := hnumber.head
    rw [show (Expr.number (.float x)).describe.toList = c :: cs from heq] at hsign
    cases hsign
    exact absurd hc (by decide)

theorem prints_text (s : String) : Prints .operand (.text s) := by
  refine prints_word (.text s) ?_ fun _ _ _ => trivial
  rw [Expr.describe, Expr.textLiteral, String.toList_ofList]
  exact writes_literal (Or.inl rfl) s

theorem prints_null : Prints .operand .null := by
  have hname : isName "NULL" = true := by decide
  exact prints_word (.null (by decide +kernel)) (writes_name hname) fun _ _ hrest c hc => (hrest.head c hc).1

theorem prints_column {name : String} (h : isName name = true) (hnull : upper name ≠ "NULL") :
    Prints .operand (.column name) :=
  prints_word (.column hnull) (writes_name h) fun _ _ hrest c hc => (hrest.head c hc).1

theorem stands_arith (op : ArithOp) (previous : Option Lexeme) (cs : List Char) :
    Stands previous op.symbol.toList (.arith op) (' ' :: cs) := by
  cases op with
  | minus =>
    rintro - c ⟨⟩
    decide
  | _ => trivial

/-- Two operands with an operator between them, and a blank on either side of it. -/
theorem prints_operator {m n k : Nonterminal} {e l r : Expr} {symbol : String} {w : Lexeme}
    (hdescribe : e.describe = l.describe ++ " " ++ symbol ++ " " ++ r.describe) (hw : Writes symbol.toList w)
    (hs : ∀ previous cs, Stands previous symbol.toList w (' ' :: cs)) (hl : Prints m l) (hr : Prints n r)
    (hrule : ∀ us vs, Derives m us l → Derives n vs r → Derives k (us ++ w :: vs) e) : Prints k e := by
  obtain ⟨us, hus, hreadl⟩ := hl
  obtain ⟨vs, hvs, hreadr⟩ := hr
  refine ⟨us ++ w :: vs, hrule us vs hus hvs, fun rest ws hrest h => ?_⟩
  have hright := Reads.word hw (fun previous => hs previous _) (hreadr rest ws hrest h).blank
  have hleft := hreadl _ _ (by simp [Delimits]) hright.blank
  rw [hdescribe]
  simpa using hleft

/-- The arguments of a call read as words with commas between them. -/
theorem reads_args {args : List Expr} (h : ∀ e ∈ args, Prints .expression e) :
    ∃ slots : List (List Lexeme × Expr), slots.map Prod.snd = args ∧ (∀ x ∈ slots, Derives .expression x.1 x.2) ∧
      ∀ rest ws, Delimits rest → Reads rest ws → Reads ((", ".intercalate (Expr.describeAll args)).toList ++ rest)
        ([.comma].intercalate (slots.map Prod.fst) ++ ws) := by
  induction args with
  | nil => exact ⟨[], rfl, by simp, fun rest ws _ hreads => hreads⟩
  | cons e args ih =>
    obtain ⟨us, hus, hreade⟩ := h e (List.mem_cons_self ..)
    obtain ⟨slots, rfl, hslots, hreadargs⟩ := ih fun a ha => h a (List.mem_cons_of_mem e ha)
    refine ⟨(us, e) :: slots, rfl, ?_, fun rest ws hrest hreads => ?_⟩
    · intro x hx
      rcases List.mem_cons.mp hx with rfl | hx
      · exact hus
      · exact hslots x hx
    · cases slots with
      | nil =>
        have hone := hreade rest ws hrest hreads
        simpa [Expr.describeAll] using hone
      -- The comma begins what follows this argument, and the blank behind it is skipped.
      | cons x slots =>
        have htail := hreadargs rest ws hrest hreads
        have hcomma := Reads.word .comma (fun _ => trivial) htail.blank
        have hreads' := hreade _ _ (by simp [Delimits]) hcomma
        simpa [Expr.describeAll, String.intercalate_cons_cons, List.intercalate_cons_cons] using hreads'

theorem prints_call {f : String} {args : List Expr} (hname : isName f = true) (hupper : upper f = f)
    (h : ∀ e ∈ args, Prints .expression e) : Prints .operand (.call f args) := by
  obtain ⟨slots, rfl, hslots, hreadargs⟩ := reads_args h
  have hone : slots.map Prod.fst ≠ [[]] := by
    intro heq
    obtain ⟨x, hx, hnil⟩ := List.mem_map.mp (by rw [heq]; exact List.mem_cons_self .. : [] ∈ slots.map Prod.fst)
    exact (hslots x hx).ne_nil (by simp) hnil
  have hderives := Derives.call f slots (fun x hx => .filled (hslots x hx)) hone
  rw [hupper] at hderives
  refine ⟨_, hderives, fun rest ws hrest hreads => ?_⟩
  have hclosing := Reads.word .closing (fun _ => trivial) hreads
  have hargs := hreadargs _ _ (by simp [Delimits]) hclosing
  have hopening := Reads.word .opening (fun _ => trivial) hargs
  have hcall := Reads.word (writes_name hname) (fun _ c hc => by
    cases hc
    decide) hopening
  simpa [Expr.describe] using hcall

/-! ### Expressions that need no parentheses -/

namespace Expr

/-- Whether an expression is a sum or a difference. -/
def isSum : Expr → Bool
  | .arith op _ _ => op == "+" || op == "-"
  | _ => false

/-- Whether an expression is a product or a quotient. -/
def isProduct : Expr → Bool
  | .arith op _ _ => op == "*" || op == "/"
  | _ => false

def isComparison : Expr → Bool
  | .compare .. => true
  | _ => false

/-- The expressions whose text needs no parentheses but those of calls. The right operand of a sum is no sum; the
    operands of a product are no sums, and the right one is no product; a comparison is the whole expression or an
    argument. -/
inductive Plain : Expr → Prop where
  | number {x : Binary64} (h : isReadable x = true) : Plain (.number (.float x))
  | text (s : String) : Plain (.text s)
  | null : Plain .null
  | column {name : String} (h : isName name = true) (hnull : upper name ≠ "NULL") : Plain (.column name)
  | call {f : String} {args : List Expr} (hname : isName f = true) (hupper : upper f = f) (h : ∀ e ∈ args, Plain e) :
    Plain (.call f args)
  | plus {op : ArithOp} {l r : Expr} (hop : op.isProduct = false) (hl : Plain l) (hr : Plain r)
    (hleft : l.isComparison = false) (hright : r.isComparison = false ∧ r.isSum = false) :
    Plain (.arith op.symbol l r)
  | times {op : ArithOp} {l r : Expr} (hop : op.isProduct = true) (hl : Plain l) (hr : Plain r)
    (hleft : l.isComparison = false ∧ l.isSum = false)
    (hright : r.isComparison = false ∧ r.isSum = false ∧ r.isProduct = false) : Plain (.arith op.symbol l r)
  | compare (op : CompareOp) {l r : Expr} (hl : Plain l) (hr : Plain r) (hleft : l.isComparison = false)
    (hright : r.isComparison = false) : Plain (.compare op.symbol l r)

theorem isSum_arith {op : ArithOp} (h : op.isProduct = false) (l r : Expr) : isSum (.arith op.symbol l r) = true := by
  cases op with
  | plus => rfl
  | minus => rfl
  | times => cases h
  | divide => cases h

theorem isProduct_arith {op : ArithOp} (h : op.isProduct = true) (l r : Expr) :
    isProduct (.arith op.symbol l r) = true := by
  cases op with
  | plus => cases h
  | minus => cases h
  | times => rfl
  | divide => rfl

/-- The text of an expression reads as the closest binding part of the grammar that its root allows. -/
structure PrintsByRoot (e : Expr) : Prop where
  expression : Prints .expression e
  sum (h : e.isComparison = false) : Prints .sum e
  product (h : e.isComparison = false) (h' : e.isSum = false) : Prints .product e
  operand (h : e.isComparison = false) (h' : e.isSum = false) (h'' : e.isProduct = false) : Prints .operand e

end Expr

namespace Prints
variable {e : Expr}

/-- What is printed as one part of the grammar is printed as another that a rule leads to. -/
theorem weaken {m n : Nonterminal} (h : Prints m e) (hrule : ∀ ws, Derives m ws e → Derives n ws e) : Prints n e := by
  obtain ⟨ws, hws, hreads⟩ := h
  exact ⟨ws, hrule ws hws, hreads⟩

theorem byRoot_expression (h : Prints .expression e) (he : e.isComparison = true) : e.PrintsByRoot where
  expression := h
  sum hne := absurd he (Bool.eq_false_iff.mp hne)
  product hne _ := absurd he (Bool.eq_false_iff.mp hne)
  operand hne _ _ := absurd he (Bool.eq_false_iff.mp hne)

theorem byRoot_sum (h : Prints .sum e) (he : e.isSum = true) : e.PrintsByRoot where
  expression := h.weaken fun _ => .expression
  sum _ := h
  product _ hne := absurd he (Bool.eq_false_iff.mp hne)
  operand _ hne _ := absurd he (Bool.eq_false_iff.mp hne)

theorem byRoot_product (h : Prints .product e) (he : e.isProduct = true) : e.PrintsByRoot := by
  have hsum : Prints .sum e := h.weaken fun _ => .sum
  exact {
    expression := hsum.weaken fun _ => .expression
    sum := fun _ => hsum
    product := fun _ _ => h
    operand := fun _ _ hne => absurd he (Bool.eq_false_iff.mp hne) }

theorem byRoot_operand (h : Prints .operand e) : e.PrintsByRoot := by
  have hproduct : Prints .product e := h.weaken fun _ => .product
  have hsum : Prints .sum e := hproduct.weaken fun _ => .sum
  exact {
    expression := hsum.weaken fun _ => .expression
    sum := fun _ => hsum
    product := fun _ _ => hproduct
    operand := fun _ _ _ => h }

end Prints

namespace Expr

theorem Plain.prints {e : Expr} (h : Plain e) : e.PrintsByRoot := by
  induction h with
  | number h => exact (prints_number h).byRoot_operand
  | text s => exact (prints_text s).byRoot_operand
  | null => exact prints_null.byRoot_operand
  | column h hnull => exact (prints_column h hnull).byRoot_operand
  | call hname hupper _ ih => exact (prints_call hname hupper fun e he => (ih e he).expression).byRoot_operand
  | @plus op l r hop _ _ hleft hright ihl ihr =>
    have hprints : Prints .sum (.arith op.symbol l r) :=
      prints_operator rfl (.arith op) (stands_arith op) (ihl.sum hleft) (ihr.product hright.1 hright.2)
        fun _ _ => .plus hop
    exact hprints.byRoot_sum (isSum_arith hop l r)
  | @times op l r hop _ _ hleft hright ihl ihr =>
    have hprints : Prints .product (.arith op.symbol l r) :=
      prints_operator rfl (.arith op) (stands_arith op) (ihl.product hleft.1 hleft.2)
        (ihr.operand hright.1 hright.2.1 hright.2.2) fun _ _ => .times hop
    exact hprints.byRoot_product (isProduct_arith hop l r)
  | @compare op l r _ _ hleft hright ihl ihr =>
    have hprints : Prints .expression (.compare op.symbol l r) :=
      prints_operator rfl (.compare op) (fun _ _ _ => by simp) (ihl.sum hleft) (ihr.sum hright)
        fun _ _ => .compare op
    exact hprints.byRoot_expression rfl

/-- An expression that needs no parentheses is read back from its text. -/
theorem ofText_describe {e : Expr} (h : Plain e) : ofText e.describe = .ok e := by
  obtain ⟨ws, hderives, hreads⟩ := h.prints.expression
  obtain ⟨ts, hts, hwords⟩ := hreads [] [] (by simp [Delimits]) .nil none 0
  rw [List.append_nil] at hts hwords
  rw [← hwords] at hderives
  have htokens : Token.ofText e.describe = .ok ts := hts
  rw [ofText, htokens]
  change (ofTokens ts).mapError MetricError.syntactic = _
  rw [ofTokens_of_derives hderives]
  rfl

/-- An expression with quotes, a backslash and a line break in a text, a call without arguments, and a comparison
    among the arguments of another. -/
def mixed : Expr :=
  .compare ">="
    (.arith "-" (.column "net_2") (.arith "*" (.number (.float (Decimal.toBinary64 false ⟨1, -1⟩))) .null))
    (.call "IF" [.compare "=" (.column "name") (.text "\"'\\\n"), .call "COUNT" [], .number (.float (.zero false))])

theorem ofText_describe_mixed : ofText mixed.describe = .ok mixed := by
  have hdifference : Plain (.arith "-" (.column "net_2")
      (.arith "*" (.number (.float (Decimal.toBinary64 false ⟨1, -1⟩))) .null)) := by
    refine @Plain.plus .minus _ _ rfl (.column rfl (by decide +kernel)) ?_ rfl ⟨rfl, rfl⟩
    exact @Plain.times .times _ _ rfl (.number (by decide +kernel)) .null ⟨rfl, rfl⟩ ⟨rfl, rfl, rfl⟩
  refine ofText_describe (.compare .greaterEqual hdifference (.call rfl (by decide +kernel) ?_) rfl rfl)
  refine List.forall_mem_cons.mpr ⟨?_, List.forall_mem_cons.mpr ⟨?_, List.forall_mem_cons.mpr ⟨?_, ?_⟩⟩⟩
  · exact .compare .equal (.column rfl (by decide +kernel)) (.text _) rfl rfl
  · exact .call rfl (by decide +kernel) (by simp)
  · exact .number rfl
  · simp

end Expr
end TableMetrics
