import TableMetrics.Proofs.Expr.Source
import TableMetrics.Proofs.Parser.Complete

/-! What an expression mentions: the names of its functions and columns, and its literals. The words of an expression
    mention them from left to right, and a walk over the tree meets them in the same order, none of them lost or met
    twice. So the problems of an expression are those of its words, each where it is written. -/

namespace TableMetrics

/-- A name or a literal. -/
inductive Mention where
  | function (name : String)
  | column (name : String)
  | number (n : Number)
  | text (s : String)
  deriving DecidableEq

/-- What is wrong with a name: that no function has it, or none of the known columns, if these are given. -/
def Mention.problem? (known : Option (List String)) : Mention → Option Problem
  | .function f => if (Function.ofName? f).isNone then some (.failure (.unknownFunction f)) else none
  | .column name =>
    match known with
    | some columns => if name ∈ columns then none else some (.unknownColumn name columns)
    | none => none
  | _ => none

/-! ### Words -/

/-- What a word mentions, given the word behind it. A name with an opening parenthesis behind it is that of a function,
    in upper case; any other is that of a column, unless it is the word for null. -/
def Lexeme.mention? (w : Lexeme) (next : Option Lexeme) : Option Mention :=
  match w with
  | .name s =>
    if next = some .opening then some (.function (upper s))
    else if upper s = "NULL" then none
    else some (.column s)
  | .number x => some (.number (.float x))
  | .text s => some (.text s)
  | _ => none

/-- What words mention, from left to right. -/
def mentions : List Lexeme → List Mention
  | [] => []
  | w :: ws => (w.mention? ws.head?).toList ++ mentions ws

/-- A word that is no opening parenthesis means as much to the word before it as no word. -/
theorem Lexeme.mention?_of_ne {next : Option Lexeme} (h : next ≠ some .opening) (w : Lexeme) :
    w.mention? next = w.mention? none := by
  cases w with
  | name s => simp only [mention?, h, reduceCtorEq, if_false]
  | _ => rfl

theorem mentions_append (us : List Lexeme) {vs : List Lexeme} (h : vs.head? ≠ some .opening) :
    mentions (us ++ vs) = mentions us ++ mentions vs := by
  induction us with
  | nil => rfl
  | cons u us ih =>
    have hnext : u.mention? (us ++ vs).head? = u.mention? us.head? := by
      cases us with
      | nil => exact u.mention?_of_ne h
      | cons u' us => rfl
    rw [List.cons_append, mentions, mentions, hnext, ih, List.append_assoc]

/-- Between words that mention something on their own there is one that mentions nothing, and opens nothing. -/
theorem mentions_between (us vs : List Lexeme) {w : Lexeme} (hopening : w ≠ .opening)
    (hw : ∀ next, w.mention? next = none) : mentions (us ++ w :: vs) = mentions us ++ mentions vs := by
  rw [mentions_append us (by simpa using hopening), mentions, hw]
  rfl

theorem mentions_slots (parts : List (List Lexeme)) :
    mentions ([.comma].intercalate parts) = parts.flatMap mentions := by
  induction parts with
  | nil => rfl
  | cons part parts ih =>
    cases parts with
    | nil => simp
    | cons part' parts =>
      rw [List.intercalate_cons_of_ne_nil (by simp), List.flatMap_cons, ← ih, List.append_assoc]
      exact mentions_between part _ (by simp) fun _ => rfl

/-! ### Trees -/

namespace Expr

def mention? : Expr → Option Mention
  | .call f _ => some (.function f)
  | .column name => some (.column name)
  | .number n => some (.number n)
  | .text s => some (.text s)
  | _ => none

/-- What an expression and its parts mention, in the order of the walk. -/
def mentions (e : Expr) : List Mention := e.walk.filterMap mention?

theorem mentions_eq (e : Expr) : e.mentions = e.mention?.toList ++ e.parts.flatMap mentions := by
  have hparts : (e.parts.flatMap walk).filterMap mention? = e.parts.flatMap mentions := List.filterMap_flatMap ..
  rw [mentions, walk_eq, ← hparts]
  cases h : e.mention? <;> simp [h]

theorem mentions_arith (op : String) (l r : Expr) : (arith op l r).mentions = l.mentions ++ r.mentions := by
  simp [mentions_eq, mention?, parts]

theorem mentions_compare (op : String) (l r : Expr) : (compare op l r).mentions = l.mentions ++ r.mentions := by
  simp [mentions_eq, mention?, parts]

theorem problem?_eq (known : Option (List String)) (e : Expr) :
    e.problem? known = e.mention?.bind (Mention.problem? known) := by
  cases e <;> rfl

theorem problems_eq_mentions (known : Option (List String)) (e : Expr) :
    e.problems known = e.mentions.filterMap (Mention.problem? known) := by
  rw [problems, mentions, List.filterMap_filterMap]
  exact congrArg (e.walk.filterMap ·) (funext (problem?_eq known))

end Expr

/-- Words mention what the tree that they write mentions, in the same order. The induction is on the grammar: an operator
    or a comma stands between parts and mentions nothing, and the name of a call stands before its arguments in the
    words as in the walk. -/
theorem Derives.mentions_eq {n : Nonterminal} {ws : List Lexeme} {e : Expr} (h : Derives n ws e) :
    e.mentions = mentions ws := by
  induction h with
  | number x => rfl
  | text s => rfl
  | null h => simp [Expr.mentions_eq, Expr.mention?, Expr.parts, mentions, Lexeme.mention?, h]
  | column h => simp [Expr.mentions_eq, Expr.mention?, Expr.parts, mentions, Lexeme.mention?, h]
  | @group ws e _ ih =>
    have hclosing : mentions (ws ++ [.closing]) = mentions ws ++ mentions [] := mentions_between ws [] (by simp) fun _ => rfl
    rw [ih, List.cons_append, mentions, hclosing]
    simp [Lexeme.mention?, mentions]
  | call f slots _ _ ih =>
    have hclosing := mentions_between ([.comma].intercalate (slots.map Prod.fst)) [] (w := .closing) (by simp)
      fun _ => rfl
    have hslots : (slots.map Prod.snd).flatMap Expr.mentions = (slots.map Prod.fst).flatMap mentions := by
      rw [List.flatMap_map, List.flatMap_map]
      exact List.flatMap_congr ih
    rw [Expr.mentions_eq, Expr.parts, hslots, ← mentions_slots, List.cons_append, List.cons_append, mentions, mentions,
      hclosing]
    simp [Lexeme.mention?, Expr.mention?, mentions]
  | product _ ih => exact ih
  | @times us vs l r op _ _ _ ihl ihr =>
    rw [Expr.mentions_arith, ihl, ihr]
    exact (mentions_between us vs (by simp) fun _ => rfl).symm
  | sum _ ih => exact ih
  | @plus us vs l r op _ _ _ ihl ihr =>
    rw [Expr.mentions_arith, ihl, ihr]
    exact (mentions_between us vs (by simp) fun _ => rfl).symm
  | expression _ ih => exact ih
  | @compare us vs l r op _ _ ihl ihr =>
    rw [Expr.mentions_compare, ihl, ihr]
    exact (mentions_between us vs (by simp) fun _ => rfl).symm
  | omitted => rfl
  | filled _ ih => exact ih

/-- A walk over an expression meets what its tokens mention, every name of a function or a column and every literal, in
    the order in which they are written. So a check finds the problems of the names in that order, one for each
    place at which a name that has one is written. -/
theorem mentions_exact :
    (∀ ts e, Expr.ofTokens ts = .ok e → e.walk.filterMap Expr.mention? = mentions (ts.map (·.lexeme))) ∧
    ∀ s e, Expr.ofText s = .ok e → ∃ ts, Token.ofText s = .ok ts ∧
      e.walk.filterMap Expr.mention? = mentions (ts.map (·.lexeme)) ∧
      ∀ known, checkExpression s known = (mentions (ts.map (·.lexeme))).filterMap (Mention.problem? known) := by
  have htree : ∀ ts e, Expr.ofTokens ts = .ok e → e.mentions = mentions (ts.map (·.lexeme)) :=
    fun _ _ h => (derives_of_ofTokens h).mentions_eq
  refine ⟨htree, fun s e h => ?_⟩
  obtain ⟨ts, hts, he⟩ := Expr.exists_tokens_of_ofText h
  refine ⟨ts, hts, htree ts e he, fun known => ?_⟩
  rw [checkExpression_of_ofText h, Expr.problems_eq_mentions, htree ts e he]

/-- A slot that is left out and a null mention nothing, and a function may have the name of null. -/
theorem mentions_exact_slots :
    ∃ e, Expr.ofText "if(Null, , '2' * net) > null(\"x\")" = .ok e ∧
      e.walk.filterMap Expr.mention? = [.function "IF", .text "2", .column "net", .function "NULL", .text "x"] ∧
      checkExpression "if(Null, , '2' * net) > null(\"x\")" (some ["a"]) =
        [.unknownColumn "net" ["a"], .failure (.unknownFunction "NULL")] := by
  have hread : (Expr.ofText "if(Null, , '2' * net) > null(\"x\")").isOk = true := by decide +kernel
  have hwords : (Token.ofText "if(Null, , '2' * net) > null(\"x\")").toOption.map (mentions <| ·.map (·.lexeme)) =
      some [.function "IF", .text "2", .column "net", .function "NULL", .text "x"] := by
    decide +kernel
  cases he : Expr.ofText "if(Null, , '2' * net) > null(\"x\")" with
  | error x =>
    rw [he] at hread
    cases hread
  | ok e =>
    obtain ⟨ts, hts, hmentions, hcheck⟩ := mentions_exact.2 _ e he
    rw [hts] at hwords
    have hts : mentions (ts.map (·.lexeme)) = _ := Option.some.inj hwords
    have hif : Function.ofName? "IF" = some .choose := by decide +kernel
    have hnull : Function.ofName? "NULL" = none := by decide +kernel
    refine ⟨e, rfl, hmentions.trans hts, (hcheck _).trans ?_⟩
    rw [hts]
    simp [List.filterMap_cons, Mention.problem?, hif, hnull]

end TableMetrics
