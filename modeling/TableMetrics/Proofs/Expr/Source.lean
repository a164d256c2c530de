import TableMetrics.Proofs.Expr.Checked
import TableMetrics.Proofs.Expr.Describe
import TableMetrics.Proofs.Lexer.Spell
import TableMetrics.Proofs.Outcome

/-! Texts and the expressions that they are. A text whose words write an expression is that expression, and
    evaluating the text evaluates the expression. -/

namespace TableMetrics

open Lexer

theorem Lexer.tokensFrom_blanks {cs : List Char} (h : cs.all isBlank = true) (previous : Option Lexeme)
    (position : Nat) : tokensFrom previous position cs = .ok [] := by
  induction cs generalizing position with
  | nil => rw [tokensFrom]
  | cons c cs ih =>
    obtain ⟨hc, hcs⟩ := Bool.and_eq_true_iff.mp (List.all_cons ▸ h)
    rw [tokensFrom_blank hc]
    exact ih hcs (position + 1)

namespace Expr

/-- A text that is an expression is cut into tokens, and these are the expression. -/
theorem exists_tokens_of_ofText {s : String} {e : Expr} (h : ofText s = .ok e) :
    ∃ ts, Token.ofText s = .ok ts ∧ ofTokens ts = .ok e := by
  rw [ofText, bind_eq_ok_iff] at h
  obtain ⟨ts, hts, he⟩ := h
  exact ⟨ts, mapError_eq_ok_iff.mp hts, mapError_eq_ok_iff.mp he⟩

/-- A text is an expression if and only if it is spelt by words that write the expression. -/
theorem ofText_eq_ok_iff {s : String} {e : Expr} :
    ofText s = .ok e ↔ ∃ ws, Spells none s.toList ws ∧ Derives .expression ws e := by
  constructor
  · intro h
    obtain ⟨ts, hts, he⟩ := exists_tokens_of_ofText h
    exact ⟨ts.map (·.lexeme), spells_of_tokensFrom hts, derives_of_ofTokens he⟩
  · rintro ⟨ws, hspells, hderives⟩
    obtain ⟨ts, hts, rfl⟩ := hspells.exists_tokens 0
    rw [ofText_of_tokens hts, ofTokens_of_derives hderives]
    rfl

/-- A text that reads as words which write an expression is that expression. -/
theorem ofText_of_reads {s : String} {ws : List Lexeme} {e : Expr} (hreads : Reads s.toList ws)
    (hderives : Derives .expression ws e) : ofText s = .ok e :=
  ofText_eq_ok_iff.mpr ⟨ws, (spells_iff 0).mpr (hreads none 0), hderives⟩

theorem ofText_of_prints {e : Expr} (h : Prints .expression e) : ofText e.describe = .ok e := by
  obtain ⟨ws, hderives, hreads⟩ := h
  have hall := hreads [] [] (by simp [Delimits]) .nil
  rw [List.append_nil, List.append_nil] at hall
  exact ofText_of_reads hall hderives

/-- A text that is an expression is not blank. -/
theorem isBlankText_of_ofText {s : String} {e : Expr} (h : ofText s = .ok e) : isBlankText s = false := by
  rw [Bool.eq_false_iff]
  intro hblank
  have htokens : Token.ofText s = .ok [] := tokensFrom_blanks hblank none 0
  rw [ofText, htokens] at h
  cases h

end Expr

/-- The problems of a text that is an expression are those of the expression. -/
theorem checkExpression_of_ofText {s : String} {e : Expr} (h : Expr.ofText s = .ok e) (known : Option (List String)) :
    checkExpression s known = e.problems known := by
  rw [checkExpression, if_neg (by simp [Expr.isBlankText_of_ofText h]), h]

theorem evaluate_of_ofText {s : String} {e : Expr} (h : Expr.ofText s = .ok e) (d : Dataset) :
    evaluate s (some d.toTable) = e.eval d none :=
  evaluate_ok (Expr.isBlankText_of_ofText h) h

end TableMetrics
