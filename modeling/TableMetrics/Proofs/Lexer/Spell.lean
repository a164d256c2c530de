import TableMetrics.Proofs.Lexer.Cut
import TableMetrics.Proofs.Outcome

/-! Texts as sequences of words. A text is cut into tokens if and only if its words and its white space spell it. How
    a text is spelt does not depend on where it stands, but for what may stand before a sign, nor on what stands
    behind it, if no word goes on there. -/

namespace TableMetrics
namespace Lexer

/-- Behind the word `previous`, words spell a text: each may stand where it stands, and there may be white space
    before them, between them and behind them. -/
inductive Spells : Option Lexeme → List Char → List Lexeme → Prop where
  | nil (previous : Option Lexeme) : Spells previous [] []
  | blank {previous : Option Lexeme} {c : Char} {cs : List Char} {ws : List Lexeme} (hc : isBlank c = true)
    (h : Spells previous cs ws) : Spells previous (c :: cs) ws
  | word {previous : Option Lexeme} {cs rest : List Char} {w : Lexeme} {ws : List Lexeme} (hw : Writes cs w)
    (hs : Stands previous cs w rest) (h : Spells (some w) rest ws) : Spells previous (cs ++ rest) (w :: ws)

/-- No word goes on with the character. -/
def IsEnd (c : Char) : Prop := isNameChar c = false ∧ c ≠ '.' ∧ c ≠ '='

/-- No word goes on with the character that a text begins with. -/
def EndsWord (rest : List Char) : Prop := ∀ c ∈ rest.head?, IsEnd c

instance (c : Char) : Decidable (IsEnd c) := inferInstanceAs (Decidable (_ ∧ _))

/-- The same words begin with the two characters, and go on with them. -/
def SameClass (c d : Char) : Prop :=
  isNameStart c = isNameStart d ∧ isAsciiDigit c = isAsciiDigit d ∧ (c = '.' ↔ d = '.') ∧ (c = '=' ↔ d = '=')

instance (c d : Char) : Decidable (SameClass c d) := inferInstanceAs (Decidable (_ ∧ _))

theorem SameClass.refl (c : Char) : SameClass c c := ⟨rfl, rfl, Iff.rfl, Iff.rfl⟩

theorem SameClass.isNameChar {c d : Char} (h : SameClass c d) : isNameChar c = isNameChar d := by
  rw [Lexer.isNameChar, Lexer.isNameChar, h.1, h.2.1]

variable {previous previous' : Option Lexeme} {cs rest : List Char} {w : Lexeme} {ws vs : List Lexeme}

/-! ### The words of the tokens spell the text -/

theorem Spells.exists_tokens (h : Spells previous cs ws) (position : Nat) :
    ∃ ts, tokensFrom previous position cs = .ok ts ∧ ts.map (·.lexeme) = ws := by
  induction h generalizing position with
  | nil previous => exact ⟨[], by rw [tokensFrom], rfl⟩
  | blank hc _ ih =>
    rw [tokensFrom_blank hc]
    exact ih (position + 1)
  | @word previous cs rest w ws hw hs _ ih =>
    obtain ⟨c, ds, rfl, hvisible⟩ := hw.head_not_blank
    obtain ⟨ts, hts, hmap⟩ := ih (position + (c :: ds).length)
    refine ⟨⟨w, position⟩ :: ts, ?_, by rw [List.map_cons, hmap]⟩
    rw [tokensFrom_word hvisible hw hs, hts]
    rfl

theorem spells_of_tokensFrom {previous : Option Lexeme} {position : Nat} {cs : List Char} {ts : List Token}
    (h : tokensFrom previous position cs = .ok ts) : Spells previous cs (ts.map (·.lexeme)) := by
  -- The recursion follows the lexer: one white space or one word is taken at a time.
  cases cs with
  | nil =>
    rw [tokensFrom] at h
    cases h
    exact .nil previous
  | cons c cs =>
    cases hvisible : isBlank c with
    | true =>
      rw [tokensFrom_blank hvisible] at h
      exact .blank hvisible (spells_of_tokensFrom h)
    | false =>
      rcases word_cases previous position c cs with ⟨ds, rest, w, rfl, hw, hs⟩ | ⟨herror, -⟩ | ⟨herror, -⟩
      · rw [← List.cons_append, tokensFrom_word hvisible hw hs, map_eq_ok_iff] at h
        obtain ⟨ts, hts, rfl⟩ := h
        exact .word hw hs (spells_of_tokensFrom hts)
      · rw [tokensFrom_error hvisible herror] at h
        cases h
      · rw [tokensFrom_error hvisible herror] at h
        cases h
termination_by cs.length

theorem spells_iff (position : Nat) :
    Spells previous cs ws ↔ ∃ ts, tokensFrom previous position cs = .ok ts ∧ ts.map (·.lexeme) = ws := by
  constructor
  · exact fun h => h.exists_tokens position
  · rintro ⟨ts, hts, rfl⟩
    exact spells_of_tokensFrom hts

/-! ### Texts side by side -/

/-- A word may stand behind another word if a sign may, and before another text if this begins with a character of the
    same class as the text behind it did, or with one that no word goes on with. -/
theorem Stands.of_head {rest' : List Char} (h : Stands previous cs w rest)
    (hplace : IsSignPlace previous' ↔ IsSignPlace previous)
    (hhead : ∀ c ∈ rest'.head?, (∃ d ∈ rest.head?, SameClass d c) ∨ IsEnd c) : Stands previous' cs w rest' := by
  cases w with
  | number x =>
    refine ⟨fun c hc => ?_, fun hsign => hplace.mpr (h.2 hsign)⟩
    rcases hhead c hc with ⟨d, hd, hclass⟩ | ⟨hname, hpoint, -⟩
    · obtain ⟨hdigit, hpoint⟩ := h.1 d hd
      exact ⟨hclass.2.1 ▸ hdigit, fun heq => hpoint (hclass.2.2.1.mpr heq)⟩
    · exact ⟨(Bool.or_eq_false_iff.mp hname).2, fun heq => absurd heq hpoint⟩
  | name s =>
    intro c hc
    rcases hhead c hc with ⟨d, hd, hclass⟩ | ⟨hname, -⟩
    · exact hclass.isNameChar ▸ h d hd
    · exact hname
  | compare op =>
    intro hlength hequal
    rcases hhead '=' hequal with ⟨d, hd, hclass⟩ | ⟨-, -, hne⟩
    · exact h hlength (hclass.2.2.2.mpr rfl ▸ hd)
    · exact hne rfl
  | arith op =>
    cases op with
    | minus =>
      intro hsign c hc
      rcases hhead c hc with ⟨d, hd, hclass⟩ | ⟨hname, -⟩
      · exact hclass.2.1 ▸ h (hplace.mp hsign) d hd
      · exact (Bool.or_eq_false_iff.mp hname).2
    | _ => trivial
  | _ => trivial

/-- A word may stand behind another word if a sign may, and before more text if it ends there. -/
theorem Stands.append (h : Stands previous cs w rest) (hplace : IsSignPlace previous' ↔ IsSignPlace previous)
    {text : List Char} (hend : EndsWord text) : Stands previous' cs w (rest ++ text) := by
  refine h.of_head hplace fun c hc => ?_
  cases rest with
  | nil => exact Or.inr (hend c hc)
  | cons d rest => exact Or.inl ⟨c, hc, .refl c⟩

/-- A text that ends with a word is spelt in front of another text as it is alone. -/
theorem Spells.append {text : List Char} (h : Spells previous cs ws)
    (hplace : IsSignPlace previous' ↔ IsSignPlace previous) (hend : EndsWord text)
    (htext : Spells (ws.getLast?.or previous') text vs) : Spells previous' (cs ++ text) (ws ++ vs) := by
  induction h generalizing previous' with
  | nil previous => exact htext
  | blank hc _ ih => exact .blank hc (ih hplace htext)
  | @word previous cs rest w ws hw hs _ ih =>
    rw [List.getLast?_cons, Option.some_or, ← Option.or_some] at htext
    rw [List.append_assoc]
    exact .word hw (hs.append hplace hend) (ih Iff.rfl htext)

/-- An opening parenthesis stands anywhere, and what is inside of parentheses is spelt as it is alone. -/
theorem Spells.group (h : Spells none cs ws) (hrest : Spells (some .closing) rest vs) (previous : Option Lexeme) :
    Spells previous ('(' :: cs ++ ')' :: rest) (.opening :: ws ++ .closing :: vs) := by
  have hplace : IsSignPlace (some .opening) ↔ IsSignPlace none := iff_of_true (Or.inr (Or.inl rfl)) (Or.inl rfl)
  have hend : EndsWord (')' :: rest) := by
    rintro c ⟨⟩
    decide
  have hclosing : Spells (ws.getLast?.or (some .opening)) ([')'] ++ rest) (.closing :: vs) :=
    .word .closing trivial hrest
  have hopening : Spells previous (['('] ++ (cs ++ ')' :: rest)) (.opening :: (ws ++ .closing :: vs)) :=
    .word .opening trivial (h.append hplace hend hclosing)
  exact hopening

end Lexer
end TableMetrics
