import TableMetrics.Token.Lexer

/-! The words of the language: which characters write which word, and where a word may stand. -/

namespace TableMetrics
namespace Lexer

/-! ### What words look like -/

/-- Digits, with at most one point after the first of them: the digits before the point and those behind it. -/
inductive IsNumber : List Char → List Char → List Char → Prop where
  | whole {ds : List Char} (hne : ds ≠ []) (h : ∀ c ∈ ds, isAsciiDigit c = true) : IsNumber ds ds []
  | point {ds fs : List Char} (hne : ds ≠ []) (h : ∀ c ∈ ds, isAsciiDigit c = true)
    (h' : ∀ c ∈ fs, isAsciiDigit c = true) : IsNumber (ds ++ '.' :: fs) ds fs

def signChars (negative : Bool) : List Char := if negative then ['-'] else []

def IsQuote (q : Char) : Prop := q = '"' ∨ q = '\''

/-- What stands between two quotes `q`, and the text that it means. A backslash stands before every character that
    is not meant as it is. -/
inductive IsBody (q : Char) : List Char → List Char → Prop where
  | nil : IsBody q [] []
  | plain {c : Char} {cs content : List Char} (hquote : c ≠ q) (hbackslash : c ≠ '\\') (h : IsBody q cs content) :
    IsBody q (c :: cs) (c :: content)
  | newline {cs content : List Char} (h : IsBody q cs content) : IsBody q ('\\' :: 'n' :: cs) ('\n' :: content)
  | tab {cs content : List Char} (h : IsBody q cs content) : IsBody q ('\\' :: 't' :: cs) ('\t' :: content)
  | escaped {c : Char} {cs content : List Char} (hn : c ≠ 'n') (ht : c ≠ 't') (h : IsBody q cs content) :
    IsBody q ('\\' :: c :: cs) (c :: content)

/-- The characters are a word of the language. A number has the value that its text denotes. -/
inductive Writes : List Char → Lexeme → Prop where
  | number (negative : Bool) {cs ds fs : List Char} {x : Binary64} (h : IsNumber cs ds fs)
    (hx : numericText? (String.ofList (signChars negative ++ cs)) = some x) :
    Writes (signChars negative ++ cs) (.number x)
  | text {q : Char} {body content : List Char} (hq : IsQuote q) (h : IsBody q body content) :
    Writes (q :: body ++ [q]) (.text (String.ofList content))
  | compare (op : CompareOp) : Writes op.symbol.toList (.compare op)
  | arith (op : ArithOp) : Writes op.symbol.toList (.arith op)
  | opening : Writes ['('] .opening
  | closing : Writes [')'] .closing
  | comma : Writes [','] .comma
  | name {c : Char} {cs : List Char} (hc : isNameStart c = true) (h : ∀ d ∈ cs, isNameChar d = true) :
    Writes (c :: cs) (.name (String.ofList (c :: cs)))

/-! ### Where words stand -/

/-- Places where a number may have a sign: at the beginning, after an opening parenthesis and after an arithmetic
    operator. -/
def IsSignPlace (previous : Option Lexeme) : Prop :=
  previous = none ∨ previous = some .opening ∨ ∃ op, previous = some (.arith op)

/-- A word may stand between the word `previous` and the text `rest`. Numbers, names and comparisons are as long as
    they can be. A minus sign before a digit belongs to the number where a number may have a sign, and only there. -/
def Stands (previous : Option Lexeme) (cs : List Char) (w : Lexeme) (rest : List Char) : Prop :=
  match w with
  | .number _ => (∀ c ∈ rest.head?, isAsciiDigit c = false ∧ (c = '.' → '.' ∈ cs)) ∧
    (cs.head? = some '-' → IsSignPlace previous)
  | .name _ => ∀ c ∈ rest.head?, isNameChar c = false
  | .compare _ => cs.length = 1 → rest.head? ≠ some '='
  | .arith .minus => IsSignPlace previous → ∀ c ∈ rest.head?, isAsciiDigit c = false
  | _ => True

theorem takesSign_iff {previous : Option Lexeme} : takesSign previous = true ↔ IsSignPlace previous := by
  unfold takesSign IsSignPlace
  split <;> simp_all

theorem Stands.take {previous : Option Lexeme} {cs : List Char} {w : Lexeme} {rest : List Char}
    (h : Stands previous cs w rest) (n : Nat) : Stands previous cs w (rest.take n) := by
  cases n with
  | zero =>
    cases w with
    | number x => exact ⟨by simp, h.2⟩
    | arith op => cases op <;> simp [Stands]
    | _ => simp [Stands]
  | succ n =>
    have hhead : (rest.take (n + 1)).head? = rest.head? := by cases rest <;> rfl
    unfold Stands at h ⊢
    rw [hhead]
    exact h

/-! ### Characters -/

/-- The characters that begin a word of their own, not a number and not a name. -/
def symbols : List Char := ['>', '<', '=', '!', '+', '-', '*', '/', '(', ')', ',', '"', '\'']

theorem mem_symbols_of_comparison? {c : Char} {next : Option Char} {x : CompareOp × Nat}
    (h : comparison? c next = some x) : c ∈ symbols := by
  unfold comparison? at h
  split at h
  case h_8 => cases h
  all_goals decide

theorem mem_symbols_of_mark? {c : Char} {w : Lexeme} (h : mark? c = some w) : c ∈ symbols := by
  unfold mark? at h
  split at h
  case h_8 => cases h
  all_goals decide

theorem isAsciiDigit_iff {c : Char} : isAsciiDigit c = true ↔ 48 ≤ c.toNat ∧ c.toNat ≤ 57 := by
  simp only [isAsciiDigit, Bool.and_eq_true, decide_eq_true_eq]
  rfl

theorem toNat_of_nameStart {c : Char} (h : isNameStart c = true) : 65 ≤ c.toNat ∧ c.toNat ≤ 122 := by
  rcases Bool.or_eq_true_iff.mp h with h | h
  · rcases Bool.or_eq_true_iff.mp h with h | h
    · obtain ⟨h, h'⟩ := of_decide_eq_true h
      have hlow : 65 ≤ c.toNat := h
      have hhigh : c.toNat ≤ 90 := h'
      omega
    · obtain ⟨h, h'⟩ := Bool.and_eq_true_iff.mp h
      have hlow : 97 ≤ c.toNat := of_decide_eq_true h
      have hhigh : c.toNat ≤ 122 := of_decide_eq_true h'
      omega
  · rw [eq_of_beq h]
    decide

/-- No visible character of ASCII is white space. -/
theorem isBlank_eq_false {c : Char} (h : 32 < c.toNat) (h' : c.toNat < 133) : isBlank c = false := by
  simp only [isBlank, blankRanges, List.any_eq_false, List.mem_cons, List.not_mem_nil, or_false, Bool.and_eq_true,
    decide_eq_true_eq, forall_eq_or_imp, forall_eq]
  omega

theorem isBlank_of_digit {c : Char} (h : isAsciiDigit c = true) : isBlank c = false := by
  obtain ⟨hlow, hhigh⟩ := isAsciiDigit_iff.mp h
  exact isBlank_eq_false (by omega) (by omega)

theorem isAsciiDigit_of_mem_symbols {c : Char} (h : c ∈ symbols) : isAsciiDigit c = false := by
  have hall : symbols.all (fun d => !isAsciiDigit d) = true := by decide
  simpa using List.all_eq_true.mp hall c h

theorem not_mem_symbols_of_nameStart {c : Char} (h : isNameStart c = true) : c ∉ symbols := fun hc => by
  have hall : symbols.all (fun d => !isNameStart d) = true := by decide
  have hnot := List.all_eq_true.mp hall c hc
  rw [h] at hnot
  cases hnot

theorem isAsciiDigit_of_nameStart {c : Char} (h : isNameStart c = true) : isAsciiDigit c = false := by
  obtain ⟨hlow, -⟩ := toNat_of_nameStart h
  cases hd : isAsciiDigit c with
  | false => rfl
  | true =>
    obtain ⟨-, hhigh⟩ := isAsciiDigit_iff.mp hd
    omega

theorem Writes.head_not_blank {cs : List Char} {w : Lexeme} (h : Writes cs w) :
    ∃ c rest, cs = c :: rest ∧ isBlank c = false := by
  cases h with
  | @number negative cs ds fs x h hx =>
    cases negative with
    | true => exact ⟨'-', cs, rfl, by decide⟩
    | false =>
      cases h with
      | whole hne hall =>
        obtain ⟨c, rest, rfl⟩ := List.exists_cons_of_ne_nil hne
        exact ⟨c, rest, rfl, isBlank_of_digit (hall c (List.mem_cons_self ..))⟩
      | @point ds fs hne hall _ =>
        obtain ⟨c, rest, rfl⟩ := List.exists_cons_of_ne_nil hne
        exact ⟨c, rest ++ '.' :: fs, rfl, isBlank_of_digit (hall c (List.mem_cons_self ..))⟩
  | @text q body content hq h =>
    refine ⟨q, body ++ [q], rfl, ?_⟩
    rcases hq with rfl | rfl <;> decide
  | compare op => cases op <;> exact ⟨_, _, rfl, by decide⟩
  | arith op => cases op <;> exact ⟨_, _, rfl, by decide⟩
  | opening => exact ⟨'(', [], rfl, by decide⟩
  | closing => exact ⟨')', [], rfl, by decide⟩
  | comma => exact ⟨',', [], rfl, by decide⟩
  | @name c cs hc h =>
    obtain ⟨hlow, hhigh⟩ := toNat_of_nameStart hc
    exact ⟨c, cs, rfl, isBlank_eq_false (by omega) (by omega)⟩

end Lexer
end TableMetrics
