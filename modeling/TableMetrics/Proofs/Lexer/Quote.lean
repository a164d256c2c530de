import TableMetrics.Proofs.Lexer.Spell

/-! String literals. A text is written between two quotes with a backslash before each backslash and each such quote in
    it, and is read back from that wherever it stands. Whatever stands behind an opening quote is read up to the first
    quote that closes the string, and if there is none the reading fails at the opening quote. -/

namespace TableMetrics
namespace Lexer

variable {q : Char} {previous : Option Lexeme} {position : Nat} {cs : List Char}

/-! ### Escaping -/

/-- The characters with a backslash before each backslash and each quote `q`. -/
def escape (q : Char) (cs : List Char) : List Char :=
  cs.flatMap fun c => if c = '\\' ∨ c = q then ['\\', c] else [c]

/-- The literal that stands for a text, in quotes `q`. -/
def literal (q : Char) (v : String) : List Char := q :: escape q v.toList ++ [q]

theorem IsQuote.ne_letter (hq : IsQuote q) {c : Char} (h : c = '\\' ∨ c = q) : c ≠ 'n' ∧ c ≠ 't' := by
  rcases h with rfl | rfl
  · decide
  · rcases hq with rfl | rfl <;> decide

theorem isBody_escape_self (hq : IsQuote q) (cs : List Char) : IsBody q (escape q cs) cs := by
  induction cs with
  | nil => exact .nil
  | cons c cs ih =>
    rw [escape, List.flatMap_cons]
    split
    -- A backslash before a letter could mean a line break or a tab, but none is put there.
    · next h => exact .escaped (hq.ne_letter h).1 (hq.ne_letter h).2 ih
    · next h => exact .plain (fun hc => h (Or.inr hc)) (fun hc => h (Or.inl hc)) ih

theorem writes_literal (hq : IsQuote q) (v : String) : Writes (literal q v) (.text v) := by
  have hwrites := Writes.text hq (isBody_escape_self hq v.toList)
  rwa [String.ofList_toList] at hwrites

/-! ### Behind an opening quote -/

theorem IsQuote.isBlank (hq : IsQuote q) : isBlank q = false := by rcases hq with rfl | rfl <;> decide

theorem IsQuote.isEnd (hq : IsQuote q) : IsEnd q := by rcases hq with rfl | rfl <;> decide

/-- A string literal is one token wherever it stands, and the scan goes on behind it. -/
theorem tokensFrom_literal (hq : IsQuote q) (v : String) (rest : List Char) :
    tokensFrom previous position (literal q v ++ rest) =
      (tokensFrom (some (.text v)) (position + (literal q v).length) rest).map (⟨.text v, position⟩ :: ·) :=
  tokensFrom_word hq.isBlank (writes_literal hq v) trivial

theorem tokensFrom_closed (hq : IsQuote q) {i : Nat} {content : List Char} (hcloses : Closes q cs i)
    (hbody : IsBody q (cs.take i) content) : tokensFrom previous position (q :: cs) =
      (tokensFrom (some (.text (String.ofList content))) (position + (i + 2)) (cs.drop (i + 1))).map
        (⟨.text (String.ofList content), position⟩ :: ·) := by
  have hlt : i < cs.length := (List.getElem?_eq_some_iff.mp hcloses.1).1
  have hlength : (q :: (cs.take i ++ [q])).length = i + 2 := by
    rw [List.length_cons, List.length_append, List.length_take_of_le (Nat.le_of_lt hlt), List.length_singleton]
  have hsplit : q :: cs = q :: (cs.take i ++ [q]) ++ cs.drop (i + 1) := by
    rw [List.cons_append, List.append_assoc, List.singleton_append, ← hcloses.split]
  have hwrites : Writes (q :: (cs.take i ++ [q])) (.text (String.ofList content)) := .text hq hbody
  rw [hsplit, tokensFrom_word hq.isBlank hwrites trivial, hlength]

theorem tokensFrom_unclosed (hq : IsQuote q) (h : string? q cs = none) :
    tokensFrom previous position (q :: cs) = .error (.unclosedString position) :=
  tokensFrom_error hq.isBlank (word_unclosed hq h)

/-- No failure lies before the place at which the scan begins. -/
theorem le_failurePosition {e : LexError} (h : tokensFrom previous position cs = .error e) :
    position ≤ failurePosition e := by
  have htells := tokensFrom_tells (List.replicate position ' ' ++ cs) position previous
  rw [List.drop_left' List.length_replicate, h] at htells
  exact htells.2.1

theorem tokensFrom_unclosed_iff (hq : IsQuote q) :
    tokensFrom previous position (q :: cs) = .error (.unclosedString position) ↔ ∀ i, ¬Closes q cs i := by
  have hfinds := finds_string? hq.ne_backslash cs
  generalize hstring : string? q cs = r at hfinds
  cases hfinds with
  | @quote content i hcloses _ hbody =>
    refine iff_of_false (fun herror => ?_) fun hnone => hnone i hcloses
    rw [tokensFrom_closed hq hcloses hbody, map_eq_error_iff] at herror
    have hle : position + (i + 2) ≤ position := le_failurePosition herror
    omega
  | nothing hnone => exact iff_of_true (tokensFrom_unclosed hq hstring) hnone

theorem exists_tokensFrom_closed (hq : IsQuote q) {i : Nat} (hcloses : Closes q cs i)
    (hfirst : ∀ j < i, ¬Closes q cs j) : ∃ content, IsBody q (cs.take i) content ∧
      tokensFrom previous position (q :: cs) =
        (tokensFrom (some (.text (String.ofList content))) (position + (i + 2)) (cs.drop (i + 1))).map
          (⟨.text (String.ofList content), position⟩ :: ·) := by
  have hfinds := finds_string? hq.ne_backslash cs
  generalize string? q cs = r at hfinds
  cases hfinds with
  | @quote content k hcloses' hfirst' hbody =>
    obtain rfl : k = i := Nat.le_antisymm (Nat.not_lt.mp fun h => hfirst' i h hcloses)
      (Nat.not_lt.mp fun h => hfirst k h hcloses')
    exact ⟨content, hbody, tokensFrom_closed hq hcloses' hbody⟩
  | nothing hnone => exact absurd hcloses (hnone i)

/-! ### Behind other words -/

/-- In front of a text in which no word goes on, the tokens are those that there are without it. -/
theorem tokensFrom_append {text : List Char} (hend : EndsWord text) {previous : Option Lexeme} {position : Nat}
    {cs : List Char} {ts : List Token} (h : tokensFrom previous position cs = .ok ts) :
    tokensFrom previous position (cs ++ text) =
      (tokensFrom ((ts.getLast?.map (·.lexeme)).or previous) (position + cs.length) text).map (ts ++ ·) := by
  -- The recursion follows the lexer: one white space or one word is taken at a time.
  cases cs with
  | nil =>
    rw [tokensFrom] at h
    cases h
    show tokensFrom previous position text = (tokensFrom previous position text).map ([] ++ ·)
    cases tokensFrom previous position text <;> rfl
  | cons c cs =>
    cases hvisible : isBlank c with
    | true =>
      rw [tokensFrom_blank hvisible] at h
      rw [List.cons_append, tokensFrom_blank hvisible, tokensFrom_append hend h, List.length_cons]
      rw [Nat.add_right_comm, Nat.add_assoc]
    | false =>
      rcases word_cases previous position c cs with ⟨ds, rest, w, rfl, hw, hs⟩ | ⟨herror, -⟩ | ⟨herror, -⟩
      · rw [← List.cons_append, tokensFrom_word hvisible hw hs, map_eq_ok_iff] at h
        obtain ⟨ts, hts, rfl⟩ := h
        have hlast : (((⟨w, position⟩ :: ts : List Token).getLast?).map (·.lexeme)).or previous =
            (ts.getLast?.map (·.lexeme)).or (some w) := by
          rw [List.getLast?_cons]
          cases ts.getLast? <;> rfl
        rw [← List.cons_append, List.append_assoc, tokensFrom_word hvisible hw (hs.append Iff.rfl hend),
          tokensFrom_append hend hts, hlast, List.length_append, Nat.add_assoc]
        cases tokensFrom _ _ text <;> rfl
      · rw [tokensFrom_error hvisible herror] at h
        cases h
      · rw [tokensFrom_error hvisible herror] at h
        cases h
termination_by cs.length

end Lexer

open Lexer

section Source
variable {q : Char} {before : String} {ts : List Token}

/-- Behind a text that has tokens, a quote begins a word of its own. -/
theorem Token.ofText_append_quote (hq : IsQuote q) (h : Token.ofText before = .ok ts) (cs : List Char) :
    Token.ofText (before ++ String.ofList (q :: cs)) =
      (tokensFrom (ts.getLast?.map (·.lexeme)) before.length (q :: cs)).map (ts ++ ·) := by
  have hend : EndsWord (q :: cs) := fun c hc => Option.some.inj hc ▸ hq.isEnd
  have happend := tokensFrom_append hend h
  rw [Option.or_none, Nat.zero_add] at happend
  rw [Token.ofText, String.toList_append, String.toList_ofList]
  exact happend

/-- A text in quotes, with a backslash before each backslash and each such quote in it, is one token with that text,
    behind whatever tokens it stands, and the scan goes on behind it. What stands behind an opening quote is a string
    up to the first such quote with an even number of backslashes before it, and if there is none the scan fails at the
    opening quote. -/
theorem string_literals (hq : IsQuote q) :
    (∀ previous position v rest, tokensFrom previous position (literal q v ++ rest) =
      (tokensFrom (some (.text v)) (position + (literal q v).length) rest).map (⟨.text v, position⟩ :: ·)) ∧
    (∀ previous position cs i, Closes q cs i → (∀ j < i, ¬Closes q cs j) → ∃ content, IsBody q (cs.take i) content ∧
      tokensFrom previous position (q :: cs) =
        (tokensFrom (some (.text (String.ofList content))) (position + (i + 2)) (cs.drop (i + 1))).map
          (⟨.text (String.ofList content), position⟩ :: ·)) ∧
    (∀ previous position cs,
      tokensFrom previous position (q :: cs) = .error (.unclosedString position) ↔ ∀ i, ¬Closes q cs i) ∧
    (∀ before ts, Token.ofText before = .ok ts →
      (∀ v rest, Token.ofText (before ++ String.ofList (literal q v ++ rest)) =
        (tokensFrom (some (.text v)) (before.length + (literal q v).length) rest).map
          fun us => ts ++ ⟨.text v, before.length⟩ :: us) ∧
      ∀ cs, Token.ofText (before ++ String.ofList (q :: cs)) = .error (.unclosedString before.length) ↔
        ∀ i, ¬Closes q cs i) := by
  refine ⟨fun _ _ => tokensFrom_literal hq, fun _ _ _ _ => exists_tokensFrom_closed hq,
    fun _ _ _ => tokensFrom_unclosed_iff hq, fun before ts h => ⟨fun v rest => ?_, fun cs => ?_⟩⟩
  · rw [show literal q v ++ rest = q :: (escape q v.toList ++ [q] ++ rest) from rfl, Token.ofText_append_quote hq h]
    rw [show q :: (escape q v.toList ++ [q] ++ rest) = literal q v ++ rest from rfl, tokensFrom_literal hq]
    cases tokensFrom (some (.text v)) (before.length + (literal q v).length) rest <;> rfl
  · rw [Token.ofText_append_quote hq h, map_eq_error_iff, tokensFrom_unclosed_iff hq]

/-- A quote and a backslash inside of quotes, behind other words; without the last quote, the one before it does not
    close the string, since it has a backslash before it. -/
theorem string_literals_apostrophe :
    IsQuote '\'' ∧ literal '\'' "it's \\" = "'it\\'s \\\\'".toList ∧
    Token.ofText "a = 'it\\'s \\\\'" = .ok [⟨.name "a", 0⟩, ⟨.compare .equal, 2⟩, ⟨.text "it's \\", 4⟩] ∧
    Token.ofText "a = 'it\\'s" = .error (.unclosedString 4) := by
  have hq : IsQuote '\'' := Or.inr rfl
  have hbefore : Token.ofText "a = " = .ok [⟨.name "a", 0⟩, ⟨.compare .equal, 2⟩] :=
    eq_ok_of_toOption (by decide +kernel)
  obtain ⟨-, -, -, hsource⟩ := string_literals hq
  obtain ⟨hclosed, hopen⟩ := hsource _ _ hbefore
  refine ⟨hq, by decide, ?_, ?_⟩
  · have htokens := hclosed "it's \\" []
    rw [tokensFrom] at htokens
    exact htokens
  · refine (hopen "it\\'s".toList).mpr fun i hcloses => ?_
    have hlt : i < 5 := (List.getElem?_eq_some_iff.mp hcloses.1).1
    have hnone : ∀ j < 5, ¬Closes '\'' "it\\'s".toList j := by decide
    exact hnone i hlt hcloses

end Source

end TableMetrics
