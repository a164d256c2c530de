import TableMetrics.Proofs.Lexer.Scan

/-! The word at a place. Where no white space stands, one word at most may stand, and the lexer finds it; where it
    finds none, no word begins there or a string begins that has no end. -/

namespace TableMetrics
namespace Lexer

variable {previous : Option Lexeme} {position : Nat} {c : Char} {cs ds rest : List Char} {w : Lexeme}

/-- Where the symbol of a comparison stands there is that comparison, unless there is a longer one. -/
theorem comparison?_symbol (op : CompareOp) : ∃ c ds, op.symbol.toList = c :: ds ∧
    ∀ rest : List Char, ∃ x, comparison? c (ds ++ rest).head? = some x ∧
      ((op.symbol.toList.length = 1 → rest.head? ≠ some '=') → x = (op, ds.length)) := by
  cases op with
  | greaterEqual => exact ⟨'>', ['='], rfl, fun rest => ⟨_, rfl, fun _ => rfl⟩⟩
  | lessEqual => exact ⟨'<', ['='], rfl, fun rest => ⟨_, rfl, fun _ => rfl⟩⟩
  | doubleEqual => exact ⟨'=', ['='], rfl, fun rest => ⟨_, rfl, fun _ => rfl⟩⟩
  | notEqual => exact ⟨'!', ['='], rfl, fun rest => ⟨_, rfl, fun _ => rfl⟩⟩
  | greater =>
    refine ⟨'>', [], rfl, fun rest => ?_⟩
    by_cases h : rest.head? = some '='
    · exact ⟨(.greaterEqual, 1), by rw [List.nil_append, h]; rfl, fun hne => absurd h (hne rfl)⟩
    · exact ⟨(.greater, 0), by simp [comparison?], fun _ => rfl⟩
  | less =>
    refine ⟨'<', [], rfl, fun rest => ?_⟩
    by_cases h : rest.head? = some '='
    · exact ⟨(.lessEqual, 1), by rw [List.nil_append, h]; rfl, fun hne => absurd h (hne rfl)⟩
    · exact ⟨(.less, 0), by simp [comparison?], fun _ => rfl⟩
  | equal =>
    refine ⟨'=', [], rfl, fun rest => ?_⟩
    by_cases h : rest.head? = some '='
    · exact ⟨(.doubleEqual, 1), by rw [List.nil_append, h]; rfl, fun hne => absurd h (hne rfl)⟩
    · exact ⟨(.equal, 0), by simp [comparison?], fun _ => rfl⟩

theorem exists_symbol_of_comparison? {op : CompareOp} {n : Nat} (h : comparison? c cs.head? = some (op, n)) :
    ∃ ds rest, cs = ds ++ rest ∧ n = ds.length ∧ c :: ds = op.symbol.toList ∧
      (ds = [] → rest.head? ≠ some '=') := by
  unfold comparison? at h
  split at h
  case h_1 hnext | h_2 hnext | h_3 hnext | h_4 hnext =>
    obtain ⟨rest, rfl⟩ := List.head?_eq_some_iff.mp hnext
    cases h
    exact ⟨['='], rest, rfl, rfl, rfl, by simp⟩
  case h_5 hne | h_6 hne | h_7 hne =>
    cases h
    exact ⟨[], cs, rfl, rfl, rfl, fun _ => hne⟩
  case h_8 => cases h

theorem mark?_arith (op : ArithOp) : ∃ c, op.symbol.toList = [c] ∧ mark? c = some (.arith op) := by
  cases op with
  | plus => exact ⟨'+', rfl, rfl⟩
  | minus => exact ⟨'-', rfl, rfl⟩
  | times => exact ⟨'*', rfl, rfl⟩
  | divide => exact ⟨'/', rfl, rfl⟩

theorem writes_of_mark? (h : mark? c = some w) : Writes [c] w := by
  unfold mark? at h
  split at h
  case h_1 =>
    cases h
    exact .arith .plus
  case h_2 =>
    cases h
    exact .arith .minus
  case h_3 =>
    cases h
    exact .arith .times
  case h_4 =>
    cases h
    exact .arith .divide
  case h_5 =>
    cases h
    exact .opening
  case h_6 =>
    cases h
    exact .closing
  case h_7 =>
    cases h
    exact .comma
  case h_8 => cases h

theorem comparison?_of_not_mem (h : c ∉ symbols) (next : Option Char) : comparison? c next = none := by
  cases hcmp : comparison? c next with
  | none => rfl
  | some x => exact absurd (mem_symbols_of_comparison? hcmp) h

theorem mark?_of_not_mem (h : c ∉ symbols) : mark? c = none := by
  cases hmark : mark? c with
  | none => rfl
  | some w => exact absurd (mem_symbols_of_mark? hmark) h

theorem word_number {ns fs : List Char} {x : Binary64} (h : IsNumber (c :: cs) ns fs)
    (hx : numericText? (String.ofList (c :: cs)) = some x) (hrest : EndsNumber (c :: cs) rest) :
    word previous position c (cs ++ rest) = .ok (.number x, cs.length) := by
  obtain ⟨_, _, heq, hc⟩ := h.head
  cases heq
  have hvalue := numericText?_number h false
  rw [show signChars false ++ c :: cs = c :: cs from rfl, hx] at hvalue
  have hnumber := number_append h hrest false
  rw [List.cons_append] at hnumber
  unfold word
  rw [if_pos hc, hnumber]
  simp [Option.some.inj hvalue]

theorem word_signed {ns fs : List Char} {x : Binary64} (h : IsNumber cs ns fs)
    (hx : numericText? (String.ofList ('-' :: cs)) = some x) (hrest : EndsNumber cs rest)
    (hplace : IsSignPlace previous) : word previous position '-' (cs ++ rest) = .ok (.number x, cs.length) := by
  obtain ⟨d, cs', rfl, hd⟩ := h.head
  have hvalue := numericText?_number h true
  rw [show signChars true ++ d :: cs' = '-' :: d :: cs' from rfl, hx] at hvalue
  have hsign : ('-' = '-' && (d :: cs' ++ rest).head?.any isAsciiDigit && takesSign previous) = true := by
    simp [hd, takesSign_iff.mpr hplace]
  unfold word
  rw [if_neg (by decide), if_pos hsign, number_append h hrest true]
  simp [Option.some.inj hvalue]

theorem word_text {body content : List Char} (hq : IsQuote c) (h : IsBody c body content) :
    word previous position c (body ++ c :: rest) = .ok (.text (String.ofList content), body.length + 1) := by
  have hdigit : isAsciiDigit c = false := by rcases hq with rfl | rfl <;> decide
  have hminus : c ≠ '-' := by rcases hq with rfl | rfl <;> decide
  have hquote : c = '"' ∨ c = '\'' := hq
  simp [word, hdigit, hminus, hquote, string?_append hq.ne_backslash h]

theorem word_unclosed (hq : IsQuote c) (h : string? c cs = none) :
    word previous position c cs = .error (.unclosedString position) := by
  have hdigit : isAsciiDigit c = false := by rcases hq with rfl | rfl <;> decide
  have hminus : c ≠ '-' := by rcases hq with rfl | rfl <;> decide
  have hquote : c = '"' ∨ c = '\'' := hq
  simp [word, hdigit, hminus, hquote, h]

theorem word_compare {op : CompareOp} {n : Nat} (h : comparison? c cs.head? = some (op, n)) :
    word previous position c cs = .ok (.compare op, n) := by
  have hdigit := isAsciiDigit_of_mem_symbols (mem_symbols_of_comparison? h)
  have hother : c ≠ '-' ∧ c ≠ '"' ∧ c ≠ '\'' := by
    refine ⟨?_, ?_, ?_⟩ <;> rintro rfl <;> cases h
  simp [word, hdigit, hother, h]

theorem word_mark (h : mark? c = some w) (hsign : c = '-' → IsSignPlace previous →
    ∀ d ∈ cs.head?, isAsciiDigit d = false) : word previous position c cs = .ok (w, 0) := by
  have hdigit := isAsciiDigit_of_mem_symbols (mem_symbols_of_mark? h)
  have hquote : c ≠ '"' ∧ c ≠ '\'' := by
    refine ⟨?_, ?_⟩ <;> rintro rfl <;> cases h
  have hcompare : comparison? c cs.head? = none := by
    unfold mark? at h
    split at h <;> first | rfl | cases h
  have hcond : ¬(c = '-' && cs.head?.any isAsciiDigit && takesSign previous) = true := by
    simp only [Bool.and_eq_true, decide_eq_true_eq, takesSign_iff]
    rintro ⟨⟨hc, hany⟩, hplace⟩
    cases hhead : cs.head? with
    | none =>
      rw [hhead] at hany
      cases hany
    | some d =>
      rw [hhead] at hany
      have hd : isAsciiDigit d = true := hany
      rw [hsign hc hplace d hhead] at hd
      cases hd
  unfold word
  rw [hdigit, if_neg (by simp), if_neg hcond, if_neg (by simp [hquote]), hcompare, h]

theorem word_name (hc : isNameStart c = true) (h : ∀ d ∈ cs, isNameChar d = true)
    (hrest : ∀ d ∈ rest.head?, isNameChar d = false) :
    word previous position c (cs ++ rest) = .ok (.name (String.ofList (c :: cs)), cs.length) := by
  have hsymbol := not_mem_symbols_of_nameStart hc
  have hother : c ≠ '-' ∧ c ≠ '"' ∧ c ≠ '\'' := by
    refine ⟨?_, ?_, ?_⟩ <;> rintro rfl <;> exact hsymbol (by decide)
  simp [word, isAsciiDigit_of_nameStart hc, hother, comparison?_of_not_mem hsymbol, mark?_of_not_mem hsymbol, hc,
    takeWhile_append_of_head h hrest]

/-- The lexer finds a word that may stand at a place. -/
theorem word_of_writes (hw : Writes (c :: cs) w) (hs : Stands previous (c :: cs) w rest) :
    word previous position c (cs ++ rest) = .ok (w, cs.length) := by
  generalize hchars : c :: cs = chars at hw
  cases hw with
  | @number negative ns ds fs x h hx =>
    rw [hchars] at hs
    cases negative with
    | true =>
      cases hchars
      refine word_signed h hx (fun d hd => ⟨(hs.1 d hd).1, fun hpoint => ?_⟩) (hs.2 rfl)
      have hmem := (hs.1 d hd).2 hpoint
      simpa [signChars] using hmem
    | false =>
      cases hchars
      exact word_number h hx hs.1
  | @text q body content hq h =>
    cases hchars
    have hword : word previous position c (body ++ c :: rest) = _ := word_text hq h
    simpa using hword
  | compare op =>
    obtain ⟨d, ds, hop, hsome⟩ := comparison?_symbol op
    obtain ⟨x, hcmp, hx⟩ := hsome rest
    have hx := hx (by rw [← hchars]; exact hs)
    rw [hop] at hchars
    cases hchars
    exact word_compare (hx ▸ hcmp)
  | arith op =>
    obtain ⟨d, hop, hmark⟩ := mark?_arith op
    rw [hop] at hchars
    cases hchars
    refine word_mark hmark ?_
    rintro rfl
    cases hmark
    exact hs
  | opening =>
    cases hchars
    exact word_mark rfl (by simp)
  | closing =>
    cases hchars
    exact word_mark rfl (by simp)
  | comma =>
    cases hchars
    exact word_mark rfl (by simp)
  | name hc h =>
    cases hchars
    exact word_name hc h hs

/-- Every word begins like a number, like a name, with a quote, with a comparison or with a mark. -/
theorem Writes.begins {chars : List Char} (h : Writes chars w) (hpre : chars <+: c :: cs) :
    isAsciiDigit c = true ∨ IsQuote c ∨ (comparison? c cs.head?).isSome ∨ (mark? c).isSome ∨ isNameStart c = true := by
  obtain ⟨rest, hrest⟩ := hpre
  cases h with
  | @number negative ns ds fs x h hx =>
    cases negative with
    | true =>
      cases hrest
      exact Or.inr (Or.inr (Or.inr (Or.inl rfl)))
    | false =>
      obtain ⟨d, ns, rfl, hd⟩ := h.head
      cases hrest
      exact Or.inl hd
  | text hq h =>
    cases hrest
    exact Or.inr (Or.inl hq)
  | compare op =>
    obtain ⟨d, ds, hop, hsome⟩ := comparison?_symbol op
    obtain ⟨x, hcmp, -⟩ := hsome rest
    rw [hop, List.cons_append] at hrest
    cases hrest
    exact Or.inr (Or.inr (Or.inl (Option.isSome_iff_exists.mpr ⟨x, hcmp⟩)))
  | arith op =>
    obtain ⟨d, hop, hmark⟩ := mark?_arith op
    rw [hop] at hrest
    cases hrest
    exact Or.inr (Or.inr (Or.inr (Or.inl (Option.isSome_iff_exists.mpr ⟨_, hmark⟩))))
  | opening =>
    cases hrest
    exact Or.inr (Or.inr (Or.inr (Or.inl rfl)))
  | closing =>
    cases hrest
    exact Or.inr (Or.inr (Or.inr (Or.inl rfl)))
  | comma =>
    cases hrest
    exact Or.inr (Or.inr (Or.inr (Or.inl rfl)))
  | name hc h =>
    cases hrest
    exact Or.inr (Or.inr (Or.inr (Or.inr hc)))

/-- At a place a word stands, or no word begins there, or a string begins that has no end. -/
theorem word_cases (previous : Option Lexeme) (position : Nat) (c : Char) (cs : List Char) :
    (∃ ds rest w, cs = ds ++ rest ∧ Writes (c :: ds) w ∧ Stands previous (c :: ds) w rest) ∨
    (word previous position c cs = .error (.unexpectedChar c position) ∧
      ∀ chars w, Writes chars w → ¬chars <+: c :: cs) ∨
    (word previous position c cs = .error (.unclosedString position) ∧ IsQuote c ∧ ∀ i, ¬Closes c cs i) := by
  by_cases hdigit : isAsciiDigit c = true
  · obtain ⟨ns, is, fs, rest, heq, hn, hrest⟩ := exists_isNumber hdigit cs
    obtain ⟨d, ds, rfl, -⟩ := hn.head
    rw [List.cons_append] at heq
    cases heq
    refine Or.inl ⟨ds, rest, _, rfl, .number false hn (numericText?_number hn false), hrest, fun hminus => ?_⟩
    cases hminus
    exact absurd hdigit (by decide)
  by_cases hquote : IsQuote c
  · have hfinds := finds_string? hquote.ne_backslash cs
    generalize hstring : string? c cs = r at hfinds
    cases hfinds with
    | quote hcloses _ hbody => exact Or.inl ⟨_, _, _, by simpa using hcloses.split, .text hquote hbody, trivial⟩
    | nothing hnone => exact Or.inr (Or.inr ⟨word_unclosed hquote hstring, hquote, hnone⟩)
  cases hcmp : comparison? c cs.head? with
  | some x =>
    obtain ⟨ds, rest, rfl, -, hop, hrest⟩ := exists_symbol_of_comparison? (n := x.2) hcmp
    refine Or.inl ⟨ds, rest, .compare x.1, rfl, hop ▸ .compare x.1, fun hlength => hrest ?_⟩
    simpa using hlength
  | none =>
    cases hmark : mark? c with
    | some w =>
      by_cases hsign : c = '-' ∧ IsSignPlace previous ∧ ∃ d ∈ cs.head?, isAsciiDigit d = true
      · obtain ⟨rfl, hplace, d, hd, hdigit⟩ := hsign
        obtain ⟨cs, rfl⟩ := List.head?_eq_some_iff.mp hd
        obtain ⟨ns, is, fs, rest, heq, hn, hrest⟩ := exists_isNumber hdigit cs
        refine Or.inl ⟨ns, rest, _, heq, .number true hn (numericText?_number hn true), fun d hd => ?_, fun _ => hplace⟩
        exact ⟨(hrest d hd).1, fun hpoint => List.mem_cons_of_mem _ ((hrest d hd).2 hpoint)⟩
      · refine Or.inl ⟨[], cs, w, rfl, writes_of_mark? hmark, ?_⟩
        unfold mark? at hmark
        split at hmark <;> cases hmark
        case h_2 =>
          intro hplace d hd
          refine Bool.eq_false_iff.mpr fun hdigit => hsign ⟨rfl, hplace, d, hd, hdigit⟩
        all_goals trivial
    | none =>
      by_cases hname : isNameStart c = true
      · obtain ⟨ds, rest, rfl, hall, hrest⟩ := exists_takeWhile isNameChar cs
        exact Or.inl ⟨ds, rest, _, rfl, .name hname hall, hrest⟩
      · have hother : c ≠ '-' ∧ c ≠ '"' ∧ c ≠ '\'' := by
          refine ⟨?_, fun h => hquote (Or.inl h), fun h => hquote (Or.inr h)⟩
          rintro rfl
          cases hmark
        refine Or.inr (Or.inl ⟨by simp [word, hdigit, hother, hcmp, hmark, hname], fun chars w hw hpre => ?_⟩)
        simpa [hdigit, hquote, hcmp, hmark, hname] using hw.begins hpre

end Lexer
end TableMetrics
