import TableMetrics.Proofs.Expr.Source

/-! White space between words. Where the words of a text stay whole, white space can be put before, between and behind
    them, and the text has the same words as before: so it is the same expression, or none either, and comes to the same
    over every table. -/

namespace TableMetrics

open Lexer

namespace Lexer

/-- The text with more before its characters and at its end: `gap i` at the place `i`, where the text itself begins at
    `start`. -/
def widen (gap : Nat → List Char) (start : Nat) : List Char → List Char
  | [] => gap start
  | c :: cs => gap start ++ c :: widen gap (start + 1) cs

/-- The gaps are white space, and there are none inside of the words. -/
structure IsSpacing (gap : Nat → List Char) (xs : List Slice) : Prop where
  blank : ∀ i, ∀ c ∈ gap i, isBlank c = true
  outside : ∀ x ∈ xs, ∀ i, x.position < i → i < x.stop → gap i = []

variable {gap : Nat → List Char} {previous : Option Lexeme} {text cs : List Char} {ws : List Lexeme} {xs : List Slice}

theorem IsSpacing.tail {x : Slice} (h : IsSpacing gap (x :: xs)) : IsSpacing gap xs :=
  ⟨h.blank, fun y hy => h.outside y (List.mem_cons_of_mem x hy)⟩

theorem widen_append {start : Nat} (h : ∀ i, start ≤ i → i < start + cs.length → gap i = []) (rest : List Char) :
    widen gap start (cs ++ rest) = cs ++ widen gap (start + cs.length) rest := by
  induction cs generalizing start with
  | nil => rfl
  | cons c cs ih =>
    have hstart : gap start = [] := h start (Nat.le_refl _) (by simp)
    have hcs := @ih (start + 1) fun i hi hlt => h i (by omega) (by rw [List.length_cons]; omega)
    rw [List.cons_append, widen, hstart, hcs, List.length_cons, Nat.add_right_comm, Nat.add_assoc]
    rfl

theorem isEnd_of_isBlank {c : Char} (h : isBlank c = true) : IsEnd c := by
  refine ⟨Bool.eq_false_iff.mpr fun hname => ?_, ?_, ?_⟩
  · have hvisible : isBlank c = false := by
      rcases Bool.or_eq_true_iff.mp hname with hstart | hdigit
      · obtain ⟨hlow, hhigh⟩ := toNat_of_nameStart hstart
        exact isBlank_eq_false (by omega) (by omega)
      · exact isBlank_of_digit hdigit
    rw [h] at hvisible
    cases hvisible
  · rintro rfl
    exact absurd h (by decide)
  · rintro rfl
    exact absurd h (by decide)

/-- What stands behind a place begins as before, or with white space. -/
theorem head_widen (hgap : IsSpacing gap xs) (start : Nat) :
    ∀ c ∈ (widen gap start cs).head?, (∃ d ∈ cs.head?, SameClass d c) ∨ IsEnd c := by
  intro c hc
  have hcases : c ∈ gap start ∨ c ∈ cs.head? := by
    cases cs with
    | nil => exact Or.inl (List.mem_of_mem_head? hc)
    | cons d cs =>
      rw [widen] at hc
      cases hstart : gap start with
      | nil =>
        rw [hstart] at hc
        exact Or.inr hc
      | cons b bs =>
        rw [hstart] at hc
        cases hc
        exact Or.inl (List.mem_cons_self ..)
  rcases hcases with hc | hc
  · exact Or.inr (isEnd_of_isBlank (hgap.blank start c hc))
  · exact Or.inl ⟨c, hc, .refl c⟩

theorem Spells.blanks {bs : List Char} (hbs : ∀ c ∈ bs, isBlank c = true) (h : Spells previous cs ws) :
    Spells previous (bs ++ cs) ws := by
  induction bs with
  | nil => exact h
  | cons b bs ih =>
    obtain ⟨hb, hbs⟩ := List.forall_mem_cons.mp hbs
    exact .blank hb (ih hbs)

/-- The words of a text spell it with any white space around them. -/
theorem spells_widen {start : Nat} (hcut : CutsFrom text start previous xs) (hgap : IsSpacing gap xs) :
    Spells previous (widen gap start (text.drop start)) (xs.map (·.lexeme)) := by
  induction start, previous, xs, hcut using CutsFrom.induction with
  | stop start previous _ hdrop =>
    rw [hdrop]
    simpa [widen] using Spells.blanks (hgap.blank start) (.nil previous)
  | blank start previous xs _ c cs hdrop hblank _ ih =>
    have hrest := ih hgap
    rw [← List.drop_drop, hdrop, List.drop_one, List.tail_cons] at hrest
    rw [hdrop, widen]
    exact .blanks (hgap.blank start) (.blank hblank hrest)
  | word previous x xs _ rest hdrop hw hs hstop _ ih =>
    have hrest := ih hgap.tail
    rw [hstop] at hrest
    rw [hdrop]
    obtain ⟨c, cs, hchars, -⟩ := hw.head_not_blank
    have hlength : x.stop = x.position + 1 + cs.length := by
      rw [Slice.stop, hchars, List.length_cons]
      omega
    have hnone : ∀ i, x.position + 1 ≤ i → i < x.position + 1 + cs.length → gap i = [] := fun i hi hlt =>
      hgap.outside x (List.mem_cons_self ..) i (by omega) (by omega)
    have hinside := widen_append hnone rest
    rw [hchars, List.cons_append, widen, hinside, ← hlength, ← List.cons_append, ← hchars]
    exact .blanks (hgap.blank x.position) (.word hw (hs.of_head Iff.rfl (head_widen hgap.tail x.stop)) hrest)

theorem all_widen (hgap : IsSpacing gap xs) (start : Nat) : (widen gap start cs).all isBlank = cs.all isBlank := by
  have hall : ∀ i, (gap i).all isBlank = true := fun i => List.all_eq_true.mpr (hgap.blank i)
  induction cs generalizing start with
  | nil => exact hall start
  | cons c cs ih => rw [widen, List.all_append, hall, List.all_cons, ih, List.all_cons, Bool.true_and]

end Lexer

/-- A text with more put before its characters and at its end. -/
def spaced (gap : Nat → List Char) (s : String) : String := String.ofList (widen gap 0 s.toList)

namespace Expr
variable {s s' : String}

/-- Texts with the same words are the same expression, or neither of them is one. -/
theorem ofText_of_sameWords {ts ts' : List Token} (hts : Token.ofText s = .ok ts) (hts' : Token.ofText s' = .ok ts')
    (hwords : ts'.map (·.lexeme) = ts.map (·.lexeme)) :
    (∃ e, ofText s = .ok e ∧ ofText s' = .ok e) ∨
      ∃ x x', ofText s = .error (.syntactic x) ∧ ofText s' = .error (.syntactic x') := by
  rw [ofText_of_tokens hts, ofText_of_tokens hts']
  cases hread : ofTokens ts with
  | ok e =>
    have hread' : ofTokens ts' = .ok e := ofTokens_of_derives (hwords ▸ derives_of_ofTokens hread)
    rw [hread']
    exact Or.inl ⟨e, rfl, rfl⟩
  | error x =>
    cases hread' : ofTokens ts' with
    | ok e =>
      rw [ofTokens_of_derives (hwords ▸ derives_of_ofTokens hread')] at hread
      cases hread
    | error x' => exact Or.inr ⟨x, x', rfl, rfl⟩

end Expr

/-- White space around the words of a text changes nothing but the places of the words. The text has the same words, it
    is the same expression or fails as an expression in both forms, and over every table, which may be malformed, it
    comes to one value or to failures of one kind. -/
theorem evaluate_spaced {s : String} {xs : List Slice} (hcut : Cuts s.toList xs) {gap : Nat → List Char}
    (hgap : IsSpacing gap xs) :
    (∃ ts', Token.ofText s = .ok (xs.map Slice.token) ∧ Token.ofText (spaced gap s) = .ok ts' ∧
      ts'.map (·.lexeme) = (xs.map Slice.token).map (·.lexeme)) ∧
    ((∃ e, Expr.ofText s = .ok e ∧ Expr.ofText (spaced gap s) = .ok e) ∨ ∃ x x',
      Expr.ofText s = .error (.syntactic x) ∧ Expr.ofText (spaced gap s) = .error (.syntactic x')) ∧
    ∀ input, Agree False (evaluate s input) (evaluate (spaced gap s) input) := by
  have hts : Token.ofText s = .ok (xs.map Slice.token) := Token.ofText_eq_ok_iff.mpr ⟨xs, hcut, rfl⟩
  obtain ⟨ts', hts', hwords⟩ : ∃ ts', Token.ofText (spaced gap s) = .ok ts' ∧
      ts'.map (·.lexeme) = (xs.map Slice.token).map (·.lexeme) := by
    obtain ⟨ts', hts', hwords⟩ := (spells_widen hcut hgap).exists_tokens 0
    refine ⟨ts', ?_, by rw [hwords, List.map_map]; rfl⟩
    rw [Token.ofText, spaced, String.toList_ofList]
    exact hts'
  have hparse := Expr.ofText_of_sameWords hts hts' hwords
  refine ⟨⟨ts', hts, hts', hwords⟩, hparse, fun input => ?_⟩
  have hread : Agree False (Expr.ofText s) (Expr.ofText (spaced gap s)) := by
    rcases hparse with ⟨e, he, he'⟩ | ⟨x, x', hx, hx'⟩
    · rw [he, he']
      exact .refl _
    · rw [hx, hx']
      exact .error rfl False.elim
  have hblank : isBlankText (spaced gap s) = isBlankText s := by
    rw [isBlankText, spaced, String.toList_ofList, all_widen hgap]
    rfl
  rw [evaluate_eq_ite, evaluate_eq_ite, hblank]
  split
  · exact .refl _
  · exact (Agree.refl _).bind fun d _ => hread.bind fun e _ => .refl _

/-- A line break and a wide space before and behind the symbol of a comparison, which stays whole. -/
theorem evaluate_spaced_comparison :
    let xs : List Slice := [⟨0, ['a'], .name "a"⟩, ⟨1, ['<', '='], .compare .lessEqual⟩, ⟨3, ['b'], .name "b"⟩]
    let gap : Nat → List Char := fun i => if i = 1 ∨ i = 3 then ['\n', '\u3000'] else []
    Cuts "a<=b".toList xs ∧ IsSpacing gap xs ∧ spaced gap "a<=b" = "a\n\u3000<=\n\u3000b" ∧
      Expr.ofText "a\n\u3000<=\n\u3000b" = Expr.ofText "a<=b" ∧
      ∀ input, Agree False (evaluate "a<=b" input) (evaluate "a\n\u3000<=\n\u3000b" input) := by
  intro xs gap
  have hcut : Cuts "a<=b".toList xs := by
    refine .cons ⟨0, ['a'], .name "a"⟩ (by decide) (.name (by decide) (by simp)) ?_
      (.cons ⟨1, ['<', '='], .compare .lessEqual⟩ (by decide) (.compare .lessEqual) (by simp [Stands])
        (.cons ⟨3, ['b'], .name "b"⟩ (by decide) (.name (by decide) (by simp)) (by simp [Stands, Slice.stop])
          ((cutsFrom_end (by decide)).mpr rfl)))
    rintro c ⟨⟩
    decide
  have hgap : IsSpacing gap xs := by
    constructor
    · intro i
      have hall : ['\n', '\u3000'].all isBlank = true := by decide
      simp only [gap]
      split
      · exact List.all_eq_true.mp hall
      · exact List.forall_mem_nil _
    · intro x hx i hi hlt
      have hinside : i = 2 := by
        simp only [xs, List.mem_cons, List.not_mem_nil, or_false] at hx
        rcases hx with rfl | rfl | rfl <;> simp only [Slice.stop, List.length_cons, List.length_nil] at hi hlt <;> omega
      rw [hinside]
      rfl
  have hspaced : spaced gap "a<=b" = "a\n\u3000<=\n\u3000b" := by decide
  obtain ⟨-, hparse, hagree⟩ := evaluate_spaced hcut hgap
  rw [hspaced] at hparse hagree
  refine ⟨hcut, hgap, hspaced, ?_, hagree⟩
  rcases hparse with ⟨e, he, he'⟩ | ⟨x, x', hx, -⟩
  · rw [he, he']
  · have hok : (Expr.ofText "a<=b").isOk = true := by decide +kernel
    rw [hx] at hok
    cases hok

end TableMetrics
