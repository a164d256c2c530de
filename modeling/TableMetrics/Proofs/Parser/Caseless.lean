import TableMetrics.Proofs.Parser.Complete

/-! Names that are read in any case: the name of a function, and the word for null. In the place of such a name the parser
    takes every name of the same upper case, and it comes to the same tree. -/

namespace TableMetrics

/-- Whether a word is a name that is read in any case, given the word behind it. The name of a function is one: it has an
    opening parenthesis behind it. -/
def Lexeme.isCaseless (w : Lexeme) (next : Option Lexeme) : Bool :=
  match w with
  | .name s => decide (next = some .opening ∨ upper s = "NULL")
  | _ => false

/-- Before the word `next`, two words are read alike: they are one word, or names in different cases of which the case
    does not matter. -/
inductive SameReading (next : Option Lexeme) : Lexeme → Lexeme → Prop where
  | refl (w : Lexeme) : SameReading next w w
  | name {s s' : String} (hupper : upper s = upper s') (h : (Lexeme.name s).isCaseless next = true) :
    SameReading next (.name s) (.name s')

theorem SameReading.upper_eq {next : Option Lexeme} {n n' : String} (h : SameReading next (.name n) (.name n')) :
    upper n = upper n' := by
  cases h with
  | refl => rfl
  | name hupper _ => exact hupper

/-- Words that are read alike, each before the one behind it. -/
inductive SameWords : List Lexeme → List Lexeme → Prop where
  | nil : SameWords [] []
  | cons {w w' : Lexeme} {ws ws' : List Lexeme} (hw : SameReading ws.head? w w') (h : SameWords ws ws') :
    SameWords (w :: ws) (w' :: ws')

namespace Parser

/-- Before the word `next`, two states are alike: they are one state, or there are names last that are read alike. -/
inductive SameState (next : Option Lexeme) : State → State → Prop where
  | refl (s : State) : SameState next s s
  | name (brackets : List (Bracket × Pending)) (pending : Pending) {n n' : String}
    (h : SameReading next (.name n) (.name n')) :
    SameState next ⟨brackets, pending, .name n⟩ ⟨brackets, pending, .name n'⟩

variable {next : Option Lexeme} {n n' : String} {s s' s₁ : State} {e : Expr} {w w' : Lexeme} {position : Nat}

/-- A name that is no function's is the same operand as one that is read alike. -/
theorem nameOperand_eq (h : SameReading next (.name n) (.name n')) (hnext : next ≠ some .opening) :
    State.nameOperand n = State.nameOperand n' := by
  cases h with
  | refl => rfl
  | name hupper h =>
    have hnull : upper n = "NULL" := (of_decide_eq_true h).resolve_left hnext
    rw [State.nameOperand, State.nameOperand, if_pos hnull, if_pos (hupper ▸ hnull)]

theorem extend_name (s : State) (e : Expr) (n : String) (position : Nat) :
    s.extend e ⟨.name n, position⟩ = .error (s.misplaced ⟨.name n, position⟩) := rfl

/-- A name is taken where an operand can begin, and nowhere else. -/
theorem step_name (hs : s.step ⟨.name n, position⟩ = .ok s₁) :
    s.last.IsOpen ∧ s₁ = ⟨s.brackets, s.pending, .name n⟩ := by
  cases hlast : s.last.operand? with
  | some e =>
    rw [State.step_eq_extend hlast (by simp), extend_name] at hs
    cases hs
  | none =>
    have hopen : s.last.IsOpen := by
      cases hcases : s.last with
      | awaiting => exact Or.inl rfl
      | slot => exact Or.inr rfl
      | _ =>
        rw [hcases] at hlast
        cases hlast
    rw [State.step_eq_beginOperand hopen (by simp) (by simp)] at hs
    cases hs
    exact ⟨hopen, rfl⟩

/-- Alike states stay alike over words that are read alike, if the parser takes the one. -/
theorem SameState.step (h : SameState (some w) s s') (hw : SameReading next w w')
    (hs : s.step ⟨w, position⟩ = .ok s₁) :
    ∃ s₁', s'.step ⟨w', position⟩ = .ok s₁' ∧ SameState next s₁ s₁' := by
  cases h with
  | refl =>
    cases hw with
    | refl => exact ⟨s₁, hs, .refl s₁⟩
    | @name n n' hupper hcaseless =>
      obtain ⟨hopen, rfl⟩ := step_name hs
      refine ⟨⟨s.brackets, s.pending, .name n'⟩, ?_, .name _ _ (.name hupper hcaseless)⟩
      rw [State.step_eq_beginOperand hopen (by simp) (by simp)]
      rfl
  | name brackets pending hn =>
    by_cases hopening : w = .opening
    · subst hopening
      cases hw
      cases hs
      refine ⟨_, rfl, ?_⟩
      rw [hn.upper_eq]
      exact .refl _
    · have hoperand := nameOperand_eq hn (by simpa using hopening)
      rw [State.step_eq_extend rfl hopening] at hs
      cases hw with
      | refl =>
        rw [State.step_eq_extend rfl hopening]
        rw [hoperand] at hs
        exact ⟨s₁, hs, .refl s₁⟩
      | name =>
        rw [extend_name] at hs
        cases hs

theorem SameState.finish (h : SameState none s s') : s.finish = s'.finish := by
  cases h with
  | refl => rfl
  | @name brackets pending n n' hn =>
    change State.finishWith ⟨brackets, pending, .name n⟩ (State.nameOperand n) =
      State.finishWith ⟨brackets, pending, .name n'⟩ (State.nameOperand n')
    rw [nameOperand_eq hn (by simp)]
    rfl

/-- What the parser makes of words from alike states on, it makes of words that are read alike. -/
theorem SameWords.finish {ws ws' : List Lexeme} (h : SameWords ws ws') (hstate : SameState ws.head? s s')
    (hrun : ((ws.map (Token.mk · 0)).foldlM State.step s >>= State.finish) = .ok e) :
    ((ws'.map (Token.mk · 0)).foldlM State.step s' >>= State.finish) = .ok e := by
  induction h generalizing s s' with
  | nil => exact hstate.finish.symm.trans hrun
  | @cons w w' ws ws' hw _ ih =>
    rw [List.map_cons, List.foldlM_cons] at hrun ⊢
    cases hs : s.step ⟨w, 0⟩ with
    | error x =>
      rw [hs] at hrun
      cases hrun
    | ok s₁ =>
      obtain ⟨s₁', hs', hsame⟩ := hstate.step hw hs
      rw [hs] at hrun
      rw [hs']
      exact ih hsame hrun

end Parser

/-- Words that are read alike write the same trees. -/
theorem Derives.sameWords {ws ws' : List Lexeme} {e : Expr} (h : Derives .expression ws e) (hsame : SameWords ws ws') :
    Derives .expression ws' e := by
  have hlexemes : ∀ vs : List Lexeme, (vs.map (Token.mk · 0)).map (·.lexeme) = vs := fun vs => by
    rw [List.map_map]
    exact List.map_id _
  have hread : Expr.ofTokens (ws.map (Token.mk · 0)) = .ok e := ofTokens_of_derives ((hlexemes ws).symm ▸ h)
  have hread' : Expr.ofTokens (ws'.map (Token.mk · 0)) = .ok e := by
    cases hsame with
    | nil => exact hread
    | cons hw hws => exact Parser.SameWords.finish (.cons hw hws) (.refl _) hread
  rw [← hlexemes ws']
  exact derives_of_ofTokens hread'

end TableMetrics
