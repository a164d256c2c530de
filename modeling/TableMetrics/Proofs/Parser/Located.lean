import TableMetrics.Proofs.Parser.Complete

/-! Where an expression goes wrong. What the tokens so far have left open can always be closed, so the parser fails
    only at a token that no expression has behind the tokens before it, and names that token; or each token has its
    place, and it fails where the tokens end. -/

namespace TableMetrics

namespace ParseError

/-- The token that cannot stand where it is; there is none where the expression ends. -/
def found? : ParseError → Option Token
  | .empty | .unexpectedEnd => none
  | .unexpected t | .chainedComparison t => some t
  | .unclosedGroup _ found | .unclosedCall _ found => found

/-- A message says last what was found: a token and its position, or the end of the expression. -/
theorem exists_message {cause : ParseError} (h : cause ≠ .empty) :
    ∃ lead, cause.message = lead ++ foundText cause.found? := by
  cases cause with
  | empty => exact absurd rfl h
  | unexpectedEnd => exact ⟨"Unexpected ", rfl⟩
  | unexpected t => exact ⟨"Unexpected token ", rfl⟩
  | chainedComparison t => exact ⟨"Comparison operators cannot be chained: ", rfl⟩
  | unclosedGroup position found => exact ⟨_, rfl⟩
  | unclosedCall f found => exact ⟨_, rfl⟩

end ParseError

/-- Tokens of which some more tokens make an expression. -/
def IsBeginning (ts : List Token) : Prop := ∃ vs e, Expr.ofTokens (ts ++ vs) = .ok e

namespace Parser
namespace State

/-! ### Failing at a token -/

theorem misplaced_found (s : State) (t : Token) : (s.misplaced t).found? = some t := by
  unfold misplaced
  split <;> rfl

theorem beginOperand_found {s : State} {t : Token} {cause : ParseError} (h : s.beginOperand t = .error cause) :
    cause.found? = some t := by
  unfold beginOperand at h
  split at h
  all_goals cases h
  rfl

theorem fillSlot_found {s : State} {t : Token} {cause : ParseError} (h : s.fillSlot t = .error cause) :
    cause.found? = some t := by
  unfold fillSlot at h
  split at h
  · cases h
  · cases h
  · exact beginOperand_found h

theorem extend_found {s : State} {e : Expr} {t : Token} {cause : ParseError} (h : s.extend e t = .error cause) :
    cause.found? = some t := by
  unfold extend at h
  split at h
  · cases h
  · split at h
    · cases h
      rfl
    · cases h
  · cases h
  · cases h
  · cases h
  · cases h
    exact misplaced_found s t

/-- A step that fails names the token that it fails at. -/
theorem step_found {s : State} {t : Token} {cause : ParseError} (h : s.step t = .error cause) :
    cause.found? = some t := by
  unfold step at h
  split at h
  · exact beginOperand_found h
  · exact fillSlot_found h
  · exact extend_found h
  · split at h
    · cases h
    · exact extend_found h

theorem finishWith_found {s : State} {e : Expr} {cause : ParseError} (h : s.finishWith e = .error cause) :
    cause ≠ .empty ∧ cause.found? = none := by
  unfold finishWith at h
  split at h
  · cases h
  · cases h
    exact ⟨by simp, rfl⟩
  · cases h
    exact ⟨by simp, rfl⟩

/-- Where the tokens end no token is named. -/
theorem finish_found {s : State} {cause : ParseError} (h : s.finish = .error cause) :
    cause ≠ .empty ∧ cause.found? = none := by
  unfold finish at h
  split at h
  · cases h
    exact ⟨by simp, rfl⟩
  · cases h
    exact ⟨by simp, rfl⟩
  · exact finishWith_found h
  · exact finishWith_found h

/-- A run that fails does so at one token, and the tokens before it lead to a state. -/
theorem exists_of_runs_error {ts : List Token} {s : State} {cause : ParseError}
    (h : ts.foldlM step s = .error cause) :
    ∃ us t vs s', ts = us ++ t :: vs ∧ s.Runs us s' ∧ s'.step t = .error cause := by
  induction ts generalizing s with
  | nil => cases h
  | cons t ts ih =>
    rw [List.foldlM_cons] at h
    cases hstep : s.step t with
    | error c =>
      rw [hstep] at h
      cases h
      exact ⟨[], t, ts, s, rfl, rfl, hstep⟩
    | ok s₁ =>
      rw [hstep] at h
      obtain ⟨us, u, vs, s', rfl, hruns, hu⟩ := ih h
      exact ⟨t :: us, u, vs, s', rfl, .cons hstep hruns, hu⟩

/-! ### Closing what is open -/

theorem finish_eq {s : State} {e : Expr} (he : s.last.operand? = some e) : s.finish = s.finishWith e := by
  unfold finish
  cases hlast : s.last with
  | awaiting =>
    rw [hlast] at he
    cases he
  | slot =>
    rw [hlast] at he
    cases he
  | operand e' =>
    rw [hlast] at he
    cases he
    rfl
  | name n =>
    rw [hlast] at he
    cases he
    rfl

/-- Some more tokens lead to the end of an expression. -/
def CanEnd (s : State) : Prop := ∃ ts s' e, s.Runs ts s' ∧ s'.finish = .ok e

theorem CanEnd.of_step {s s' : State} {t : Token} (hs : s.step t = .ok s') (h : s'.CanEnd) : s.CanEnd := by
  obtain ⟨ts, s'', e, hruns, hfinish⟩ := h
  exact ⟨t :: ts, s'', e, .cons hs hruns, hfinish⟩

/-- Behind an operand the open parentheses can be closed, the innermost first. -/
theorem canEnd_of_operand {s : State} {e : Expr} (he : s.last.operand? = some e) : s.CanEnd := by
  obtain ⟨brackets, pending, last⟩ := s
  -- Closing the innermost parenthesis leaves an operand, which is what the outer ones need.
  induction brackets generalizing pending last e with
  | nil => exact ⟨[], _, pending.close e, rfl, finish_eq he⟩
  | cons b rest ih =>
    obtain ⟨bracket, outer⟩ := b
    have hstep := step_eq_extend (t := ⟨.closing, 0⟩) he (by simp)
    cases bracket with
    | group position => exact .of_step hstep (ih outer (.operand (pending.close e)) rfl)
    | call f args => exact .of_step hstep (ih outer (.operand (.call f (args ++ [pending.close e]))) rfl)

theorem canEnd_of_isOpen {s : State} (h : s.last.IsOpen) : s.CanEnd := by
  have hstep := step_eq_beginOperand (t := ⟨.number (.zero false), 0⟩) h (by simp) (by simp)
  exact .of_step hstep (canEnd_of_operand rfl)

/-- No state is a dead end: what it has open can be closed, with a number first where an operand is missing. -/
theorem canEnd (s : State) : s.CanEnd := by
  cases hlast : s.last with
  | awaiting => exact canEnd_of_isOpen (Or.inl hlast)
  | slot => exact canEnd_of_isOpen (Or.inr hlast)
  | name n => exact canEnd_of_operand (e := nameOperand n) (hlast ▸ rfl)
  | operand e => exact canEnd_of_operand (e := e) (hlast ▸ rfl)

/-! ### From a state to the tokens that lead to it -/

theorem Runs.ofTokens {ts : List Token} {s : State} (h : start.Runs ts s) (hne : ts ≠ []) :
    Expr.ofTokens ts = s.finish := by
  unfold Runs at h
  rw [Expr.ofTokens, if_neg (by simpa using hne), h]
  rfl

/-- Tokens that lead to a state are the beginning of an expression. -/
theorem Runs.isBeginning {us : List Token} {s : State} (h : start.Runs us s) : IsBeginning us := by
  obtain ⟨vs, s', e, hruns, hfinish⟩ := s.canEnd
  have hall := h.append hruns
  refine ⟨vs, e, ?_⟩
  rw [hall.ofTokens ?_, hfinish]
  intro hnil
  rw [hnil] at hall
  -- Without a token the state is the first one, which awaits an operand.
  cases hall
  cases hfinish

/-- Behind a token that fails, no further token helps. -/
theorem Runs.ofTokens_error {us : List Token} {s : State} {t : Token} {cause : ParseError} (h : start.Runs us s)
    (ht : s.step t = .error cause) (vs : List Token) : Expr.ofTokens (us ++ t :: vs) = .error cause := by
  unfold Runs at h
  rw [Expr.ofTokens, if_neg (by simp), List.foldlM_append, h]
  change (t :: vs).foldlM step s >>= finish = _
  rw [List.foldlM_cons, ht]
  rfl

end State
end Parser

/-- Tokens that are no expression either are the beginning of one, and then the parser reports where they end or
    that there are none; or it names the first of them at which they cease to be the beginning of one, with its
    description and position. -/
theorem ofTokens_error_located {ts : List Token} {cause : ParseError} (h : Expr.ofTokens ts = .error cause) :
    (cause.found? = none ∧ (ts = [] ∧ cause.message = "Metric expression is empty" ∨
      ∃ lead, cause.message = lead ++ "end of expression") ∧ IsBeginning ts) ∨
    ∃ k t, ts[k]? = some t ∧ cause.found? = some t ∧
      (∃ lead, cause.message = lead ++ (t.lexeme.describe ++ " at position " ++ integerText t.position)) ∧
      IsBeginning (ts.take k) ∧ ¬IsBeginning (ts.take (k + 1)) := by
  cases hrun : ts.foldlM Parser.State.step .start with
  | ok s =>
    left
    have hruns : Parser.State.start.Runs ts s := hrun
    by_cases hnil : ts = []
    · subst hnil
      cases h
      exact ⟨rfl, Or.inl ⟨rfl, rfl⟩, hruns.isBeginning⟩
    · rw [hruns.ofTokens hnil] at h
      obtain ⟨hne, hfound⟩ := Parser.State.finish_found h
      obtain ⟨lead, hlead⟩ := ParseError.exists_message hne
      rw [hfound] at hlead
      exact ⟨hfound, Or.inr ⟨lead, hlead⟩, hruns.isBeginning⟩
  | error c =>
    right
    obtain ⟨us, t, vs, s, rfl, hruns, ht⟩ := Parser.State.exists_of_runs_error hrun
    rw [hruns.ofTokens_error ht vs] at h
    cases h
    have hfound := Parser.State.step_found ht
    have hne : cause ≠ .empty := by
      rintro rfl
      cases hfound
    obtain ⟨lead, hlead⟩ := ParseError.exists_message hne
    rw [hfound] at hlead
    refine ⟨us.length, t, by simp, hfound, ⟨lead, hlead⟩, ?_, ?_⟩
    · rw [List.take_left]
      exact hruns.isBeginning
    · rintro ⟨ws, e, hok⟩
      rw [List.take_length_add_append, List.take_succ_cons, List.take_zero, List.append_assoc,
        List.singleton_append, hruns.ofTokens_error ht ws] at hok
      cases hok

/-- In `(a < 0 < -0` the second comparison is the token that is too much. -/
theorem ofTokens_error_located_chained :
    Expr.ofTokens [⟨.opening, 0⟩, ⟨.name "a", 1⟩, ⟨.compare .less, 3⟩, ⟨.number (.zero false), 5⟩, ⟨.compare .less, 7⟩,
      ⟨.number (.zero true), 9⟩] = .error (.chainedComparison ⟨.compare .less, 7⟩) ∧
    IsBeginning [⟨.opening, 0⟩, ⟨.name "a", 1⟩, ⟨.compare .less, 3⟩, ⟨.number (.zero false), 5⟩] ∧
    ¬IsBeginning [⟨.opening, 0⟩, ⟨.name "a", 1⟩, ⟨.compare .less, 3⟩, ⟨.number (.zero false), 5⟩,
      ⟨.compare .less, 7⟩] := by
  have herror : Expr.ofTokens [⟨.opening, 0⟩, ⟨.name "a", 1⟩, ⟨.compare .less, 3⟩, ⟨.number (.zero false), 5⟩,
      ⟨.compare .less, 7⟩, ⟨.number (.zero true), 9⟩] = .error (.chainedComparison ⟨.compare .less, 7⟩) := rfl
  refine ⟨herror, ?_⟩
  obtain ⟨hnone, -⟩ | ⟨k, t, hk, ht, -, hbefore, hbehind⟩ := ofTokens_error_located herror
  · cases hnone
  · cases ht
    have hk4 : k = 4 := by
      match k, hk with
      | 0, hk | 1, hk | 2, hk | 3, hk | 5, hk => simp at hk
      | 4, _ => rfl
      | k + 6, hk => simp at hk
    subst hk4
    exact ⟨hbefore, hbehind⟩

end TableMetrics
