import TableMetrics.Proofs.Expr.Domain
import TableMetrics.Proofs.Expr.Source
import TableMetrics.Proofs.Number.Decimal

/-! What a text that is an expression may come to. Its words are of good form, for the lexer takes no others; so are the
    nodes of its tree, for the parser makes them of words. So no node is unknown to the evaluation but a function, and
    without a row the value is of few kinds. -/

namespace TableMetrics

open Lexer

/-! ### Words -/

theorem numericText?_ne_nan {s : String} {x : Binary64} (h : numericText? s = some x) : x ≠ .nan := by
  obtain ⟨n, -, rfl⟩ := Option.map_eq_some_iff.mp h
  rw [Numeral.toBinary64, Decimal.toBinary64_eq_ofUnits]
  exact Binary64.ofUnits_ne_nan _ _ _

/-- A number is no NaN, and a name is one of ASCII. -/
def Lexeme.IsFormed : Lexeme → Prop
  | .number x => x ≠ .nan
  | .name s => isName s = true
  | _ => True

theorem Lexer.Writes.isFormed {cs : List Char} {w : Lexeme} (h : Writes cs w) : w.IsFormed := by
  cases h with
  | number negative h hx => exact numericText?_ne_nan hx
  | @name c cs hc h =>
    have hchars : ∀ d ∈ c :: cs, isNameChar d = true :=
      List.forall_mem_cons.mpr ⟨Bool.or_eq_true_iff.mpr (Or.inl hc), h⟩
    have hall : (c :: cs).all isNameChar = true := List.all_eq_true.mpr hchars
    rw [Lexeme.IsFormed, isName, String.toList_ofList]
    exact Bool.and_eq_true_iff.mpr ⟨hc, hall⟩
  | _ => trivial

theorem Lexer.Spells.isFormed {previous : Option Lexeme} {cs : List Char} {ws : List Lexeme}
    (h : Spells previous cs ws) : ∀ w ∈ ws, w.IsFormed := by
  induction h with
  | nil => exact fun _ hw => nomatch hw
  | blank _ _ ih => exact ih
  | word hw _ _ ih => exact List.forall_mem_cons.mpr ⟨hw.isFormed, ih⟩

/-! ### Names in capitals -/

/-- A name without small letters. -/
def isCapitalName (s : String) : Bool := isName s && s.toList.all (!·.isLower)

/-- The upper case of a character that can stand in a name is one such character, and no small letter. -/
theorem exists_upperChar {c : Char} (h : isNameChar c = true) : ∃ d, upperChar c = [d] ∧ isNameChar d = true ∧
    d.isLower = false ∧ (isNameStart c = true → isNameStart d = true) := by
  -- The characters of names from here on are the small letters.
  by_cases hsmall : c.toNat < 97
  · refine ⟨c, upperChar_of_lt hsmall, h, ?_, id⟩
    refine Bool.eq_false_iff.mpr fun hlower => ?_
    have hle : 97 ≤ c.toNat := of_decide_eq_true (Bool.and_eq_true_iff.mp hlower).1
    omega
  · have hletters : ∀ n < 26, isNameStart (Char.ofNat (65 + n)) = true ∧ (Char.ofNat (65 + n)).isLower = false := by
      decide
    have hstart : isNameStart c = true := (Bool.or_eq_true_iff.mp h).resolve_right fun hdigit => by
      have hle := (isAsciiDigit_iff.mp hdigit).2
      omega
    have hle := (toNat_of_nameStart hstart).2
    have hupper := upperChar_small (c.toNat - 97) (by omega)
    obtain ⟨hcapital, hlower⟩ := hletters (c.toNat - 97) (by omega)
    rw [Nat.add_sub_cancel' (Nat.le_of_not_lt hsmall), Char.ofNat_toNat] at hupper
    exact ⟨_, hupper, Bool.or_eq_true_iff.mpr (Or.inl hcapital), hlower, fun _ => hcapital⟩

theorem isCapitalName_upper {s : String} (h : isName s = true) : isCapitalName (upper s) = true := by
  obtain ⟨hhead, hall⟩ := Bool.and_eq_true_iff.mp h
  have hchars : ∀ d ∈ s.toList.flatMap upperChar, isNameChar d = true ∧ d.isLower = false := by
    intro d hd
    obtain ⟨c, hc, hdc⟩ := List.mem_flatMap.mp hd
    obtain ⟨d', heq, hname, hlower, -⟩ := exists_upperChar (List.all_eq_true.mp hall c hc)
    obtain rfl := List.mem_singleton.mp (heq ▸ hdc)
    exact ⟨hname, hlower⟩
  have hstart : (s.toList.flatMap upperChar).head?.any isNameStart = true := by
    cases hs : s.toList with
    | nil =>
      rw [hs] at hhead
      cases hhead
    | cons c cs =>
      rw [hs] at hhead hall
      obtain ⟨d, heq, -, -, hcapital⟩ := exists_upperChar (List.all_eq_true.mp hall c (List.mem_cons_self ..))
      rw [List.flatMap_cons, heq]
      exact hcapital hhead
  rw [isCapitalName, isName, upper, String.toList_ofList]
  refine Bool.and_eq_true_iff.mpr ⟨Bool.and_eq_true_iff.mpr ⟨hstart, ?_⟩, ?_⟩
  · exact List.all_eq_true.mpr fun d hd => (hchars d hd).1
  · exact List.all_eq_true.mpr fun d hd => by rw [(hchars d hd).2]; rfl

/-! ### Trees -/

namespace Expr

/-- What a node is made of is of good form: a number is a floating-point number and no NaN, a column has a name that is
    not the word for null, a function has a name in capitals, and operators are those of the language. -/
def IsFormed : Expr → Prop
  | .number n => ∃ x, n = .float x ∧ x ≠ .nan
  | .text _ => True
  | .null => True
  | .column name => isName name = true ∧ upper name ≠ "NULL"
  | .call f _ => isCapitalName f = true
  | .arith op _ _ => op ∈ ["+", "-", "*", "/"]
  | .compare op _ _ => op ∈ [">", "<", ">=", "<=", "==", "!=", "="]

/-- All nodes of an expression are of good form. -/
def WellFormed (e : Expr) : Prop := ∀ x ∈ e.walk, x.IsFormed

theorem WellFormed.of_parts {e : Expr} (he : e.IsFormed) (h : ∀ x ∈ e.parts, x.WellFormed) : e.WellFormed := by
  rw [WellFormed, walk_eq]
  refine List.forall_mem_cons.mpr ⟨he, fun y hy => ?_⟩
  obtain ⟨x, hx, hyx⟩ := List.mem_flatMap.mp hy
  exact h x hx y hyx

theorem WellFormed.of_two {e l r : Expr} (he : e.IsFormed) (hparts : e.parts = [l, r]) (hl : l.WellFormed)
    (hr : r.WellFormed) : e.WellFormed := by
  refine .of_parts he fun x hx => ?_
  rw [hparts] at hx
  exact List.forall_mem_cons.mpr ⟨hl, List.forall_mem_singleton.mpr hr⟩ x hx

end Expr

theorem ArithOp.symbol_mem (op : ArithOp) : op.symbol ∈ ["+", "-", "*", "/"] := by
  cases op <;> decide

theorem CompareOp.symbol_mem (op : CompareOp) : op.symbol ∈ [">", "<", ">=", "<=", "==", "!=", "="] := by
  cases op <;> decide

/-- Words of good form write a tree of good form. -/
theorem Derives.wellFormed {n : Nonterminal} {ws : List Lexeme} {e : Expr} (h : Derives n ws e)
    (hws : ∀ w ∈ ws, w.IsFormed) : e.WellFormed := by
  have hleaf : ∀ {e : Expr}, e.IsFormed → e.parts = [] → e.WellFormed := fun he hparts =>
    .of_parts he fun x hx => by
      rw [hparts] at hx
      cases hx
  have hsides : ∀ {us vs : List Lexeme} {w : Lexeme}, (∀ x ∈ us ++ w :: vs, x.IsFormed) →
      (∀ x ∈ us, x.IsFormed) ∧ ∀ x ∈ vs, x.IsFormed := fun h => by
    obtain ⟨hus, hvs⟩ := List.forall_mem_append.mp h
    exact ⟨hus, (List.forall_mem_cons.mp hvs).2⟩
  induction h with
  | number x => exact hleaf ⟨x, rfl, hws _ (List.mem_singleton_self _)⟩ rfl
  | text s => exact hleaf trivial rfl
  | null h => exact hleaf trivial rfl
  | column h => exact hleaf ⟨hws _ (List.mem_singleton_self _), h⟩ rfl
  | group _ ih => exact ih fun w hw => hws w (by simp [hw])
  | call f slots _ _ ih =>
    refine .of_parts (isCapitalName_upper (hws (.name f) (by simp))) fun x hx => ?_
    obtain ⟨slot, hslot, rfl⟩ := List.mem_map.mp hx
    refine ih slot hslot fun w hw => hws w ?_
    have hmem := mem_intercalate (List.mem_map.mpr ⟨slot, hslot, rfl⟩) hw
    simp [hmem]
  | @times us vs l r op _ _ _ ihl ihr =>
    obtain ⟨hus, hvs⟩ := hsides hws
    exact .of_two op.symbol_mem rfl (ihl hus) (ihr hvs)
  | @plus us vs l r op _ _ _ ihl ihr =>
    obtain ⟨hus, hvs⟩ := hsides hws
    exact .of_two op.symbol_mem rfl (ihl hus) (ihr hvs)
  | compare op _ _ ihl ihr =>
    obtain ⟨hus, hvs⟩ := hsides hws
    exact .of_two op.symbol_mem rfl (ihl hus) (ihr hvs)
  | omitted => exact hleaf trivial rfl
  | product _ ih => exact ih hws
  | sum _ ih => exact ih hws
  | expression _ ih => exact ih hws
  | filled _ ih => exact ih hws

namespace Expr
variable {d : Dataset} {row : Option Int} {e : Expr}

/-- An expression of good form has no operator that the evaluation does not know. -/
theorem WellFormed.known_operators (h : e.WellFormed) {x : MetricError} (hx : e.eval d row = .error x) :
    (∀ op, x ≠ .unknownOperator op) ∧ ∀ op, x ≠ .unknownComparison op := by
  obtain ⟨y, hy, hraises⟩ := eval_failsIn d row e x hx
  have hformed := h y hy
  constructor
  · rintro op rfl
    cases hraises with
    | unknownOperator hop =>
      have hall : ["+", "-", "*", "/"].all (fun op => (ArithOp.ofSymbol? op).isSome) = true := by decide
      have hsome := List.all_eq_true.mp hall op hformed
      rw [hop] at hsome
      cases hsome
  · rintro op rfl
    cases hraises with
    | unknownComparison hop =>
      have hall : [">", "<", ">=", "<=", "==", "!=", "="].all (fun op => (CompareOp.ofSymbol? op).isSome) = true := by
        decide
      have hsome := List.all_eq_true.mp hall op hformed
      rw [hop] at hsome
      cases hsome

/-- A text that is an expression has a tree of good form. Evaluating it fails for what a node of the tree raises, and
    never for an operator that is not known; without a row its value is null, a text, a floating-point number, or a whole
    number from zero to the number of rows, or to one. -/
theorem ofText_wellFormed {s : String} {e : Expr} (h : ofText s = .ok e) :
    e.WellFormed ∧
    (∀ d row x, e.eval d row = .error x → (∀ op, x ≠ .unknownOperator op) ∧ (∀ op, x ≠ .unknownComparison op) ∧
      ∃ y ∈ e.walk, Raises d y x) ∧
    ∀ d v, e.eval d none = .ok v → v.InDomain d.size := by
  obtain ⟨ws, hspells, hderives⟩ := ofText_eq_ok_iff.mp h
  have hformed : e.WellFormed := hderives.wellFormed hspells.isFormed
  refine ⟨hformed, fun d row x hx => ?_, fun d v hv => ?_⟩
  · obtain ⟨hoperator, hcomparison⟩ := hformed.known_operators hx
    exact ⟨hoperator, hcomparison, eval_failsIn d row e x hx⟩
  · refine inDomain_of_eval e (fun n hn => ?_) hv
    obtain ⟨x, hx, -⟩ := hformed _ hn
    exact ⟨x, hx⟩

/-- Names of functions in small letters, and a difference of nulls, which is a whole number. -/
theorem ofText_wellFormed_choice : ∃ e, ofText "if(a >= b, count(a), null - null)" = .ok e ∧
    e.describe = "IF(a >= b, COUNT(a), NULL - NULL)" ∧ e.WellFormed ∧
    (∀ d row x, e.eval d row = .error x → (∀ op, x ≠ .unknownOperator op) ∧ (∀ op, x ≠ .unknownComparison op) ∧
      ∃ y ∈ e.walk, Raises d y x) ∧
    ∀ d v, e.eval d none = .ok v → v.InDomain d.size := by
  have hread : (ofText "if(a >= b, count(a), null - null)").toOption.map describe =
      some "IF(a >= b, COUNT(a), NULL - NULL)" := by decide +kernel
  cases he : ofText "if(a >= b, count(a), null - null)" with
  | error x =>
    rw [he] at hread
    cases hread
  | ok e =>
    rw [he] at hread
    exact ⟨e, rfl, Option.some.inj hread, ofText_wellFormed he⟩

end Expr
end TableMetrics
