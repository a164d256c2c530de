import TableMetrics.Proofs.Parser.Sound

/-! What the grammar derives, the parser accepts. Where a part of the grammar may begin, its words lead to a state
    with the same open parentheses, and what they leave waiting closes to the tree they write. -/

namespace TableMetrics
namespace Parser

/-- The complete operand that stands last, if there is one. -/
def Last.operand? : Last → Option Expr
  | .operand e => some e
  | .name n => some (State.nameOperand n)
  | .awaiting | .slot => none

/-- An operand can begin. -/
def Last.IsOpen (l : Last) : Prop := l = .awaiting ∨ l = .slot

namespace State

/-- A token that does not open a parenthesis is taken behind a name as behind an operand. -/
theorem step_eq_extend {s : State} {e : Expr} {t : Token} (he : s.last.operand? = some e) (ht : t.lexeme ≠ .opening) :
    s.step t = s.extend e t := by
  unfold step
  cases hlast : s.last with
  | operand e' =>
    rw [hlast] at he
    cases he
    rfl
  | name n =>
    rw [hlast] at he
    cases he
    simp only [ht, if_false]
  | awaiting =>
    rw [hlast] at he
    cases he
  | slot =>
    rw [hlast] at he
    cases he

/-- Only a comma or a closing parenthesis is taken in another way where an argument may be left out. -/
theorem step_eq_beginOperand {s : State} {t : Token} (hs : s.last.IsOpen) (hcomma : t.lexeme ≠ .comma)
    (hclosing : t.lexeme ≠ .closing) : s.step t = s.beginOperand t := by
  unfold step
  rcases hs with hs | hs
  · rw [hs]
  · rw [hs]
    simp only [fillSlot]
    split
    · next h _ => exact absurd h hcomma
    · next h _ => exact absurd h hclosing
    · rfl

end State

section Parts
variable (ts : List Token) (e : Expr)

/-- The tokens lead from where an operand can begin to behind the operand. -/
def AcceptsOperand : Prop :=
  ∀ brackets pending last, last.IsOpen → ∃ last' : Last, last'.operand? = some e ∧
    State.Runs ⟨brackets, pending, last⟩ ts ⟨brackets, pending, last'⟩

/-- The tokens lead to what closes to the product. -/
def AcceptsProduct : Prop :=
  ∀ brackets comparison sum last, last.IsOpen → ∃ product x, ∃ last' : Last, last'.operand? = some x ∧
    Pending.arith product x = e ∧
    State.Runs ⟨brackets, ⟨comparison, sum, none⟩, last⟩ ts ⟨brackets, ⟨comparison, sum, product⟩, last'⟩

def AcceptsSum : Prop :=
  ∀ brackets comparison last, last.IsOpen → ∃ p x, ∃ last' : Last, last'.operand? = some x ∧
    p.comparison = comparison ∧ p.closeSum x = e ∧
    State.Runs ⟨brackets, ⟨comparison, none, none⟩, last⟩ ts ⟨brackets, p, last'⟩

def AcceptsExpression : Prop :=
  ∀ brackets last, last.IsOpen → ∃ p x, ∃ last' : Last, last'.operand? = some x ∧ p.close x = e ∧
    State.Runs ⟨brackets, .empty, last⟩ ts ⟨brackets, p, last'⟩

/-- The tokens and a comma lead to one argument more, and with the parenthesis that ends the call to its end,
    unless it is empty altogether. -/
def AcceptsSlot : Prop :=
  ∀ brackets outer f args t,
    (t.lexeme = .comma → State.Runs ⟨(.call f args, outer) :: brackets, .empty, .slot⟩ (ts ++ [t])
      ⟨(.call f (args ++ [e]), outer) :: brackets, .empty, .slot⟩) ∧
    (t.lexeme = .closing → args ≠ [] ∨ ts ≠ [] → State.Runs ⟨(.call f args, outer) :: brackets, .empty, .slot⟩
      (ts ++ [t]) ⟨brackets, outer, .operand (.call f (args ++ [e]))⟩)

def Accepts : Nonterminal → Prop
  | .expression => AcceptsExpression ts e
  | .sum => AcceptsSum ts e
  | .product => AcceptsProduct ts e
  | .operand => AcceptsOperand ts e
  | .slot => AcceptsSlot ts e

end Parts

/-! ### Each rule of the grammar -/

section Rules
variable {ts us vs : List Token} {t u : Token} {e l r : Expr}

theorem acceptsOperand_single (l' : Last) (he : l'.operand? = some e)
    (hs : ∀ s : State, s.beginOperand t = .ok { s with last := l' }) (hcomma : t.lexeme ≠ .comma)
    (hclosing : t.lexeme ≠ .closing) : AcceptsOperand [t] e := fun brackets pending last hopen => by
  refine ⟨l', he, .single ?_⟩
  rw [State.step_eq_beginOperand hopen hcomma hclosing]
  exact hs _

theorem acceptsOperand_name (n : String) (ht : t.lexeme = .name n) : AcceptsOperand [t] (State.nameOperand n) :=
  acceptsOperand_single (.name n) rfl (fun s => by simp only [State.beginOperand, ht]) (by simp [ht]) (by simp [ht])

theorem acceptsOperand_group (h : AcceptsExpression ts e) (ht : t.lexeme = .opening) (hu : u.lexeme = .closing) :
    AcceptsOperand (t :: ts ++ [u]) e := fun brackets pending last hopen => by
  obtain ⟨p, x, last', hx, hclose, hruns⟩ := h ((.group t.position, pending) :: brackets) .awaiting (Or.inl rfl)
  refine ⟨.operand e, rfl, .append (.cons ?_ hruns) (.single ?_)⟩
  · rw [State.step_eq_beginOperand hopen (by simp [ht]) (by simp [ht])]
    simp only [State.beginOperand, ht]
  · rw [State.step_eq_extend hx (by simp [hu])]
    simp only [State.extend, hu, hclose]

theorem acceptsProduct_operand (h : AcceptsOperand ts e) : AcceptsProduct ts e :=
  fun brackets comparison sum last hopen => by
    obtain ⟨last', he, hruns⟩ := h brackets ⟨comparison, sum, none⟩ last hopen
    exact ⟨none, e, last', he, rfl, hruns⟩

theorem acceptsProduct_times {op : ArithOp} (hop : op.isProduct = true) (hl : AcceptsProduct us l)
    (ht : t.lexeme = .arith op) (hr : AcceptsOperand vs r) : AcceptsProduct (us ++ t :: vs) (.arith op.symbol l r) :=
  fun brackets comparison sum last hopen => by
    obtain ⟨product, x, last₁, hx, hclose, hruns₁⟩ := hl brackets comparison sum last hopen
    obtain ⟨last', hr', hruns₂⟩ := hr brackets ⟨comparison, sum, some (l, op)⟩ .awaiting (Or.inl rfl)
    refine ⟨some (l, op), r, last', hr', rfl, .append hruns₁ (.cons ?_ hruns₂)⟩
    rw [State.step_eq_extend hx (by simp [ht])]
    simp only [State.extend, ht, Pending.pushArith, hop, Pending.closeProduct, hclose]

theorem acceptsSum_product (h : AcceptsProduct ts e) : AcceptsSum ts e := fun brackets comparison last hopen => by
  obtain ⟨product, x, last', hx, hclose, hruns⟩ := h brackets comparison none last hopen
  exact ⟨⟨comparison, none, product⟩, x, last', hx, rfl, hclose, hruns⟩

theorem acceptsSum_plus {op : ArithOp} (hop : op.isProduct = false) (hl : AcceptsSum us l)
    (ht : t.lexeme = .arith op) (hr : AcceptsProduct vs r) : AcceptsSum (us ++ t :: vs) (.arith op.symbol l r) :=
  fun brackets comparison last hopen => by
    obtain ⟨p, x, last₁, hx, hcomparison, hclose, hruns₁⟩ := hl brackets comparison last hopen
    obtain ⟨product, y, last', hy, hclose', hruns₂⟩ := hr brackets comparison (some (l, op)) .awaiting (Or.inl rfl)
    refine ⟨⟨comparison, some (l, op), product⟩, y, last', hy, rfl, ?_, .append hruns₁ (.cons ?_ hruns₂)⟩
    · simp only [Pending.closeSum, Pending.closeProduct, hclose']
      rfl
    · rw [State.step_eq_extend hx (by simp [ht])]
      simp only [State.extend, ht, Pending.pushArith, hop, hclose, hcomparison]

theorem acceptsExpression_sum (h : AcceptsSum ts e) : AcceptsExpression ts e := fun brackets last hopen => by
  obtain ⟨p, x, last', hx, hcomparison, hclose, hruns⟩ := h brackets none last hopen
  refine ⟨p, x, last', hx, ?_, hruns⟩
  simp only [Pending.close, hcomparison, hclose]

theorem acceptsExpression_compare {op : CompareOp} (hl : AcceptsSum us l) (ht : t.lexeme = .compare op)
    (hr : AcceptsSum vs r) : AcceptsExpression (us ++ t :: vs) (.compare op.symbol l r) :=
  fun brackets last hopen => by
    obtain ⟨p, x, last₁, hx, hnone, hclose, hruns₁⟩ := hl brackets none last hopen
    obtain ⟨p', y, last', hy, hsome, hclose', hruns₂⟩ := hr brackets (some (l, op)) .awaiting (Or.inl rfl)
    refine ⟨p', y, last', hy, ?_, .append hruns₁ (.cons ?_ hruns₂)⟩
    · simp only [Pending.close, hsome, hclose']
    · rw [State.step_eq_extend hx (by simp [ht])]
      simp [State.extend, ht, hnone, hclose]

theorem acceptsSlot_omitted : AcceptsSlot [] .null := fun brackets outer f args t => by
  refine ⟨fun ht => .single ?_, fun ht hargs => .single ?_⟩
  · simp only [State.step, State.fillSlot, ht]
  · have hne : args ≠ [] := hargs.resolve_right fun h => h rfl
    simp [State.step, State.fillSlot, ht, hne]

theorem acceptsSlot_filled (h : AcceptsExpression ts e) : AcceptsSlot ts e := fun brackets outer f args t => by
  obtain ⟨p, x, last', hx, hclose, hruns⟩ := h ((.call f args, outer) :: brackets) .slot (Or.inr rfl)
  refine ⟨fun ht => .append hruns (.single ?_), fun ht _ => .append hruns (.single ?_)⟩
  · rw [State.step_eq_extend hx (by simp [ht])]
    simp only [State.extend, ht, hclose]
  · rw [State.step_eq_extend hx (by simp [ht])]
    simp only [State.extend, ht, hclose]

theorem runs_slots {slots : List (List Lexeme × Expr)}
    (h : ∀ x ∈ slots, ∀ ts : List Token, ts.map (·.lexeme) = x.1 → AcceptsSlot ts x.2) (hne : slots ≠ [])
    (hts : ts.map (·.lexeme) = [.comma].intercalate (slots.map Prod.fst)) (ht : t.lexeme = .closing)
    (brackets : List (Bracket × Pending)) (outer : Pending) (f : String) (args : List Expr)
    (hone : args ≠ [] ∨ slots.map Prod.fst ≠ [[]]) :
    State.Runs ⟨(.call f args, outer) :: brackets, .empty, .slot⟩ (ts ++ [t])
      ⟨brackets, outer, .operand (.call f (args ++ slots.map Prod.snd))⟩ := by
  induction slots generalizing ts args with
  | nil => exact absurd rfl hne
  | cons x slots ih =>
    cases slots with
    | nil =>
      have hx : ts.map (·.lexeme) = x.1 := by simpa using hts
      refine (h x (by simp) ts hx brackets outer f args t).2 ht (hone.imp_right fun hne => ?_)
      rintro rfl
      exact hne (by simp [← hx])
    | cons y slots =>
      rw [List.map_cons, List.intercalate_cons_of_ne_nil (by simp), List.append_assoc] at hts
      obtain ⟨us, rest, rfl, hus, hrest⟩ := List.map_eq_append_iff.mp hts
      obtain ⟨u, vs, rfl, hu, hvs⟩ := List.map_eq_cons_iff.mp hrest
      have hruns := (h x (by simp) us hus brackets outer f args u).1 hu
      have hruns' := ih (fun z hz => h z (List.mem_cons_of_mem x hz)) (by simp) hvs (args ++ [x.2])
        (Or.inl (by simp))
      have := hruns.append hruns'
      simpa using this

theorem acceptsOperand_call {f : String} {slots : List (List Lexeme × Expr)} {k : Token}
    (h : ∀ x ∈ slots, ∀ ts : List Token, ts.map (·.lexeme) = x.1 → AcceptsSlot ts x.2)
    (hone : slots.map Prod.fst ≠ [[]]) (hk : k.lexeme = .name f) (ht : t.lexeme = .opening)
    (hts : ts.map (·.lexeme) = [.comma].intercalate (slots.map Prod.fst)) (hu : u.lexeme = .closing) :
    AcceptsOperand (k :: t :: ts ++ [u]) (.call (upper f) (slots.map Prod.snd)) :=
  fun brackets pending last hopen => by
    have hname : State.step ⟨brackets, pending, last⟩ k = .ok ⟨brackets, pending, .name f⟩ := by
      rw [State.step_eq_beginOperand hopen (by simp [hk]) (by simp [hk])]
      simp only [State.beginOperand, hk]
    have hopening : State.step ⟨brackets, pending, .name f⟩ t =
        .ok ⟨(.call (upper f) [], pending) :: brackets, .empty, .slot⟩ := by
      simp [State.step, ht]
    refine ⟨.operand _, rfl, .cons hname (.cons hopening ?_)⟩
    cases slots with
    | nil =>
      obtain rfl : ts = [] := by simpa using hts
      refine .single ?_
      simp [State.step, State.fillSlot, hu]
    | cons x slots => exact runs_slots h (by simp) hts hu brackets pending (upper f) [] (Or.inr hone)

end Rules

/-- Tokens whose words derive a tree lead to it. -/
theorem accepts_of_derives {n : Nonterminal} {ws : List Lexeme} {e : Expr} (h : Derives n ws e) :
    ∀ ts : List Token, ts.map (·.lexeme) = ws → Accepts ts e n := by
  -- An operand stands inside of others, so each part is reached whatever waits before it.
  induction h with
  | number x =>
    intro ts hts
    obtain ⟨t, rfl, ht⟩ := List.map_eq_singleton_iff.mp hts
    refine acceptsOperand_single (.operand _) rfl (fun s => ?_) (by simp [ht]) (by simp [ht])
    simp only [State.beginOperand, ht]
  | text v =>
    intro ts hts
    obtain ⟨t, rfl, ht⟩ := List.map_eq_singleton_iff.mp hts
    refine acceptsOperand_single (.operand _) rfl (fun s => ?_) (by simp [ht]) (by simp [ht])
    simp only [State.beginOperand, ht]
  | @null n h =>
    intro ts hts
    obtain ⟨t, rfl, ht⟩ := List.map_eq_singleton_iff.mp hts
    have hname := acceptsOperand_name n ht
    rwa [State.nameOperand, if_pos h] at hname
  | @column n h =>
    intro ts hts
    obtain ⟨t, rfl, ht⟩ := List.map_eq_singleton_iff.mp hts
    have hname := acceptsOperand_name n ht
    rwa [State.nameOperand, if_neg h] at hname
  | group _ ih =>
    intro ts hts
    obtain ⟨us, vs, rfl, hus, hvs⟩ := List.map_eq_append_iff.mp hts
    obtain ⟨t, us, rfl, ht, hus⟩ := List.map_eq_cons_iff.mp hus
    obtain ⟨u, rfl, hu⟩ := List.map_eq_singleton_iff.mp hvs
    exact acceptsOperand_group (ih us hus) ht hu
  | call f slots _ hone ih =>
    intro ts hts
    obtain ⟨us, vs, rfl, hus, hvs⟩ := List.map_eq_append_iff.mp hts
    obtain ⟨k, us, rfl, hk, hus⟩ := List.map_eq_cons_iff.mp hus
    obtain ⟨t, us, rfl, ht, hus⟩ := List.map_eq_cons_iff.mp hus
    obtain ⟨u, rfl, hu⟩ := List.map_eq_singleton_iff.mp hvs
    exact acceptsOperand_call ih hone hk ht hus hu
  | product _ ih => exact fun ts hts => acceptsProduct_operand (ih ts hts)
  | times hop _ _ ihl ihr =>
    intro ts hts
    obtain ⟨us, rest, rfl, hus, hrest⟩ := List.map_eq_append_iff.mp hts
    obtain ⟨t, vs, rfl, ht, hvs⟩ := List.map_eq_cons_iff.mp hrest
    exact acceptsProduct_times hop (ihl us hus) ht (ihr vs hvs)
  | sum _ ih => exact fun ts hts => acceptsSum_product (ih ts hts)
  | plus hop _ _ ihl ihr =>
    intro ts hts
    obtain ⟨us, rest, rfl, hus, hrest⟩ := List.map_eq_append_iff.mp hts
    obtain ⟨t, vs, rfl, ht, hvs⟩ := List.map_eq_cons_iff.mp hrest
    exact acceptsSum_plus hop (ihl us hus) ht (ihr vs hvs)
  | expression _ ih => exact fun ts hts => acceptsExpression_sum (ih ts hts)
  | compare op _ _ ihl ihr =>
    intro ts hts
    obtain ⟨us, rest, rfl, hus, hrest⟩ := List.map_eq_append_iff.mp hts
    obtain ⟨t, vs, rfl, ht, hvs⟩ := List.map_eq_cons_iff.mp hrest
    exact acceptsExpression_compare (ihl us hus) ht (ihr vs hvs)
  | omitted =>
    intro ts hts
    obtain rfl := List.map_eq_nil_iff.mp hts
    exact acceptsSlot_omitted
  | filled _ ih => exact fun ts hts => acceptsSlot_filled (ih ts hts)

end Parser

/-- What the grammar derives, the parser accepts. -/
theorem ofTokens_of_derives {ts : List Token} {e : Expr} (h : Derives .expression (ts.map (·.lexeme)) e) :
    Expr.ofTokens ts = .ok e := by
  have hne : ts.isEmpty = false := by
    have := h.ne_nil (by simp)
    simpa using this
  obtain ⟨p, x, last', hx, hclose, hruns⟩ := Parser.accepts_of_derives h ts rfl [] .awaiting (Or.inl rfl)
  unfold Parser.State.Runs at hruns
  unfold Expr.ofTokens
  rw [hne, if_neg (by simp)]
  rw [show Parser.State.start = ⟨[], .empty, .awaiting⟩ from rfl, hruns]
  cases last' with
  | awaiting => cases hx
  | slot => cases hx
  | operand y =>
    cases hx
    exact congrArg Except.ok hclose
  | name n =>
    cases hx
    exact congrArg Except.ok hclose

theorem ofTokens_eq_ok_iff {ts : List Token} {e : Expr} :
    Expr.ofTokens ts = .ok e ↔ Derives .expression (ts.map (·.lexeme)) e :=
  ⟨derives_of_ofTokens, ofTokens_of_derives⟩

/-- Words write one expression at most. -/
theorem Derives.unique {ws : List Lexeme} {e e' : Expr} (h : Derives .expression ws e)
    (h' : Derives .expression ws e') : e = e' := by
  have hws : (ws.map fun w => Token.mk w 0).map (·.lexeme) = ws := by
    rw [List.map_map]
    exact List.map_id _
  have hok := ofTokens_of_derives (hws.symm ▸ h)
  rw [ofTokens_of_derives (hws.symm ▸ h')] at hok
  exact (Except.ok.inj hok).symm

/-- The parser gives a tree to the tokens whose words derive it, and to no others; no words derive two trees, and
    tokens whose words derive none are refused. -/
theorem ofTokens_exact (ts : List Token) :
    (∀ e, Expr.ofTokens ts = .ok e ↔ Derives .expression (ts.map (·.lexeme)) e) ∧
    (∀ e e', Derives .expression (ts.map (·.lexeme)) e → Derives .expression (ts.map (·.lexeme)) e' → e = e') ∧
    ((∃ cause : ParseError, Expr.ofTokens ts = .error cause) ↔
      ∀ e, ¬Derives .expression (ts.map (·.lexeme)) e) := by
  refine ⟨fun e => ofTokens_eq_ok_iff, fun e e' => Derives.unique, ?_, ?_⟩
  · rintro ⟨cause, hcause⟩ e he
    rw [ofTokens_of_derives he] at hcause
    cases hcause
  · intro hnone
    cases hread : Expr.ofTokens ts with
    | error cause => exact ⟨cause, rfl⟩
    | ok e => exact absurd (derives_of_ofTokens hread) (hnone e)

end TableMetrics
