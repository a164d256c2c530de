import TableMetrics.Proofs.Grammar

/-! Every state that the parser reaches stands for the words it has read: the words of each open parenthesis and of
    each operand that waits are derived by the grammar. So what the parser accepts, the grammar derives. -/

namespace TableMetrics
namespace Parser

/-! ### What waits -/

/-- The words end with an operator that waits behind its left operand, or there are none. -/
def ReadsArith (n : Nonterminal) (isProduct : Bool) (ws : List Lexeme) : Option (Expr × ArithOp) → Prop
  | none => ws = []
  | some (l, op) => op.isProduct = isProduct ∧ ∃ us, Derives n us l ∧ ws = us ++ [.arith op]

/-- The words end with a comparison that waits behind its left side, or there are none. -/
def ReadsCompare (ws : List Lexeme) : Option (Expr × CompareOp) → Prop
  | none => ws = []
  | some (l, op) => ∃ us, Derives .sum us l ∧ ws = us ++ [.compare op]

/-- The words of the operators that wait, those of the weakest binding first. -/
def Pending.ReadsFrom (ws : List Lexeme) (p : Pending) : Prop :=
  ∃ cs ss ps, ws = cs ++ ss ++ ps ∧ ReadsCompare cs p.comparison ∧ ReadsArith .sum false ss p.sum ∧
    ReadsArith .product true ps p.product

namespace Pending

theorem readsFrom_empty {ws : List Lexeme} : Pending.empty.ReadsFrom ws ↔ ws = [] := by
  constructor
  · rintro ⟨cs, ss, ps, rfl, hc, hs, hp⟩
    obtain rfl : cs = [] := hc
    obtain rfl : ss = [] := hs
    exact hp
  · rintro rfl
    exact ⟨[], [], [], rfl, rfl, rfl, rfl⟩

theorem closeProduct_derives {p : Pending} {ps ws : List Lexeme} {e : Expr}
    (hp : ReadsArith .product true ps p.product) (he : Derives .operand ws e) :
    Derives .product (ps ++ ws) (p.closeProduct e) := by
  unfold closeProduct arith
  cases hpr : p.product with
  | none =>
    rw [hpr] at hp
    obtain rfl : ps = [] := hp
    exact .product he
  | some lop =>
    rw [hpr] at hp
    obtain ⟨hop, us, hl, rfl⟩ := hp
    rw [List.append_assoc]
    exact .times hop hl he

theorem closeSum_derives {p : Pending} {ss ps ws : List Lexeme} {e : Expr} (hs : ReadsArith .sum false ss p.sum)
    (hp : ReadsArith .product true ps p.product) (he : Derives .operand ws e) :
    Derives .sum (ss ++ ps ++ ws) (p.closeSum e) := by
  have hproduct := closeProduct_derives hp he
  rw [List.append_assoc]
  unfold closeSum arith
  cases hsum : p.sum with
  | none =>
    rw [hsum] at hs
    obtain rfl : ss = [] := hs
    exact .sum hproduct
  | some lop =>
    rw [hsum] at hs
    obtain ⟨hop, us, hl, rfl⟩ := hs
    rw [List.append_assoc]
    exact .plus hop hl hproduct

theorem close_derives {p : Pending} {ps ws : List Lexeme} {e : Expr} (hp : p.ReadsFrom ps)
    (he : Derives .operand ws e) : Derives .expression (ps ++ ws) (p.close e) := by
  obtain ⟨cs, ss, ps, rfl, hc, hs, hp⟩ := hp
  have hsum := closeSum_derives hs hp he
  rw [List.append_assoc, List.append_assoc, ← List.append_assoc ss]
  unfold close
  cases hcomparison : p.comparison with
  | none =>
    rw [hcomparison] at hc
    obtain rfl : cs = [] := hc
    exact .expression hsum
  | some lop =>
    rw [hcomparison] at hc
    obtain ⟨us, hl, rfl⟩ := hc
    rw [List.append_assoc]
    exact .compare lop.2 hl hsum

/-- An operator that binds as closely as a product takes over what waits of the product, and one that does not
    takes over what waits of the sum too. -/
theorem pushArith_readsFrom {p : Pending} {ps ws : List Lexeme} {e : Expr} (hp : p.ReadsFrom ps)
    (he : Derives .operand ws e) (op : ArithOp) : (p.pushArith e op).ReadsFrom (ps ++ ws ++ [.arith op]) := by
  obtain ⟨cs, ss, ps, rfl, hc, hs, hp⟩ := hp
  unfold pushArith
  cases hop : op.isProduct with
  | true =>
    refine ⟨cs, ss, ps ++ ws ++ [.arith op], by simp, hc, hs, hop, ps ++ ws, closeProduct_derives hp he, rfl⟩
  | false =>
    refine ⟨cs, ss ++ ps ++ ws ++ [.arith op], [], by simp, hc, ⟨hop, ss ++ ps ++ ws, ?_, rfl⟩, rfl⟩
    exact closeSum_derives hs hp he

/-- A comparison takes over all that waits, if there is none yet. -/
theorem pushCompare_readsFrom {p : Pending} {ps ws : List Lexeme} {e : Expr} (hp : p.ReadsFrom ps)
    (hnone : p.comparison = none) (he : Derives .operand ws e) (op : CompareOp) :
    Pending.ReadsFrom (ps ++ ws ++ [.compare op]) ⟨some (p.closeSum e, op), none, none⟩ := by
  obtain ⟨cs, ss, ps, rfl, hc, hs, hp⟩ := hp
  rw [hnone] at hc
  obtain rfl : cs = [] := hc
  exact ⟨ss ++ ps ++ ws ++ [.compare op], [], [], by simp, ⟨ss ++ ps ++ ws, closeSum_derives hs hp he, rfl⟩, rfl, rfl⟩

end Pending

/-! ### States -/

/-- The words of the open parentheses, the outermost first. Each stands behind what waits outside of it, and that
    of a call has the complete arguments behind it, each with its comma. -/
inductive Opened : List Lexeme → List (Bracket × Pending) → Prop where
  | none : Opened [] []
  | group {ws us : List Lexeme} {rest : List (Bracket × Pending)} {outer : Pending} (position : Nat)
    (h : Opened ws rest) (hp : outer.ReadsFrom us) :
    Opened (ws ++ us ++ [.opening]) ((.group position, outer) :: rest)
  | call {ws us : List Lexeme} {rest : List (Bracket × Pending)} {outer : Pending} (f : String)
    (slots : List (List Lexeme × Expr)) (h : Opened ws rest) (hp : outer.ReadsFrom us)
    (hslots : ∀ x ∈ slots, Derives .slot x.1 x.2) :
    Opened (ws ++ us ++ .name f :: .opening :: (slots.map Prod.fst).flatMap (· ++ [.comma]))
      ((.call (upper f) (slots.map Prod.snd), outer) :: rest)

/-- The words of what stands last; the place of an argument has none yet. -/
inductive Last.ReadsFrom : List Lexeme → Last → Prop where
  | awaiting : Last.ReadsFrom [] .awaiting
  | slot : Last.ReadsFrom [] .slot
  | name (s : String) : Last.ReadsFrom [.name s] (.name s)
  | operand {ws : List Lexeme} {e : Expr} (h : Derives .operand ws e) : Last.ReadsFrom ws (.operand e)

/-- The words that lead to a state. At the place of an argument nothing waits. -/
structure State.ReadsFrom (ws : List Lexeme) (s : State) : Prop where
  words : ∃ os ps ls, ws = os ++ ps ++ ls ∧ Opened os s.brackets ∧ s.pending.ReadsFrom ps ∧ s.last.ReadsFrom ls
  slot : s.last = .slot → s.pending = .empty

namespace State

/-- The tokens lead from one state to another. -/
def Runs (s : State) (ts : List Token) (s' : State) : Prop := ts.foldlM step s = .ok s'

theorem Runs.cons {s s₁ s' : State} {t : Token} {ts : List Token} (hs : s.step t = .ok s₁) (h : s₁.Runs ts s') :
    s.Runs (t :: ts) s' := by
  unfold Runs
  rw [List.foldlM_cons, hs]
  exact h

theorem Runs.single {s s' : State} {t : Token} (hs : s.step t = .ok s') : s.Runs [t] s' := .cons hs rfl

theorem Runs.append {s s₁ s' : State} {us vs : List Token} (h₁ : s.Runs us s₁) (h₂ : s₁.Runs vs s') :
    s.Runs (us ++ vs) s' := by
  unfold Runs at h₁ ⊢
  rw [List.foldlM_append, h₁]
  exact h₂

theorem readsFrom_start : start.ReadsFrom [] :=
  ⟨⟨[], [], [], rfl, .none, Pending.readsFrom_empty.mpr rfl, .awaiting⟩, fun h => by cases h⟩

theorem derives_call {f : String} {slots : List (List Lexeme × Expr)} {ws : List Lexeme} {e : Expr}
    (hslots : ∀ x ∈ slots, Derives .slot x.1 x.2) (he : Derives .slot ws e) (hone : slots = [] → ws ≠ []) :
    Derives .operand (.name f :: .opening :: (slots.map Prod.fst).flatMap (· ++ [.comma]) ++ ws ++ [.closing])
      (.call (upper f) (slots.map Prod.snd ++ [e])) := by
  have h := Derives.call f (slots ++ [(ws, e)]) (fun x hx => ?_) ?_
  · rw [List.map_append, List.map_append] at h
    simp only [List.map_cons, List.map_nil, intercalate_comma_append] at h
    simpa using h
  · rcases List.mem_append.mp hx with hx | hx
    · exact hslots x hx
    · obtain rfl := List.mem_singleton.mp hx
      exact he
  · cases slots with
    | nil => simpa using hone rfl
    | cons x slots => simp

theorem readsFrom_beginOperand {s s' : State} {t : Token} {os ps : List Lexeme} (ho : Opened os s.brackets)
    (hp : s.pending.ReadsFrom ps) (hs : s.beginOperand t = .ok s') : s'.ReadsFrom (os ++ ps ++ [t.lexeme]) := by
  unfold beginOperand at hs
  split at hs
  · next x hx =>
    cases hs
    exact ⟨⟨os, ps, [t.lexeme], rfl, ho, hp, hx ▸ .operand (.number x)⟩, fun h => by cases h⟩
  · next v hv =>
    cases hs
    exact ⟨⟨os, ps, [t.lexeme], rfl, ho, hp, hv ▸ .operand (.text v)⟩, fun h => by cases h⟩
  · next n hn =>
    cases hs
    exact ⟨⟨os, ps, [t.lexeme], rfl, ho, hp, hn ▸ .name n⟩, fun h => by cases h⟩
  · next hopening =>
    cases hs
    rw [hopening]
    exact ⟨⟨_, [], [], by simp, .group t.position ho hp, Pending.readsFrom_empty.mpr rfl, .awaiting⟩, fun h => by cases h⟩
  · cases hs

theorem readsFrom_fillSlot {s s' : State} {t : Token} {os : List Lexeme} (ho : Opened os s.brackets)
    (hp : s.pending = .empty) (hs : s.fillSlot t = .ok s') : s'.ReadsFrom (os ++ [t.lexeme]) := by
  unfold fillSlot at hs
  split at hs
  · next f args outer rest hcomma hbrackets =>
    cases hs
    rw [hbrackets] at ho
    cases ho with
    | call f slots h hp hslots =>
      have ho := Opened.call f (slots ++ [([], .null)]) h hp fun x hx => by
        rcases List.mem_append.mp hx with hx | hx
        · exact hslots x hx
        · obtain rfl := List.mem_singleton.mp hx
          exact .omitted
      rw [List.map_append, List.map_append] at ho
      exact ⟨⟨_, [], [], by simp [hcomma], ho, Pending.readsFrom_empty.mpr rfl, .slot⟩, fun _ => rfl⟩
  · next f args outer rest hclosing hbrackets =>
    cases hs
    rw [hbrackets] at ho
    cases ho with
    | @call ws us _ _ f slots h hp hslots =>
      cases slots with
      -- A parenthesis that closes at once leaves no argument out.
      | nil => exact ⟨⟨ws, us, _, by simp [hclosing], h, hp, .operand (.call f [] hslots (by simp))⟩, fun h => by cases h⟩
      | cons x slots =>
        have hcall := derives_call (f := f) hslots .omitted (by simp)
        exact ⟨⟨ws, us, _, by simp [hclosing], h, hp, .operand hcall⟩, fun h => by cases h⟩
  · rw [← List.append_nil os]
    exact readsFrom_beginOperand ho (hp ▸ Pending.readsFrom_empty.mpr rfl) hs

theorem readsFrom_extend {s s' : State} {t : Token} {e : Expr} {os ps ls : List Lexeme} (ho : Opened os s.brackets)
    (hp : s.pending.ReadsFrom ps) (he : Derives .operand ls e) (hs : s.extend e t = .ok s') :
    s'.ReadsFrom (os ++ ps ++ ls ++ [t.lexeme]) := by
  unfold extend at hs
  split at hs
  · next brackets op hop =>
    cases hs
    rw [hop]
    refine ⟨⟨os, ps ++ ls ++ [.arith op], [], by simp, ho, ?_, .awaiting⟩, fun h => by cases h⟩
    exact Pending.pushArith_readsFrom hp he op
  · next brackets op hop =>
    split at hs
    · cases hs
    · next hnone =>
      cases hs
      rw [hop]
      refine ⟨⟨os, ps ++ ls ++ [.compare op], [], by simp, ho, ?_, .awaiting⟩, fun h => by cases h⟩
      exact Pending.pushCompare_readsFrom hp (by simpa using hnone) he op
  · next position outer rest hclosing hbrackets =>
    cases hs
    rw [hbrackets] at ho
    cases ho with
    | @group ws us _ _ _ h houter =>
      have hgroup := Derives.group (Pending.close_derives hp he)
      exact ⟨⟨ws, us, _, by simp [hclosing], h, houter, .operand hgroup⟩, fun h => by cases h⟩
  · next f args outer rest hclosing hbrackets =>
    cases hs
    rw [hbrackets] at ho
    cases ho with
    | @call ws us _ _ f slots h houter hslots =>
      have hlast := Derives.filled (Pending.close_derives hp he)
      have hcall := derives_call (f := f) hslots hlast fun _ => (Pending.close_derives hp he).ne_nil (by simp)
      exact ⟨⟨ws, us, _, by simp [hclosing], h, houter, .operand hcall⟩, fun h => by cases h⟩
  · next f args outer rest hcomma hbrackets =>
    cases hs
    rw [hbrackets] at ho
    cases ho with
    | @call ws us _ _ f slots h houter hslots =>
      have hlast := Derives.filled (Pending.close_derives hp he)
      have hopened := Opened.call f (slots ++ [(ps ++ ls, s.pending.close e)]) h houter fun x hx => by
        rcases List.mem_append.mp hx with hx | hx
        · exact hslots x hx
        · obtain rfl := List.mem_singleton.mp hx
          exact hlast
      rw [List.map_append, List.map_append] at hopened
      exact ⟨⟨_, [], [], by simp [hcomma], hopened, Pending.readsFrom_empty.mpr rfl, .slot⟩, fun _ => rfl⟩
  · cases hs

/-- One token more leads to one word more. -/
theorem readsFrom_step {s s' : State} {t : Token} {ws : List Lexeme} (h : s.ReadsFrom ws) (hs : s.step t = .ok s') :
    s'.ReadsFrom (ws ++ [t.lexeme]) := by
  obtain ⟨⟨os, ps, ls, rfl, ho, hp, hl⟩, hslot⟩ := h
  unfold step at hs
  split at hs
  · next hlast =>
    rw [hlast] at hl
    cases hl
    rw [List.append_nil]
    exact readsFrom_beginOperand ho hp hs
  · next hlast =>
    rw [hlast] at hl
    cases hl
    obtain rfl := Pending.readsFrom_empty.mp (hslot hlast ▸ hp)
    rw [List.append_nil, List.append_nil]
    exact readsFrom_fillSlot ho (hslot hlast) hs
  · next e hlast =>
    rw [hlast] at hl
    cases hl with
    | operand he => exact readsFrom_extend ho hp he hs
  · next n hlast =>
    rw [hlast] at hl
    cases hl
    split at hs
    · next hopening =>
      cases hs
      have hcall := Opened.call n [] ho hp (by simp)
      exact ⟨⟨_, [], [], by simp [hopening], hcall, Pending.readsFrom_empty.mpr rfl, .slot⟩, fun _ => rfl⟩
    · exact readsFrom_extend ho hp (.nameOperand n) hs

theorem Runs.readsFrom {ts : List Token} {s s' : State} {ws : List Lexeme} (hs : s.Runs ts s') (h : s.ReadsFrom ws) :
    s'.ReadsFrom (ws ++ ts.map (·.lexeme)) := by
  induction ts generalizing s ws with
  | nil =>
    cases hs
    simpa using h
  | cons t ts ih =>
    unfold Runs at hs
    rw [List.foldlM_cons] at hs
    cases hstep : s.step t with
    | error cause =>
      rw [hstep] at hs
      cases hs
    | ok s₁ =>
      rw [hstep] at hs
      have h' := ih hs (readsFrom_step h hstep)
      simpa using h'

theorem derives_of_finishWith {s : State} {e e' : Expr} {os ps ls : List Lexeme} (ho : Opened os s.brackets)
    (hp : s.pending.ReadsFrom ps) (he : Derives .operand ls e) (hs : s.finishWith e = .ok e') :
    Derives .expression (os ++ ps ++ ls) e' := by
  unfold finishWith at hs
  split at hs
  · next hbrackets =>
    cases hs
    rw [hbrackets] at ho
    cases ho
    exact Pending.close_derives hp he
  · cases hs
  · cases hs

theorem derives_of_finish {s : State} {ws : List Lexeme} {e : Expr} (h : s.ReadsFrom ws) (hs : s.finish = .ok e) :
    Derives .expression ws e := by
  obtain ⟨⟨os, ps, ls, rfl, ho, hp, hl⟩, -⟩ := h
  unfold finish at hs
  split at hs
  · cases hs
  · cases hs
  · next e' hlast =>
    rw [hlast] at hl
    cases hl with
    | operand he => exact derives_of_finishWith ho hp he hs
  · next n hlast =>
    rw [hlast] at hl
    cases hl
    exact derives_of_finishWith ho hp (.nameOperand n) hs

end State
end Parser

/-- What the parser accepts, the grammar derives. -/
theorem derives_of_ofTokens {ts : List Token} {e : Expr} (h : Expr.ofTokens ts = .ok e) :
    Derives .expression (ts.map (·.lexeme)) e := by
  unfold Expr.ofTokens at h
  split at h
  · cases h
  · cases hrun : ts.foldlM Parser.State.step .start with
    | error cause =>
      rw [hrun] at h
      cases h
    | ok s =>
      rw [hrun] at h
      have hreads := Parser.State.Runs.readsFrom hrun Parser.State.readsFrom_start
      exact Parser.State.derives_of_finish hreads h

end TableMetrics
