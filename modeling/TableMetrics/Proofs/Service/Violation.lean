import TableMetrics.Proofs.Service.Schema

/-! The violations of request bodies: where a value is not of its schema. No violation of a value is inside of another
    one, so that what is wrong inside of a violation is of this one alone. -/

namespace TableMetrics

/-- Where a value is wrong, as seen from the value. -/
abbrev Violations := Json → Place → Prop

namespace Payload

/-! ### Violations -/

inductive TextViolation : Violations where
  | mk {value : Json} (h : ∀ s, value ≠ .text s) : TextViolation value []

/-- Null is no violation where a value may be left out. -/
inductive OptionalViolation (V : Violations) : Violations where
  | mk {value : Json} {p : Place} (hnull : value ≠ .null) (h : V value p) : OptionalViolation V value p

inductive ListViolation (V : Violations) : Violations where
  | kind {value : Json} (h : ∀ items, value ≠ .array items) : ListViolation V value []
  | item {items : List Json} {i : Nat} {value : Json} {p : Place} (hitem : items[i]? = some value) (h : V value p) :
    ListViolation V (.array items) (.index i :: p)

/-- A list and an object are nothing of what a cell can be. -/
inductive CellViolation : Violations where
  | list (items : List Json) : CellViolation (.array items) []
  | object (fields : List (String × Json)) : CellViolation (.object fields) []

section Fields
variable (V : Violations) (fields : List (String × Json)) (name : String)

/-- A field that must be there is missing, or its value is wrong. -/
inductive FieldViolation : Place → Prop where
  | missing (hlookup : Json.lookup fields name = none) : FieldViolation [.field name]
  | value {value : Json} {p : Place} (hlookup : Json.lookup fields name = some value) (h : V value p) :
    FieldViolation (.field name :: p)

/-- The value of a field that may be missing is wrong. -/
inductive DefaultViolation : Place → Prop where
  | mk {value : Json} {p : Place} (hlookup : Json.lookup fields name = some value) (h : V value p) :
    DefaultViolation (.field name :: p)

end Fields

/-- The names of columns are no list of texts; or they are, and one of them stands there twice. -/
inductive ColumnsViolation : Violations where
  | list {value : Json} {p : Place} (h : ListViolation TextViolation value p) : ColumnsViolation value p
  | repeated {value : Json} {names : List String} (h : IsList IsText value names) (hrepeated : ¬names.Nodup) :
    ColumnsViolation value []

inductive TableViolation : Violations where
  | kind {value : Json} (h : ∀ fields, value ≠ .object fields) : TableViolation value []
  | columns {fields : List (String × Json)} {p : Place} (h : FieldViolation ColumnsViolation fields "columns" p) :
    TableViolation (.object fields) p
  | rows {fields : List (String × Json)} {p : Place}
    (h : DefaultViolation (ListViolation (ListViolation CellViolation)) fields "rows" p) :
    TableViolation (.object fields) p

def metricFields : List String := ["name", "expression", "operation", "column"]

inductive MetricViolation : Violations where
  | kind {value : Json} (h : ∀ fields, value ≠ .object fields) : MetricViolation value []
  | field {fields : List (String × Json)} {name : String} {p : Place} (hname : name ∈ metricFields)
    (h : DefaultViolation (OptionalViolation TextViolation) fields name p) : MetricViolation (.object fields) p

/-- Where the body of a request over a table is wrong: there is none, it is no object, or one of its two fields is missing
    or wrong. -/
inductive RequestViolation (V : Violations) (name : String) : Option Json → Place → Prop where
  | absent : RequestViolation V name none root
  | kind {value : Json} (h : ∀ fields, value ≠ .object fields) : RequestViolation V name (some value) root
  | own {fields : List (String × Json)} {p : Place} (h : FieldViolation V fields name p) :
    RequestViolation V name (some (.object fields)) (.field "body" :: p)
  | dataset {fields : List (String × Json)} {p : Place} (h : FieldViolation TableViolation fields "dataset" p) :
    RequestViolation V name (some (.object fields)) (.field "body" :: p)

/-- No place is inside of another one. -/
def Apart (V : Place → Prop) : Prop := ∀ p q, V p → V q → p <+: q → p = q

/-- A list of texts has no violation of one. -/
theorem IsList.not_violation {value : Json} {names : List String} (h : IsList IsText value names) (p : Place) :
    ¬ListViolation TextViolation value p := by
  obtain @⟨items, names, hitems⟩ := h
  rintro (hkind | @⟨_, i, item, q, hi, ⟨htext⟩⟩)
  · exact hkind items rfl
  · obtain ⟨hlt, rfl⟩ := List.getElem?_eq_some_iff.mp hi
    have hlt' : i < names.length := hitems.length_eq ▸ hlt
    have hitem : IsText items[i] names[i] := hitems.get hlt hlt'
    generalize items[i] = item, names[i] = name at htext hitem
    obtain ⟨s⟩ := hitem
    exact htext _ rfl

namespace Apart
variable {V : Violations} {fields : List (String × Json)} {name : String}

theorem of_eq {V : Place → Prop} {r : Place} (h : ∀ p, V p → p = r) : Apart V :=
  fun _ _ hp hq _ => (h _ hp).trans (h _ hq).symm

theorem cons {V : Place → Prop} {step : Step} {p q : Place} (h : Apart V) (hp : V p) (hq : V q)
    (hinside : step :: p <+: step :: q) : step :: p = step :: q :=
  congrArg _ (h p q hp hq (List.cons_prefix_cons.mp hinside).2)

theorem text (value : Json) : Apart (TextViolation value) := by
  refine of_eq (r := []) fun p => ?_
  rintro ⟨-⟩
  rfl

theorem cell (value : Json) : Apart (CellViolation value) := by
  refine of_eq (r := []) fun p => ?_
  rintro ⟨⟩ <;> rfl

theorem optional (h : ∀ value, Apart (V value)) (value : Json) : Apart (OptionalViolation V value) := by
  rintro p q ⟨-, hp⟩ ⟨-, hq⟩
  exact h value p q hp hq

theorem list (h : ∀ value, Apart (V value)) (value : Json) : Apart (ListViolation V value) := by
  rintro p q (hkind | @⟨items, i, item, p, hi, hp⟩) hq hinside
  · obtain hkind' | _ := hq
    · rfl
    · exact absurd rfl (hkind _)
  · obtain hkind | @⟨_, j, item', q, hj, hq⟩ := hq
    · exact absurd rfl (hkind items)
    · obtain ⟨hij, -⟩ := List.cons_prefix_cons.mp hinside
      cases hij
      rw [hi] at hj
      cases hj
      exact (h item).cons hp hq hinside

theorem field (h : ∀ value, Apart (V value)) (fields : List (String × Json)) (name : String) :
    Apart (FieldViolation V fields name) := by
  rintro p q (hnone | @⟨value, p, hlookup, hp⟩) (hnone' | @⟨value', q, hlookup', hq⟩) hinside
  · rfl
  · rw [hnone] at hlookup'
    cases hlookup'
  · rw [hnone'] at hlookup
    cases hlookup
  · rw [hlookup] at hlookup'
    cases hlookup'
    exact (h value).cons hp hq hinside

theorem default (h : ∀ value, Apart (V value)) (fields : List (String × Json)) (name : String) :
    Apart (DefaultViolation V fields name) := by
  rintro p q @⟨value, p, hlookup, hp⟩ @⟨value', q, hlookup', hq⟩ hinside
  rw [hlookup] at hlookup'
  cases hlookup'
  exact (h value).cons hp hq hinside

theorem columns (value : Json) : Apart (ColumnsViolation value) := by
  rintro p q (hp | ⟨hnames, -⟩) (hq | ⟨hnames', -⟩) hinside
  · exact list text value p q hp hq hinside
  · exact absurd hp (hnames'.not_violation p)
  · exact absurd hq (hnames.not_violation q)
  · rfl

end Apart

theorem FieldViolation.head {V : Violations} {fields : List (String × Json)} {name : String} {p : Place}
    (h : FieldViolation V fields name p) : p.head? = some (.field name) := by
  cases h <;> rfl

theorem DefaultViolation.head {V : Violations} {fields : List (String × Json)} {name : String} {p : Place}
    (h : DefaultViolation V fields name p) : p.head? = some (.field name) := by
  cases h
  rfl

/-- Places that lead to different fields are not inside of each other. -/
theorem eq_of_head {p q : Place} {name name' : String} (hp : p.head? = some (.field name))
    (hq : q.head? = some (.field name')) (hinside : p <+: q) : name = name' := by
  obtain ⟨rest, rfl⟩ := hinside
  rw [List.head?_append, hp] at hq
  cases hq
  rfl

namespace Apart

theorem table (value : Json) : Apart (TableViolation value) := by
  rintro p q (hkind | hp | hp) hq hinside
  · obtain - | hq | hq := hq
    · rfl
    · exact absurd rfl (hkind _)
    · exact absurd rfl (hkind _)
  · obtain hkind | hq | hq := hq
    · exact absurd rfl (hkind _)
    · exact field columns _ _ p q hp hq hinside
    · exact absurd (eq_of_head hp.head hq.head hinside) (by decide)
  · obtain hkind | hq | hq := hq
    · exact absurd rfl (hkind _)
    · exact absurd (eq_of_head hp.head hq.head hinside) (by decide)
    · exact default (list (list cell)) _ _ p q hp hq hinside

theorem metric (value : Json) : Apart (MetricViolation value) := by
  rintro p q (hkind | ⟨-, hp⟩) (hkind' | ⟨-, hq⟩) hinside
  · rfl
  · exact absurd rfl (hkind _)
  · exact absurd rfl (hkind' _)
  · cases eq_of_head hp.head hq.head hinside
    exact default (optional text) _ _ p q hp hq hinside

end Apart
end Payload
end TableMetrics
