import Mathlib.Data.List.Forall2
import TableMetrics.Proofs.Expr.Checked
import TableMetrics.Proofs.Outcome
import TableMetrics.Service.Payload

/-! The schema of request bodies: which JSON values are a table, a metric or a whole body, and what they stand for. The
    checks accept the values of the schema and no others, and read them as the schema does. -/

namespace TableMetrics

/-- A schema relates the JSON values that it allows to what they stand for. -/
abbrev Schema (α : Type) := Json → α → Prop

namespace Payload
variable {α β : Type} {S : Schema α} {check : Check α} {fields : List (String × Json)}

/-! ### Schemas -/

inductive IsText : Schema String where
  | mk (s : String) : IsText (.text s) s

/-- A value of a schema, or null for none. -/
inductive IsOptional (S : Schema α) : Schema (Option α) where
  | null : IsOptional S .null none
  | some {value : Json} {a : α} (hnull : value ≠ .null) (h : S value a) : IsOptional S value (some a)

inductive IsList (S : Schema α) : Schema (List α) where
  | mk {items : List Json} {as : List α} (h : List.Forall₂ S items as) : IsList S (.array items) as

/-- A cell is no list and no object, and a truth value in it stands for one or zero. -/
inductive IsCell : Schema Value where
  | null : IsCell .null .null
  | bool (b : Bool) : IsCell (.bool b) (.number (.integer (if b then 1 else 0)))
  | number (n : Number) : IsCell (.number n) (.number n)
  | text (s : String) : IsCell (.text s) (.text s)

/-- The field of a name is there and holds a value of a schema. -/
inductive HasField (S : Schema α) (fields : List (String × Json)) (name : String) (a : α) : Prop where
  | mk {value : Json} (hlookup : Json.lookup fields name = some value) (h : S value a)

/-- The field of a name holds a value of a schema, or is not there, which stands for `default`. -/
inductive HasDefault (S : Schema α) (default : α) (fields : List (String × Json)) (name : String) : α → Prop where
  | field {a : α} (h : HasField S fields name a) : HasDefault S default fields name a
  | absent (hlookup : Json.lookup fields name = none) : HasDefault S default fields name default

/-- The names of columns, which differ. -/
inductive IsColumns : Schema (List String) where
  | mk {value : Json} {names : List String} (h : IsList IsText value names) (hdistinct : names.Nodup) :
    IsColumns value names

/-- A table has columns, and may have rows, which are lists of cells. -/
inductive IsTable : Schema Table where
  | mk {fields : List (String × Json)} {columns : List String} {rows : List (List Value)}
    (hcolumns : HasField IsColumns fields "columns" columns)
    (hrows : HasDefault (IsList (IsList IsCell)) [] fields "rows" rows) :
    IsTable (.object fields) ⟨columns, rows.map some⟩

/-- A metric has fields that may all be null or missing. -/
inductive IsMetric : Schema Metric where
  | mk {fields : List (String × Json)} {m : Metric}
    (hname : HasDefault (IsOptional IsText) none fields "name" m.name)
    (hexpression : HasDefault (IsOptional IsText) none fields "expression" m.expression)
    (hoperation : HasDefault (IsOptional IsText) none fields "operation" m.operation)
    (hcolumn : HasDefault (IsOptional IsText) none fields "column" m.column) : IsMetric (.object fields) m

/-- The body of a request over a table: what is asked for has a field of its own, and the table is the dataset. -/
inductive IsRequest (S : Schema α) (name : String) : Json → α → Table → Prop where
  | mk {fields : List (String × Json)} {a : α} {t : Table} (h : HasField S fields name a)
    (hdataset : HasField IsTable fields "dataset" t) : IsRequest S name (.object fields) a t

abbrev IsEvaluation : Json → String → Table → Prop := IsRequest IsText "expression"

abbrev IsExecution : Json → Metric → Table → Prop := IsRequest IsMetric "metric"

/-! ### What checks accept -/

/-- A check accepts the values of a schema, at every place, and reads them as the schema does. -/
def Accepts (check : Check α) (S : Schema α) : Prop := ∀ place value a, check place value = .ok a ↔ S value a

theorem both_eq_ok_iff {x : Checked α} {y : Checked β} {a : α} {b : β} :
    Checked.both x y = .ok (a, b) ↔ x = .ok a ∧ y = .ok b := by
  cases x <;> cases y <;> simp [Checked.both]

theorem accepts_text : Accepts text IsText := by
  intro place value s
  constructor
  · intro h
    cases value <;> cases h
    exact .mk s
  · rintro ⟨s⟩
    rfl

theorem accepts_cell : Accepts cell IsCell := by
  intro place value v
  constructor
  · intro h
    cases value with
    | null => cases h; exact .null
    | bool b => cases h; exact .bool b
    | number n => cases h; exact .number n
    | text s => cases h; exact .text s
    | array items => cases h
    | object fields => cases h
  · rintro (_ | b | n | s) <;> rfl

theorem accepts_optional (h : Accepts check S) : Accepts (optional check) (IsOptional S) := by
  intro place value a
  by_cases hnull : value = .null
  · subst hnull
    constructor
    · rintro ⟨⟩
      exact .null
    · rintro (_ | ⟨hne, -⟩)
      · rfl
      · exact absurd rfl hne
  · have hcheck : optional check place value = (check place value).map some := by
      unfold optional
      split
      · exact absurd rfl hnull
      · rfl
    rw [hcheck, map_eq_ok_iff]
    constructor
    · rintro ⟨b, hb, rfl⟩
      exact .some hnull ((h place value b).mp hb)
    · rintro (_ | ⟨-, hb⟩)
      · exact absurd rfl hnull
      · exact ⟨_, (h place value _).mpr hb, rfl⟩

/-- The items of a list are each accepted at their own place. The induction is over the items, for the checks of all
    the places that are left. -/
theorem all_mapIdx_eq_ok_iff {f : Nat → Json → Checked α} {items : List Json}
    (h : ∀ i item a, f i item = .ok a ↔ S item a) {as : List α} :
    Checked.all (items.mapIdx f) = .ok as ↔ List.Forall₂ S items as := by
  induction items generalizing f as with
  | nil =>
    rw [List.mapIdx_nil, List.forall₂_nil_left_iff, Checked.all, Except.ok.injEq, eq_comm]
  | cons item items ih =>
    have htail : ∀ {bs}, Checked.all (items.mapIdx fun i => f (i + 1)) = .ok bs ↔ List.Forall₂ S items bs :=
      ih fun i => h (i + 1)
    rw [List.mapIdx_cons, Checked.all, map_eq_ok_iff, List.forall₂_cons_left_iff]
    constructor
    · rintro ⟨⟨b, bs⟩, hboth, rfl⟩
      obtain ⟨hitem, hitems⟩ := both_eq_ok_iff.mp hboth
      exact ⟨b, bs, (h 0 item b).mp hitem, htail.mp hitems, rfl⟩
    · rintro ⟨b, bs, hitem, hitems, rfl⟩
      exact ⟨(b, bs), both_eq_ok_iff.mpr ⟨(h 0 item b).mpr hitem, htail.mpr hitems⟩, rfl⟩

theorem accepts_list (h : Accepts check S) : Accepts (list check) (IsList S) := by
  intro place value as
  have hitems : ∀ items, list check place (.array items) = .ok as ↔ List.Forall₂ S items as := fun items =>
    all_mapIdx_eq_ok_iff fun i item a => h (place ++ [.index i]) item a
  constructor
  · intro hok
    cases value with
    | array items => exact .mk ((hitems items).mp hok)
    | _ => cases hok
  · rintro ⟨hforall⟩
    exact (hitems _).mpr hforall

theorem required_eq_ok_iff (h : Accepts check S) {place : Place} {name : String} {a : α} :
    required check place fields name = .ok a ↔ HasField S fields name a := by
  unfold required
  constructor
  · intro hok
    split at hok
    · next value hlookup => exact .mk hlookup ((h _ value a).mp hok)
    · cases hok
  · rintro ⟨hlookup, hvalue⟩
    simp only [hlookup]
    exact (h _ _ a).mpr hvalue

theorem defaulted_eq_ok_iff (h : Accepts check S) {default : α} {place : Place} {name : String} {a : α} :
    defaulted check default place fields name = .ok a ↔ HasDefault S default fields name a := by
  unfold defaulted
  constructor
  · intro hok
    split at hok
    · next value hlookup => exact .field (.mk hlookup ((h _ value a).mp hok))
    · next hlookup =>
      cases hok
      exact .absent hlookup
  · rintro (⟨hlookup, hvalue⟩ | hlookup)
    · simp only [hlookup]
      exact (h _ _ a).mpr hvalue
    · simp only [hlookup]

theorem object_eq_ok_iff {place : Place} {value : Json} :
    object place value = .ok fields ↔ value = .object fields := by
  cases value <;> simp [object, Checked.fail]

theorem isSome_firstRepeated?_iff {names : List String} : (firstRepeated? [] names).isSome = true ↔ ¬names.Nodup := by
  constructor
  · intro h hdistinct
    rw [firstRepeated?_of_nodup hdistinct [] fun _ _ => List.not_mem_nil] at h
    cases h
  · intro h
    rw [Option.isSome_iff_ne_none]
    exact fun hnone => h (firstRepeated?_eq_none hnone).1

theorem accepts_columns : Accepts columns IsColumns := by
  intro place value names
  rw [columns, bind_eq_ok_iff]
  constructor
  · rintro ⟨names', hlist, hok⟩
    split at hok
    · cases hok
    · next hdistinct =>
      cases hok
      rw [isSome_firstRepeated?_iff, not_not] at hdistinct
      exact .mk ((accepts_list accepts_text place value names).mp hlist) hdistinct
  · rintro ⟨hlist, hdistinct⟩
    refine ⟨names, (accepts_list accepts_text place value names).mpr hlist, if_neg ?_⟩
    rw [isSome_firstRepeated?_iff, not_not]
    exact hdistinct

theorem accepts_table : Accepts table IsTable := by
  intro place value t
  rw [table, bind_eq_ok_iff]
  constructor
  · rintro ⟨fields, hfields, hok⟩
    obtain ⟨⟨names, rows⟩, hboth, hok⟩ := bind_eq_ok_iff.mp hok
    obtain ⟨hcolumns, hrows⟩ := both_eq_ok_iff.mp hboth
    cases object_eq_ok_iff.mp hfields
    cases hok
    exact .mk ((required_eq_ok_iff accepts_columns).mp hcolumns)
      ((defaulted_eq_ok_iff (accepts_list (accepts_list accepts_cell))).mp hrows)
  · rintro ⟨hcolumns, hrows⟩
    refine ⟨_, rfl, bind_eq_ok_iff.mpr ⟨_, both_eq_ok_iff.mpr ⟨?_, ?_⟩, rfl⟩⟩
    · exact (required_eq_ok_iff accepts_columns).mpr hcolumns
    · exact (defaulted_eq_ok_iff (accepts_list (accepts_list accepts_cell))).mpr hrows

theorem accepts_metric : Accepts metric IsMetric := by
  intro place value m
  have hfield : ∀ fields name a, defaulted (optional text) none place fields name = .ok a ↔
      HasDefault (IsOptional IsText) none fields name a :=
    fun _ _ _ => defaulted_eq_ok_iff (accepts_optional accepts_text)
  rw [metric, bind_eq_ok_iff]
  constructor
  · rintro ⟨fields, hfields, hok⟩
    obtain ⟨⟨⟨name, expression⟩, operation, column⟩, hboth, hok⟩ := bind_eq_ok_iff.mp hok
    simp only [both_eq_ok_iff, hfield] at hboth
    obtain ⟨⟨hname, hexpression⟩, hoperation, hcolumn⟩ := hboth
    cases object_eq_ok_iff.mp hfields
    cases hok
    exact .mk hname hexpression hoperation hcolumn
  · rintro ⟨hname, hexpression, hoperation, hcolumn⟩
    refine ⟨_, rfl, bind_eq_ok_iff.mpr ⟨((m.name, m.expression), m.operation, m.column), ?_, rfl⟩⟩
    simp only [both_eq_ok_iff, hfield]
    exact ⟨⟨hname, hexpression⟩, hoperation, hcolumn⟩

/-! ### Whole bodies -/

theorem request_eq_ok_iff (h : Accepts check S) {name : String} {value : Json} {a : α} {t : Table} :
    (body (some value) >>= fun fields =>
      Checked.both (required check root fields name) (required table root fields "dataset")) = .ok (a, t) ↔
    IsRequest S name value a t := by
  rw [bind_eq_ok_iff]
  constructor
  · rintro ⟨fields, hfields, hboth⟩
    obtain ⟨hown, hdataset⟩ := both_eq_ok_iff.mp hboth
    cases object_eq_ok_iff.mp hfields
    exact .mk ((required_eq_ok_iff h).mp hown) ((required_eq_ok_iff accepts_table).mp hdataset)
  · rintro ⟨hown, hdataset⟩
    refine ⟨_, rfl, both_eq_ok_iff.mpr ⟨?_, ?_⟩⟩
    · exact (required_eq_ok_iff h).mpr hown
    · exact (required_eq_ok_iff accepts_table).mpr hdataset

theorem evaluation_eq_ok_iff {value : Json} {expression : String} {t : Table} :
    evaluation (some value) = .ok (expression, t) ↔ IsEvaluation value expression t :=
  request_eq_ok_iff accepts_text

theorem execution_eq_ok_iff {value : Json} {m : Metric} {t : Table} :
    execution (some value) = .ok (m, t) ↔ IsExecution value m t :=
  request_eq_ok_iff accepts_metric

end Payload
end TableMetrics
