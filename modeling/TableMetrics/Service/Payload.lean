import TableMetrics.Service.Gateway

/-! The checks of the bodies of requests, as a framework makes them that is given the schemas. A body is checked as a
    whole: all its faults are found, each at its place. -/

namespace TableMetrics

inductive Fault where
  | missing
  | objectExpected
  | listExpected
  | textExpected
  | integerExpected
  | floatExpected
  | duplicateColumns
  deriving DecidableEq, Inhabited

def Fault.name : Fault → String
  | .missing => "missing"
  | .objectExpected => "model_attributes_type"
  | .listExpected => "list_type"
  | .textExpected => "string_type"
  | .integerExpected => "int_type"
  | .floatExpected => "float_type"
  | .duplicateColumns => "value_error"

abbrev Checked (α : Type) := Except (List Finding) α

namespace Checked

def fail {α : Type} (place : Place) (fault : Fault) (input : Json) : Checked α := .error [⟨place, fault.name, input⟩]

/-- Two values, of which both are checked whatever the outcome of the first. -/
def both {α β : Type} (x : Checked α) (y : Checked β) : Checked (α × β) :=
  match x, y with
  | .ok a, .ok b => .ok (a, b)
  | .ok _, .error w => .error w
  | .error v, .ok _ => .error v
  | .error v, .error w => .error (v ++ w)

def all {α : Type} : List (Checked α) → Checked (List α)
  | [] => .ok []
  | x :: xs => (both x (all xs)).map fun (a, as) => a :: as

end Checked

namespace Payload

/-- A check of the value at a place. -/
abbrev Check (α : Type) := Place → Json → Checked α

def text : Check String
  | _, .text s => .ok s
  | place, value => .fail place .textExpected value

def optional {α : Type} (check : Check α) : Check (Option α)
  | _, .null => .ok none
  | place, value => (check place value).map some

/-- A list whose items all pass a check; each has its index for its place. -/
def list {α : Type} (check : Check α) : Check (List α)
  | place, .array items => .all (items.mapIdx fun i item => check (place ++ [.index i]) item)
  | place, value => .fail place .listExpected value

def object : Check (List (String × Json))
  | _, .object fields => .ok fields
  | place, value => .fail place .objectExpected value

/-- A field that must be there; where it is not, the object that lacks it is at fault. -/
def required {α : Type} (check : Check α) (place : Place) (fields : List (String × Json)) (name : String) : Checked α :=
  match Json.lookup fields name with
  | some value => check (place ++ [.field name]) value
  | none => .fail (place ++ [.field name]) .missing (.object fields)

/-- A field that has a value of its own when it is not there. -/
def defaulted {α : Type} (check : Check α) (default : α) (place : Place) (fields : List (String × Json))
    (name : String) : Checked α :=
  match Json.lookup fields name with
  | some value => check (place ++ [.field name]) value
  | none => .ok default

/-- A cell. A truth value is read as one or zero; a list or an object is none of the kinds a cell can have. -/
def cell : Check Value
  | _, .null => .ok .null
  | _, .bool b => .ok (.number (.integer (if b then 1 else 0)))
  | _, .number n => .ok (.number n)
  | _, .text s => .ok (.text s)
  | place, value =>
    .error [⟨place ++ [.field "int"], Fault.integerExpected.name, value⟩,
      ⟨place ++ [.field "float"], Fault.floatExpected.name, value⟩,
      ⟨place ++ [.field "str"], Fault.textExpected.name, value⟩]

/-- The names of columns, which must differ. -/
def columns : Check (List String) := fun place value => do
  let names ← list text place value
  if (firstRepeated? [] names).isSome then .fail place .duplicateColumns value else return names

/-- A table; without rows it has none. -/
def table : Check Table := fun place value => do
  let fields ← object place value
  let (names, rows) ← Checked.both (required columns place fields "columns")
    (defaulted (list (list cell)) [] place fields "rows")
  return ⟨names, rows.map some⟩

/-- A metric, of which every field may be missing or null. -/
def metric : Check Metric := fun place value => do
  let fields ← object place value
  let field (name : String) : Checked (Option String) := defaulted (optional text) none place fields name
  let ((name, expression), operation, column) ← Checked.both
    (Checked.both (field "name") (field "expression")) (Checked.both (field "operation") (field "column"))
  return ⟨name, expression, operation, column⟩

def root : Place := [.field "body"]

def body (value : Option Json) : Checked (List (String × Json)) :=
  match value with
  | some value => object root value
  | none => .fail root .missing .null

def evaluation (value : Option Json) : Checked (String × Table) := do
  let fields ← body value
  Checked.both (required text root fields "expression") (required table root fields "dataset")

def validation (value : Option Json) : Checked (String × Option (List String)) := do
  let fields ← body value
  Checked.both (required text root fields "expression")
    (defaulted (optional (list text)) none root fields "columns")

def execution (value : Option Json) : Checked (Metric × Table) := do
  let fields ← body value
  Checked.both (required metric root fields "metric") (required table root fields "dataset")

/-! ### The gateway of these checks -/

def stepJson : Step → Json
  | .field name => .text name
  | .index i => .number (.integer i)

def entry (f : Finding) : Json :=
  .object [("type", .text f.fault), ("loc", .array (f.place.map stepJson)), ("input", f.input)]

/-- The answer with findings. It shows what is at fault, and cannot be written if that holds a number which is not
    finite. -/
def refuse (findings : List Finding) : Response :=
  if findings.all (·.input.isFinite) then ⟨422, .object [("detail", .array (findings.map entry))], []⟩
  else .serverError []

end Payload

/-- The gateway of the checks above, to which no expression is too deep. -/
def Gateway.standard : Gateway where
  evaluation := Payload.evaluation
  validation := Payload.validation
  execution := Payload.execution
  refuse := Payload.refuse
  exhausts _ _ := false

end TableMetrics
