import TableMetrics.Json.Reader
import TableMetrics.Settings.Integer
import TableMetrics.Text.Case

/-! The settings of the service, taken from the environment. -/

namespace TableMetrics

structure Settings where
  apiTitle : String
  /-- The origins from which browsers may call the service. -/
  corsOrigins : List String
  logLevel : String
  maxRows : Int
  host : String
  port : Int
  deriving DecidableEq, Inhabited

inductive SettingFault where
  | integer (fault : IntegerFault)
  | listExpected
  | textExpected
  deriving DecidableEq, Inhabited

def SettingFault.name : SettingFault → String
  | .integer .malformed => "int_parsing"
  | .integer .tooLong => "int_parsing_size"
  | .listExpected => "list_type"
  | .textExpected => "string_type"

/-- Why there are no settings: a list that is not written in JSON, or values that are not what they should be, each
    with its place. -/
inductive SettingsError where
  | unreadable (field : String)
  | invalid (faults : List (List String × SettingFault))
  deriving DecidableEq, Inhabited

def SettingsError.unreadableMessage (field : String) : String :=
  "error parsing value for field \"" ++ field ++ "\" from source \"EnvSettingsSource\""

namespace Settings

def variablePrefix : String := "metrica_"

def default : Settings :=
  { apiTitle := "Metrica"
    corsOrigins := ["http://localhost:5173"]
    logLevel := "INFO"
    maxRows := 100000
    host := "0.0.0.0"
    port := 8000 }

/-- The value of the variable for a field. Case does not matter in names, and of several variables that differ in
    case alone the last one counts. -/
def lookup? (env : List (String × String)) (field : String) : Option String :=
  (env.reverse.find? fun (name, _) => lowerAscii name == variablePrefix ++ field).map (·.2)

/-! ### Fields -/

def textFaults (field : String) (items : List Json) : List (List String × SettingFault) :=
  (items.mapIdx fun i item => (i, item)).filterMap fun (i, item) =>
    match item with
    | .text _ => none
    | _ => some ([field, integerText i], .textExpected)

/-- A list of texts, written as a JSON array. Null stands for the default. -/
def textList (env : List (String × String)) (field : String) (default : List String) :
    Except SettingsError (Except (List (List String × SettingFault)) (List String)) :=
  match lookup? env field with
  | none => .ok (.ok default)
  | some value =>
    match Json.ofText? value with
    | none => .error (.unreadable field)
    | some .null => .ok (.ok default)
    | some (.array items) =>
      match textFaults field items with
      | [] => .ok (.ok (items.filterMap fun | .text s => some s | _ => none))
      | faults => .ok (.error faults)
    | some _ => .ok (.error [([field], .listExpected)])

def integer (env : List (String × String)) (field : String) (default : Int) :
    Except (List (List String × SettingFault)) Int :=
  match lookup? env field with
  | none => .ok default
  | some value =>
    (SettingInteger.ofText value).mapError fun fault => [([field], .integer fault)]

def text (env : List (String × String)) (field : String) (default : String) : String :=
  (lookup? env field).getD default

def faultsOf {α : Type} : Except (List (List String × SettingFault)) α → List (List String × SettingFault)
  | .ok _ => []
  | .error faults => faults

def faultLe (v w : List String × SettingFault) : Bool :=
  ((List.compareLex compare v.1 w.1).then (compare v.2.name w.2.name)).isLE

/-- The settings that an environment gives, its variables in the order in which they were set. -/
def ofEnvironment (env : List (String × String)) : Except SettingsError Settings := do
  let origins ← textList env "cors_origins" default.corsOrigins
  let maxRows := integer env "max_rows" default.maxRows
  let port := integer env "port" default.port
  match origins, maxRows, port with
  | .ok origins, .ok maxRows, .ok port =>
    return {
      apiTitle := text env "api_title" default.apiTitle
      corsOrigins := origins
      logLevel := text env "log_level" default.logLevel
      maxRows
      host := text env "host" default.host
      port }
  | _, _, _ =>
    throw (.invalid ((faultsOf origins ++ faultsOf maxRows ++ faultsOf port).mergeSort faultLe))

end Settings

end TableMetrics
