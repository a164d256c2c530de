import TableMetrics.Service.Gateway

/-! The service: what is answered to a request. The body is checked first, the number of rows next; only then is
    anything evaluated. -/

namespace TableMetrics

namespace Service

def version : String := "0.1.0"

inductive Route where
  | health
  | functions
  | evaluate
  | validate
  | execute
  /-- A page that describes the service to its users. -/
  | documentation
  deriving DecidableEq, Inhabited

namespace Route

def paths : Route → List String
  | .health => ["/api/health"]
  | .functions => ["/api/metrics/functions"]
  | .evaluate => ["/api/metrics/evaluate"]
  | .validate => ["/api/metrics/validate"]
  | .execute => ["/api/metrics/execute"]
  | .documentation => ["/openapi.json", "/docs", "/docs/oauth2-redirect", "/redoc"]

def methods : Route → List String
  | .health | .functions => ["GET"]
  | .evaluate | .validate | .execute => ["POST"]
  | .documentation => ["GET", "HEAD"]

def all : List Route := [.documentation, .functions, .evaluate, .validate, .execute, .health]

/-- The route of a path. One line break at the end of the path is left out. -/
def ofPath? (path : String) : Option Route :=
  all.find? fun route => route.paths.any fun p => path == p || path == p ++ "\n"

end Route

/-! ### Answers -/

def texts (list : List String) : Json := .array (list.map .text)

def optionalText : Option String → Json
  | some s => .text s
  | none => .null

/-- A value in an answer; what has no number in JSON is null. -/
def valueJson (v : Value) : Json :=
  match v.reported with
  | .null => .null
  | .bool b => .bool b
  | .number n => .number n
  | .text s => .text s

def detail (status : Nat) (message : String) : Response := ⟨status, .object [("detail", .text message)], []⟩

def limitResponse (rows : Nat) (maxRows : Int) : Response :=
  detail 413 ("Dataset has " ++ integerText rows ++ " rows; limit is " ++ integerText maxRows)

def healthResponse : Response := ⟨200, .object [("status", .text "ok"), ("version", .text version)], []⟩

def functionsResponse : Response :=
  ⟨200, .object [
    ("functions", texts Function.supportedNames),
    ("aliases", .object (Function.names.map fun (name, function) => (name, .text function.name))),
    ("operations", texts Aggregate.operationNames)], []⟩

/-- The answer to an evaluation: the failure is part of it, and is recorded. -/
def evaluateResponse (expression : String) (t : Table) : Response :=
  match evaluateReported expression (some t) with
  | .ok v => ⟨200, .object [("ok", .bool true), ("value", valueJson v), ("error", .null)], []⟩
  | .error e =>
    ⟨200, .object [("ok", .bool false), ("value", .null),
      ("error", .object [("kind", .text e.kind.name), ("message", .text e.message)])],
      [.answeredFailure expression e.kind]⟩

def validateResponse (expression : String) (known : Option (List String)) : Response :=
  let problems := checkExpression expression known
  ⟨200, .object [("ok", .bool problems.isEmpty), ("errors", texts (problems.map (·.message)))], []⟩

/-- The answer to an execution: a failure has a status of its own. -/
def executeResponse (m : Metric) (t : Table) : Response :=
  let execution := m.execute (some t)
  match execution.outcome with
  | .ok v => ⟨200, .object [("name", optionalText m.name), ("value", valueJson v)], execution.log⟩
  | .error e =>
    ⟨422, .object [("error", .text e.kind.name), ("detail", .text e.message)], execution.log⟩

/-- Answers with a table, unless it has too many rows. -/
def withinLimit (maxRows : Int) (t : Table) (answer : Table → Response) : Response :=
  if maxRows < t.rows.length then limitResponse t.rows.length maxRows else answer t

/-- Answers with what the body of a request stands for, or refuses the body. -/
def withBody {α : Type} (g : Gateway) (checked : Except (List Finding) α) (answer : α → Response) : Response :=
  match checked with
  | .ok a => answer a
  | .error findings => g.refuse findings

/-- The answer to an evaluation, unless the expression is too deep. -/
def evaluateWithin (g : Gateway) (expression : String) (t : Table) : Response :=
  if g.exhausts expression (some t) then .serverError [] else evaluateResponse expression t

/-- The answer to an execution, unless there is an expression and it is too deep. Its evaluation has begun then. -/
def executeWithin (g : Gateway) (m : Metric) (t : Table) : Response :=
  match (given? m.expression).filter (g.exhausts · (some t)) with
  | some expression => .serverError [.evaluating expression]
  | none => executeResponse m t

/-- The answer with a documentation page, the text of which is no part of this library. -/
def documentationResponse : Response := ⟨200, .null, []⟩

def respond (g : Gateway) (route : Route) (r : Request) : Response :=
  match route with
  | .health => healthResponse
  | .functions => functionsResponse
  | .documentation => documentationResponse
  | .evaluate => withBody g (g.evaluation r.body) fun (expression, t) =>
    withinLimit r.maxRows t (evaluateWithin g expression)
  | .validate => withBody g (g.validation r.body) fun (expression, known) =>
    if g.exhausts expression none then .serverError [] else validateResponse expression known
  | .execute => withBody g (g.execution r.body) fun (m, t) => withinLimit r.maxRows t (executeWithin g m)

def handle (g : Gateway) (r : Request) : Response :=
  match Route.ofPath? r.path with
  | none => detail 404 "Not Found"
  | some route => if r.method ∈ route.methods then respond g route r else detail 405 "Method Not Allowed"

end Service

end TableMetrics
