import TableMetrics.Json
import TableMetrics.Metric

/-! What stands in front of the service: the framework that reads the bodies of requests and refuses those that are not
    what is declared of them. It is no part of this library, which takes it as it is. -/

namespace TableMetrics

structure Request where
  method : String
  path : String
  body : Option Json
  maxRows : Int

structure Response where
  status : Nat
  body : Json
  log : List LogEvent

/-- A step from a value to one of its parts: a field of an object, or an item of a list. -/
inductive Step where
  | field (name : String)
  | index (i : Nat)
  deriving DecidableEq, Inhabited

/-- Where a part of a request stands, from the outside in. -/
abbrev Place := List Step

/-- Something that was found to be wrong with the body of a request. -/
structure Finding where
  place : Place
  fault : String
  /-- The value that is at fault, or the one that lacks a field. -/
  input : Json
  deriving Inhabited

/-- What reads the bodies of requests: each endpoint gets what its body stands for, or else there are findings, which
    are the answer. -/
structure Gateway where
  evaluation (body : Option Json) : Except (List Finding) (String × Table)
  validation (body : Option Json) : Except (List Finding) (String × Option (List String))
  execution (body : Option Json) : Except (List Finding) (Metric × Table)
  /-- The answer to a body that something is wrong with. -/
  refuse (findings : List Finding) : Response
  /-- Whether the interpreter gives up on an expression, over a table or only to check it, as it is nested too deeply. -/
  exhausts (expression : String) (t : Option Table) : Bool

/-- The answer to a request that the framework gives up on. -/
def Response.serverError (log : List LogEvent) : Response := ⟨500, .text "Internal Server Error", log⟩

end TableMetrics
