import TableMetrics.Log
import TableMetrics.Text.Case
import TableMetrics.Text.Quoted

/-! The configuration of the log: its level, and the handlers that write it. -/

namespace TableMetrics

/-- A level that the log does not know, in upper case. -/
structure UnknownLevel where
  name : String
  deriving DecidableEq, Inhabited

def UnknownLevel.message (e : UnknownLevel) : String := "Unknown level: " ++ quoted e.name

structure Logger where
  level : LogLevel
  /-- The names of the handlers, in the order in which they were added. -/
  handlers : List String
  deriving DecidableEq, Inhabited

namespace Logger

def outputHandler : String := "metrica"

def initial : Logger := ⟨.unset, []⟩

def outputCount (l : Logger) : Nat := l.handlers.count outputHandler

/-- A change of the log. Where it fails, what it has changed before stays changed. -/
abbrev Change := EStateM UnknownLevel Logger Unit

/-- Sets the level with a name, which is in upper case. -/
def setLevel (name : String) : Change :=
  match LogLevel.names.lookup name with
  | some level => modify fun l => { l with level }
  | none => throw ⟨name⟩

/-- Adds the handler that writes to standard output, unless it is there. -/
def addOutput : Change := do
  unless (← get).handlers.contains outputHandler do
    modify fun l => { l with handlers := l.handlers ++ [outputHandler] }

/-- Sets the level, named in any case, and sees to the handler that writes to standard output. -/
def configure (level : String) : Change := do
  setLevel (upper level)
  addOutput

/-- The log that a change leaves, whether it fails or not. -/
def left : EStateM.Result UnknownLevel Logger Unit → Logger
  | .ok _ l => l
  | .error _ l => l

/-- What a change comes to: the log, unless it fails. -/
def outcome : EStateM.Result UnknownLevel Logger Unit → Except UnknownLevel Logger
  | .ok _ l => .ok l
  | .error e _ => .error e

/-- The log after some configurations, of which some may have failed. -/
def after (l : Logger) (levels : List String) : Logger := levels.foldl (fun l level => left (configure level l)) l

/-- The outcomes of configuring the log several times. -/
def configureAll (l : Logger) : List String → List (Except UnknownLevel Logger)
  | [] => []
  | level :: levels => outcome (configure level l) :: (left (configure level l)).configureAll levels

end Logger

end TableMetrics
