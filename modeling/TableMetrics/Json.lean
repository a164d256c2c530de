import TableMetrics.Number

/-! JSON values. Whole numbers and others are told apart, and the fields of an object keep their order. -/

namespace TableMetrics

inductive Json where
  | null
  | bool (b : Bool)
  | number (n : Number)
  | text (s : String)
  | array (items : List Json)
  | object (fields : List (String × Json))
  deriving Inhabited

namespace Json

/-- The value of a field; of several fields of one name the last one counts. -/
def lookup (fields : List (String × Json)) (name : String) : Option Json := fields.reverse.lookup name

mutual

/-- All numbers in a value are finite. -/
def isFinite : Json → Bool
  | .null | .bool _ | .text _ | .number (.integer _) => true
  | .number (.float x) => x.isFinite
  | .array items => areFinite items
  | .object fields => fieldsAreFinite fields

def areFinite : List Json → Bool
  | [] => true
  | item :: items => item.isFinite && areFinite items

def fieldsAreFinite : List (String × Json) → Bool
  | [] => true
  | (_, value) :: fields => value.isFinite && fieldsAreFinite fields

end

end Json

end TableMetrics
