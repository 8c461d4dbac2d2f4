import QueryFilter.Condition.RowId
import QueryFilter.Text.Visible

/-!
# Faults

What can go wrong when a client asks for something, as causes with their messages.
-/

namespace QueryFilter

/-- The shape that a JSON value was expected to have. -/
inductive Shape where
  | condition
  | string
  | list
  | identity
  deriving DecidableEq, Repr

/-- The words for an expected shape. -/
def Shape.words : Shape → String
  | .condition => "struct ConditionInput"
  | .string => "a string"
  | .list => "a sequence"
  | .identity => "a formatted UUID string"

/-- The words for a value of another shape than expected. -/
def Json.shapeWords : Json → String
  | .null => "null"
  | .bool b => "boolean `" ++ (Json.bool b).plainText ++ "`"
  | .number (.integer i) => "integer `" ++ Decimal.intText i ++ "`"
  | .number (.double d) => "floating point `" ++ d.text ++ "`"
  | .string s => "string " ++ Text.quoteVisible s
  | .array _ => "sequence"
  | .object _ => "map"

/-- Why a JSON value is no condition. -/
inductive ShapeFault where
  /-- The field is missing. -/
  | missingField
  /-- A value has another shape than expected. -/
  | unexpected (found : Json) (expected : Shape)
  /-- An array has too few items for a condition. -/
  | tooShort (length : Nat)
  /-- An array has too many items for a condition. -/
  | tooLong (length : Nat)
  /-- The text of an identity is none. -/
  | identity (fault : RowIdFault)

/-- The message for a fault of shape. -/
def ShapeFault.message : ShapeFault → String
  | .missingField => "missing field `field`"
  | .unexpected found expected =>
    "invalid type: " ++ found.shapeWords ++ ", expected " ++ expected.words
  | .tooShort length =>
    "invalid length " ++ Decimal.natText length ++ ", expected " ++ Shape.condition.words ++
      " with 4 elements"
  | .tooLong length =>
    "invalid length " ++ Decimal.natText length ++ ", expected fewer elements in array"
  | .identity fault => "UUID parsing failed: " ++ fault.message

/-- Why rows that a client sent cannot be used. -/
inductive InputFault where
  /-- No field has the name. -/
  | unknownField (name : String)
  /-- A relation holds rows below the last level. -/
  | nestedTooDeeply (relation : String)
  /-- A row inside a relation is no condition. -/
  | subCondition (fault : ShapeFault)
  /-- The backend refused it, in its own words. -/
  | refused (words : String)

/-- The message for rows that cannot be used. -/
def InputFault.message : InputFault → String
  | .unknownField name => "unknown field '" ++ name ++ "'"
  | .nestedTooDeeply relation => "relation '" ++ relation ++ "' is nested too deeply"
  | .subCondition fault => "invalid sub-condition: " ++ fault.message
  | .refused words => words

/-- Why the service does not answer. -/
inductive ServiceFault where
  | notFound
  | unknownResource
  | invalid (fault : InputFault)
  | external (words : String)
  | internal

/-- The message for a fault of the service. -/
def ServiceFault.message : ServiceFault → String
  | .notFound => "Not found"
  | .unknownResource => "Unknown resource"
  | .invalid fault => "Invalid input: " ++ fault.message
  | .external words => "External service error: " ++ words
  | .internal => "Internal server error"

end QueryFilter
