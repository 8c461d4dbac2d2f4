import QueryFilter.Operator.Basic

/-!
# Checking a table of operators

A table assigns operators to the types of fields.  It is sound if every type has operators and,
within a type, no label and no operator occurs twice; `Table.check` answers the first fault
otherwise.  The table of this library is sound (`check_standard`).
-/

namespace QueryFilter

/-- What is wrong with a table of operators. -/
inductive TableFault where
  /-- A type is listed under another one. -/
  | misplaced (type : FieldType)
  | noOperators (type : FieldType)
  | duplicateLabel (type : FieldType) (label : String)
  | duplicateOperator (type : FieldType) (operator : Operator)
  deriving DecidableEq, Repr

/-- The message for a fault. -/
def TableFault.message : TableFault → String
  | .misplaced type => "Field type " ++ type.title ++ " is registered under the wrong key"
  | .noOperators type => "Field type " ++ type.title ++ " has no operators"
  | .duplicateLabel type label =>
    "Operator label '" ++ label ++ "' appears twice for " ++ type.title
  | .duplicateOperator type operator =>
    "Target operator '" ++ operator.word ++ "' appears twice for " ++ type.title

/-- The operators of one type. -/
structure TableEntry where
  /-- The type under which the entry is found. -/
  key : FieldType
  /-- The type that the entry says it is for. -/
  type : FieldType
  specs : List OperatorSpec

namespace TableEntry

/-- Checks operators that follow others of the same type. -/
def checkSpecs (type : FieldType) (before : List OperatorSpec) :
    List OperatorSpec → Except TableFault Unit
  | [] => .ok ()
  | spec :: specs =>
    if before.any fun other => other.label == spec.label then
      .error (.duplicateLabel type spec.label)
    else if before.any fun other => other.operator == spec.operator then
      .error (.duplicateOperator type spec.operator)
    else checkSpecs type (before ++ [spec]) specs

/-- Checks an entry. -/
def check (entry : TableEntry) : Except TableFault Unit :=
  if entry.type ≠ entry.key then .error (.misplaced entry.key)
  else if entry.specs.isEmpty then .error (.noOperators entry.key)
  else checkSpecs entry.key [] entry.specs

end TableEntry

/-- A table of operators. -/
abbrev Table := List TableEntry

namespace Table

/-- Checks a table entry by entry. -/
def check (table : Table) : Except TableFault Unit :=
  table.forM TableEntry.check

/-- The table of the operators that the types offer. -/
def standard : Table :=
  FieldType.all.map fun type => ⟨type, type, type.specs⟩

/-- The operators that the types offer are sound. -/
theorem check_standard : check standard = .ok () := by
  rfl

end Table

end QueryFilter
