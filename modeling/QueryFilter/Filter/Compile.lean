import QueryFilter.Filter.Restore

/-!
# Compiling rows into a filter

Every row that counts writes a fragment, a small object of operators, at the target of its field.
Fragments at one target are merged in order: a later one replaces the operators that it shares with
earlier ones.

The filter inside a restored relation row is read back against the fields of the relation and
compiled anew, so that the texts of a query string get their types.  `compileRows_eq` states the
recursion without its measure.
-/

namespace QueryFilter

variable {σ : Type}

namespace Compile

/-! ### Operands -/

/-- The operand of a number field. -/
def numberOperand (value : Value σ) : Json :=
  match value with
  | .text raw => (Operand.number? raw).elim (.string raw) .number
  | .list texts => .array (texts.map fun text => (Operand.number? text).elim (.string text) .number)
  | other => other.toJson

/-- The operand of a date field. -/
def dateOperand (value : Value σ) : Json :=
  match value with
  | .text raw => .string ((Operand.instantText? raw).getD raw)
  | other => other.toJson

/-- The operand of a field with several choices: a list, also of a single choice. -/
def listOperand (value : Value σ) : Json :=
  match value with
  | .text _ | .bool _ => .array [value.toJson]
  | other => other.toJson

/-- The operand of a truth value. -/
def boolOperand (value : Value σ) : Json :=
  match value with
  | .text raw => (Operand.bool? raw).elim (.string raw) .bool
  | other => other.toJson

/-! ### Ranges -/

/-- The two ends of a range as texts: around the first comma of a text, the first two items of a
list, or the bounds of a filter. -/
def rangeEnds (value : Value σ) : Option String × Option String :=
  match value with
  | .text raw =>
    match Text.cut? ',' raw with
    | some (lower, upper) => (some lower, some upper)
    | none => (some raw, none)
  | .list texts => (texts[0]?, texts[1]?)
  | .filter bounds =>
    ((Entries.get? bounds Operator.gte.word).map Json.plainText,
      (Entries.get? bounds Operator.lte.word).map Json.plainText)
  | .bool _ | .conditions _ => (none, none)

/-- A bound of a range, unless its text is blank. -/
def bound? (type : FieldType) (side : Option String) : Option Json :=
  side.bind fun raw =>
    let text := Text.trim raw
    if text = "" then none
    else match type with
      | .date => some (.string ((Operand.instantText? text).getD text))
      | _ => some ((Operand.number? text).elim (.string text) .number)

/-- The fragment of a range: a lower bound, an upper bound, or both. -/
def rangeFragment? (type : FieldType) (value : Value σ) : Option Object :=
  let ends := rangeEnds value
  let lower := (bound? type ends.1).map fun operand => (Operator.gte.word, operand)
  let upper := (bound? type ends.2).map fun operand => (Operator.lte.word, operand)
  let fragment := lower.toList ++ upper.toList
  if fragment.isEmpty then none else some fragment

/-! ### Fragments -/

/-- The fragment of one operator. -/
def single (operator : Operator) (operand : Json) : Object :=
  [(operator.word, operand)]

/-- The fragment of a scalar field.  Texts are compared without regard to case. -/
def scalarFragment? (type : FieldType) (operator : Operator) (value : Value σ) : Option Object :=
  match type with
  | .number =>
    if operator = .between then rangeFragment? type value
    else some (single operator (numberOperand value))
  | .date =>
    if operator = .between then rangeFragment? type value
    else if value.isEmpty then none
    else some (single operator (dateOperand value))
  | .text => some (single operator value.toJson ++ [(modeKey, .string insensitive)])
  | .select | .relation => some (single operator value.toJson)
  | .multiSelect => some (single operator (listOperand value))
  | .boolean => some (single operator (boolOperand value))

/-- The fragment of a filter inside a relation.  A relation to one item has the filter itself,
unless it is empty. -/
def relationFragment? (field : Field σ) (operator : Operator) (inner : Object) : Option Object :=
  match field.kind? with
  | some .toMany => some (single operator (.object inner))
  | some .toOne | none => if inner.isEmpty then none else some inner

/-- What stands inside a relation row. -/
inductive Content (σ : Type) where
  /-- Rows, still to be compiled. -/
  | rows (rows : List (Condition σ))
  /-- A filter, taken as it is. -/
  | filter (filter : Object)

/-- What stands inside a row on a relation, given how filters are read; a row with another value is
treated as a scalar one.  A kept filter is read against the fields below, unless the field has
none. -/
def contentBy [Schema σ] (read : FilterReader σ) (field : Field σ) (value : Value σ) :
    Option (Content σ) :=
  if field.isRelation then
    match value with
    | .conditions rows => some (.rows rows)
    | .filter filter =>
      match field.relation with
      | none => some (.filter filter)
      | some relation => some (.rows (read (Schema.fields relation.scope) filter))
    | _ => none
  else none

/-- What stands inside a row on a relation, where kept filters are restored. -/
def content? [Schema σ] (field : Field σ) (value : Value σ) : Option (Content σ) :=
  contentBy restore field value

/-- Rows inside a row are held by it, or they are read from the filter that it keeps. -/
theorem cases_of_contentBy [Schema σ] {read : FilterReader σ} {field : Field σ} {value : Value σ}
    {rows : List (Condition σ)} (h : contentBy read field value = some (.rows rows)) :
    value = .conditions rows ∨ ∃ fields filter, value = .filter filter ∧
      rows = read fields filter := by
  unfold contentBy at h
  split at h
  · split at h
    · exact .inl (congrArg Value.conditions (Content.rows.inj (Option.some.inj h)))
    · split at h
      · exact absurd h (by simp)
      · exact .inr ⟨_, _, rfl, (Content.rows.inj (Option.some.inj h)).symm⟩
    · exact absurd h (by simp)
  · exact absurd h (by simp)

/-- Rows inside a row weigh less than its value. -/
theorem rowsWeight_lt_of_content? [Schema σ] {field : Field σ} {value : Value σ}
    {rows : List (Condition σ)} (h : content? field value = some (.rows rows)) :
    rowsWeight rows < value.weight := by
  rcases cases_of_contentBy h with rfl | ⟨fields, filter, rfl, rfl⟩
  · rw [Value.weight]
    exact Nat.lt_add_of_pos_left Nat.one_pos
  · exact shrinks_restore.rowsWeight_lt fields filter

/-- The field and the operator of a row that counts.  Drafts, rows without a known field, rows from
inside a relation and operators that the type does not offer do not count. -/
def counted? (row : Condition σ) : Option (Field σ × Operator) :=
  if row.isDraft || row.parent.isSome then none
  else row.field?.bind fun field =>
    (field.type.operator? row.operator).map fun operator => (field, operator)

/-- The fragment of a row, given how rows inside it are compiled. -/
def fragmentWith? [Schema σ] (field : Field σ) (operator : Operator) (value : Value σ)
    (compile : List (Condition σ) → Object) : Option Object :=
  match content? field value with
  | some (.rows rows) => relationFragment? field operator (compile rows)
  | some (.filter filter) => relationFragment? field operator filter
  | none => scalarFragment? field.type operator value

/-! ### Merging -/

/-- Adds a fragment to the operators at a target. -/
def addFragment (groups : Entries Object) (fragment : String × Object) : Entries Object :=
  Entries.alter groups fragment.1 fun operators =>
    Entries.extend (operators.getD []) fragment.2

/-- Fragments merged by their targets. -/
def merge (fragments : List (String × Object)) : Entries Object :=
  fragments.foldl addFragment []

/-- Operators at targets as a filter. -/
def toFilter (groups : Entries Object) : Object :=
  groups.map fun group => (group.1, .object group.2)

/-- The filter of rows. -/
def compileRows [Schema σ] (rows : List (Condition σ)) : Object :=
  toFilter (merge (rows.attach.filterMap fun row =>
    match counted? row.1 with
    | none => none
    | some (field, operator) =>
      (match h : content? field row.1.value with
        | some (.rows inner) =>
          have : rowsWeight inner < rowsWeight rows :=
            Nat.lt_of_lt_of_le (rowsWeight_lt_of_content? h)
              (Condition.weight_eq row.1 ▸ weight_le_rowsWeight row.2)
          relationFragment? field operator (compileRows inner)
        | some (.filter filter) => relationFragment? field operator filter
        | none => scalarFragment? field.type operator row.1.value).map
          fun fragment => (field.target, fragment)))
termination_by rowsWeight rows

/-- The target and the fragment that a row writes. -/
def fragment? [Schema σ] (row : Condition σ) : Option (String × Object) :=
  (counted? row).bind fun (field, operator) =>
    (fragmentWith? field operator row.value compileRows).map fun fragment =>
      (field.target, fragment)

/-- The filter of rows merges what the rows write. -/
theorem compileRows_eq [Schema σ] (rows : List (Condition σ)) :
    compileRows rows = toFilter (merge (rows.filterMap fragment?)) := by
  have hattach : rows.filterMap fragment? = rows.attach.filterMap fun row => fragment? row.1 := by
    conv => lhs; rw [← List.attach_map_subtype_val rows]
    rw [List.filterMap_map]
    rfl
  rw [compileRows, hattach]
  congr 2
  apply congrArg (List.filterMap · rows.attach)
  funext row
  unfold fragment? fragmentWith?
  cases counted? row.1 with
  | none => rfl
  | some pair =>
    simp only [Option.bind_some]
    split <;> rename_i h <;> simp [h]

end Compile

/-- The filter of rows; there is none for no rows at all. -/
def compile [Schema σ] (rows : List (Condition σ)) : Option Object :=
  if rows.isEmpty then none else some (Compile.compileRows rows)

end QueryFilter
