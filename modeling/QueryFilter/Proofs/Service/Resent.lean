import QueryFilter.Proofs.Service.Faults

/-!
# Rows that are sent as data

A client keeps rows as data and sends them as they are.  The data of a row does not say of which
kind its value is: rows, texts and a filter become arrays and objects, and the reader has to tell
them apart by the field that it finds for the name.  `Sendable` says for which rows it can, and down
to which level.

Such rows come back without their identities, and with nothing else changed (`Sendable.meant`).
Identities do not matter for the filter (`compile_unnamedRows`), so that the service compiles what
was sent to the filter of the rows themselves (`compileInputs_toJson`).
-/

namespace QueryFilter

open Catalog (Scope fields fieldsOf Reaches)
open Compile

/-! ### Rows without identities -/

section Identities

variable {σ : Type}

mutual

/-- A row without its identity and without those of the rows inside it. -/
def Condition.unnamed : Condition σ → Condition σ
  | ⟨_, subject, operator, value, parent⟩ => ⟨none, subject, operator, value.unnamed, parent⟩

/-- A value without the identities of the rows inside it. -/
def Value.unnamed : Value σ → Value σ
  | .conditions rows => .conditions (unnamedRows rows)
  | other => other

/-- Rows without identities, at every level. -/
def unnamedRows : List (Condition σ) → List (Condition σ)
  | [] => []
  | row :: rows => row.unnamed :: unnamedRows rows

end

/-- A value without rows has no identities to lose. -/
theorem Value.unnamed_eq {value : Value σ} (h : ∀ rows, value ≠ .conditions rows) :
    value.unnamed = value := by
  cases value with
  | conditions rows => exact absurd rfl (h rows)
  | _ => rfl

/-- Losing their identities, rows stay as many as they are. -/
theorem unnamedRows_isEmpty (rows : List (Condition σ)) :
    (unnamedRows rows).isEmpty = rows.isEmpty := by
  cases rows <;> rfl

mutual

/-- A row is the same data without identities. -/
theorem Condition.toJson_unnamed : ∀ row : Condition σ, row.unnamed.toJson = row.toJson
  | ⟨_, _, _, value, _⟩ => by
    rw [Condition.unnamed, Condition.toJson, Condition.toJson, Value.toJson_unnamed value]

/-- A value is the same data without identities. -/
theorem Value.toJson_unnamed : ∀ value : Value σ, value.unnamed.toJson = value.toJson
  | .conditions rows => congrArg Json.array (rowsToJson_unnamed rows)
  | .text _ => rfl
  | .list _ => rfl
  | .bool _ => rfl
  | .filter _ => rfl

/-- Rows are the same data without identities. -/
theorem rowsToJson_unnamed : ∀ rows : List (Condition σ),
    rowsToJson (unnamedRows rows) = rowsToJson rows
  | [] => rfl
  | row :: rows => by
    rw [unnamedRows, rowsToJson, rowsToJson, row.toJson_unnamed, rowsToJson_unnamed rows]

end

/-- A scalar field takes rows as the data that they are. -/
theorem scalarFragment?_unnamed (type : FieldType) (operator : Operator)
    (rows : List (Condition σ)) :
    scalarFragment? type operator (.conditions (unnamedRows rows) : Value σ) =
      scalarFragment? type operator (.conditions rows) := by
  have hjson := Value.toJson_unnamed (.conditions rows : Value σ)
  have hempty : (Value.conditions (unnamedRows rows) : Value σ).isEmpty =
      (Value.conditions rows).isEmpty := unnamedRows_isEmpty rows
  have hrange : rangeFragment? type (.conditions (unnamedRows rows) : Value σ) =
      rangeFragment? type (.conditions rows) := rfl
  rw [Value.unnamed] at hjson
  cases type <;>
    simp only [scalarFragment?, numberOperand, dateOperand, listOperand, boolOperand, hrange,
      hjson, hempty]

variable [Schema σ]

mutual

/-- A row writes the same without identities. -/
theorem fragment?_unnamed : ∀ row : Condition σ, fragment? row.unnamed = fragment? row
  | ⟨id, subject, operator, value, parent⟩ => by
    have hcounted : counted? (Condition.unnamed ⟨id, subject, operator, value, parent⟩) =
        counted? ⟨id, subject, operator, value, parent⟩ := rfl
    rw [fragment?, fragment?, hcounted]
    refine congrArg (Option.bind _) (funext fun pair => congrArg (Option.map _) ?_)
    exact fragmentWith?_unnamed value pair.1 pair.2

/-- A field writes the same for a value without identities. -/
theorem fragmentWith?_unnamed : ∀ (value : Value σ) (field : Field σ) (operator : Operator),
    fragmentWith? field operator value.unnamed compileRows =
      fragmentWith? field operator value compileRows
  | .conditions rows, field, operator => by
    rw [Value.unnamed]
    cases hrelation : field.isRelation with
    | false =>
      rw [fragmentWith?_scalar hrelation, fragmentWith?_scalar hrelation, scalarFragment?_unnamed]
    | true =>
      rw [fragmentWith?_conditions hrelation, fragmentWith?_conditions hrelation, compileRows_eq,
        compileRows_eq, filterMap_unnamedRows rows]
  | .text _, _, _ => rfl
  | .list _, _, _ => rfl
  | .bool _, _, _ => rfl
  | .filter _, _, _ => rfl

/-- Rows write the same without identities, one after the other. -/
theorem filterMap_unnamedRows : ∀ rows : List (Condition σ),
    (unnamedRows rows).filterMap fragment? = rows.filterMap fragment?
  | [] => rfl
  | row :: rows => by
    rw [unnamedRows, List.filterMap_cons, List.filterMap_cons, fragment?_unnamed row,
      filterMap_unnamedRows rows]

end

/-- Identities do not matter for the filter of rows. -/
theorem compile_unnamedRows (rows : List (Condition σ)) :
    compile (unnamedRows rows) = compile rows := by
  rw [compile, compile, unnamedRows_isEmpty, compileRows_eq, compileRows_eq,
    filterMap_unnamedRows]

end Identities

/-! ### Rows as a client reads them -/

section Data

variable {σ : Type}

/-- What the data of a row is read as: the row as a client sends it, without its identity. -/
def Condition.sent (row : Condition σ) : ConditionInput :=
  { row.toInput with id := none }

/-- The JSON of a row is read as an input with what the row sends. -/
theorem ConditionInput.ofJson_condition (row : Condition σ) : ofJson row.toJson = .ok row.sent := by
  have hdata : row.toJson = row.sent.toJson := by
    cases row
    rfl
  rw [hdata, ofJson_toJson rfl]

/-- The data of rows is read as a list. -/
theorem ConditionInput.mapM_ofJson (rows : List (Condition σ)) :
    (rows.map Condition.toJson).mapM ofJson = .ok (rows.map Condition.sent) := by
  induction rows with
  | nil => rfl
  | cons row rows ih =>
    rw [List.map_cons, List.map_cons, List.mapM_cons, ofJson_condition, ih]
    rfl

end Data

/-! ### Rows that can be sent -/

/-- Rows that can be sent over the fields of a scope, with so many levels of relations below.  The
rows have no parent, and their operators may be anything.  A relation takes no list of texts, and
takes rows of its own fields only if there is a level below. -/
inductive Sendable : Nat → Scope → List (Condition Scope) → Prop
  | nil {below : Nat} {scope : Scope} : Sendable below scope []
  | plain {below : Nat} {scope : Scope} (id : Option RowId) {field : Field Scope}
      (operator : String) {value : Value Scope} {rows : List (Condition Scope)}
      (hfield : field ∈ fieldsOf scope) (hrows : ∀ inner, value ≠ .conditions inner)
      (hlist : field.isRelation = true → ∀ texts, value ≠ .list texts)
      (hrest : Sendable below scope rows) :
      Sendable below scope (.row id field operator value :: rows)
  | nested {below : Nat} {scope : Scope} (id : Option RowId) {field : Field Scope}
      {relation : Relation Scope} (operator : String) {inner rows : List (Condition Scope)}
      (hfield : field ∈ fieldsOf scope) (hrelation : field.relation = some relation)
      (hinner : Sendable below relation.scope inner) (hrest : Sendable (below + 1) scope rows) :
      Sendable (below + 1) scope (.row id field operator (.conditions inner) :: rows)

section Sent

variable {root : Resource} {below : Nat} {scope : Scope}

/-- A field of a scope is meant there by its name. -/
theorem meantField?_name (hscope : Reaches root scope) {field : Field Scope}
    (hfield : field ∈ fieldsOf scope) :
    meantField? (fields root) (fieldsOf scope) field.name = some field := by
  rw [meantField?, Service.find?_called hscope hfield (.inl rfl), Option.some_or]

/-- Only lists and rows are arrays as data. -/
theorem items?_toJson {value : Value Scope} (hrows : ∀ inner, value ≠ .conditions inner)
    (hlist : ∀ texts, value ≠ .list texts) : value.toJson.items? = none := by
  cases value with
  | list texts => exact absurd rfl (hlist texts)
  | conditions inner => exact absurd rfl (hrows inner)
  | _ => rfl

/-- Rows that can be sent come back without their identities. -/
theorem Sendable.meant {rows : List (Condition Scope)} (h : Sendable below scope rows)
    (hscope : Reaches root scope) :
    Meant (fields root) below (fieldsOf scope) (rows.map Condition.sent) (unnamedRows rows) := by
  induction h with
  | nil => exact .nil
  | @plain below scope id field operator value rows hfield hrows hlist _ ih =>
    have hback : (Condition.row id field operator value).unnamed =
        .row none field operator (.ofJson value.toJson) := by
      rw [Value.ofJson_toJson hrows, Condition.row, Condition.unnamed, Value.unnamed_eq hrows]
      rfl
    rw [List.map_cons, unnamedRows, hback]
    exact .plain (meantField?_name hscope hfield)
      (fun hrelation => items?_toJson hrows (hlist hrelation)) (ih hscope)
  | @nested below scope id field relation operator inner rows hfield hrelation _ _ ihinner ihrest =>
    have htype := Catalog.isRelation_of_relation hscope.proper hfield hrelation
    -- the rows inside are found by name among the fields below the relation
    have hinner := ihinner (hscope.step hfield hrelation)
    rw [← Catalog.below_of_relation hrelation] at hinner
    have hitems : (Condition.row id field operator (.conditions inner)).sent.value.items? =
        some (inner.map Condition.toJson) := congrArg some (rowsToJson_eq_map inner)
    exact .nested (meantField?_name hscope hfield) htype hitems
      (ConditionInput.mapM_ofJson inner) hinner (ihrest hscope)

end Sent

namespace Service

/-- Rows that are sent as data: they are read, they come back without their identities, and they are
compiled to the filter of the rows themselves. -/
theorem compileInputs_toJson (resource : Resource) {rows : List (Condition Scope)}
    (h : Sendable (relationDepth - 1) (.root resource) rows) :
    ∃ inputs compiled,
      ConditionInput.listOfJson (.array (rows.map Condition.toJson)) = .ok inputs ∧
      Intake.run (fields resource) (rowsOfInputs (fields resource) inputs) =
        .ok (unnamedRows rows) ∧
      compileInputs resource inputs = .ok compiled ∧ compiled.filter = compile rows := by
  have hmeant := h.meant (.start : Reaches resource _)
  have hrun := (hmeant.accepts (Catalog.universe_known resource) Catalog.known_fields
    Catalog.known_fields).run
  exact ⟨_, _, ConditionInput.mapM_ofJson rows, hrun, compileInputs_of_meant hmeant,
    compile_unnamedRows rows⟩

/-! ### An example -/

/-- Rows with identities: a list of choices, and a relation of two levels with a draft beside the
inner relation and a restored filter inside it. -/
def namedRows : List (Condition Scope) :=
  [.row (some ⟨1⟩) (.choice .multiSelect "skills" "Habilidades" Catalog.skills) "em"
      (.list ["backend", "sales"]),
    .row (some ⟨2⟩) Catalog.companyField "possui" (.conditions
      [.row (some ⟨3⟩) (.scalar .text "company__name" "Nome") "" (.text "acme"),
        .row (some ⟨4⟩) Catalog.colleaguesField "algum" (.conditions
          [.row (some ⟨5⟩) (.related .toOne "company__staff__company" "Empresa"
            ⟨.companies, "company__staff__company__"⟩) "possui"
              (.filter [("name", .object [("contains", .string "acme")])])])])]

/-- The named rows are sent as JSON and compiled as they are. -/
theorem namedRows_sent :
    Sendable (relationDepth - 1) (.root .staff) namedRows ∧
      ∃ inputs compiled,
        ConditionInput.listOfJson (.array (namedRows.map Condition.toJson)) = .ok inputs ∧
        Intake.run (fields .staff) (rowsOfInputs (fields .staff) inputs) =
          .ok (unnamedRows namedRows) ∧
        compileInputs .staff inputs = .ok compiled ∧ compiled.filter = compile namedRows := by
  have hinside : Sendable 0 ⟨.staff, "company__staff__"⟩
      [.row (some ⟨5⟩) (.related .toOne "company__staff__company" "Empresa"
        ⟨.companies, "company__staff__company__"⟩) "possui"
          (.filter [("name", .object [("contains", .string "acme")])])] :=
    .plain _ _ (by simp [fieldsOf, Scope.below]) (by simp) (by simp) .nil
  have hrows : Sendable (relationDepth - 1) (.root .staff) namedRows := by
    refine .plain _ _ (by simp [fieldsOf, Scope.root]) (by simp) (fun h => absurd h (by decide)) ?_
    refine .nested _ _ Catalog.companyField_mem rfl ?_ .nil
    refine .plain _ _ (by simp [fieldsOf]) (by simp) (by simp) ?_
    exact .nested _ _ Catalog.colleaguesField_mem rfl hinside .nil
  exact ⟨hrows, compileInputs_toJson .staff hrows⟩

end Service

end QueryFilter
