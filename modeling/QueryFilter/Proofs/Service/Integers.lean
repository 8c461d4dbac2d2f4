import QueryFilter.Proofs.Filter.Integers
import QueryFilter.Proofs.Service.Faults
import QueryFilter.Proofs.Service.InScope

/-!
# Integers reach the backend

A client sends an integer on a number field, at any depth of relations and among other inputs
(`HoldsInteger`).  The backend is asked for this integer, and it is asked for it again by the rows
of the published query string, if and only if the integer has 64 bits with its sign
(`integerKept_iff`): longer digits are read as a double.
-/

namespace QueryFilter

open Catalog (Scope fields Known Reaches)
open Compile Restore

variable {root : Resource} {below : Nat} {scope : List (Field Scope)}

/-- An input without a flaw, which does not mean a field with a given target. -/
structure Elsewhere (root : Resource) (below : Nat) (scope : List (Field Scope)) (target : String)
    (input : ConditionInput) : Prop where
  sound : ¬ Flawed (fields root) below scope input
  elsewhere : ∀ field, meantField? (fields root) scope input.field = some field →
    field.target ≠ target

/-- Inputs hold an integer, which is to be written at a place: one of them does, and the others have
no flaw and write elsewhere.  The input that holds the integer is on a number field, with one of its
operators, or it is on a relation and its items are inputs that hold the integer. -/
inductive HoldsInteger (root : Resource) (i : Int) :
    Nat → List (Field Scope) → List ConditionInput → List String → Prop
  | number {below : Nat} {scope : List (Field Scope)} {before after : List ConditionInput}
      {input : ConditionInput} {field : Field Scope} {spec : OperatorSpec} {word : String}
      (hfield : meantField? (fields root) scope input.field = some field)
      (htype : field.type = .number) (hspec : spec ∈ field.specs)
      (hoperator : input.operator = spec.label)
      (hvalue : IntegerSent i spec.operator input.value word)
      (hothers : ∀ other ∈ before ++ after, Elsewhere root below scope field.target other) :
      HoldsInteger root i below scope (before ++ input :: after) [field.target, word]
  | inside {below : Nat} {scope : List (Field Scope)} {before after nested : List ConditionInput}
      {input : ConditionInput} {field : Field Scope} {spec : OperatorSpec} {items : List Json}
      {place : List String}
      (hfield : meantField? (fields root) scope input.field = some field)
      (hrelation : field.isRelation = true) (hspec : spec ∈ field.specs)
      (hoperator : input.operator = spec.label) (hvalue : input.value.items? = some items)
      (hitems : items.mapM ConditionInput.ofJson = .ok nested)
      (hinner : HoldsInteger root i below field.below nested place)
      (hothers : ∀ other ∈ before ++ after, Elsewhere root (below + 1) scope field.target other) :
      HoldsInteger root i (below + 1) scope (before ++ input :: after)
        (placeInside field spec.operator place)

/-- The rows that inputs mean are grounded. -/
theorem Meant.grounded {inputs : List ConditionInput} {rows : List (Condition Scope)}
    (h : Meant (fields root) below scope inputs rows) (hscope : ∀ field ∈ scope, Known root field) :
    Grounded root rows :=
  (Intake.rows_grounded below hscope inputs).run
    (h.accepts (Catalog.universe_known root) Catalog.known_fields hscope).run

/-- Among inputs that write elsewhere the row of an input is alone at its target. -/
theorem exists_rows_alone {before after : List ConditionInput} {input : ConditionInput}
    {field : Field Scope}
    (hothers : ∀ other ∈ before ++ after, Elsewhere root below scope field.target other)
    {row : Condition Scope} (hrow : Meant (fields root) below scope [input] [row])
    (hfield : row.field? = some field) :
    ∃ rows, Meant (fields root) below scope (before ++ input :: after) rows ∧
      rows.filter (Condition.isAt field.target) = [row] := by
  have hall : ∀ inputs : List ConditionInput, (∀ other ∈ inputs, other ∈ before ++ after) →
      ∃ rows, Meant (fields root) below scope inputs rows ∧
        rows.filter (Condition.isAt field.target) = [] := by
    intro inputs hsub
    obtain ⟨rows, hrows⟩ :=
      exists_meant fun other hother => (hothers other (hsub other hother)).sound
    refine ⟨rows, hrows, List.filter_eq_nil_iff.2 fun other hmem => ?_⟩
    obtain ⟨origin, horigin, own, hown, hmeant⟩ := hrows.exists_field hmem
    have hne := (hothers origin (hsub origin horigin)).elsewhere own hmeant
    simp [Condition.isAt, hown, hne]
  obtain ⟨first, hfirst, hskip⟩ := hall before fun _ => List.mem_append_left _
  obtain ⟨last, hlast, hskip'⟩ := hall after fun _ => List.mem_append_right _
  have hat : row.isAt field.target = true := by simp [Condition.isAt, hfield]
  refine ⟨first ++ row :: last, hfirst.append (hrow.cons hlast), ?_⟩
  rw [List.filter_append, hskip, List.filter_cons_of_pos hat, hskip', List.nil_append]

/-- Inputs that hold an integer mean rows with the integer. -/
theorem HoldsInteger.exists_rows {i : Int} {inputs : List ConditionInput} {place : List String}
    (h : HoldsInteger root i below scope inputs place)
    (hscope : ∀ field ∈ scope, Known root field) :
    ∃ rows, Meant (fields root) below scope inputs rows ∧ IntegerIn root i place rows := by
  have hu := Catalog.universe_known root
  induction h with
  | @number below scope before after input field spec word hfield htype hspec hoperator hvalue
      hothers =>
    have hknown := known_of_meant hu Catalog.known_fields hscope hfield
    have hplain : field.isRelation = true → input.value.items? = none := by
      intro hrelation
      rw [type_eq_relation hrelation] at htype
      exact absurd htype (by decide)
    obtain ⟨rows, hrows, halone⟩ := exists_rows_alone hothers (.plain hfield hplain .nil) rfl
    rw [hoperator] at halone
    exact ⟨rows, hrows,
      integerIn_number (hrows.grounded hscope) hknown htype hspec hvalue input.id halone⟩
  | @inside below scope before after nested input field spec items place hfield hrelation hspec
      hoperator hvalue hitems _ hothers ih =>
    have hknown := known_of_meant hu Catalog.known_fields hscope hfield
    obtain ⟨inner, hinner, hin⟩ := ih (hu.below hknown)
    obtain ⟨rows, hrows, halone⟩ := exists_rows_alone hothers
      (.nested hfield hrelation hvalue hitems hinner .nil) rfl
    rw [hoperator] at halone
    exact ⟨rows, hrows,
      integerIn_relation (hrows.grounded hscope) hknown hrelation hspec hin input.id halone⟩

namespace Service

/-- An integer reaches the backend unchanged: inputs are compiled to a filter that has the integer
at a place, and so has the filter that the rows of the published query string are compiled to. -/
def IntegerKept (resource : Resource) (inputs : List ConditionInput) (place : List String)
    (i : Int) : Prop :=
  ∃ filter q, compileInputs resource inputs = .ok ⟨some filter, q⟩ ∧
    Json.at? place (.object filter) = some (.ofInt i) ∧
    ∃ again, compile (restoreQuery resource (some q)) = some again ∧
      Json.at? place (.object again) = some (.ofInt i)

/-- An integer that is kept stands in the compiled filter. -/
theorem IntegerKept.at? {resource : Resource} {inputs : List ConditionInput} {place : List String}
    {i : Int} {filter : Object} {q : String} (h : IntegerKept resource inputs place i)
    (hcompiled : compileInputs resource inputs = .ok ⟨some filter, q⟩) :
    Json.at? place (.object filter) = some (.ofInt i) := by
  obtain ⟨kept, _, hok, hplace, -⟩ := h
  obtain ⟨hfilter, -⟩ := CompiledFilter.mk.inj (Except.ok.inj (hcompiled.symm.trans hok))
  exact Option.some.inj hfilter ▸ hplace

/-- Integers: an integer that a client sends on a number field, anywhere among inputs without flaws,
reaches the backend unchanged if and only if it has 64 bits with its sign. -/
theorem integerKept_iff {resource : Resource} {inputs : List ConditionInput} {place : List String}
    {i : Int} (h : HoldsInteger resource i (relationDepth - 1) (fields resource) inputs place) :
    IntegerKept resource inputs place i ↔ -2 ^ 63 ≤ i ∧ i < 2 ^ 63 := by
  obtain ⟨rows, hrows, hin⟩ := h.exists_rows Catalog.known_fields
  have hcompiled := compileInputs_of_meant hrows
  have hsome : ∀ {rows : List (Condition Scope)}, compileRows rows ≠ [] →
      compile rows = some (compileRows rows) := by
    intro rows hne
    refine compile_of_ne_nil ?_
    rintro rfl
    exact hne compileRows_nil
  rw [hsome hin.compileRows_ne_nil] at hcompiled
  rw [← Operand.numberJson_intText_iff]
  constructor
  · intro hkept
    exact Option.some.inj (hin.first.symm.trans (hkept.at? hcompiled))
  · intro hinteger
    have hagain := hin.again hinteger _ .start
    refine ⟨_, _, hcompiled, hinteger ▸ hin.first, _, ?_, hagain⟩
    rw [restoreQuery_eq, Option.map_some, Option.getD_some]
    exact hsome (ne_nil_of_at? hagain rfl)

/-! ### Examples -/

/-- A range of salaries of the staff of a company with a name. -/
def salaryInputs (lower upper : String) : List ConditionInput :=
  [⟨none, "name", "contém", .string "acme"⟩,
    ⟨none, "staff", "algum", .array [.object [("field", .string "salary"),
      ("operator", .string "entre"), ("value", .string (lower ++ "," ++ upper))]]⟩]

/-- The relation from companies to their staff. -/
def staffField : Field Scope :=
  .related .toMany "staff" "Funcionários" ⟨.staff, "staff__"⟩

/-- The salary of the staff of a company. -/
def salaryField : Field Scope :=
  .scalar .number "staff__salary" "Salário"

/-- The upper end of the range of salaries is an integer that is written below the staff of a
company. -/
theorem holdsInteger_salary {i : Int} {lower upper : String} (hcomma : ',' ∉ lower.toList)
    (hupper : Text.trim upper = Decimal.intText i) :
    HoldsInteger .companies i (relationDepth - 1) (fields .companies) (salaryInputs lower upper)
      ["staff", "some", "salary", "lte"] := by
  have hbetween : (⟨"entre", .between, "↔"⟩ : OperatorSpec) ∈ salaryField.specs := by decide
  have hsome : (⟨"algum", .someRelated, "∃"⟩ : OperatorSpec) ∈ staffField.specs := by decide
  have hsalary : meantField? (fields .companies) staffField.below "salary" = some salaryField := rfl
  have hstaff : meantField? (fields .companies) (fields .companies) "staff" = some staffField := rfl
  have hinner : HoldsInteger .companies i 1 staffField.below
      ([] ++ (⟨none, "salary", "entre", .string (lower ++ "," ++ upper)⟩ : ConditionInput) :: [])
        [salaryField.target, Operator.lte.word] :=
    .number hsalary rfl hbetween rfl (.upper hcomma hupper) fun _ h => absurd h List.not_mem_nil
  have hname : Meant (fields .companies) (relationDepth - 1) (fields .companies)
      [⟨none, "name", "contém", .string "acme"⟩]
      [.row none (.scalar .text "name" "Nome") "contém" (.text "acme")] :=
    .plain rfl (fun _ => rfl) .nil
  have hothers : ∀ other ∈ [(⟨none, "name", "contém", .string "acme"⟩ : ConditionInput)] ++ [],
      Elsewhere .companies (relationDepth - 1) (fields .companies) staffField.target other := by
    intro other hother
    obtain rfl := List.mem_singleton.1 hother
    refine ⟨hname.not_flawed _ List.mem_cons_self, fun field hfield => ?_⟩
    rw [← Option.some.inj hfield]
    decide
  exact .inside hstaff rfl hsome rfl rfl rfl hinner hothers

/-- The greatest integer of 64 bits with a sign is kept as the upper end of a range inside a
relation. -/
theorem salaryEnd_kept :
    HoldsInteger .companies 9223372036854775807 (relationDepth - 1) (fields .companies)
      (salaryInputs "-1" " 9223372036854775807") ["staff", "some", "salary", "lte"] ∧
    IntegerKept .companies (salaryInputs "-1" " 9223372036854775807")
      ["staff", "some", "salary", "lte"] 9223372036854775807 := by
  have hholds : HoldsInteger .companies 9223372036854775807 (relationDepth - 1)
      (fields .companies) (salaryInputs "-1" " 9223372036854775807")
        ["staff", "some", "salary", "lte"] :=
    holdsInteger_salary (by decide) (by decide +kernel)
  exact ⟨hholds, (integerKept_iff hholds).2 (by decide)⟩

/-- A row on the age of staff. -/
def ageInputs (i : Int) : List ConditionInput :=
  [⟨none, "age", "igual a", .ofInt i⟩]

/-- The double next to the greatest integer of 64 bits without a sign: the power of two after it. -/
def nextDouble : Decimal.Double :=
  ⟨false, 4503599627370496, 12, by decide, by decide, by decide, .inl (by decide)⟩

/-- The age of staff. -/
def ageField : Field Scope :=
  .scalar .number "age" "Idade"

/-- The age can be compared by equality. -/
theorem equals_mem_specs : (⟨"igual a", .equals, "="⟩ : OperatorSpec) ∈ ageField.specs := by
  decide

/-- The row on the age is compiled to the operand of the integer. -/
theorem compileInputs_age (i : Int) : compileInputs .staff (ageInputs i) =
    .ok ⟨some [("age", .object [("equals", Operand.numberJson (Decimal.intText i))])],
      Query.serialize .standard ""
        (.object [("age", .object [("equals", Operand.numberJson (Decimal.intText i))])])⟩ := by
  have hrun : Intake.run (fields .staff) (rowsOfInputs (fields .staff) (ageInputs i)) =
      .ok [.row none ageField "igual a" (.ofJson (.ofInt i))] := rfl
  have hwrites : fragment? (.row none ageField "igual a" (.ofJson (.ofInt i))) =
      some ("age", single .equals (Operand.numberJson (Decimal.intText i))) := by
    have hfragment := fragment?_offered none equals_mem_specs (.ofJson (.ofInt i) : Value Scope)
    rw [fragmentWith?_scalar rfl, scalarFragment?_eq (by decide)] at hfragment
    exact hfragment
  have hfilter : compileRows [(.row none ageField "igual a" (.ofJson (.ofInt i)) :
      Condition Scope)] =
        [("age", .object [("equals", Operand.numberJson (Decimal.intText i))])] := by
    rw [compileRows_eq, List.filterMap_cons_some hwrites, List.filterMap_nil]
    rfl
  rw [compileInputs_eq hrun, compile_of_ne_nil (List.cons_ne_nil _ _), hfilter, Option.map_some,
    Option.getD_some]

/-- The greatest integer of 64 bits without a sign is read as the double next to it. -/
theorem numberJson_greatest :
    Operand.numberJson (Decimal.intText 18446744073709551615) = .number (.double nextDouble) := by
  have hread : Operand.number? (Decimal.intText 18446744073709551615) =
      some (.double nextDouble) := by decide +kernel
  rw [Operand.numberJson, hread]
  rfl

/-- The greatest integer of 64 bits without a sign is sent as the age of staff, but the backend is
asked for the next power of two, and so is it after a query string. -/
theorem greatestAge_not_kept :
    HoldsInteger .staff 18446744073709551615 (relationDepth - 1) (fields .staff)
      (ageInputs 18446744073709551615) ["age", "equals"] ∧
    compileInputs .staff (ageInputs 18446744073709551615) =
      .ok ⟨some [("age", .object [("equals", .number (.double nextDouble))])],
        "age[equals]=1.8446744073709552e%2B19"⟩ ∧
    ¬ IntegerKept .staff (ageInputs 18446744073709551615) ["age", "equals"]
      18446744073709551615 := by
  have hfield : meantField? (fields .staff) (fields .staff) "age" = some ageField := rfl
  have hholds : HoldsInteger .staff 18446744073709551615 (relationDepth - 1) (fields .staff)
      ([] ++ (⟨none, "age", "igual a", .ofInt 18446744073709551615⟩ : ConditionInput) :: [])
      ["age", Operator.equals.word] :=
    .number hfield rfl equals_mem_specs rfl (.alone (by decide)) fun _ h =>
      absurd h List.not_mem_nil
  have hquery : Query.serialize .standard ""
      (.object [("age", .object [("equals", .number (.double nextDouble))])]) =
        "age[equals]=1.8446744073709552e%2B19" := by decide +kernel
  have hcompiled := compileInputs_age 18446744073709551615
  rw [numberJson_greatest, hquery] at hcompiled
  exact ⟨hholds, hcompiled, fun hkept =>
    absurd (hkept.at? hcompiled) (by simp [Json.at?, Json.entries, Json.ofInt])⟩

end Service

end QueryFilter
