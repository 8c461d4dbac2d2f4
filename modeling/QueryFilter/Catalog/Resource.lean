import QueryFilter.Json.Basic

/-!
# Resources

The resources of the administration, each with its name in paths and its label.
-/

namespace QueryFilter

/-- A resource that the backend owns. -/
inductive Resource where
  | companies
  | staff
  | users
  | roles
  deriving DecidableEq, Repr

namespace Resource

/-- Every resource, in the order in which they are listed. -/
def all : List Resource :=
  [.companies, .staff, .users, .roles]

/-- The name of a resource in paths and in data. -/
def name : Resource → String
  | .companies => "companies"
  | .staff => "staff"
  | .users => "users"
  | .roles => "roles"

/-- The label of a resource. -/
def label : Resource → String
  | .companies => "Empresas"
  | .staff => "Funcionários"
  | .users => "Usuários"
  | .roles => "Perfis"

/-- The resource of a given name. -/
def ofName? (name : String) : Option Resource :=
  all.find? fun resource => resource.name == name

/-- Name and label of a resource, as data. -/
def summary (resource : Resource) : Json :=
  .object [("name", .string resource.name), ("label", .string resource.label)]

/-- Every resource is listed. -/
@[simp] theorem mem_all (resource : Resource) : resource ∈ all := by
  cases resource <;> decide

/-- A resource is found by its name. -/
@[simp] theorem ofName?_name (resource : Resource) : ofName? resource.name = some resource := by
  cases resource <;> decide

end Resource

end QueryFilter
