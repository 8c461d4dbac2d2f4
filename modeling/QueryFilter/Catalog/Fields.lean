import QueryFilter.Catalog.Resource
import QueryFilter.Field.Basic

/-!
# The fields of the resources

Companies have staff, and staff a company; users have a role, and roles have users.  So the schema
leads back to itself, and a scope of it is a resource together with the path of relations by which
it was reached.  The names of the fields of a scope start with its path, which keeps names unique at
every depth.
-/

namespace QueryFilter.Catalog

/-- A resource as reached by relations: `path` is empty, or ends in two underscores. -/
structure Scope where
  resource : Resource
  path : String
  deriving DecidableEq, Repr

namespace Scope

/-- A resource itself. -/
def root (resource : Resource) : Scope :=
  ⟨resource, ""⟩

/-- The scope that a relation of a scope leads to. -/
def below (scope : Scope) (relation : String) (resource : Resource) : Scope :=
  ⟨resource, scope.path ++ relation ++ "__"⟩

end Scope

/-- The states of a company. -/
def companyStates : List String :=
  ["active", "inactive", "suspended"]

/-- The skills of staff. -/
def skills : List String :=
  ["backend", "frontend", "design", "support", "sales"]

/-- The permissions of a role. -/
def permissions : List String :=
  ["read", "write", "manage_users", "admin"]

/-- The fields of a scope. -/
def fieldsOf (scope : Scope) : List (Field Scope) :=
  let name (last : String) : String := scope.path ++ last
  match scope.resource with
  | .companies =>
    [.scalar .text (name "name") "Nome",
      .scalar .text (name "document") "CNPJ",
      .choice .select (name "status") "Situação" companyStates,
      (Field.scalar .date (name "created_at") "Criada em").withTarget "createdAt",
      .related .toMany (name "staff") "Funcionários" (scope.below "staff" .staff)]
  | .staff =>
    [.scalar .text (name "name") "Nome",
      .scalar .text (name "email") "E-mail",
      .scalar .number (name "age") "Idade",
      .scalar .number (name "salary") "Salário",
      (Field.scalar .date (name "hired_at") "Contratado em").withTarget "hiredAt",
      .scalar .boolean (name "active") "Ativo",
      .choice .multiSelect (name "skills") "Habilidades" skills,
      .related .toOne (name "company") "Empresa" (scope.below "company" .companies)]
  | .users =>
    [.scalar .text (name "name") "Nome",
      .scalar .text (name "email") "E-mail",
      .scalar .boolean (name "active") "Ativo",
      (Field.scalar .date (name "last_login_at") "Último acesso").withTarget "lastLoginAt",
      .related .toOne (name "role") "Perfil" (scope.below "role" .roles)]
  | .roles =>
    [.scalar .text (name "name") "Nome",
      .choice .multiSelect (name "permissions") "Permissões" permissions,
      .related .toMany (name "users") "Usuários" (scope.below "users" .users)]

instance : Schema Scope := ⟨fieldsOf⟩

/-- The fields of a resource. -/
def fields (resource : Resource) : List (Field Scope) :=
  fieldsOf (.root resource)

end QueryFilter.Catalog
