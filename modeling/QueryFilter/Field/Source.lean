import QueryFilter.Catalog.Fields

/-!
# Schemas from two sources

A scope of a mixed schema has its fields written out, or takes them from the catalog.
-/

namespace QueryFilter

/-- Where the fields of a scope come from. -/
inductive Source where
  | listed (fields : List (Field Source))
  | catalog (scope : Catalog.Scope)

namespace Source

/-- The fields of a scope. -/
def fields : Source → List (Field Source)
  | .listed fields => fields
  | .catalog scope => (Catalog.fieldsOf scope).map (Field.mapScope .catalog)

instance : Schema Source := ⟨fields⟩

instance : Inhabited Source := ⟨.listed []⟩

/-- The fields of a list are those that it lists. -/
@[simp] theorem fields_listed (fs : List (Field Source)) : fields (.listed fs) = fs := rfl

end Source

end QueryFilter
