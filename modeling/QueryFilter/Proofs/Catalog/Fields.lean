import Mathlib.Data.List.Nodup
import QueryFilter.Catalog.Fields
import QueryFilter.Operator.Basic
import QueryFilter.Proofs.Resolver

/-!
# The fields that a resource reaches

The scopes reached from a resource have paths that are empty or end in two underscores
(`Scope.Proper`), so that the last segment of a field's name is the name without the path
(`lastSegment_append`).  Hence the targets and types of a scope do not depend on its path
(`shapes_fieldsOf`), and a name determines its field among all the fields that a resource reaches
(`universe_known`).
-/

namespace QueryFilter

namespace Field

/-! ### The last segment of a name -/

/-- A character that does not begin the mark stands in front of it. -/
theorem beforeMark_cons {c : Char} {cs : List Char} (h : ¬ (c = '_' ∧ cs.head? = some '_')) :
    beforeMark (c :: cs) = c :: beforeMark cs := by
  rw [beforeMark]
  intro tail hc hcs
  exact h ⟨hc, by rw [hcs, List.head?_cons]⟩

/-- What stands beyond two underscores is not looked at. -/
theorem beforeMark_append (cs rest : List Char) :
    beforeMark (cs ++ '_' :: '_' :: rest) = beforeMark (cs ++ ['_', '_']) := by
  induction cs with
  | nil => rfl
  | cons c cs ih =>
    rw [List.cons_append, List.cons_append]
    have hhead : (cs ++ '_' :: '_' :: rest).head? = (cs ++ ['_', '_']).head? := by
      cases cs <;> rfl
    by_cases hmark : c = '_' ∧ (cs ++ ['_', '_']).head? = some '_'
    · obtain ⟨rfl, hmark⟩ := hmark
      obtain ⟨tail, htail⟩ := List.head?_eq_some_iff.1 hmark
      obtain ⟨tail', htail'⟩ := List.head?_eq_some_iff.1 (hhead.trans hmark)
      rw [htail, htail', beforeMark, beforeMark]
    · rw [beforeMark_cons hmark, beforeMark_cons (hhead ▸ hmark), ih]

/-- A segment holds no two underscores in a row and does not begin with an underscore. -/
def IsSegment (s : String) : Prop :=
  beforeMark s.toList.reverse = s.toList.reverse ∧
    beforeMark (s.toList.reverse ++ ['_', '_']) = s.toList.reverse

instance (s : String) : Decidable (IsSegment s) :=
  inferInstanceAs (Decidable (_ ∧ _))

/-- Paths are empty or end in two underscores. -/
def IsPath (path : String) : Prop :=
  path = "" ∨ ∃ before, path = before ++ "__"

/-- A text with a mark is not empty. -/
theorem append_mark_ne (before : String) : before ++ "__" ≠ "" := by
  intro h
  have hchars := congrArg String.toList h
  rw [String.toList_append] at hchars
  exact absurd (List.append_eq_nil_iff.1 hchars).2 (by decide)

/-- The last segment of a name is what stands behind the path. -/
theorem lastSegment_append {path s : String} (hpath : IsPath path) (hs : IsSegment s) :
    lastSegment (path ++ s) = s := by
  rcases hpath with rfl | ⟨before, rfl⟩
  · rw [String.empty_append, lastSegment, hs.1, List.reverse_reverse, String.ofList_toList]
  · have hchars : (before ++ "__" ++ s).toList.reverse =
        s.toList.reverse ++ '_' :: '_' :: before.toList.reverse := by
      simp [String.toList_append]
    rw [lastSegment, hchars, beforeMark_append, hs.2, List.reverse_reverse, String.ofList_toList]

/-- A segment is its own last segment. -/
theorem lastSegment_eq_self {s : String} (h : IsSegment s) : lastSegment s = s := by
  have hlast := lastSegment_append (.inl rfl) h
  rwa [String.empty_append] at hlast

end Field

namespace Catalog

open QueryFilter.Field

/-- The path of a scope is that of a scope which relations lead to. -/
def Scope.Proper (scope : Scope) : Prop :=
  IsPath scope.path

/-- The scope of a resource itself is proper. -/
theorem Scope.proper_root (resource : Resource) : (Scope.root resource).Proper :=
  .inl rfl

/-! ### Shapes -/

/-- What a field is apart from names and labels: its target, its type, and where it leads. -/
def shape (field : Field Scope) : String × FieldType × Option (RelationKind × Resource) :=
  (field.target, field.type, field.relation.map fun relation =>
    (relation.kind, relation.scope.resource))

/-- What a field has in every scope of a resource. -/
def shapes : Resource → List (String × FieldType × Option (RelationKind × Resource))
  | .companies =>
    [("name", .text, none), ("document", .text, none), ("status", .select, none),
      ("createdAt", .date, none), ("staff", .relation, some (.toMany, .staff))]
  | .staff =>
    [("name", .text, none), ("email", .text, none), ("age", .number, none),
      ("salary", .number, none), ("hiredAt", .date, none), ("active", .boolean, none),
      ("skills", .multiSelect, none), ("company", .relation, some (.toOne, .companies))]
  | .users =>
    [("name", .text, none), ("email", .text, none), ("active", .boolean, none),
      ("lastLoginAt", .date, none), ("role", .relation, some (.toOne, .roles))]
  | .roles =>
    [("name", .text, none), ("permissions", .multiSelect, none),
      ("users", .relation, some (.toMany, .users))]

/-- Targets and types do not depend on the path of a scope. -/
theorem shapes_fieldsOf {scope : Scope} (h : scope.Proper) :
    (fieldsOf scope).map shape = shapes scope.resource := by
  obtain ⟨resource, path⟩ := scope
  have hsegment : ∀ s, IsSegment s → lastSegment (path ++ s) = s := fun s => lastSegment_append h
  cases resource <;>
    simp (disch := decide) only [fieldsOf, shapes, shape, scalar, choice, related, withTarget,
      Scope.below, List.map_cons, List.map_nil, Option.map_some, Option.map_none, hsegment]

/-- The shape of a field is one of its resource. -/
theorem shape_mem_shapes {scope : Scope} (h : scope.Proper) {field : Field Scope}
    (hfield : field ∈ fieldsOf scope) : shape field ∈ shapes scope.resource := by
  rw [← shapes_fieldsOf h]
  exact List.mem_map_of_mem hfield

/-- Targets are not empty and occur once in a scope. -/
theorem targets_fieldsOf {scope : Scope} (h : scope.Proper) :
    ((fieldsOf scope).map Field.target).Nodup ∧ ∀ field ∈ fieldsOf scope, field.target ≠ "" := by
  have hshapes := shapes_fieldsOf h
  have htargets : (fieldsOf scope).map Field.target = (shapes scope.resource).map Prod.fst := by
    rw [← hshapes, List.map_map]
    rfl
  have hdata : ∀ resource, ((shapes resource).map Prod.fst).Nodup ∧
      ∀ target ∈ (shapes resource).map Prod.fst, target ≠ "" := by
    intro resource
    cases resource <;> decide
  refine ⟨htargets ▸ (hdata scope.resource).1, fun field hfield => ?_⟩
  exact (hdata scope.resource).2 _ (htargets ▸ List.mem_map_of_mem hfield)

/-- Fields of one scope with one target are the same. -/
theorem eq_of_target {scope : Scope} (h : scope.Proper) {a b : Field Scope}
    (ha : a ∈ fieldsOf scope) (hb : b ∈ fieldsOf scope) (heq : a.target = b.target) : a = b :=
  List.inj_on_of_nodup_map (targets_fieldsOf h).1 ha hb heq

/-- The field of a target is found in its scope. -/
theorem find?_target {scope : Scope} (h : scope.Proper) {field : Field Scope}
    (hfield : field ∈ fieldsOf scope) :
    ((fieldsOf scope).find? fun other => other.target == field.target) = some field := by
  cases hfind : (fieldsOf scope).find? fun other => other.target == field.target with
  | none => exact absurd (List.find?_eq_none.1 hfind field hfield) (by simp)
  | some other =>
    have htarget : other.target = field.target := by simpa using List.find?_some hfind
    rw [eq_of_target h (List.mem_of_find?_eq_some hfind) hfield htarget]

/-- A key that is a target of the scope is looked up there, whatever else there is. -/
theorem lookup_target {scope : Scope} (h : scope.Proper) {field : Field Scope}
    (hfield : field ∈ fieldsOf scope) (root : List (Field Scope)) (path : String) :
    lookup root (fieldsOf scope) field.target path = some field := by
  rw [lookup, find?_target h hfield, Option.some_or]

/-- A field is found from a scope by its target. -/
def Scope.Finds (scope : Scope) (field : Field Scope) : Prop :=
  lookup (fieldsOf scope) (fieldsOf scope) field.target field.target = some field

/-- A scope finds its own fields. -/
theorem Scope.Proper.finds {scope : Scope} (h : scope.Proper) {field : Field Scope}
    (hfield : field ∈ fieldsOf scope) : scope.Finds field :=
  lookup_target h hfield _ _

/-- By one target one field is found. -/
theorem Scope.Finds.eq_of_target {scope : Scope} {a b : Field Scope} (ha : scope.Finds a)
    (hb : scope.Finds b) (heq : a.target = b.target) : a = b := by
  unfold Scope.Finds at ha hb
  rw [heq, hb] at ha
  exact (Option.some.inj ha).symm

/-- Fields with one target have one shape, in whatever scopes they are. -/
theorem shape_eq_of_target {s t : Scope} (hs : s.Proper) (ht : t.Proper) {a b : Field Scope}
    (ha : a ∈ fieldsOf s) (hb : b ∈ fieldsOf t) (heq : a.target = b.target) :
    shape a = shape b := by
  have hdata : ∀ r r', ∀ x ∈ shapes r, ∀ y ∈ shapes r', x.1 = y.1 → x = y := by
    intro r r'
    cases r <;> cases r' <;> decide
  exact hdata _ _ _ (shape_mem_shapes hs ha) _ (shape_mem_shapes ht hb) heq

/-- Targets are segments. -/
theorem isSegment_target {scope : Scope} (h : scope.Proper) {field : Field Scope}
    (hfield : field ∈ fieldsOf scope) : IsSegment field.target := by
  have hdata : ∀ resource, ∀ entry ∈ shapes resource, IsSegment entry.1 := by
    intro resource
    cases resource <;> decide
  exact hdata _ _ (shape_mem_shapes h hfield)

/-- No target of a scope is the word of an operator between a relation and its items. -/
theorem target_ne_word {scope : Scope} (h : scope.Proper) {field : Field Scope}
    (hfield : field ∈ fieldsOf scope) {operator : Operator}
    (hoperator : operator.isRelation = true) :
    field.target ≠ operator.word := by
  have hshape := shape_mem_shapes h hfield
  have hdata : ∀ resource, ∀ entry ∈ shapes resource, ∀ operator ∈ Operator.all,
      operator.isRelation = true → entry.1 ≠ operator.word := by
    intro resource
    cases resource <;> decide
  exact hdata _ _ hshape operator (Operator.mem_all operator) hoperator

/-- No target of a scope is a parameter that stands beside a filter. -/
theorem target_ne_parameter {scope : Scope} (h : scope.Proper) {field : Field Scope}
    (hfield : field ∈ fieldsOf scope) : field.target ≠ "page" ∧ field.target ≠ "limit" := by
  have hshape := shape_mem_shapes h hfield
  have hdata : ∀ resource, ∀ entry ∈ shapes resource, entry.1 ≠ "page" ∧ entry.1 ≠ "limit" := by
    intro resource
    cases resource <;> decide
  exact hdata _ _ hshape

/-- Exactly the fields that lead somewhere have the type of relations. -/
theorem isRelation_eq {scope : Scope} (h : scope.Proper) {field : Field Scope}
    (hfield : field ∈ fieldsOf scope) : field.isRelation = field.relation.isSome := by
  have hshape := shape_mem_shapes h hfield
  have hdata : ∀ resource, ∀ entry ∈ shapes resource,
      (entry.2.1 == FieldType.relation) = entry.2.2.isSome := by
    intro resource
    cases resource <;> decide
  have hentry := hdata _ _ hshape
  rwa [shape, Option.isSome_map] at hentry

/-- A field with a relation has the type of relations. -/
theorem isRelation_of_relation {scope : Scope} (h : scope.Proper) {field : Field Scope}
    (hfield : field ∈ fieldsOf scope) {relation : Relation Scope}
    (hrelation : field.relation = some relation) : field.isRelation = true := by
  rw [isRelation_eq h hfield, hrelation]
  rfl

/-- A field without a relation has another type. -/
theorem isRelation_of_none {scope : Scope} (h : scope.Proper) {field : Field Scope}
    (hfield : field ∈ fieldsOf scope) (hscalar : field.relation = none) :
    field.isRelation = false := by
  rw [isRelation_eq h hfield, hscalar]
  rfl

/-! ### Names -/

/-- The names in a scope without its path. -/
def segments : Resource → List String
  | .companies => ["name", "document", "status", "created_at", "staff"]
  | .staff => ["name", "email", "age", "salary", "hired_at", "active", "skills", "company"]
  | .users => ["name", "email", "active", "last_login_at", "role"]
  | .roles => ["name", "permissions", "users"]

/-- The names of the fields of a scope are its path and the segments of its resource. -/
theorem names_fieldsOf (scope : Scope) :
    (fieldsOf scope).map Field.name = (segments scope.resource).map (scope.path ++ ·) := by
  obtain ⟨resource, path⟩ := scope
  cases resource <;> rfl

/-- The segments of a resource are different, and none of them has a mark in it. -/
theorem isSegment_segments (resource : Resource) :
    (segments resource).Nodup ∧ ∀ s ∈ segments resource, IsSegment s := by
  cases resource <;> decide

/-- A name in a scope is its path with a segment behind it. -/
theorem exists_segment {scope : Scope} {field : Field Scope} (h : field ∈ fieldsOf scope) :
    ∃ s ∈ segments scope.resource, field.name = scope.path ++ s := by
  have hname : field.name ∈ (fieldsOf scope).map Field.name := List.mem_map_of_mem h
  rw [names_fieldsOf] at hname
  obtain ⟨s, hs, heq⟩ := List.mem_map.1 hname
  exact ⟨s, hs, heq.symm⟩

/-- Texts behind one path differ as the texts do. -/
theorem append_left_injective (path : String) :
    Function.Injective (path ++ · : String → String) :=
  fun _ _ => (String.append_right_inj path).1

/-- Fields of one scope with one name are the same. -/
theorem eq_of_name {scope : Scope} {a b : Field Scope} (ha : a ∈ fieldsOf scope)
    (hb : b ∈ fieldsOf scope) (heq : a.name = b.name) : a = b := by
  have hnodup : ((fieldsOf scope).map Field.name).Nodup := by
    rw [names_fieldsOf]
    exact (isSegment_segments _).1.map (append_left_injective _)
  exact List.inj_on_of_nodup_map hnodup ha hb heq

/-- The path of a scope is to be seen in each name. -/
theorem path_eq_of_name {s t : Scope} (hs : s.Proper) (ht : t.Proper) {a b : Field Scope}
    (ha : a ∈ fieldsOf s) (hb : b ∈ fieldsOf t) (heq : a.name = b.name) : s.path = t.path := by
  obtain ⟨x, hx, hax⟩ := exists_segment ha
  obtain ⟨y, hy, hby⟩ := exists_segment hb
  have hlast : x = y := by
    rw [← lastSegment_append hs ((isSegment_segments _).2 x hx), ← hax, heq, hby,
      lastSegment_append ht ((isSegment_segments _).2 y hy)]
  rw [hax, hby, hlast] at heq
  exact (String.append_left_inj y).1 heq

/-- A relation leads to the scope whose path is its name with two underscores. -/
theorem path_of_relation {scope : Scope} {field : Field Scope} (h : field ∈ fieldsOf scope)
    {relation : Relation Scope} (hrelation : field.relation = some relation) :
    relation.scope.path = field.name ++ "__" := by
  have hall : ∀ field ∈ fieldsOf scope,
      field.relation.all fun relation => relation.scope.path = field.name ++ "__" := by
    obtain ⟨resource, path⟩ := scope
    cases resource <;>
      simp [fieldsOf, scalar, choice, related, withTarget, Scope.below]
  have hfield := hall field h
  rw [hrelation, Option.all_some, decide_eq_true_eq] at hfield
  exact hfield

/-! ### What a resource reaches -/

/-- The scopes to which a resource leads by relations. -/
inductive Reaches (root : Resource) : Scope → Prop
  | start : Reaches root (.root root)
  | step {scope : Scope} {field : Field Scope} {relation : Relation Scope}
      (hscope : Reaches root scope) (hfield : field ∈ fieldsOf scope)
      (hrelation : field.relation = some relation) : Reaches root relation.scope

/-- Scopes that a resource reaches are proper. -/
theorem Reaches.proper {root : Resource} {scope : Scope} (h : Reaches root scope) :
    scope.Proper := by
  cases h with
  | start => exact Scope.proper_root root
  | step _ hfield hrelation => exact .inr ⟨_, path_of_relation hfield hrelation⟩

/-- The path of a scope determines the scope. -/
theorem Reaches.eq_of_path {root : Resource} {s t : Scope} (hs : Reaches root s)
    (ht : Reaches root t) (heq : s.path = t.path) : s = t := by
  induction hs generalizing t with
  | start =>
    cases ht with
    | start => rfl
    | step ht hfield hrelation =>
      rw [path_of_relation hfield hrelation] at heq
      exact absurd heq.symm (append_mark_ne _)
  | step hs ha hrelation ih =>
    cases ht with
    | start =>
      rw [path_of_relation ha hrelation] at heq
      exact absurd heq (append_mark_ne _)
    | step ht hb hrelation' =>
      rw [path_of_relation ha hrelation, path_of_relation hb hrelation'] at heq
      have hname := (String.append_left_inj "__").1 heq
      have hscope := ih ht (path_eq_of_name hs.proper ht.proper ha hb hname)
      subst hscope
      have hfield := eq_of_name ha hb hname
      subst hfield
      rw [hrelation] at hrelation'
      rw [Option.some.inj hrelation']

/-- The fields that a resource reaches. -/
def Known (root : Resource) (field : Field Scope) : Prop :=
  ∃ scope, Reaches root scope ∧ field ∈ fieldsOf scope

/-- A resource reaches its own fields. -/
theorem known_fields {root : Resource} : ∀ field ∈ fields root, Known root field :=
  fun _ hfield => ⟨_, .start, hfield⟩

/-- A resource reaches the fields of the scopes that it reaches. -/
theorem Reaches.known {root : Resource} {scope : Scope} (h : Reaches root scope) :
    ∀ field ∈ fieldsOf scope, Known root field :=
  fun _ hfield => ⟨scope, h, hfield⟩

/-- Every target has characters. -/
theorem Known.target_ne_empty {root : Resource} {field : Field Scope} (h : Known root field) :
    field.target ≠ "" := by
  obtain ⟨scope, hreach, hfield⟩ := h
  exact (targets_fieldsOf hreach.proper).2 field hfield

/-- A field with another field below it leads to the scope of this one. -/
theorem exists_relation_of_below {first field : Field Scope} (h : field ∈ first.below) :
    ∃ relation, first.relation = some relation ∧ field ∈ fieldsOf relation.scope := by
  unfold Field.below at h
  split at h
  · rename_i relation hrelation
    exact ⟨relation, hrelation, h⟩
  · exact absurd h List.not_mem_nil

/-- The fields that a resource reaches have unique names. -/
theorem universe_known (root : Resource) : Universe (Known root) where
  below := by
    rintro field ⟨scope, hscope, hfield⟩ below hbelow
    obtain ⟨relation, hrelation, hmem⟩ := exists_relation_of_below hbelow
    exact ⟨relation.scope, hscope.step hfield hrelation, hmem⟩
  unique := by
    rintro a b ⟨s, hs, ha⟩ ⟨t, ht, hb⟩ heq
    have hscope := hs.eq_of_path ht (path_eq_of_name hs.proper ht.proper ha hb heq)
    subst hscope
    exact eq_of_name ha hb heq

/-- A field of the first levels is the first with its name. -/
theorem find?_name {root : Resource} {depth : Nat} {field : Field Scope}
    (h : field ∈ levels depth (fields root)) :
    ((levels depth (fields root)).find? fun other => other.name == field.name) = some field := by
  have hknown : ∀ other ∈ levels depth (fields root), Known root other :=
    (universe_known root).mem_levels known_fields
  cases hfind : (levels depth (fields root)).find? fun other => other.name == field.name with
  | none => exact absurd (List.find?_eq_none.1 hfind field h) (by simp)
  | some other =>
    have hname : other.name = field.name := by simpa using List.find?_some hfind
    have hother := hknown other (List.mem_of_find?_eq_some hfind)
    rw [(universe_known root).unique hother (hknown field h) hname]

/-- A target of the root that is the name of a field is that of this very field. -/
theorem eq_of_target_eq_name {root : Resource} {a b : Field Scope} (ha : a ∈ fields root)
    (hb : Known root b) (heq : a.target = b.name) : a = b := by
  obtain ⟨scope, hscope, hb⟩ := hb
  obtain ⟨s, hs, hname⟩ := exists_segment hb
  have htarget := isSegment_target (Scope.proper_root root) ha
  -- the target is the last segment of the name, so that nothing stands before it
  have hlast : a.target = s := by
    rw [← lastSegment_append hscope.proper ((isSegment_segments _).2 s hs), ← hname, ← heq,
      lastSegment_eq_self htarget]
  have hpath : scope.path = "" := by
    rw [hname, hlast] at heq
    have hchars := congrArg String.toList heq
    rw [String.toList_append] at hchars
    exact String.toList_inj.1 (List.self_eq_append_left.1 hchars)
  obtain rfl := hscope.eq_of_path .start hpath
  have hdata : ∀ resource, ∀ a ∈ fieldsOf (.root resource), ∀ b ∈ fieldsOf (.root resource),
      a.target = b.name → a.name = b.name := by
    intro resource
    cases resource <;> decide
  exact eq_of_name ha hb (hdata root a ha b hb heq)

/-! ### Examples -/

/-- The relation from staff to their company. -/
def companyField : Field Scope :=
  .related .toOne "company" "Empresa" ⟨.companies, "company__"⟩

/-- Staff have the company as a field. -/
theorem companyField_mem : companyField ∈ fields .staff := by
  have hlast : (fields .staff).getLast? = some companyField := rfl
  exact List.mem_of_getLast? hlast

/-- The relation from the company of staff back to its staff. -/
def colleaguesField : Field Scope :=
  .related .toMany "company__staff" "Funcionários" ⟨.staff, "company__staff__"⟩

/-- The companies of staff have their staff as a field. -/
theorem colleaguesField_mem : colleaguesField ∈ fieldsOf ⟨.companies, "company__"⟩ := by
  have hlast : (fieldsOf ⟨.companies, "company__"⟩).getLast? = some colleaguesField := rfl
  exact List.mem_of_getLast? hlast

end Catalog

end QueryFilter
