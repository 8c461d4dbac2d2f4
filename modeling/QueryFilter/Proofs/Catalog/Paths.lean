import QueryFilter.Proofs.Catalog.Fields

/-!
# Paths and targets

Names tell where fields are: a name that is a path with a segment behind it belongs to a field below
the relation whose name is the path (`Known.exists_relation`).  Targets are segments, and relations
are called by their targets, so that a path of targets is a name.

The first levels below a scope have a target in the scope itself, or else in the scope of one of its
relations (`mem_of_find?_target`).  A search by target therefore finds a field below a relation from
the resource only if the scope of the relation has the target (`exists_target_of_levels_below`).

A resource and those that it leads to lie so near to each other that a key which is a target
anywhere is looked up from every scope with a field of this very target (`exists_finds`).
-/

namespace QueryFilter.Catalog

open QueryFilter.Field

/-! ### Targets and names -/

/-- The target of a field has no mark in it. -/
theorem Known.isSegment_target {root : Resource} {field : Field Scope} (h : Known root field) :
    IsSegment field.target := by
  obtain ⟨scope, hreach, hfield⟩ := h
  exact Catalog.isSegment_target hreach.proper hfield

/-- Exactly the known fields of the type of relations lead somewhere. -/
theorem Known.isRelation_iff {root : Resource} {field : Field Scope} (h : Known root field) :
    field.isRelation = true ↔ ∃ relation, field.relation = some relation := by
  obtain ⟨scope, hreach, hfield⟩ := h
  rw [isRelation_eq hreach.proper hfield, Option.isSome_iff_exists]

/-- The fields below a relation are those of its scope. -/
theorem below_of_relation {field : Field Scope} {relation : Relation Scope}
    (h : field.relation = some relation) : field.below = fieldsOf relation.scope := by
  rw [Field.below, h]
  rfl

/-- A relation is called by its target. -/
theorem name_of_relation {scope : Scope} (h : scope.Proper) {field : Field Scope}
    (hfield : field ∈ fieldsOf scope) {relation : Relation Scope}
    (hrelation : field.relation = some relation) : field.name = scope.path ++ field.target := by
  have hsegment : ∀ s, IsSegment s → lastSegment (scope.path ++ s) = s := fun s =>
    lastSegment_append h
  have hall : ∀ field ∈ fieldsOf scope,
      field.relation.isSome → field.name = scope.path ++ field.target := by
    obtain ⟨resource, path⟩ := scope
    cases resource <;>
      simp (disch := decide) [fieldsOf, scalar, choice, related, withTarget, hsegment]
  exact hall field hfield (by rw [hrelation]; rfl)

/-- A scope below a relation has the path of the relation. -/
theorem Reaches.exists_relation {root : Resource} {scope : Scope} (h : Reaches root scope)
    {path : String} (hpath : scope.path = path ++ "__") :
    ∃ field relation, Known root field ∧ field.relation = some relation ∧ field.name = path ∧
      relation.scope = scope := by
  cases h with
  | start => exact absurd hpath.symm (append_mark_ne path)
  | @step below field relation hbelow hfield hrelation =>
    refine ⟨field, relation, hbelow.known field hfield, hrelation, ?_, rfl⟩
    rw [path_of_relation hfield hrelation] at hpath
    exact (String.append_left_inj "__").1 hpath

/-- A field whose name is a path with a segment behind it stands in the scope with this path. -/
theorem path_of_name {scope : Scope} (h : scope.Proper) {field : Field Scope}
    (hfield : field ∈ fieldsOf scope) {path s : String} (hpath : IsPath path) (hs : IsSegment s)
    (hname : field.name = path ++ s) : scope.path = path := by
  obtain ⟨last, hlast, hsplit⟩ := exists_segment hfield
  have hsame : last = s := by
    rw [← lastSegment_append h ((isSegment_segments _).2 last hlast), ← hsplit, hname,
      lastSegment_append hpath hs]
  rw [hsplit, hsame] at hname
  exact (String.append_left_inj s).1 hname

/-- A field whose name is a segment is a field of the resource. -/
theorem Known.mem_fields {root : Resource} {field : Field Scope} (h : Known root field)
    (hname : IsSegment field.name) : field ∈ fields root := by
  obtain ⟨scope, hreach, hfield⟩ := h
  have hpath := path_of_name hreach.proper hfield (.inl rfl) hname (String.empty_append).symm
  rw [hreach.eq_of_path .start hpath] at hfield
  exact hfield

/-- In one scope no target is the name of another field. -/
theorem eq_of_target_eq_own_name {root : Resource} {scope : Scope} (hscope : Reaches root scope)
    {a b : Field Scope} (ha : a ∈ fieldsOf scope) (hb : b ∈ fieldsOf scope)
    (heq : a.target = b.name) : a = b := by
  have hname : IsSegment b.name := heq ▸ isSegment_target hscope.proper ha
  have hroot := (hscope.known b hb).mem_fields hname
  have hpath := path_eq_of_name hscope.proper (Scope.proper_root root) hb hroot rfl
  obtain rfl := hscope.eq_of_path .start hpath
  exact eq_of_target_eq_name ha (hscope.known b hb) heq

/-- A field whose name is a path with a segment behind it stands below the relation that has the
path as its name. -/
theorem Known.exists_relation {root : Resource} {field : Field Scope} (h : Known root field)
    {path s : String} (hs : IsSegment s) (hname : field.name = path ++ "__" ++ s) :
    ∃ above relation, Known root above ∧ above.relation = some relation ∧ above.name = path ∧
      field ∈ fieldsOf relation.scope := by
  obtain ⟨scope, hreach, hfield⟩ := h
  have hpath := path_of_name hreach.proper hfield (.inr ⟨path, rfl⟩) hs hname
  obtain ⟨above, relation, habove, hrelation, hcalled, rfl⟩ := hreach.exists_relation hpath
  exact ⟨above, relation, habove, hrelation, hcalled, hfield⟩

/-- A field of the resource stands below no relation. -/
theorem not_mem_below {root : Resource} {field : Field Scope} (hfield : field ∈ fields root)
    {scope : Scope} {above : Field Scope} (habove : above ∈ fieldsOf scope)
    {relation : Relation Scope} (hrelation : above.relation = some relation) :
    field ∉ fieldsOf relation.scope := by
  intro hmem
  have hpath := path_of_relation habove hrelation
  have hproper : relation.scope.Proper := .inr ⟨_, hpath⟩
  rw [path_eq_of_name hproper (Scope.proper_root root) hmem hfield rfl] at hpath
  exact append_mark_ne _ hpath.symm

/-! ### The first levels below a scope -/

/-- A relation of a relation of a scope leads to the same resource again. -/
theorem resource_of_relations {scope : Scope} (h : scope.Proper) {first second : Field Scope}
    {below again : Relation Scope} (hfirst : first ∈ fieldsOf scope)
    (hbelow : first.relation = some below) (hsecond : second ∈ fieldsOf below.scope)
    (hagain : second.relation = some again) : again.scope.resource = scope.resource := by
  have hdata : ∀ resource, ∀ a ∈ shapes resource, ∀ other ∈ a.2.2, ∀ b ∈ shapes other.2,
      ∀ back ∈ b.2.2, back.2 = resource := by
    intro resource
    cases resource <;> decide
  have hproper : below.scope.Proper := .inr ⟨_, path_of_relation hfirst hbelow⟩
  have hleads : (below.kind, below.scope.resource) ∈ (shape first).2.2 := by
    rw [shape, hbelow]
    rfl
  have hback : (again.kind, again.scope.resource) ∈ (shape second).2.2 := by
    rw [shape, hagain]
    rfl
  exact hdata _ _ (shape_mem_shapes h hfirst) _ hleads _ (shape_mem_shapes hproper hsecond) _ hback

/-- Scopes of one resource have the same targets. -/
theorem exists_target_of_resource {s t : Scope} (hs : s.Proper) (ht : t.Proper)
    (heq : s.resource = t.resource) {field : Field Scope} (hfield : field ∈ fieldsOf s) :
    ∃ other ∈ fieldsOf t, other.target = field.target := by
  have hshape := shape_mem_shapes hs hfield
  rw [heq, ← shapes_fieldsOf ht] at hshape
  obtain ⟨other, hother, hsame⟩ := List.mem_map.1 hshape
  exact ⟨other, hother, (Prod.mk.inj hsame).1⟩

/-- A field of the first levels stands in the scope, below a relation of the scope, or below a
relation of such a one. -/
theorem mem_levels_iff {scope : Scope} {field : Field Scope} :
    field ∈ levels (relationDepth - 1) (fieldsOf scope) ↔ field ∈ fieldsOf scope ∨
      ∃ first ∈ fieldsOf scope, first.isRelation = true ∧ (field ∈ first.below ∨
        ∃ second ∈ first.below, second.isRelation = true ∧ field ∈ second.below) := by
  simp only [relationDepth, levels, List.mem_append, List.mem_flatMap, List.mem_filter]
  grind

/-- A target of the first levels that the scope does not have stands below one of its relations. -/
theorem mem_below_of_target {scope : Scope} (h : scope.Proper) {field : Field Scope}
    (hfield : field ∈ levels (relationDepth - 1) (fieldsOf scope))
    (hnone : ∀ other ∈ fieldsOf scope, other.target ≠ field.target) :
    ∃ first ∈ fieldsOf scope, ∃ below, first.relation = some below ∧
      field ∈ fieldsOf below.scope := by
  rcases mem_levels_iff.1 hfield with hmem | ⟨first, hfirst, -, hmem | ⟨second, hsecond, -, hmem⟩⟩
  · exact absurd rfl (hnone field hmem)
  · obtain ⟨below, hbelow, hmem⟩ := exists_relation_of_below hmem
    exact ⟨first, hfirst, below, hbelow, hmem⟩
  · obtain ⟨below, hbelow, hsecond⟩ := exists_relation_of_below hsecond
    obtain ⟨again, hagain, hmem⟩ := exists_relation_of_below hmem
    have hproper : again.scope.Proper := .inr ⟨_, path_of_relation hsecond hagain⟩
    have hresource := resource_of_relations h hfirst hbelow hsecond hagain
    obtain ⟨other, hother, htarget⟩ := exists_target_of_resource hproper h hresource hmem
    exact absurd htarget (hnone other hother)

/-- What is found under a target in the first levels stands in the scope or below one of its
relations. -/
theorem mem_of_find?_target {scope : Scope} (h : scope.Proper) {key : String} {field : Field Scope}
    (hfind : (levels (relationDepth - 1) (fieldsOf scope)).find?
      (fun other => other.target == key) = some field) :
    field ∈ fieldsOf scope ∨ ∃ first ∈ fieldsOf scope, ∃ below, first.relation = some below ∧
      field ∈ fieldsOf below.scope := by
  have htarget : field.target = key := by simpa using List.find?_some hfind
  by_cases hnone : ∀ other ∈ fieldsOf scope, other.target ≠ field.target
  · exact .inr (mem_below_of_target h (List.mem_of_find?_eq_some hfind) hnone)
  · push Not at hnone
    obtain ⟨other, hother, hsame⟩ := hnone
    have hscope := find?_target h hother
    rw [hsame, htarget] at hscope
    rw [relationDepth, levels, List.find?_append, hscope, Option.some_or] at hfind
    rw [← Option.some.inj hfind]
    exact .inl hother

/-- What is found under a target in the first levels of the resource is among the first levels below
a relation only if the scope of the relation has the target. -/
theorem exists_target_of_levels_below {root : Resource} {key : String} {field : Field Scope}
    (hfind : (levels (relationDepth - 1) (fields root)).find?
      (fun other => other.target == key) = some field)
    {scope : Scope} (hscope : Reaches root scope) {above : Field Scope}
    (habove : above ∈ fieldsOf scope) {relation : Relation Scope}
    (hrelation : above.relation = some relation)
    (hlevels : field ∈ levels (relationDepth - 1) (fieldsOf relation.scope)) :
    ∃ own ∈ fieldsOf relation.scope, own.target = key := by
  have hreach := hscope.step habove hrelation
  have htarget : field.target = key := by simpa using List.find?_some hfind
  by_contra hnone
  have hother : ∀ own ∈ fieldsOf relation.scope, own.target ≠ field.target :=
    fun own hown heq => hnone ⟨own, hown, heq.trans htarget⟩
  obtain ⟨first, hfirst, low, hlow, hmem⟩ := mem_below_of_target hreach.proper hlevels hother
  rcases mem_of_find?_target (Scope.proper_root root) hfind with
    hmem' | ⟨second, hsecond, high, hhigh, hmem'⟩
  · exact not_mem_below hmem' hfirst hlow hmem
  · -- the relation above the field would belong to the resource and stand below another relation
    have hpath : low.scope.path = high.scope.path :=
      path_eq_of_name (.inr ⟨_, path_of_relation hfirst hlow⟩)
        (.inr ⟨_, path_of_relation hsecond hhigh⟩) hmem hmem' rfl
    rw [path_of_relation hfirst hlow, path_of_relation hsecond hhigh] at hpath
    have hname := (String.append_left_inj "__").1 hpath
    have hknown := hreach.known _ hfirst
    obtain rfl := (universe_known root).unique hknown (known_fields _ hsecond) hname
    exact not_mem_below hsecond habove hrelation hfirst

/-! ### Targets from everywhere -/

/-- A resource is another one or stands next to it: a relation leads there. -/
def Near (resource other : Resource) : Prop :=
  resource = other ∨ ∃ entry ∈ shapes resource, ∃ lead ∈ entry.2.2, lead.2 = other

instance (resource other : Resource) : Decidable (Near resource other) :=
  inferInstanceAs (Decidable (_ ∨ ∃ entry ∈ shapes resource, ∃ lead ∈ entry.2.2, lead.2 = other))

/-- All resources that a resource reaches are near to each other. -/
theorem near_of_near {root a b : Resource} (ha : Near root a) (hb : Near root b) : Near a b := by
  revert ha hb
  cases root <;> cases a <;> cases b <;> decide

/-- The resource of a scope that is reached is near. -/
theorem Reaches.near {root : Resource} {scope : Scope} (h : Reaches root scope) :
    Near root scope.resource := by
  have hdata : ∀ root a, Near root a → ∀ entry ∈ shapes a, ∀ lead ∈ entry.2.2,
      Near root lead.2 := by
    intro root a
    cases root <;> cases a <;> decide
  induction h with
  | start => exact .inl rfl
  | @step scope field relation hscope hfield hrelation ih =>
    have hlead : (relation.kind, relation.scope.resource) ∈ (shape field).2.2 := by
      rw [shape, hrelation]
      rfl
    exact hdata _ _ ih _ (shape_mem_shapes hscope.proper hfield) _ hlead

/-- A relation of a resource is there in all scopes of it. -/
theorem exists_relation_of_near {scope : Scope} (h : scope.Proper) {other : Resource}
    (hnear : Near scope.resource other) : scope.resource = other ∨
      ∃ first ∈ fieldsOf scope, ∃ relation, first.relation = some relation ∧
        relation.scope.resource = other := by
  rcases hnear with heq | ⟨entry, hentry, lead, hlead, hother⟩
  · exact .inl heq
  · rw [← shapes_fieldsOf h] at hentry
    obtain ⟨first, hfirst, rfl⟩ := List.mem_map.1 hentry
    obtain ⟨relation, hrelation, rfl⟩ := Option.map_eq_some_iff.1 hlead
    exact .inr ⟨first, hfirst, relation, hrelation, hother⟩

/-- Each target stands among the first levels of each scope. -/
theorem exists_level_of_target {root : Resource} {scope : Scope} (hscope : Reaches root scope)
    {field : Field Scope} (hfield : Known root field) :
    ∃ other ∈ levels (relationDepth - 1) (fieldsOf scope), other.target = field.target := by
  obtain ⟨own, hown, hmem⟩ := hfield
  have hproper := hscope.proper
  rcases exists_relation_of_near hproper (near_of_near hscope.near hown.near) with
    heq | ⟨first, hfirst, relation, hrelation, heq⟩
  · obtain ⟨other, hother, htarget⟩ :=
      exists_target_of_resource hown.proper hproper heq.symm hmem
    exact ⟨other, mem_levels_of_mem hother, htarget⟩
  · have hbelow : relation.scope.Proper := .inr ⟨_, path_of_relation hfirst hrelation⟩
    obtain ⟨other, hother, htarget⟩ := exists_target_of_resource hown.proper hbelow heq.symm hmem
    refine ⟨other, mem_levels_iff.2 (.inr ⟨first, hfirst, ?_, .inl ?_⟩), htarget⟩
    · exact isRelation_of_relation hproper hfirst hrelation
    · rw [below_of_relation hrelation]
      exact hother

/-- A field of the first levels whose name is the target of a field has this target itself. -/
theorem target_of_name {root : Resource} {a b : Field Scope} (ha : Known root a)
    (hb : Known root b) (hname : a.name = b.target) : a.target = b.target := by
  have hdata : ∀ root r, ∀ a ∈ fields root, ∀ entry ∈ shapes r,
      a.name = entry.1 → a.target = entry.1 := by
    intro root r
    cases root <;> cases r <;> decide
  have hroot := ha.mem_fields (hname ▸ hb.isSegment_target)
  obtain ⟨scope, hscope, hmem⟩ := hb
  exact hdata root _ a hroot _ (shape_mem_shapes hscope.proper hmem) hname

/-- From each scope a field with a given target is found, and it has the shape of all fields with
this target. -/
theorem exists_finds {root : Resource} {scope : Scope} (hscope : Reaches root scope)
    {field : Field Scope} (hfield : Known root field) :
    ∃ other, scope.Finds other ∧ Known root other ∧ shape other = shape field := by
  have hu := universe_known root
  cases hlookup : lookup (fieldsOf scope) (fieldsOf scope) field.target field.target with
  | none =>
    obtain ⟨other, hother, htarget⟩ := exists_level_of_target hscope hfield
    rw [lookup, Option.or_eq_none_iff, Option.or_eq_none_iff] at hlookup
    exact absurd (List.find?_eq_none.1 hlookup.2.2 other hother) (by simp [htarget])
  | some other =>
    have hknown := hu.known_of_lookup hscope.known hscope.known hlookup
    have htarget : other.target = field.target := by
      rw [lookup, Option.or_eq_some_iff, Option.or_eq_some_iff] at hlookup
      rcases hlookup with hfind | ⟨-, hfind | ⟨-, hfind⟩⟩
      · simpa using List.find?_some hfind
      · exact target_of_name hknown hfield (by simpa using List.find?_some hfind)
      · simpa using List.find?_some hfind
    obtain ⟨s, hs, hmem⟩ := id hknown
    obtain ⟨t, ht, hown⟩ := id hfield
    refine ⟨other, ?_, hknown, shape_eq_of_target hs.proper ht.proper hmem hown htarget⟩
    rw [Scope.Finds, htarget]
    exact hlookup

end QueryFilter.Catalog
