import Mathlib.Data.List.Induction
import QueryFilter.Proofs.Catalog.Paths

/-!
# Trails of relations

Relations lead from a scope to another one along a trail (`Trail`).  The first levels below a scope
hold the fields at the end of short trails (`mem_levels_iff_trail`), and from a resource one trail
at most leads to a scope (`Trail.unique`).  So a field is found by its name alone if and only if its
trail is short (`find_name_iff`).
-/

namespace QueryFilter.Catalog

open QueryFilter.Field

/-- Relations that lead from a scope to another one, in order. -/
inductive Trail : Scope → List (Field Scope) → Scope → Prop
  | here (scope : Scope) : Trail scope [] scope
  | step {scope final : Scope} {field : Field Scope} {relation : Relation Scope}
      {path : List (Field Scope)} (hfield : field ∈ fieldsOf scope)
      (hrelation : field.relation = some relation) (hrest : Trail relation.scope path final) :
      Trail scope (field :: path) final

namespace Trail

variable {root : Resource} {scope final : Scope} {path : List (Field Scope)}

/-- What a trail leads to is reached. -/
theorem reaches (h : Trail scope path final) (hscope : Reaches root scope) :
    Reaches root final := by
  induction h with
  | here => exact hscope
  | step hfield hrelation _ ih => exact ih (hscope.step hfield hrelation)

/-- The last relation of a trail leads to its end. -/
theorem exists_last {last : Field Scope} (h : Trail scope (path ++ [last]) final) :
    ∃ above relation, Trail scope path above ∧ last ∈ fieldsOf above ∧
      last.relation = some relation ∧ relation.scope = final := by
  induction path generalizing scope with
  | nil =>
    cases h with
    | step hfield hrelation hrest =>
      cases hrest
      exact ⟨scope, _, .here scope, hfield, hrelation, rfl⟩
  | cons first path ih =>
    cases h with
    | step hfield hrelation hrest =>
      obtain ⟨above, relation, habove, hlast⟩ := ih hrest
      exact ⟨above, relation, .step hfield hrelation habove, hlast⟩

/-- Back at the resource no relation was followed. -/
theorem eq_nil (h : Trail (.root root) path (.root root)) : path = [] := by
  rcases List.eq_nil_or_concat' path with hnil | ⟨init, last, rfl⟩
  · exact hnil
  · obtain ⟨above, relation, -, hlast, hrelation, hfinal⟩ := h.exists_last
    have hpath := path_of_relation hlast hrelation
    rw [hfinal] at hpath
    exact absurd hpath.symm (append_mark_ne _)

/-- From a resource one trail at most leads to a scope. -/
theorem unique {other : List (Field Scope)} (h : Trail (.root root) path final)
    (hother : Trail (.root root) other final) : path = other := by
  induction path using List.reverseRecOn generalizing other final with
  | nil =>
    cases h
    exact hother.eq_nil.symm
  | append_singleton init last ih =>
    rcases List.eq_nil_or_concat' other with rfl | ⟨init', last', rfl⟩
    · cases hother
      exact h.eq_nil
    · obtain ⟨above, relation, habove, hlast, hrelation, hfinal⟩ := h.exists_last
      obtain ⟨above', relation', habove', hlast', hrelation', hfinal'⟩ := hother.exists_last
      have hreach := habove.reaches .start
      have hreach' := habove'.reaches .start
      -- the path of the end is the name of the last relation, which tells where this one stands
      have hname : last.name = last'.name := by
        have hpath := path_of_relation hlast hrelation
        rw [hfinal, ← hfinal', path_of_relation hlast' hrelation'] at hpath
        exact ((String.append_left_inj "__").1 hpath).symm
      obtain rfl := hreach.eq_of_path hreach'
        (path_eq_of_name hreach.proper hreach'.proper hlast hlast' hname)
      rw [ih habove habove', eq_of_name hlast hlast' hname]

end Trail

/-! ### The first levels -/

/-- The first levels hold the fields at the end of short trails. -/
theorem mem_levels_iff_trail {depth : Nat} {scope : Scope} (h : scope.Proper)
    {field : Field Scope} : field ∈ levels depth (fieldsOf scope) ↔
      ∃ path final, path.length ≤ depth ∧ Trail scope path final ∧ field ∈ fieldsOf final := by
  -- one more level of fields is one more step of the trails
  induction depth generalizing scope with
  | zero =>
    constructor
    · exact fun hfield => ⟨[], scope, Nat.le_refl 0, .here scope, hfield⟩
    · rintro ⟨path, final, hlength, htrail, hfield⟩
      obtain rfl := List.eq_nil_of_length_eq_zero (Nat.le_zero.1 hlength)
      cases htrail
      exact hfield
  | succ depth ih =>
    have hproper : ∀ {first : Field Scope} {relation : Relation Scope}, first ∈ fieldsOf scope →
        first.relation = some relation → relation.scope.Proper :=
      fun hfirst hrelation => .inr ⟨_, path_of_relation hfirst hrelation⟩
    rw [levels, List.mem_append, List.mem_flatMap]
    constructor
    · rintro (hfield | ⟨first, hfilter, hlevels⟩)
      · exact ⟨[], scope, Nat.zero_le _, .here scope, hfield⟩
      · obtain ⟨hfirst, htype⟩ := List.mem_filter.1 hfilter
        rw [isRelation_eq h hfirst] at htype
        obtain ⟨relation, hrelation⟩ := Option.isSome_iff_exists.1 htype
        rw [below_of_relation hrelation] at hlevels
        obtain ⟨path, final, hlength, htrail, hfield⟩ :=
          (ih (hproper hfirst hrelation)).1 hlevels
        exact ⟨first :: path, final, Nat.succ_le_succ hlength, .step hfirst hrelation htrail,
          hfield⟩
    · rintro ⟨path, final, hlength, htrail, hfield⟩
      cases htrail with
      | here => exact .inl hfield
      | @step _ _ first relation path hfirst hrelation hrest =>
        have htype := isRelation_of_relation h hfirst hrelation
        refine .inr ⟨first, List.mem_filter.2 ⟨hfirst, htype⟩, ?_⟩
        rw [below_of_relation hrelation]
        exact (ih (hproper hfirst hrelation)).2
          ⟨path, final, Nat.le_of_succ_le_succ hlength, hrest, hfield⟩

/-- A field at the end of a trail from a resource is among the first levels if and only if the trail
is short. -/
theorem mem_levels_iff_length {root : Resource} {path : List (Field Scope)} {scope : Scope}
    (hpath : Trail (.root root) path scope) {field : Field Scope} (hfield : field ∈ fieldsOf scope)
    {depth : Nat} : field ∈ levels depth (fields root) ↔ path.length ≤ depth := by
  constructor
  · intro hmem
    obtain ⟨other, final, hlength, hother, hmem⟩ :=
      (mem_levels_iff_trail (Scope.proper_root root)).1 hmem
    have hreach := hpath.reaches .start
    have hreach' := hother.reaches .start
    obtain rfl := hreach.eq_of_path hreach'
      (path_eq_of_name hreach.proper hreach'.proper hfield hmem rfl)
    rw [hpath.unique hother]
    exact hlength
  · intro hlength
    exact (mem_levels_iff_trail (Scope.proper_root root)).2 ⟨path, scope, hlength, hpath, hfield⟩

/-! ### Names -/

/-- Without a scope of its own, and whatever the key is, a field is found by its name if and only if
its trail is short. -/
theorem find_name_iff {root : Resource} {path : List (Field Scope)} {scope : Scope}
    (hpath : Trail (.root root) path scope) {field : Field Scope} (hfield : field ∈ fieldsOf scope)
    (key : String) :
    Resolver.eval (fields root) (Resolver.find [] key field.name) = some field ↔
      path.length < relationDepth := by
  have hanswers := Resolver.find_answers (universe_known root) known_fields [] key field.name
  have hdepth : path.length < relationDepth ↔ field ∈ levels (relationDepth - 1) (fields root) := by
    rw [mem_levels_iff_length hpath hfield]
    exact Nat.lt_succ_iff
  rw [hanswers.eval, hdepth]
  constructor
  · intro hfound
    exact (mem_of_lookup hfound).resolve_left List.not_mem_nil
  · intro hlevels
    rw [lookup, List.find?_nil, Option.none_or, find?_name hlevels, Option.some_or]

end QueryFilter.Catalog
