import QueryFilter.Proofs.Catalog.Paths
import QueryFilter.Proofs.Filter.Rows

/-!
# The walk through a filter

Restoring a filter walks through the filters inside its relations (`Walks`).  Behind each row on a
relation come the rows of the filter that the row keeps (`exists_opens`).

The walk asks for a key with the resource as its root and the path of relations before the key,
while the filter of a row is read with the fields below the relation as root.  Both find one field
for a key only if the scope has the key as a target (`Walks.exists_target`), so that keys with other
names make rows that the two readings do not share (`rowsAt_agree_iff`).
-/

namespace QueryFilter

open Catalog QueryFilter.Field Restore

variable {σ : Type}

/-! ### Rows by themselves -/

/-- A row without identity and parent: its field, its operator and its value. -/
def Condition.alone (row : Condition σ) : Condition σ :=
  { row with id := none, parent := none }

/-- The rows of a value are the same under each parent. -/
theorem map_alone_headRows (field : Field σ) (parent : Option String) (value : Json) :
    (headRows field parent value).map Condition.alone = headRows field none value := by
  unfold headRows
  split
  · cases value with
    | object operators =>
      simp only [List.map_filterMap]
      refine List.filterMap_congr fun pair _ => ?_
      unfold innerRow?
      cases FieldType.relation.label? pair.1 <;> rfl
    | _ => rfl
  · rw [List.map_map]
    rfl

/-! ### Where the rows inside a relation are -/

/-- What stands behind an item of joined lists. -/
theorem exists_of_flatMap_eq {α β : Type} {f : α → List β} {xs : List α} {before after : List β}
    {y : β} (h : xs.flatMap f = before ++ y :: after) :
    ∃ x ∈ xs, ∃ first last rest, f x = first ++ y :: last ∧ after = last ++ rest := by
  induction xs generalizing before with
  | nil => exact absurd h.symm (by simp)
  | cons x xs ih =>
    rw [List.flatMap_cons] at h
    rcases List.append_eq_append_iff.1 h with ⟨first, -, hrest⟩ | ⟨last, hfirst, hlast⟩
    · obtain ⟨other, hother, hfound⟩ := ih hrest
      exact ⟨other, List.mem_cons_of_mem _ hother, hfound⟩
    · cases last with
      | nil =>
        have hrest : xs.flatMap f = [] ++ y :: after := hlast.symm
        obtain ⟨other, hother, hfound⟩ := ih hrest
        exact ⟨other, List.mem_cons_of_mem _ hother, hfound⟩
      | cons z last =>
        obtain ⟨rfl, rfl⟩ := List.cons.inj hlast
        exact ⟨x, List.mem_cons_self, before, last, _, hfirst, rfl⟩

/-- A row among those of a field is on the field itself, and followed by the rows inside it if the
field is a relation, or it stands inside the field. -/
theorem exists_of_fieldRowsAfresh {inner : Option String → Object → List (Condition σ)}
    {field : Field σ} {parent : Option String} {path : String} {value : Json}
    {first last : List (Condition σ)} {row : Condition σ}
    (h : fieldRowsAfresh inner field parent path value = first ++ row :: last) :
    (field.isRelation = false ∧ row.subject = .field field) ∨
      ∃ operators, field.isRelation = true ∧ value = .object operators ∧
        ∃ pair ∈ innerFilters field operators, ∃ rest,
        (∃ label, row = rowOf field parent label (.filter pair.2) ∧
          last = inner (some path) pair.2 ++ rest) ∨
        ∃ start stop, inner (some path) pair.2 = start ++ row :: stop ∧ last = stop ++ rest := by
  have hnil : [] ≠ first ++ row :: last := by simp
  unfold fieldRowsAfresh at h
  by_cases htype : field.isRelation = true
  · rw [if_pos htype] at h
    cases value with
    | object operators =>
      obtain ⟨pair, hpair, start, stop, rest, hpairRows, rfl⟩ := exists_of_flatMap_eq h
      refine .inr ⟨operators, htype, rfl, pair, hpair, rest, ?_⟩
      unfold innerRowsAfresh at hpairRows
      cases hrow : innerRow? field parent pair with
      | none =>
        simp only [hrow] at hpairRows
        exact absurd hpairRows.symm (by simp)
      | some head =>
        simp only [hrow] at hpairRows
        obtain ⟨label, -, rfl⟩ := Option.map_eq_some_iff.1 hrow
        -- the head comes first, and then the rows inside it
        cases start with
        | nil =>
          obtain ⟨rfl, rfl⟩ := List.cons.inj hpairRows
          exact .inl ⟨label, rfl, rfl⟩
        | cons _ start =>
          exact .inr ⟨start, stop, (List.cons.inj hpairRows).2, rfl⟩
    | _ => exact absurd h hnil
  · rw [if_neg htype] at h
    have hrow : row ∈ headRows field parent value := by
      rw [h]
      exact List.mem_append_right _ List.mem_cons_self
    exact .inl ⟨Bool.eq_false_iff.2 htype, subject_of_mem_headRows hrow⟩

/-- The filters that are met when a filter is restored: each with the levels that are left, the
scope of its keys, the path that is their parent, and itself. -/
inductive Walks (resource : Resource) (filter : Object) :
    Nat → Scope → Option String → Object → Prop
  | start : Walks resource filter relationDepth (.root resource) none filter
  | step {levels : Nat} {scope : Scope} {parent : Option String} {above operators : Object}
      {key : String} {field : Field Scope} {relation : Relation Scope} {pair : Operator × Object}
      (habove : Walks resource filter (levels + 1) scope parent above)
      (hentry : (key, .object operators) ∈ above)
      (hfield : lookup (fields resource) (fieldsOf scope) key (pathOf parent key) = some field)
      (hrelation : field.relation = some relation)
      (hpair : pair ∈ innerFilters field operators) :
      Walks resource filter levels relation.scope (some (pathOf parent key)) pair.2

section Walk

variable {resource : Resource} {filter : Object}

/-- What is looked up in a scope that the resource reaches is a field that it reaches. -/
theorem known_of_lookup {scope : Scope} (hscope : Reaches resource scope) {key path : String}
    {field : Field Scope}
    (h : lookup (fields resource) (fieldsOf scope) key path = some field) :
    Known resource field :=
  (universe_known resource).known_of_lookup known_fields hscope.known h

/-- The scopes of filters that are met are reached by the resource. -/
theorem Walks.reaches {levels : Nat} {scope : Scope} {parent : Option String} {inner : Object}
    (h : Walks resource filter levels scope parent inner) : Reaches resource scope := by
  induction h with
  | start => exact .start
  | step _ _ hfield hrelation _ ih =>
    obtain ⟨above, habove, hmem⟩ := known_of_lookup ih hfield
    exact habove.step hmem hrelation

/-- The walk opens a filter inside a field, which it finds for a key under a parent; so many levels
are left for what is inside. -/
inductive Opens (resource : Resource) (filter : Object) (left : Nat) (field : Field Scope)
    (parent : Option String) (key : String) (inner : Object) : Prop
  | intro {scope : Scope} {above operators : Object} {operator : Operator}
      (habove : Walks resource filter (left + 1) scope parent above)
      (hentry : (key, .object operators) ∈ above)
      (hfield : lookup (fields resource) (fieldsOf scope) key (pathOf parent key) = some field)
      (hinner : (operator, inner) ∈ innerFilters field operators) :
      Opens resource filter left field parent key inner

/-- A filter that is opened inside a field is met. -/
theorem Opens.walks {left : Nat} {field : Field Scope} {parent : Option String} {key : String}
    {inner : Object} (h : Opens resource filter left field parent key inner)
    {relation : Relation Scope} (hrelation : field.relation = some relation) :
    Walks resource filter left relation.scope (some (pathOf parent key)) inner := by
  obtain ⟨habove, hentry, hfield, hinner⟩ := h
  exact habove.step hentry hfield hrelation hinner

/-- Without a parent a relation stands on the first level. -/
theorem Opens.left_eq {left : Nat} {field : Field Scope} {key : String} {inner : Object}
    (h : Opens resource filter left field none key inner) : left = relationDepth - 1 := by
  obtain ⟨habove, -, -, -⟩ := h
  cases habove
  rfl

/-- Behind a row on a relation stand the rows that the walk adds for the filter that it keeps. -/
theorem exists_opens {levels : Nat} {scope : Scope} {parent : Option String} {inner : Object}
    (h : Walks resource filter levels scope parent inner) {before after : List (Condition Scope)}
    {row : Condition Scope}
    (hrows : rowsAfresh (fields resource) levels (fieldsOf scope) parent inner =
      before ++ row :: after) {field : Field Scope} (hsubject : row.subject = .field field)
    {relation : Relation Scope} (hrelation : field.relation = some relation) {kept : Object}
    (hvalue : row.value = .filter kept) :
    ∃ left key rest, Opens resource filter left field row.parent key kept ∧
      after = rowsAfresh (fields resource) left (fieldsOf relation.scope)
        (some (pathOf row.parent key)) kept ++ rest := by
  have hne : ∀ first last : List (Condition Scope), first ++ row :: last ≠ [] := by simp
  induction levels generalizing scope parent inner before after with
  | zero => exact absurd hrows.symm (hne _ _)
  | succ levels ih =>
    obtain ⟨⟨key, value⟩, hentry, first, last, rest, hfirst, rfl⟩ := exists_of_flatMap_eq hrows
    simp only at hfirst
    cases hlookup : lookup (fields resource) (fieldsOf scope) key (pathOf parent key) with
    | none =>
      rw [hlookup] at hfirst
      exact absurd hfirst.symm (hne _ _)
    | some other =>
      rw [hlookup] at hfirst
      simp only at hfirst
      have hknown := known_of_lookup h.reaches hlookup
      rcases exists_of_fieldRowsAfresh hfirst with
        ⟨htype, hown⟩ | ⟨operators, htype, rfl, pair, hpair, rest', hplace⟩
      · -- a field that leads nowhere has no row on a relation
        rw [hown] at hsubject
        obtain rfl := Subject.field.inj hsubject
        rw [hknown.isRelation_iff.2 ⟨relation, hrelation⟩] at htype
        exact absurd htype.symm Bool.false_ne_true
      · obtain ⟨below, hbelow⟩ := hknown.isRelation_iff.1 htype
        rw [below_of_relation hbelow] at hplace
        -- the row is the one of the relation, or it stands deeper inside
        rcases hplace with ⟨label, rfl, rfl⟩ | ⟨start, stop, hinside, rfl⟩
        · obtain rfl := Subject.field.inj hsubject
          obtain rfl := Value.filter.inj hvalue
          rw [hbelow] at hrelation
          obtain rfl := Option.some.inj hrelation
          exact ⟨levels, key, rest' ++ rest, ⟨h, hentry, hlookup, hpair⟩, List.append_assoc _ _ _⟩
        · have hstep := h.step hentry hlookup hbelow hpair
          obtain ⟨left, key', rest'', hopens, rfl⟩ := ih hstep hinside
          exact ⟨left, key', rest'' ++ rest' ++ rest, hopens, by simp only [List.append_assoc]⟩

/-! ### The scope of a path -/

/-- The path of a key ends in the key. -/
theorem lastSegment_pathOf (parent : Option String) {key : String} (h : IsSegment key) :
    lastSegment (pathOf parent key) = key := by
  cases parent with
  | none => exact lastSegment_eq_self h
  | some path => exact lastSegment_append (.inr ⟨path, rfl⟩) h

/-- A relation that is called by the path of a key has the key as its target. -/
theorem target_of_name {field : Field Scope} (h : Known resource field)
    {relation : Relation Scope} (hrelation : field.relation = some relation)
    {parent : Option String} {key : String} (hkey : IsSegment key)
    (hname : field.name = pathOf parent key) : field.target = key := by
  obtain ⟨scope, hscope, hfield⟩ := h
  have htarget := isSegment_target hscope.proper hfield
  rw [name_of_relation hscope.proper hfield hrelation] at hname
  rw [← lastSegment_append hscope.proper htarget, hname, lastSegment_pathOf parent hkey]

/-- The walk meets the path of a relation in no other scope than that of the relation. -/
theorem Walks.scope_eq {left : Nat} {scope : Scope} {parent : Option String} {inner : Object}
    (h : Walks resource filter left scope parent inner) {path : String}
    (hparent : parent = some path) {above : Field Scope} (habove : Known resource above)
    {relation : Relation Scope} (hrelation : above.relation = some relation)
    (hname : above.name = path) : scope = relation.scope := by
  induction h generalizing path above relation with
  | start => exact absurd hparent (by simp)
  | @step left scope parent object operators key field below pair hwalk _ hfield hbelow _ ih =>
    obtain rfl := Option.some.inj hparent
    have hknown := known_of_lookup hwalk.reaches hfield
    have hsame : field = above := by
      -- a key that is a target is that of the relation with the path as its name
      have hown : IsSegment key → above ∈ fieldsOf scope ∧ above.target = key := by
        intro hkey
        refine ⟨?_, target_of_name habove hrelation hkey hname⟩
        cases parent with
        | none =>
          cases hwalk
          exact habove.mem_fields (hname ▸ hkey)
        | some before =>
          obtain ⟨outer, lead, houter, hlead, hcalled, hmem⟩ := habove.exists_relation hkey hname
          rw [ih rfl houter hlead hcalled]
          exact hmem
      rcases cases_of_lookup hfield with ⟨hmem, htarget⟩ | ⟨hnone, hcalled | hfind⟩
      · obtain ⟨hmem', htarget'⟩ := hown (htarget ▸ hknown.isSegment_target)
        exact eq_of_target hwalk.reaches.proper hmem hmem' (htarget.trans htarget'.symm)
      · exact (universe_known resource).unique hknown habove (hcalled.trans hname.symm)
      · have htarget : field.target = key := by simpa using List.find?_some hfind
        obtain ⟨hmem', htarget'⟩ := hown (htarget ▸ hknown.isSegment_target)
        exact absurd htarget' (hnone above hmem')
    rw [hsame, hrelation] at hbelow
    rw [Option.some.inj hbelow]

/-! ### Where the readings of a key agree -/

/-- Inside a relation the walk is in the scope of a relation that the resource reaches. -/
theorem Walks.exists_relation {left : Nat} {scope : Scope} {path : String} {inner : Object}
    (h : Walks resource filter left scope (some path) inner) :
    ∃ owner above relation, Reaches resource owner ∧ above ∈ fieldsOf owner ∧
      above.relation = some relation ∧ relation.scope = scope := by
  cases h with
  | step habove _ hfield hrelation _ =>
    obtain ⟨owner, howner, hmem⟩ := known_of_lookup habove.reaches hfield
    exact ⟨owner, _, _, howner, hmem, hrelation, rfl⟩

/-- A field that is found under a key both from the resource, by its path, and from the scope is one
with this target; the scope has one then. -/
theorem Walks.exists_target {left : Nat} {scope : Scope} {path : String} {inner : Object}
    (h : Walks resource filter left scope (some path) inner) {key : String} {field : Field Scope}
    (hwalk : lookup (fields resource) (fieldsOf scope) key (pathOf (some path) key) = some field)
    (hread : lookup (fieldsOf scope) (fieldsOf scope) key key = some field) :
    ∃ own ∈ fieldsOf scope, own.target = key := by
  have hknown := known_of_lookup h.reaches hwalk
  obtain ⟨owner, above, relation, howner, habove, hrelation, rfl⟩ := h.exists_relation
  have hlevels := mem_levels_of_lookup hread
  rcases cases_of_lookup hwalk with hown | ⟨-, hname | hfind⟩
  · exact ⟨field, hown⟩
  · rcases cases_of_lookup hread with hown | ⟨-, hname' | hfind'⟩
    · exact ⟨field, hown⟩
    · -- the path is longer than the key
      have hlength := congrArg String.length (hname.symm.trans hname')
      rw [pathOf, String.length_append, String.length_append] at hlength
      have hmark : "__".length = 2 := rfl
      omega
    · -- the field is called by the path of the key, which is its target
      have htarget : field.target = key := by simpa using List.find?_some hfind'
      have hkey : IsSegment key := htarget ▸ hknown.isSegment_target
      obtain ⟨outer, lead, houter, hlead, hcalled, hmem⟩ := hknown.exists_relation hkey hname
      rw [← h.scope_eq rfl houter hlead hcalled] at hmem
      exact ⟨field, hmem, htarget⟩
  · exact exists_target_of_levels_below hfind howner habove hrelation hlevels

/-- Inside a relation the readings of an entry agree if and only if its key is a target of the
scope, or neither of them finds a row. -/
theorem Walks.rowsAt_agree_iff {left : Nat} {scope : Scope} {path : String} {inner : Object}
    (h : Walks resource filter left scope (some path) inner) (entry : String × Json) :
    (rowsAt (fields resource) (fieldsOf scope) (some path) entry).map Condition.alone =
        keyRows (fieldsOf scope) entry ↔
      (∃ own ∈ fieldsOf scope, own.target = entry.1) ∨
        rowsAt (fields resource) (fieldsOf scope) (some path) entry = [] ∧
          keyRows (fieldsOf scope) entry = [] := by
  constructor
  · intro heq
    by_cases hempty : keyRows (fieldsOf scope) entry = []
    · rw [hempty, List.map_eq_nil_iff] at heq
      exact .inr ⟨heq, hempty⟩
    · obtain ⟨row, hrow⟩ := List.exists_mem_of_ne_nil _ hempty
      obtain ⟨field, -, hread, hhead⟩ := field_of_mem_keyRows hrow
      rw [← heq] at hrow
      obtain ⟨other, hother, rfl⟩ := List.mem_map.1 hrow
      obtain ⟨found, hwalk, hhead'⟩ := exists_of_mem_rowsAt hother
      have hsubject : other.alone.subject = .field field := subject_of_mem_headRows hhead
      change other.subject = .field field at hsubject
      rw [subject_of_mem_headRows hhead'] at hsubject
      rw [Subject.field.inj hsubject] at hwalk
      exact .inl (h.exists_target hwalk hread)
  · rintro (⟨own, hown, htarget⟩ | ⟨hwalk, hread⟩)
    · have hfound : lookup (fields resource) (fieldsOf scope) entry.1
          (pathOf (some path) entry.1) = some own := by
        rw [← htarget, lookup_target h.reaches.proper hown]
      rw [rowsAt, hfound, Option.map_some, Option.getD_some, map_alone_headRows,
        ← keyRows_target h.reaches.proper hown, htarget]
    · rw [hwalk, hread]
      rfl

end Walk

end QueryFilter
