import QueryFilter.Json.Basic
import QueryFilter.Proofs.Entries

/-!
# JSON values that differ in the order of keys only

Two JSON values say the same if they are equal up to the order of the keys of their objects, at any
level (`Json.Same`).  Two objects say the same if and only if they have the same keys, with the same
below each of them (`Json.same_object_iff`).  Changes at one key keep this (`Json.Same.alter`), and
changes at two keys may be made in either order (`Json.same_alter_comm`).
-/

namespace QueryFilter.Json

/-- Equality up to the order of keys. -/
inductive Same : Json → Json → Prop
  | refl (value : Json) : Same value value
  | array {a b : List Json} (hlength : a.length = b.length)
      (hitems : ∀ (index : Nat) (x y : Json), a[index]? = some x → b[index]? = some y → Same x y) :
      Same (.array a) (.array b)
  | object {a b : Object} (hkeys : ∀ key, key ∈ Entries.keys a ↔ key ∈ Entries.keys b)
      (hvalues : ∀ key x y, Entries.get? a key = some x → Entries.get? b key = some y → Same x y) :
      Same (.object a) (.object b)

/-- Two objects are the same up to order if they have the same keys, with the same values at
each. -/
theorem same_object_iff {a b : Object} : Same (.object a) (.object b) ↔
    (∀ key, key ∈ Entries.keys a ↔ key ∈ Entries.keys b) ∧
      ∀ key x y, Entries.get? a key = some x → Entries.get? b key = some y → Same x y := by
  constructor
  · intro h
    cases h with
    | refl =>
      refine ⟨fun _ => Iff.rfl, fun key x y hx hy => ?_⟩
      rw [hx] at hy
      rw [Option.some.inj hy]
      exact .refl y
    | object hkeys hvalues => exact ⟨hkeys, hvalues⟩
  · rintro ⟨hkeys, hvalues⟩
    exact .object hkeys hvalues

/-- Being the same up to order does not depend on which value comes first. -/
theorem Same.symm {a b : Json} (h : Same a b) : Same b a := by
  induction h with
  | refl value => exact .refl value
  | array hlength _ ih => exact .array hlength.symm fun index x y hx hy => ih index y x hy hx
  | object hkeys _ ih =>
    exact .object (fun key => (hkeys key).symm) fun key x y hx hy => ih key y x hy hx

/-- Texts and numbers say the same only if they are equal. -/
theorem Same.eq_of_scalar {a b : Json} (h : Same a b)
    (ha : (∃ n, a = .number n) ∨ ∃ s, a = .string s) : a = b := by
  cases h with
  | refl => rfl
  | array => rcases ha with ⟨n, hn⟩ | ⟨s, hs⟩ <;> contradiction
  | object => rcases ha with ⟨n, hn⟩ | ⟨s, hs⟩ <;> contradiction

/-! ### Changes at a key -/

/-- Objects that say the same have at each key values that say the same, or none. -/
theorem Same.get? {a b : Object} (h : Same (.object a) (.object b)) (key : String) :
    Option.Rel Same (Entries.get? a key) (Entries.get? b key) := by
  obtain ⟨hkeys, hvalues⟩ := same_object_iff.1 h
  cases ha : Entries.get? a key with
  | none =>
    have hb : key ∉ Entries.keys b := fun hkey => Entries.get?_eq_none.1 ha ((hkeys key).2 hkey)
    rw [Entries.get?_eq_none.2 hb]
    exact .none
  | some x =>
    obtain ⟨y, hb⟩ := Entries.exists_get? ((hkeys key).1 (Entries.mem_keys_of_get? ha))
    rw [hb]
    exact .some (hvalues key x y ha hb)

/-- Objects with the same values at each key are the same up to order. -/
theorem same_of_get? {a b : Object}
    (h : ∀ key, Option.Rel Same (Entries.get? a key) (Entries.get? b key)) :
    Same (.object a) (.object b) := by
  refine .object (fun key => ?_) fun key x y hx hy => ?_
  · have hnone : Entries.get? a key = none ↔ Entries.get? b key = none := by
      have hkey := h key
      generalize Entries.get? a key = x, Entries.get? b key = y at hkey ⊢
      cases hkey <;> simp
    exact Decidable.not_iff_not.1
      (Entries.get?_eq_none.symm.trans (hnone.trans Entries.get?_eq_none))
  · have hkey := h key
    rw [hx, hy] at hkey
    cases hkey with
    | some hxy => exact hxy

/-- Objects with equal values at each key are the same up to order. -/
theorem same_of_get?_eq {a b : Object} (h : ∀ key, Entries.get? a key = Entries.get? b key) :
    Same (.object a) (.object b) := by
  refine same_of_get? fun key => ?_
  rw [h key]
  cases Entries.get? b key with
  | none => exact .none
  | some value => exact .some (.refl value)

/-- Changes at one key that leave the same there leave objects that say the same. -/
theorem Same.alter {a b : Object} (h : Same (.object a) (.object b)) {key : String}
    {f g : Option Json → Json} (hfg : Same (f (Entries.get? a key)) (g (Entries.get? b key))) :
    Same (.object (Entries.alter a key f)) (.object (Entries.alter b key g)) := by
  refine same_of_get? fun other => ?_
  by_cases heq : other = key
  · subst heq
    rw [Entries.get?_alter_self, Entries.get?_alter_self]
    exact .some hfg
  · rw [Entries.get?_alter_of_ne heq, Entries.get?_alter_of_ne heq]
    exact h.get? other

/-- Changes at two keys may be made in either order; only the order of new keys depends on it. -/
theorem same_alter_comm {k l : String} (h : k ≠ l) (entries : Object) (f g : Option Json → Json) :
    Same (.object (Entries.alter (Entries.alter entries k f) l g))
      (.object (Entries.alter (Entries.alter entries l g) k f)) := by
  refine same_of_get?_eq fun key => ?_
  by_cases hk : key = k
  · subst hk
    rw [Entries.get?_alter_of_ne h, Entries.get?_alter_self, Entries.get?_alter_self,
      Entries.get?_alter_of_ne h]
  · rw [Entries.get?_alter_of_ne hk]
    by_cases hl : key = l
    · subst hl
      rw [Entries.get?_alter_self, Entries.get?_alter_self, Entries.get?_alter_of_ne hk]
    · rw [Entries.get?_alter_of_ne hl, Entries.get?_alter_of_ne hl, Entries.get?_alter_of_ne hk]

/-- Values that say the same have entries that say the same. -/
theorem Same.entries {x y : Json} (h : Same x y) :
    Same (.object x.entries) (.object y.entries) := by
  cases h with
  | refl => exact .refl _
  | array => exact .refl _
  | object hkeys hvalues => exact .object hkeys hvalues

/-- Objects with distinct keys that say the same have as many entries. -/
theorem Same.length_eq {a b : Object} (h : Same (.object a) (.object b))
    (ha : Entries.Distinct a) (hb : Entries.Distinct b) : a.length = b.length := by
  have hperm := (List.perm_ext_iff_of_nodup ha hb).2 (same_object_iff.1 h).1
  simpa [Entries.keys] using hperm.length_eq

end QueryFilter.Json
